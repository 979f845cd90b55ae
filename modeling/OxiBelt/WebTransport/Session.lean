import OxiBelt.WebTransport.Codec
import OxiBelt.Lib.Ledger

/-!
# WebTransport sessions (`webtransport/session.rs`)

One session over one HTTP/2 CONNECT stream: its streams, the credit it has and the credit it has given.
The methods that take the session's lock are functions on `State`.  A method that fails keeps the changes
it made before (`Outcome.failed`).

Wakers are left out: they carry no data, and the schedules of the runs are arbitrary.
-/

namespace WebTransport

open ByteString (Bytes)
open Function (update)

/-! ## Options and settings -/

inductive Role where
  | client | server
  deriving DecidableEq

namespace Role

def bit : Role → Nat
  | client => 0
  | server => 1

def other : Role → Role
  | client => server
  | server => client

end Role

structure H2WebTransportConfig where
  (maxConcurrentUniStreams maxConcurrentBidiStreams : UInt32)
  (maxStreamBufferBytes maxSessionBufferBytes : Nat)

/-- Initial credit of a stream, a `[u64; 3]`. -/
structure StreamCredits where
  (uni bidiLocal bidiRemote : Nat)

structure SessionOptions where
  role : Role
  limits : H2WebTransportConfig
  receiveApplication : Bool
  peerStreamLimits : Option StreamCredits

/-- A `[T; 2]`: index 0 is for bidirectional streams, index 1 for unidirectional ones. -/
abbrev PerKind (α : Type) := Bool → α

def H2WebTransportConfig.maxConcurrentStreams (limits : H2WebTransportConfig) : PerKind Nat
  | true => limits.maxConcurrentUniStreams.toNat
  | false => limits.maxConcurrentBidiStreams.toNat

/-- The WebTransport settings of one end of an HTTP/2 connection. -/
structure WebTransportSettings where
  enabled : Bool
  (initialMaxData initialMaxStreamDataUni initialMaxStreamDataBidiLocal : Option UInt32)
  (initialMaxStreamDataBidiRemote initialMaxStreamsUni initialMaxStreamsBidi : Option UInt32)

/-- `u64::from(setting.unwrap_or(0))`. -/
def settingValue (setting : Option UInt32) : Nat := (setting.getD 0).toNat

def WebTransportSettings.streamCredits (settings : WebTransportSettings) : StreamCredits where
  uni := settingValue settings.initialMaxStreamDataUni
  bidiLocal := settingValue settings.initialMaxStreamDataBidiLocal
  bidiRemote := settingValue settings.initialMaxStreamDataBidiRemote

/-! ## Stream identifiers -/

/-- `id & 2 != 0`. -/
def isUni (id : Nat) : Bool := id / 2 % 2 == 1

/-- The identifier of the stream with this number among the streams of its opener and kind. -/
def streamId (bit : Nat) (uni : Bool) (index : Nat) : Nat := index * 4 + bit + if uni then 2 else 0

/-- `id & 1 == role.bit()`. -/
def Role.opened (role : Role) (id : Nat) : Bool := id % 2 == role.bit

/-! ## State -/

structure StreamState where
  input : List Bytes
  inputStaging : Bytes
  inputBytes : Nat
  output : List Bytes
  outputStaging : Bytes
  (outputBytes received consumed sent wireSent receiveMax sendMax : Nat)
  receiveFin : Bool
  receiveReset : Option UInt32
  (sendFin finRequested : Bool)
  (resetRequested sendReset : Option UInt32)
  (stopSent stopReceived : Bool)
  stopCode : Option UInt32
  (ready openedOnWire readHandle writeHandle grantPending : Bool)

structure PendingStreamOutput where
  id : Nat
  bytes : Bytes
  fin : Bool

/-- Why a session ends: an HTTP/2 error code and a text. -/
structure Failure where
  reset : Nat
  message : String
  deriving DecidableEq

namespace Failure

def state (message : String) : Failure := ⟨1, message⟩
def flow (message : String) : Failure := ⟨3, message⟩
def resource (message : String) : Failure := ⟨11, message⟩

end Failure

structure State where
  options : SessionOptions
  streams : AList fun _ : Nat => StreamState
  accepted : PerKind (List Nat)
  (peerOpened ownOpened peerActive ownActive receiveMaxStreams sendMaxStreams : PerKind Nat)
  (initialSendStream initialReceiveStream : StreamCredits)
  (sendMaxData sent receiveMaxData received consumed queuedSend : Nat)
  controls : List Capsule
  (sendDatagram receiveDatagram : Option Bytes)
  readyStreams : List Nat
  pendingOutput : Option PendingStreamOutput
  closing : Option Capsule
  finish : Bool
  failure : Option Failure
  ended : Bool
  remoteClose : Option (UInt32 × Bytes)
  (draining receiveGrantPending : Bool)
  streamsGrantPending : PerKind Bool

inductive Outcome (α : Type) where
  | ok (value : α) (s : State)
  | failed (failure : Failure) (s : State)

/-- The `?` operator. -/
def Outcome.andThen {α β : Type} : Outcome α → (α → State → Outcome β) → Outcome β
  | .ok value s, f => f value s
  | .failed failure s, _ => .failed failure s

@[simp] theorem Outcome.ok_andThen {α β : Type} (value : α) (s : State) (f : α → State → Outcome β) :
    (Outcome.ok value s).andThen f = f value s := rfl

namespace State

variable (s : State)

/-- `Shared::fail`: the first failure is kept. -/
def fail (failure : Failure) : State :=
  if s.failure.isNone then { s with failure := some failure } else s

/-- `check`: what an application call may get to hear. -/
def check : Except String Unit :=
  match s.failure with
  | some failure => .error failure.message
  | none =>
    if s.ended || s.finish || s.closing.isSome then .error "WebTransport session closed" else .ok ()

def putStream (id : Nat) (stream : StreamState) : State :=
  { s with streams := s.streams.insert id stream }

def queueControl (capsule : Capsule) : Outcome Unit :=
  if 256 ≤ s.controls.length then .failed (.resource "WebTransport control queue full") s
  else if capsule.encodable then .ok () { s with controls := s.controls ++ [capsule] }
  else .failed (.state "invalid control integer") s

def ready (id : Nat) : State :=
  match s.streams.lookup id with
  | some stream =>
    if stream.ready then s
    else { s.putStream id { stream with ready := true } with readyStreams := s.readyStreams ++ [id] }
  | none => s

def newStream (id : Nat) (isLocal : Bool) : StreamState :=
  let uni := isUni id
  { input := []
    inputStaging := []
    inputBytes := 0
    output := []
    outputStaging := []
    outputBytes := 0
    received := 0
    consumed := 0
    sent := 0
    wireSent := 0
    receiveMax :=
      if uni then s.initialReceiveStream.uni
      else if isLocal then s.initialReceiveStream.bidiLocal
      else s.initialReceiveStream.bidiRemote
    sendMax :=
      if uni then s.initialSendStream.uni
      else if isLocal then s.initialSendStream.bidiRemote
      else s.initialSendStream.bidiLocal
    receiveFin := uni && isLocal
    receiveReset := none
    sendFin := uni && !isLocal
    finRequested := false
    resetRequested := none
    sendReset := none
    stopSent := false
    stopReceived := false
    stopCode := none
    ready := false
    openedOnWire := !isLocal
    readHandle := !uni || !isLocal
    writeHandle := !uni || isLocal
    grantPending := false }

end State

namespace StreamState

variable (stream : StreamState)

def receiveDone : Bool := stream.receiveFin || stream.receiveReset.isSome

def sendDone : Bool := stream.sendFin || stream.sendReset.isSome

/-- The condition under which `reap` forgets a stream. -/
def finished : Bool :=
  stream.receiveDone && stream.sendDone && !stream.readHandle && !stream.writeHandle

end StreamState

namespace State

variable (s : State)

/-- Forgets a finished stream; a stream of the peer makes room for one more. -/
def reap (id : Nat) : Outcome Unit :=
  match s.streams.lookup id with
  | none => .ok () s
  | some stream =>
    if !stream.finished then .ok () s
    else
      let s := { s with streams := s.streams.erase id }
      let kind := isUni id
      if s.options.role.opened id then
        .ok () { s with ownActive := update s.ownActive kind (s.ownActive kind - 1) }
      else
        let s := { s with peerActive := update s.peerActive kind (s.peerActive kind - 1) }
        if s.receiveMaxStreams kind + 1 ≤ 2 ^ 60 then
          .ok () { s with
            receiveMaxStreams := update s.receiveMaxStreams kind (s.receiveMaxStreams kind + 1)
            streamsGrantPending := update s.streamsGrantPending kind true }
        else .failed (.flow "stream credit overflow") s

/-! ## The session handle -/

/-- The state of `start_reserved` before the first credit is queued. -/
def initial (options : SessionOptions) (peer own : WebTransportSettings) : State :=
  let credits := peer.streamCredits
  { options
    streams := ∅
    accepted := fun _ => []
    peerOpened := fun _ => 0
    ownOpened := fun _ => 0
    peerActive := fun _ => 0
    ownActive := fun _ => 0
    receiveMaxStreams := fun kind =>
      if options.receiveApplication then options.limits.maxConcurrentStreams kind else 0
    sendMaxStreams := fun kind =>
      if kind then settingValue peer.initialMaxStreamsUni else settingValue peer.initialMaxStreamsBidi
    initialSendStream :=
      match options.peerStreamLimits with
      | none => credits
      | some header =>
        { uni := max credits.uni header.uni
          bidiLocal := max credits.bidiLocal header.bidiLocal
          bidiRemote := max credits.bidiRemote header.bidiRemote }
    initialReceiveStream := own.streamCredits
    sendMaxData := settingValue peer.initialMaxData
    sent := 0
    receiveMaxData := if options.receiveApplication then options.limits.maxSessionBufferBytes else 0
    received := 0
    consumed := 0
    queuedSend := 0
    controls := []
    sendDatagram := none
    receiveDatagram := none
    readyStreams := []
    pendingOutput := none
    closing := none
    finish := false
    failure := none
    ended := false
    remoteClose := none
    draining := false
    receiveGrantPending := false
    streamsGrantPending := fun _ => false }

def withinReservation (own : WebTransportSettings) : Bool :=
  settingValue own.initialMaxData ≤ s.receiveMaxData &&
  settingValue own.initialMaxStreamsBidi ≤ s.receiveMaxStreams false &&
  settingValue own.initialMaxStreamsUni ≤ s.receiveMaxStreams true &&
  s.initialReceiveStream.uni ≤ s.options.limits.maxStreamBufferBytes &&
  s.initialReceiveStream.bidiLocal ≤ s.options.limits.maxStreamBufferBytes &&
  s.initialReceiveStream.bidiRemote ≤ s.options.limits.maxStreamBufferBytes

/-- Queues the first credit of a kind, if it is not zero. -/
def announce (limit : Nat) (capsule : Capsule) : Except String State :=
  if 0 < limit then
    match s.queueControl capsule with
    | .ok _ s => .ok s
    | .failed failure _ => .error failure.message
  else .ok s

/-- `Session::start_reserved`. -/
def start (options : SessionOptions) (peer own : WebTransportSettings) : Except String State :=
  let serverEnabled := match options.role with
    | .client => peer.enabled
    | .server => own.enabled
  if !serverEnabled then .error "server WebTransport SETTINGS are not enabled"
  else
    let s := initial options peer own
    if !s.withinReservation own then .error "advertised WebTransport credit exceeds reservation"
    else do
      let s ← s.announce s.receiveMaxData (.maxData s.receiveMaxData)
      let s ← s.announce (s.receiveMaxStreams false) (.maxStreams false (s.receiveMaxStreams false))
      s.announce (s.receiveMaxStreams true) (.maxStreams true (s.receiveMaxStreams true))

/-- The next stream of this end, which is not yet ready. -/
def addOwnStream (uni : Bool) (id : Nat) : State :=
  let s := { s with
    ownOpened := update s.ownOpened uni (s.ownOpened uni + 1)
    ownActive := update s.ownActive uni (s.ownActive uni + 1) }
  -- A bidirectional stream offers its receive credit together with its opening.
  s.putStream id { s.newStream id true with grantPending := !uni }

/-- One try of `Session::open`: the new stream, or nothing when it has to wait or is refused. -/
def openStream (uni : Bool) : Option (Nat × State) :=
  match s.check with
  | .error _ => none
  | .ok _ =>
    if s.ownOpened uni < s.sendMaxStreams uni &&
        s.ownActive uni < s.options.limits.maxConcurrentStreams uni then
      let id := streamId s.options.role.bit uni (s.ownOpened uni)
      if varintMax < id then none else some (id, (s.addOwnStream uni id).ready id)
    else none

/-- One try of `Session::accept`. -/
def accept (uni : Bool) : Option (Nat × State) :=
  match s.check, s.accepted uni with
  | .ok _, id :: rest => some (id, { s with accepted := update s.accepted uni rest })
  | _, _ => none

def queueDatagram (payload : Bytes) : State :=
  if maxDatagram < payload.length then s
  else match s.check with
    | .error _ => s
    | .ok _ => if s.sendDatagram.isNone then { s with sendDatagram := some payload } else s

/-- One try of `Session::read_datagram`. -/
def readDatagram : State :=
  match s.check with
  | .error _ => s
  | .ok _ => { s with receiveDatagram := none }

def drain : State :=
  if s.draining then s
  else match { s with draining := true }.queueControl .drainSession with
    | .ok _ s => s
    | .failed failure s => { s with failure := some failure }

end State

end WebTransport
