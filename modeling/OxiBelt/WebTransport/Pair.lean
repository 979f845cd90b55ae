import OxiBelt.WebTransport.Driver
import OxiBelt.Lib.Transition

/-!
# Two connected sessions

Two sessions whose carriers are lossless ordered channels.  Every step takes the lock of one session at
most once: a call of the application on a handle that it holds, one of the two locks of the writer, or the
arrival of a capsule.  Data of a stream arrives in pieces, as the decoder hands it over.

Nobody closes the session in these runs.
-/

namespace WebTransport

open ByteString (Bytes)

inductive Writer where
  | idle
  | holding (output : Output)
  | done

/-- One session with its tasks, the handles of its application, and the capsules that it has handed to
its carrier and the other end has not yet read. -/
structure Side where
  state : State
  writer : Writer
  reading : Bool
  channel : List Capsule
  (sendHandles recvHandles droppedSend droppedRecv : List Nat)

inductive Action where
  | openStream (uni : Bool)
  | accept (uni : Bool)
  | write (id : Nat) (bytes : Bytes)
  | shutdown (id : Nat)
  | reset (id : Nat) (code : UInt32)
  | dropSend (id : Nat)
  | releaseSend (id : Nat)
  | read (id capacity : Nat)
  | stop (id : Nat) (code : UInt32)
  | dropRecv (id : Nat)
  | releaseRecv (id : Nat)
  | sendDatagram (payload : Bytes)
  | readDatagram
  | drain
  /-- The writer asks for its next output; the map of streams is iterated in this order. -/
  | select (order : List Nat)
  /-- The carrier has room for the output that the writer holds. -/
  | transmit
  /-- The next capsule is read, or this much of the data of a stream. -/
  | deliver (size : Nat)

def Outcome.state {α : Type} : Outcome α → State
  | .ok _ s => s
  | .failed _ s => s

namespace Side

variable (side : Side)

/-- A call on a handle that the application holds. -/
def call (handles : List Nat) (id : Nat) (f : State → State) : Side :=
  if id ∈ handles then { side with state := f side.state } else side

/-- `open_uni` and `open_bi`. -/
def openStream (uni : Bool) : Side :=
  match side.state.openStream uni with
  | none => side
  | some (id, s) =>
    { side with
      state := s
      sendHandles := id :: side.sendHandles
      recvHandles := if uni then side.recvHandles else id :: side.recvHandles }

/-- `accept_uni` and `accept_bi`. -/
def accept (uni : Bool) : Side :=
  match side.state.accept uni with
  | none => side
  | some (id, s) =>
    { side with
      state := s
      sendHandles := if uni then side.sendHandles else id :: side.sendHandles
      recvHandles := id :: side.recvHandles }

/-- The first lock of the drop of a `SendStream`. -/
def dropSend (id : Nat) : Side :=
  if id ∈ side.sendHandles then
    { side with
      state := SendStream.reset id 0 side.state
      sendHandles := side.sendHandles.erase id
      droppedSend := id :: side.droppedSend }
  else side

/-- The second lock of the drop of a `SendStream`. -/
def releaseSend (id : Nat) : Side :=
  if id ∈ side.droppedSend then
    { side with state := SendStream.release id side.state, droppedSend := side.droppedSend.erase id }
  else side

def dropRecv (id : Nat) : Side :=
  if id ∈ side.recvHandles then
    { side with
      state := (RecvStream.stop id 0 side.state).state
      recvHandles := side.recvHandles.erase id
      droppedRecv := id :: side.droppedRecv }
  else side

def releaseRecv (id : Nat) : Side :=
  if id ∈ side.droppedRecv then
    { side with state := RecvStream.release id side.state, droppedRecv := side.droppedRecv.erase id }
  else side

/-- The first lock of a round of the writer. -/
def select (order : List Nat) : Side :=
  match side.writer with
  | .idle =>
    if side.state.failure.isSome then
      { side with state := { side.state with ended := true }, writer := .done }
    else match side.state.nextOutput order with
      | .ok (some output) s => { side with state := s, writer := .holding output }
      | .ok none s => { side with state := s }
      | .failed failure s => { side with state := s.fail failure }
  | _ => side

/-- The second lock of a round of the writer: the output is handed over, or dropped if it was cancelled. -/
def transmit : Side :=
  match side.writer with
  | .holding (.bytes capsule stream) =>
    if side.state.outputIsCancelled stream then
      { side with state := side.state.discardPendingOutput, writer := .idle }
    else
      let side := { side with channel := side.channel ++ [capsule], writer := .idle }
      match stream with
      | none => side
      | some (id, fin) =>
        match side.state.commitPendingOutput id fin with
        | .ok _ s => { side with state := s }
        | .failed _ s =>
          { side with state := s.fail ⟨2, "WebTransport carrier writer failed"⟩, writer := .done }
  | .holding (.close capsule) =>
    if side.state.failure.isSome || side.state.ended then { side with writer := .idle }
    else { side with channel := side.channel ++ [capsule], writer := .idle }
  | .holding .finish =>
    if side.state.failure.isSome || side.state.ended then { side with writer := .idle }
    else { side with writer := .done }
  | _ => side

def receive (event : Capsule) : Side :=
  -- What arrives after a local close is read and not looked at.
  if side.state.finish && side.state.remoteClose.isNone then side
  else match side.state.receive event with
    | .ok _ s => { side with state := s }
    | .failed failure s => { side with state := { s with failure := some failure }, reading := false }

/-- The steps that concern one side only. -/
def act : Action → Side
  | .openStream uni => side.openStream uni
  | .accept uni => side.accept uni
  | .write id bytes => side.call side.sendHandles id fun s => (SendStream.pollWrite id bytes s).1
  | .shutdown id => side.call side.sendHandles id fun s => (SendStream.pollShutdown id s).1
  | .reset id code => side.call side.sendHandles id (SendStream.reset id code)
  | .dropSend id => side.dropSend id
  | .releaseSend id => side.releaseSend id
  | .read id capacity => side.call side.recvHandles id fun s => (RecvStream.pollRead id capacity s).1
  | .stop id code => side.call side.recvHandles id fun s => (RecvStream.stop id code s).state
  | .dropRecv id => side.dropRecv id
  | .releaseRecv id => side.releaseRecv id
  | .sendDatagram payload => { side with state := side.state.queueDatagram payload }
  | .readDatagram => { side with state := side.state.readDatagram }
  | .drain => { side with state := side.state.drain }
  | .select order => if order.isPerm side.state.streams.keys then side.select order else side
  | .transmit => side.transmit
  | .deliver _ => side

end Side

/-- What the decoder hands over of a capsule when `size` bytes of its data are there, and what is left. -/
def Capsule.piece (size : Nat) : Capsule → Capsule × List Capsule
  | .stream id data fin =>
    let count := min (max 1 size) quantum
    if data.length ≤ count then (.stream id data fin, [])
    else (.stream id (data.take count) false, [.stream id (data.drop count) fin])
  | capsule => (capsule, [])

abbrev Pair := Role → Side

namespace Pair

/-- The side of `role` reads what the other side has sent. -/
def deliver (p : Pair) (role : Role) (size : Nat) : Pair :=
  match (p role).reading, (p role.other).channel with
  | true, capsule :: rest =>
    let (event, left) := capsule.piece size
    Function.update (Function.update p role.other { p role.other with channel := left ++ rest })
      role ((p role).receive event)
  | _, _ => p

def step (p : Pair) : Role × Action → Pair
  | (role, .deliver size) => p.deliver role size
  | (role, action) => Function.update p role ((p role).act action)

end Pair

/-! ## Room -/

/-- The queue of controls has room, and no counter of the session has come to the end of its range. -/
structure State.Roomy (s : State) : Prop where
  controls : s.controls.length < 256
  streams : ∀ kind, s.receiveMaxStreams kind < 2 ^ 60
  session : s.consumed + s.options.limits.maxSessionBufferBytes ≤ varintMax
  stream : ∀ id stream, s.streams.lookup id = some stream →
    stream.consumed + s.options.limits.maxStreamBufferBytes ≤ varintMax

instance (s : State) : Decidable s.Roomy :=
  decidable_of_iff
    (s.controls.length < 256 ∧ (∀ kind, s.receiveMaxStreams kind < 2 ^ 60) ∧
      s.consumed + s.options.limits.maxSessionBufferBytes ≤ varintMax ∧
      ∀ entry ∈ s.streams.entries, entry.2.consumed + s.options.limits.maxStreamBufferBytes ≤ varintMax)
    ⟨fun h => ⟨h.1, h.2.1, h.2.2.1, fun id stream hstream =>
        h.2.2.2 ⟨id, stream⟩ (AList.mem_lookup_iff.1 hstream)⟩,
      fun h => ⟨h.controls, h.streams, h.session, fun entry hmem =>
        h.stream entry.1 entry.2 (AList.mem_lookup_iff.2 hmem)⟩⟩

def Pair.Roomy (p : Pair) : Prop := ∀ role, (p role).state.Roomy

instance (p : Pair) : Decidable p.Roomy :=
  decidable_of_iff ((p .client).state.Roomy ∧ (p .server).state.Roomy)
    ⟨fun h role => by cases role with
      | client => exact h.1
      | server => exact h.2, fun h => ⟨h .client, h .server⟩⟩

/-! ## Connections -/

/-- Two ends that have exchanged their settings.  No end is told of more credit for a stream than the
settings of the other end say: this program never sends a WebTransport-Init field. -/
structure Setup where
  options : Role → SessionOptions
  settings : Role → WebTransportSettings
  role : ∀ role, (options role).role = role
  header : ∀ role, ∀ header ∈ (options role).peerStreamLimits,
    header.uni ≤ (settings role.other).streamCredits.uni ∧
    header.bidiLocal ≤ (settings role.other).streamCredits.bidiLocal ∧
    header.bidiRemote ≤ (settings role.other).streamCredits.bidiRemote

def Side.fresh (state : State) : Side where
  state := state
  writer := .idle
  reading := true
  channel := []
  sendHandles := []
  recvHandles := []
  droppedSend := []
  droppedRecv := []

def Setup.startSide (setup : Setup) (role : Role) : Except String State :=
  State.start (setup.options role) (setup.settings role.other) (setup.settings role)

def Setup.Connects (setup : Setup) (p : Pair) : Prop :=
  ∀ role, ∃ s, setup.startSide role = .ok s ∧ p role = Side.fresh s

end WebTransport
