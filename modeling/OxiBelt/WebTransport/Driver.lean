import OxiBelt.WebTransport.Protocol

/-!
# The carrier tasks (`webtransport/driver.rs`)

The writer takes one output after the other from the session (`nextOutput`) and hands it to the carrier
when that has room.  Stream data that is selected stays on the books (`pendingOutput`) until then; a reset
in between takes it back.
-/

namespace WebTransport

open ByteString (Bytes)

inductive Output where
  | close (capsule : Capsule)
  | bytes (capsule : Capsule) (stream : Option (Nat × Bool))
  | finish

/-- Takes the output of a stage of `next_output`, or goes on to the next stage. -/
def Outcome.orElse : Outcome (Option Output) → (State → Outcome (Option Output)) → Outcome (Option Output)
  | .ok none s, f => f s
  | result, _ => result

namespace State

variable (s : State)

def outputIsCancelled (stream : Option (Nat × Bool)) : Bool :=
  s.failure.isSome || s.finish || s.ended ||
  match stream with
  | none => false
  | some (id, _) =>
    match s.streams.lookup id with
    | none => true
    | some stream => stream.resetRequested.isSome || stream.sendReset.isSome || stream.stopReceived

def emit (capsule : Capsule) (refused : Failure) : Outcome (Option Output) :=
  if capsule.encodable then .ok (some (.bytes capsule none)) s else .failed refused s

/-! ### The stages of `next_output` -/

def receiveGrant : Outcome (Option Output) :=
  if !s.receiveGrantPending then .ok none s
  else
    let s := { s with receiveGrantPending := false }
    let next := s.consumed + s.options.limits.maxSessionBufferBytes
    if varintMax < next then .failed (.flow "receive credit overflow") s
    else if s.options.receiveApplication && s.receiveMaxData < next then
      { s with receiveMaxData := next }.emit (.maxData next) (.flow "invalid receive credit")
    else .ok none s

def streamsGrant (kind : Bool) : Outcome (Option Output) :=
  if !s.streamsGrantPending kind then .ok none s
  else
    let s := { s with streamsGrantPending := Function.update s.streamsGrantPending kind false }
    s.emit (.maxStreams kind (s.receiveMaxStreams kind)) (.flow "invalid stream credit")

/-- The loop over the streams with pending credit, in the order in which the map is iterated. -/
def streamGrants : List Nat → State → Outcome (Option Output)
  | [], s => .ok none s
  | id :: order, s =>
    match s.streams.lookup id with
    | none => streamGrants order s
    | some stream =>
      if !stream.grantPending then streamGrants order s
      else
        let stream := { stream with grantPending := false }
        let s := s.putStream id stream
        if !stream.stopSent && !stream.receiveDone then
          let next := stream.consumed + s.options.limits.maxStreamBufferBytes
          if varintMax < next then .failed (.flow "receive stream credit overflow") s
          else if stream.receiveMax < next then
            (s.putStream id { stream with receiveMax := next }).emit (.maxStreamData id next)
              (.flow "invalid receive stream credit")
          else streamGrants order s
        else streamGrants order s

def datagramOutput : Outcome (Option Output) :=
  match s.sendDatagram with
  | none => .ok none s
  | some payload =>
    { s with sendDatagram := none }.emit (.datagram payload) (.state "invalid outgoing datagram")

def nextBlock (stream : StreamState) : Option Bytes × StreamState :=
  match stream.output with
  | block :: rest => (some block, { stream with output := rest })
  | [] =>
    if stream.outputStaging.isEmpty then (none, stream)
    else (some stream.outputStaging, { stream with outputStaging := [] })

def selectData (id : Nat) (stream : StreamState) : Outcome (Option Output) :=
  let (block, stream) := nextBlock stream
  if block.isNone && stream.openedOnWire && !stream.finRequested then .ok none (s.putStream id stream)
  else
    let bytes := block.getD []
    let stream := { stream with openedOnWire := true }
    let fin := stream.finRequested && stream.output.isEmpty
    let s := s.putStream id stream
    if (Capsule.stream id bytes fin).encodable then
      .ok (some (.bytes (.stream id bytes fin) (some (id, fin))))
        { s with pendingOutput := some { id, bytes, fin } }
    else .failed (.state "invalid outgoing stream") s

/-- Turns a requested reset into the RESET_STREAM capsule. -/
def selectReset (id : Nat) (stream : StreamState) (code : UInt32) : Outcome (Option Output) :=
  let s := s.putStream id { stream with resetRequested := none, sendReset := some code }
  let capsule := Capsule.resetStream id code.toNat stream.wireSent
  if capsule.encodable then
    (s.reap id).andThen fun _ s => .ok (some (.bytes capsule none)) s
  else .failed (.state "invalid outgoing reset") s

def selectStream (id : Nat) : Outcome (Option Output) :=
  match s.streams.lookup id with
  | none => .ok none s
  | some stream =>
    let stream := { stream with ready := false }
    match stream.resetRequested with
    | some code => s.selectReset id stream code
    | none =>
      if stream.sendDone then .ok none (s.putStream id stream) else s.selectData id stream

/-- The loop over the queue of ready streams. -/
def readyOutput : List Nat → State → Outcome (Option Output)
  | [], s => .ok none s
  | id :: rest, s => ({ s with readyStreams := rest }.selectStream id).orElse (readyOutput rest)

def closeOutput : Outcome (Option Output) :=
  match s.closing with
  | none => .ok none s
  | some capsule => .ok (some (.close capsule)) { s with closing := none, finish := true }

def nextOutput (order : List Nat) : Outcome (Option Output) :=
  if s.pendingOutput.isSome then .failed (.state "WebTransport stream output was not committed") s
  else if s.finish then .ok (some .finish) s
  else match s.controls with
    | capsule :: rest => .ok (some (.bytes capsule none)) { s with controls := rest }
    | [] =>
      s.receiveGrant.orElse fun s =>
      (s.streamsGrant false).orElse fun s =>
      (s.streamsGrant true).orElse fun s =>
      (streamGrants order s).orElse fun s =>
      s.datagramOutput.orElse fun s =>
      (readyOutput s.readyStreams s).orElse closeOutput

/-! ### Selected stream data -/

def commitPendingOutput (id : Nat) (fin : Bool) : Outcome Unit :=
  match s.pendingOutput with
  | none => .failed (.state "missing stream output receipt") s
  | some pending =>
    let s := { s with pendingOutput := none }
    if pending.id != id || pending.fin != fin then
      .failed (.state "mismatched stream output receipt") s
    else
      let len := pending.bytes.length
      match s.streams.lookup id with
      | none => .failed (.state "stream disappeared before output receipt") s
      | some stream =>
        let s := { s.putStream id { stream with
            outputBytes := stream.outputBytes - len
            wireSent := stream.wireSent + len
            sendFin := fin } with
          queuedSend := s.queuedSend - len }
        (if stream.output.isEmpty then s else s.ready id).reap id

def discardPendingOutput : State :=
  match s.pendingOutput with
  | none => s
  | some pending =>
    let s := { s with pendingOutput := none }
    let len := pending.bytes.length
    match s.streams.lookup pending.id with
    | none => s
    | some stream =>
      -- A reset has already taken back what was queued, this block included.
      if stream.resetRequested.isSome then s.ready pending.id
      else { s.putStream pending.id { stream with
            outputBytes := stream.outputBytes - len
            sent := stream.sent - len } with
          queuedSend := s.queuedSend - len
          sent := s.sent - len }

end State

end WebTransport
