import OxiBelt.WebTransport.Session

/-!
# Stream handles (`webtransport/streams.rs`)

What the two halves of a stream do to the session when the application uses or drops them.  Dropping a
half takes the session's lock twice: once to cancel what is unfinished and once to give up the handle.
-/

namespace WebTransport

open ByteString (Bytes)

/-- `Poll<io::Result<T>>`. -/
inductive Poll (α : Type) where
  | ready (result : Except String α)
  | pending

namespace SendStream

/-- Drops everything that is queued on a stream and asks the writer for a RESET_STREAM. -/
def discard (stream : StreamState) (code : UInt32) : StreamState :=
  { stream with
    output := []
    outputStaging := []
    outputBytes := 0
    sent := stream.wireSent
    resetRequested := some code }

def reset (id : Nat) (code : UInt32) (s : State) : State :=
  match s.streams.lookup id with
  | none => s
  | some stream =>
    -- The first reset keeps its code, also while it is queued.
    if stream.sendFin || stream.sendReset.isSome || stream.resetRequested.isSome then s
    else
      let s := { s.putStream id (discard stream code) with
        queuedSend := s.queuedSend - stream.outputBytes
        sent := s.sent - stream.outputBytes }
      s.ready id

def writeSize (stream : StreamState) (length : Nat) (s : State) : Nat :=
  min length <| min (quantum - stream.outputStaging.length) <|
    min (s.options.limits.maxStreamBufferBytes - stream.outputBytes) <|
    min (s.options.limits.maxSessionBufferBytes - s.queuedSend) <|
    min (s.sendMaxData - s.sent) (stream.sendMax - stream.sent)

def pollWrite (id : Nat) (bytes : Bytes) (s : State) : State × Poll Nat :=
  if bytes.isEmpty then (s, .ready (.ok 0))
  else match s.check with
    | .error text => (s, .ready (.error text))
    | .ok _ =>
      match s.streams.lookup id with
      | none => (s, .ready (.error "unknown send stream"))
      | some stream =>
        if stream.sendFin || stream.finRequested || stream.sendReset.isSome ||
            stream.resetRequested.isSome then
          (s, .ready (.error "WebTransport stream send side closed"))
        else
          let size := writeSize stream bytes.length s
          if size = 0 then (s, .pending)
          else
            let s := { s.putStream id { stream with
                outputStaging := stream.outputStaging ++ bytes.take size
                outputBytes := stream.outputBytes + size
                sent := stream.sent + size } with
              sent := s.sent + size
              queuedSend := s.queuedSend + size }
            (s.ready id, .ready (.ok size))

def pollShutdown (id : Nat) (s : State) : State × Poll Unit :=
  match s.check with
  | .error text => (s, .ready (.error text))
  | .ok _ =>
    match s.streams.lookup id with
    | none => (s, .ready (.error "unknown send stream"))
    | some stream =>
      if stream.sendFin then (s, .ready (.ok ()))
      else if stream.sendReset.isSome || stream.resetRequested.isSome then
        (s, .ready (.error "WebTransport stream reset"))
      else ((s.putStream id { stream with finRequested := true }).ready id, .pending)

end SendStream

/-- The second lock of both `drop`s: the handle is given up and a failure of `reap` is recorded. -/
def release (id : Nat) (giveUp : StreamState → StreamState) (s : State) : State :=
  let s := match s.streams.lookup id with
    | some stream => s.putStream id (giveUp stream)
    | none => s
  match s.reap id with
  | .ok _ s => s
  | .failed failure s => { s with failure := some failure }

def SendStream.release (id : Nat) (s : State) : State :=
  WebTransport.release id (fun stream => { stream with writeHandle := false }) s

namespace RecvStream

def stop (id : Nat) (code : UInt32) (s : State) : Outcome Unit :=
  match s.streams.lookup id with
  | none => .ok () s
  | some stream =>
    let discarded := stream.inputBytes
    let sendStop := !stream.receiveDone && !stream.stopSent
    let s := { s.putStream id { stream with
        input := []
        inputStaging := []
        inputBytes := 0
        consumed := stream.consumed + discarded
        stopSent := stream.stopSent || sendStop
        grantPending := false } with
      consumed := s.consumed + discarded
      receiveGrantPending := s.receiveGrantPending || 0 < discarded }
    if sendStop then s.queueControl (.stopSending id code.toNat) else .ok () s

/-- Takes up to `capacity` bytes from the front of the stored input. -/
def take (stream : StreamState) (capacity : Nat) : Bytes × StreamState :=
  match stream.input with
  | block :: rest =>
    let left := block.drop capacity
    (block.take capacity, { stream with input := if left.isEmpty then rest else left :: rest })
  | [] =>
    (stream.inputStaging.take capacity, { stream with inputStaging := stream.inputStaging.drop capacity })

def pollRead (id capacity : Nat) (s : State) : State × Poll Bytes :=
  if capacity = 0 then (s, .ready (.ok []))
  else match s.streams.lookup id with
    | none => (s, .ready (.error "unknown receive stream"))
    | some stream =>
      if !stream.input.isEmpty || !stream.inputStaging.isEmpty then
        let (bytes, stream) := take stream capacity
        let count := bytes.length
        let s := { s.putStream id { stream with
            inputBytes := stream.inputBytes - count
            consumed := stream.consumed + count
            grantPending := stream.grantPending || (!stream.stopSent && !stream.receiveDone) } with
          consumed := s.consumed + count
          receiveGrantPending := true }
        (s, .ready (.ok bytes))
      else match stream.receiveReset, s.failure with
        | some code, _ => (s, .ready (.error s!"WebTransport stream reset ({code})"))
        | none, failure =>
          if stream.receiveFin then (s, .ready (.ok []))
          else match failure with
            | some failure => (s, .ready (.error failure.message))
            | none =>
              if s.ended || s.finish || s.closing.isSome then
                (s, .ready (.error "WebTransport session ended before stream FIN"))
              else (s, .pending)

def release (id : Nat) (s : State) : State :=
  WebTransport.release id (fun stream => { stream with readHandle := false }) s

end RecvStream

end WebTransport
