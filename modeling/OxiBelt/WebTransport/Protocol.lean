import OxiBelt.WebTransport.Streams

/-!
# Received capsules (`webtransport/protocol.rs`)

What a session does with a capsule of its peer.  A capsule that the peer should not have sent is a failure
of the whole session.
-/

namespace WebTransport

open ByteString (Bytes)

namespace State

variable (s : State)

/-- One round of the loop of `peer_stream`. -/
def addPeerStream (kind : Bool) (index : Nat) : State :=
  let id := streamId (1 - s.options.role.bit) kind index
  { s.putStream id { s.newStream id false with grantPending := true } with
    accepted := Function.update s.accepted kind (s.accepted kind ++ [id]) }

/-- The loop of `peer_stream`: `count` streams from number `index` on. -/
def addPeerStreams (kind : Bool) : Nat → Nat → State → State
  | _, 0, s => s
  | index, count + 1, s => addPeerStreams kind (index + 1) count (s.addPeerStream kind index)

def withPeerCounts (opened active : PerKind Nat) : State :=
  { s with peerOpened := opened, peerActive := active }

def peerStream (id : Nat) : Outcome Bool :=
  if (s.streams.lookup id).isSome then .ok false s
  else if s.options.role.opened id then .failed (.state "peer referred to unopened local stream") s
  else
    let kind := isUni id
    let count := id / 4 + 1
    let opened := s.peerOpened kind
    if count ≤ opened then .failed (.state "peer reused a closed stream") s
    else if s.receiveMaxStreams kind < count then .failed (.flow "peer exceeded stream count credit") s
    else if !s.options.receiveApplication ||
        s.options.limits.maxConcurrentStreams kind < s.peerActive kind + (count - opened) then
      .failed (.flow "peer exceeded concurrent stream budget") s
    else
      .ok true ((addPeerStreams kind opened (count - opened) s).withPeerCounts
        (Function.update s.peerOpened kind count)
        (Function.update s.peerActive kind (s.peerActive kind + (count - opened))))

/-- Data goes to the staging block; a full block is queued. -/
def storeInput (stream : StreamState) (data : Bytes) : StreamState :=
  let full := quantum < stream.inputStaging.length + data.length
  let input := if full then stream.input ++ [stream.inputStaging] else stream.input
  let staging := if full then data else stream.inputStaging ++ data
  if staging.length = quantum then
    { stream with input := input ++ [staging], inputStaging := [] }
  else { stream with input, inputStaging := staging }

def finStream (stream : StreamState) (fin : Bool) : StreamState :=
  if fin then { stream with receiveFin := true, grantPending := false } else stream

/-- `Event::Stream`. -/
def streamReceived (id : Nat) (data : Bytes) (fin : Bool) : Outcome Unit :=
  match s.streams.lookup id with
  | none => .failed (.state "missing stream state") s
  | some stream =>
    let received := stream.received + data.length
    let total := s.received + data.length
    if stream.receiveDone then .failed (.state "data after FIN/reset or on send-only stream") s
    else if stream.receiveMax < received then .failed (.flow "stream receive credit exceeded") s
    else if s.receiveMaxData < total then .failed (.flow "session receive credit exceeded") s
    else
      let stream := { stream with received }
      if stream.stopSent then
        { s.putStream id (finStream { stream with consumed := stream.consumed + data.length } fin) with
          received := total
          consumed := s.consumed + data.length
          receiveGrantPending := true }.reap id
      else if data.isEmpty then
        { s.putStream id (finStream stream fin) with received := total }.reap id
      else if s.options.limits.maxStreamBufferBytes < stream.inputBytes + data.length then
        .failed (.flow "stream receive storage exhausted") { s.putStream id stream with received := total }
      else
        { s.putStream id (finStream (storeInput { stream with
            inputBytes := stream.inputBytes + data.length } data) fin) with received := total }.reap id

/-- `u32::try_from`. -/
def codeFrom (value : Nat) : Option UInt32 :=
  if value < 2 ^ 32 then some (UInt32.ofNat value) else none

def maxDataReceived (limit : Nat) : Outcome Unit :=
  if limit < s.sendMaxData then .failed (.flow "decreasing session send credit") s
  else .ok () { s with sendMaxData := limit }

def maxStreamsReceived (uni : Bool) (limit : Nat) : Outcome Unit :=
  if limit < s.sendMaxStreams uni || 2 ^ 60 < limit then
    .failed (.flow "invalid cumulative stream credit") s
  else .ok () { s with sendMaxStreams := Function.update s.sendMaxStreams uni limit }

def resetReceived (id code size : Nat) : Outcome Unit :=
  match codeFrom code with
  | none => .failed (.state "application reset code exceeds u32") s
  | some code =>
    match s.streams.lookup id with
    | none => .failed (.state "reset unknown stream") s
    | some stream =>
      if stream.receiveDone || stream.received != size then
        .failed (.state "invalid stream reset state or reliable size") s
      else
        (s.putStream id { stream with receiveReset := some code, grantPending := false }).reap id

def receiveOnly (id : Nat) : Bool := isUni id && !s.options.role.opened id

def stopReceived (id code : Nat) : Outcome Unit :=
  match codeFrom code with
  | none => .failed (.state "application stop code exceeds u32") s
  | some code =>
    match s.streams.lookup id with
    | none => .failed (.state "stop unknown stream") s
    | some stream =>
      if stream.stopReceived || s.receiveOnly id then
        .failed (.state "duplicate stop or stop on receive-only stream") s
      else
        let stream := { stream with stopReceived := true, stopCode := some code }
        if !stream.sendFin && stream.sendReset.isNone then
          .ok () ({ s.putStream id (SendStream.discard stream code) with
            queuedSend := s.queuedSend - stream.outputBytes
            sent := s.sent - stream.outputBytes }.ready id)
        else .ok () (s.putStream id stream)

/-- The stream has been opened, by this end or by the peer. -/
def wasOpened (id : Nat) : Bool :=
  id / 4 < (if s.options.role.opened id then s.ownOpened else s.peerOpened) (isUni id)

def maxStreamDataReceived (id limit : Nat) : Outcome Unit :=
  if s.receiveOnly id then .failed (.state "credit for receive-only stream") s
  -- Credit may be on its way while the stream ends; it is then of no use.
  else if (s.streams.lookup id).isNone && s.wasOpened id then .ok () s
  else (s.peerStream id).andThen fun _ s =>
    match s.streams.lookup id with
    | none => .failed (.state "credit for unknown stream") s
    | some stream =>
      if stream.stopReceived || s.receiveOnly id then
        .failed (.state "credit for stopped/receive-only stream") s
      else if limit < stream.sendMax then .failed (.flow "decreasing stream credit") s
      else .ok () (s.putStream id { stream with sendMax := limit })

def streamDataBlockedReceived (id : Nat) : Outcome Unit :=
  (s.peerStream id).andThen fun _ s =>
    match s.streams.lookup id with
    | none => .failed (.state "blocked unknown stream") s
    | some stream =>
      if stream.receiveDone then .failed (.state "blocked signal after FIN/reset") s else .ok () s

/-- `receive`, together with `control_received`. -/
def receive (event : Capsule) : Outcome Unit :=
  if s.finish || s.remoteClose.isSome then .failed (.state "capsule after session close") s
  else match event with
    | .stream id data fin => (s.peerStream id).andThen fun _ s => s.streamReceived id data fin
    | .datagram data =>
      if s.options.receiveApplication && s.receiveDatagram.isNone then
        .ok () { s with receiveDatagram := some data }
      else .ok () s
    | .closeSession code reason => .ok () { s with remoteClose := some (code, reason), finish := true }
    | .drainSession => .ok () { s with draining := true }
    | .maxData limit => s.maxDataReceived limit
    | .maxStreams uni limit => s.maxStreamsReceived uni limit
    | .resetStream id code size => (s.peerStream id).andThen fun _ s => s.resetReceived id code size
    | .stopSending id code => (s.peerStream id).andThen fun _ s => s.stopReceived id code
    | .maxStreamData id limit => s.maxStreamDataReceived id limit
    | .streamDataBlocked id _ => s.streamDataBlockedReceived id
    | .streamsBlocked _ limit =>
      if 2 ^ 60 < limit then .failed (.flow "invalid blocked stream count") s else .ok () s
    | .dataBlocked _ => .ok () s

end State

end WebTransport
