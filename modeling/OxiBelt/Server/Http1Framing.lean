import OxiBelt.Lib.Bytes
import OxiBelt.Lib.Feed
import OxiBelt.RustStd.Text

/-!
# The HTTP/1 framing guard (`server/http1_framing_guard.rs`)

The guard stands between the socket and the HTTP/1 parser.  It holds a request head back until it is
complete and its framing is unambiguous, follows the body to its end and answers bad framing itself.
`turn` is one round of the loop of `poll_read`, `pollRead` the loop.

The socket is what the peer has sent and the guard has not read, cut into the reads that will return
it.  Wakers and errors of the socket are left out; the parser of the response to a tunnel request is
not modelled, only the states it leads to.
-/

namespace Http1

open RustStd ByteString

/-! ## Bytes -/

variable (framing : Framing) (line : Bytes) (buffer : ReadBuffer) (byte : UInt8) (guard : Guard)

def isAsciiWhitespace : Bool :=
  byte == 32 || byte == 9 || byte == 10 || byte == 12 || byte == 13

def isAsciiControl : Bool := byte < 32 || byte == 127

def isAsciiDigitByte : Bool := 48 ≤ byte && byte ≤ 57

def isAsciiAlphanumericByte : Bool :=
  isAsciiDigitByte byte || (65 ≤ byte && byte ≤ 90) || (97 ≤ byte && byte ≤ 122)

def lowercase : UInt8 := if 65 ≤ byte && byte ≤ 90 then byte + 32 else byte

def eqIgnoreCase (a b : Bytes) : Bool := a.map lowercase == b.map lowercase

variable (rejection : Rejection) (decoder : ChunkDecoder) (value : Bytes) (socket : Socket)

/-- `trim_ascii_whitespace`. -/
def trimAsciiWhitespace : Bytes :=
  ((value.dropWhile isAsciiWhitespace).reverse.dropWhile isAsciiWhitespace).reverse

/-- `trim_trailing_cr`. -/
def trimTrailingCr : Bytes :=
  if value.getLast? == some 13 then value.dropLast else value

/-- `is_header_name_byte`: letters, digits and the other token characters. -/
def isHeaderNameByte : Bool :=
  isAsciiAlphanumericByte byte || (asBytes "!#$%&'*+-.^_`|~").contains byte

/-- The text of bytes.  One outside of ASCII becomes a character that no number contains, so that
`from_utf8` before a parse makes no difference. -/
def textOf : Str := value.map fun byte => Char.ofNat byte.toNat

/-! ## Heads -/

inductive TunnelKind where
  | connect
  | upgrade
  deriving DecidableEq

inductive HeadDisposition where
  | noBody
  | fixedBody (length : Nat)
  | chunkedBody
  | tunnel (kind : TunnelKind)
  | reject
  deriving DecidableEq

/-- What `classify_head` has gathered from the field lines. -/
structure Framing where
  hasTransferEncoding : Bool
  finalTransferCoding : Option Bytes
  contentLength : Option Nat
  (hasUpgrade connectionUpgrade : Bool)

def isChunked (coding : Option Bytes) : Bool :=
  coding.any fun coding => eqIgnoreCase coding (asBytes "chunked")

/-- One coding of a `Transfer-Encoding` field; `none` rejects the head. -/
def transferCoding (coding : Bytes) : Option Framing :=
  let coding := trimAsciiWhitespace ((coding.splitOn 59).headD [])
  if coding.isEmpty || !coding.all isHeaderNameByte then none
  else if isChunked framing.finalTransferCoding then none
  else some { framing with finalTransferCoding := some coding }

/-- One item of a `Content-Length` field. -/
def contentLengthItem (item : Bytes) : Option Framing :=
  let item := trimAsciiWhitespace item
  if item.isEmpty || !item.all isAsciiDigitByte then none
  else
    match parseU64 (textOf item) with
    | none => none
    | some length =>
      if framing.contentLength.any (· != length) then none
      else some { framing with contentLength := some length }

def fieldLine : Option Framing :=
  let line := trimTrailingCr line
  if !line.contains 58 then none
  else
    let name := line.takeWhile (· != 58)
    let value := trimAsciiWhitespace (line.dropWhile (· != 58)).tail
    if name.isEmpty || !name.all isHeaderNameByte ||
        value.any fun byte => isAsciiControl byte && byte != 9 then none
    else if eqIgnoreCase name (asBytes "transfer-encoding") then
      (value.splitOn 44).foldlM transferCoding { framing with hasTransferEncoding := true }
    else if eqIgnoreCase name (asBytes "content-length") then
      (value.splitOn 44).foldlM contentLengthItem framing
    else if eqIgnoreCase name (asBytes "upgrade") then
      some { framing with hasUpgrade := !value.isEmpty }
    else if eqIgnoreCase name (asBytes "connection") then
      some { framing with
        connectionUpgrade := framing.connectionUpgrade || (value.splitOn 44).any fun token =>
          eqIgnoreCase (trimAsciiWhitespace token) (asBytes "upgrade") }
    else some framing

def requestLine : Option Bytes :=
  match (trimTrailingCr line).splitOn 32 with
  | [method, target, version] =>
    if method.isEmpty || target.isEmpty || !method.all isHeaderNameByte ||
        target.any isAsciiControl ||
        !(version == asBytes "HTTP/1.0" || version == asBytes "HTTP/1.1") then none
    else some method
  | _ => none

def headEndMark : Bytes := [13, 10, 13, 10]

/-- The end of `classify_head`. -/
def disposition (method : Bytes) (framing : Framing) : HeadDisposition :=
  let connect := method == asBytes "CONNECT"
  if framing.hasTransferEncoding && framing.contentLength.isSome then .reject
  else if framing.hasTransferEncoding && !isChunked framing.finalTransferCoding then .reject
  else if connect || (framing.hasUpgrade && framing.connectionUpgrade) then
    if framing.hasTransferEncoding || framing.contentLength.any (· != 0) then .reject
    else .tunnel (if connect then .connect else .upgrade)
  else if framing.hasTransferEncoding then .chunkedBody
  else
    match framing.contentLength with
    | some length => .fixedBody length
    | none => .noBody

def classifyHead (head : Bytes) : HeadDisposition :=
  if !headEndMark.isSuffixOf head then .reject
  else
    match (head.take (head.length - 4)).splitOn 10 with
    | [] => .reject
    | first :: lines =>
      match requestLine first with
      | none => .reject
      | some method =>
        let framing : Framing := {
          hasTransferEncoding := false
          finalTransferCoding := none
          contentLength := none
          hasUpgrade := false
          connectionUpgrade := false }
        match lines.foldlM fieldLine framing with
        | none => .reject
        | some framing => disposition method framing

/-- `memmem::find` of the end of a head: the length of the head. -/
def headLength : Bytes → Option Nat
  | [] => none
  | byte :: rest =>
    if headEndMark.isPrefixOf (byte :: rest) then some 4
    else (headLength rest).map (· + 1)

/-! ## Chunked bodies -/

inductive ChunkState where
  | size
  | data (remaining : Nat)
  | dataEnd (progress : Nat)
  | trailers
  deriving DecidableEq

structure ChunkDecoder where
  state : ChunkState
  line : Bytes
  (trailerBytes maxLineBytes : Nat)
  deriving DecidableEq

def ChunkDecoder.new (maxLineBytes : Nat) : ChunkDecoder where
  state := .size
  line := []
  trailerBytes := 0
  maxLineBytes := maxLineBytes

inductive ChunkEnd where
  | invalid
  | complete
  deriving DecidableEq

def endsLine : Bool := [13, 10].isSuffixOf line

/-- `u64::from_str_radix` of a chunk size line without its end. -/
def chunkSize : Option Nat :=
  fromStrRadix 16 (2 ^ 64 - 1) (textOf (trimAsciiWhitespace ((line.splitOn 59).headD [])))

def trailerValid (trailer : Bytes) : Bool :=
  let name := trailer.takeWhile (· != 58)
  trailer.contains 58 && !name.isEmpty && name.all isHeaderNameByte &&
    !(trailer.dropWhile (· != 58)).tail.any fun byte => isAsciiControl byte && byte != 9

/-- One byte in `ChunkDecoder::consume`.  The source takes a run of data bytes at once. -/
def ChunkDecoder.push (byte : UInt8) : ChunkEnd ⊕ ChunkDecoder :=
  match decoder.state with
  | .size =>
    let line := decoder.line ++ [byte]
    if decoder.maxLineBytes < line.length then .inl .invalid
    else if endsLine line then
      match chunkSize (line.take (line.length - 2)) with
      | none => .inl .invalid
      | some 0 => .inr { decoder with line := [], state := .trailers }
      | some size => .inr { decoder with line := [], state := .data size }
    else .inr { decoder with line }
  | .data remaining =>
    if remaining ≤ 1 then .inr { decoder with state := .dataEnd 0 }
    else .inr { decoder with state := .data (remaining - 1) }
  | .dataEnd progress =>
    if byte != (if progress = 0 then 13 else 10) then .inl .invalid
    else if progress + 1 = 2 then .inr { decoder with state := .size }
    else .inr { decoder with state := .dataEnd (progress + 1) }
  | .trailers =>
    let line := decoder.line ++ [byte]
    let trailerBytes := decoder.trailerBytes + 1
    if decoder.maxLineBytes < line.length || decoder.maxLineBytes < trailerBytes then .inl .invalid
    else if endsLine line then
      if line.length = 2 then .inl .complete
      else if trailerValid (line.take (line.length - 2)) then .inr { decoder with line := [], trailerBytes }
      else .inl .invalid
    else .inr { decoder with line, trailerBytes }

/-- `ChunkDecoder::consume`: the bytes taken, and how the decoder stopped or goes on. -/
def ChunkDecoder.consume (input : Bytes) : Nat × (ChunkEnd ⊕ ChunkDecoder) :=
  Feed.feed ChunkDecoder.push decoder input

/-! ## The guard -/

/-- `buffered` and `buffered_offset`: what lies before the offset has been handed out. -/
structure ReadBuffer where
  buffered : Bytes
  offset : Nat
  bounded : offset ≤ buffered.length

def ReadBuffer.empty : ReadBuffer := ⟨[], 0, le_refl 0⟩

def ReadBuffer.available : Bytes := buffer.buffered.drop buffer.offset

def ReadBuffer.extend (bytes : Bytes) : ReadBuffer where
  buffered := buffer.buffered ++ bytes
  offset := buffer.offset
  bounded := by
    have := buffer.bounded
    rw [List.length_append]
    omega

def readChunkBytes : Nat := 8 * 1024

/-- `consume_into`: what is copied to a destination with that much room, and the buffer after it. -/
def ReadBuffer.consumeInto (room limit : Nat) : Bytes × ReadBuffer :=
  let copied := min (min buffer.available.length room) limit
  let offset := buffer.offset + copied
  (buffer.available.take copied,
    if h : offset = buffer.buffered.length ∨ buffer.buffered.length < offset then .empty
    else if readChunkBytes ≤ offset then
      { buffered := buffer.buffered.drop offset, offset := 0, bounded := Nat.zero_le _ }
    else { buffered := buffer.buffered, offset, bounded := by omega })

inductive Rejection where
  | badRequest
  | headerTooLarge
  deriving DecidableEq

def Rejection.response : Rejection → Bytes
  | badRequest =>
    asBytes "HTTP/1.1 400 Bad Request\x0d\nconnection: close\x0d\ncontent-length: 0\x0d\n\x0d\n"
  | headerTooLarge =>
    asBytes
      "HTTP/1.1 431 Request Header Fields Too Large\x0d\nconnection: close\x0d\ncontent-length: 0\x0d\n\x0d\n"

inductive AfterHead where
  | head
  | fixedBody (length : Nat)
  | chunkedBody (decoder : ChunkDecoder)
  | awaitingTunnelResponse (kind : TunnelKind)

/-- `ReadState`.  A rejected connection keeps the answer that it was given. -/
inductive ReadState where
  | head
  | validatedHead (remaining : Nat) (next : AfterHead)
  | fixedBody (remaining : Nat)
  | chunkedBody (decoder : ChunkDecoder)
  | awaitingTunnelResponse (kind : TunnelKind)
  | passthrough
  | terminalConnectRejection
  | rejecting (rejection : Rejection) (offset : Nat)
  | rejected (answer : Option Rejection)

def AfterHead.state : AfterHead → ReadState
  | head => .head
  | fixedBody length => .fixedBody length
  | chunkedBody decoder => .chunkedBody decoder
  | awaitingTunnelResponse kind => .awaitingTunnelResponse kind

structure Guard where
  maxHeaderBytes : Nat
  buffer : ReadBuffer
  state : ReadState

def Guard.new (maxHeaderBytes : Nat) : Guard where
  maxHeaderBytes := max maxHeaderBytes 1
  buffer := .empty
  state := .head

def Guard.available (guard : Guard) : Bytes := guard.buffer.available

def Guard.beginRejection : Guard :=
  { guard with buffer := .empty, state := .rejecting rejection 0 }

/-- What follows a complete head; `none` rejects it. -/
def afterHead (maxHeaderBytes : Nat) (head : Bytes) : Option AfterHead :=
  match classifyHead head with
  | .noBody => some .head
  | .fixedBody 0 => some .head
  | .fixedBody length => some (.fixedBody length)
  | .chunkedBody => some (.chunkedBody (.new maxHeaderBytes))
  | .tunnel kind => some (.awaitingTunnelResponse kind)
  | .reject => none

/-- How a round of the loop ends: it returns, goes round again, or needs more from the socket. -/
inductive Turn where
  | ready (bytes : Bytes) (guard : Guard)
  | pending (guard : Guard)
  | again (guard : Guard)
  | fill (guard : Guard)
  | readThrough (guard : Guard)

/-- `poll_rejection`, when the socket takes that many bytes of the answer before it blocks. -/
def pollRejection (offset writable : Nat) : Turn :=
  let offset := offset + writable
  if rejection.response.length ≤ offset then .ready [] { guard with state := .rejected (some rejection) }
  else .pending { guard with state := .rejecting rejection offset }

def turnHead : Turn :=
  match headLength guard.available with
  | some length =>
    if guard.maxHeaderBytes < length then .again (guard.beginRejection .headerTooLarge)
    else
      match afterHead guard.maxHeaderBytes (guard.available.take length) with
      | none => .again (guard.beginRejection .badRequest)
      | some next => .again { guard with state := .validatedHead length next }
  | none =>
    if guard.maxHeaderBytes ≤ guard.available.length then .again (guard.beginRejection .headerTooLarge)
    else .fill guard

def turnFixed (room remaining : Nat) : Turn :=
  if remaining = 0 then .again { guard with state := .head }
  else if guard.available = [] then .fill guard
  else
    let (bytes, buffer) := guard.buffer.consumeInto room remaining
    .ready bytes { guard with
      buffer
      state := if remaining - bytes.length = 0 then .head else .fixedBody (remaining - bytes.length) }

def turnChunked (room : Nat) (decoder : ChunkDecoder) : Turn :=
  if guard.available = [] then .fill guard
  else
    match decoder.consume guard.available with
    | (_, .inl .invalid) => .again (guard.beginRejection .badRequest)
    | (consumed, .inl .complete) =>
      let (bytes, buffer) := guard.buffer.consumeInto room consumed
      .ready bytes { guard with buffer, state := .head }
    | (consumed, .inr decoder) =>
      let (bytes, buffer) := guard.buffer.consumeInto room consumed
      .ready bytes { guard with buffer, state := .chunkedBody decoder }

/-- One round of the loop of `poll_read`, up to `poll_fill`. -/
def turn (room writable : Nat) : Turn :=
  match guard.state with
  | .rejecting rejection offset => pollRejection guard rejection offset writable
  | .rejected _ => .ready [] guard
  | .terminalConnectRejection => .ready [] guard
  | .awaitingTunnelResponse _ => .pending guard
  | .passthrough =>
    if guard.available = [] then .readThrough guard
    else
      let (bytes, buffer) := guard.buffer.consumeInto room guard.available.length
      .ready bytes { guard with buffer }
  | .validatedHead remaining next =>
    let (bytes, buffer) := guard.buffer.consumeInto room remaining
    .ready bytes { guard with
      buffer
      state := if remaining - bytes.length = 0 then next.state
        else .validatedHead (remaining - bytes.length) next }
  | .fixedBody remaining => turnFixed guard room remaining
  | .chunkedBody decoder => turnChunked guard room decoder
  | .head => turnHead guard

/-- What arrived and was not read, cut into the reads that return it, and whether the peer closed. -/
structure Socket where
  segments : List { bytes : Bytes // bytes ≠ [] }
  closed : Bool

def Socket.unread : Bytes := socket.segments.flatMap (·.val)

inductive Poll where
  | ready (bytes : Bytes)
  | pending
  deriving DecidableEq

def Poll.bytes : Poll → Bytes
  | ready bytes => bytes
  | pending => []

structure Polled where
  poll : Poll
  guard : Guard
  socket : Socket
  fed : Bytes

/-- The bytes that the chunk decoder takes in a round. -/
def fedBytes : Bytes :=
  match guard.state with
  | .chunkedBody decoder => guard.available.take (decoder.consume guard.available).1
  | _ => []

def Socket.readInto (room : Nat) : Poll × Socket :=
  match socket.segments with
  | [] => (if socket.closed then .ready [] else .pending, socket)
  | segment :: segments =>
    if h : segment.val.drop room = [] then (.ready segment.val, { socket with segments })
    else (.ready (segment.val.take room), { socket with segments := ⟨segment.val.drop room, h⟩ :: segments })

/-- The loop of `poll_read`, for at most that many rounds, with the bytes fed to the decoder. -/
def pollLoop (room writable : Nat) : Nat → Guard → Socket → Polled
  | 0, guard, socket => { poll := .pending, guard, socket, fed := [] }
  | rounds + 1, guard, socket =>
    let polled : Polled :=
      match turn guard room writable with
      | .ready bytes guard => { poll := .ready bytes, guard, socket, fed := [] }
      | .pending guard => { poll := .pending, guard, socket, fed := [] }
      | .again guard => pollLoop room writable rounds guard socket
      | .readThrough guard =>
        { poll := (socket.readInto room).1, guard, socket := (socket.readInto room).2, fed := [] }
      | .fill guard =>
        match socket.segments with
        | segment :: segments =>
          pollLoop room writable rounds { guard with buffer := guard.buffer.extend segment.val }
            { socket with segments }
        | [] =>
          if !socket.closed then { poll := .pending, guard, socket, fed := [] }
          else if guard.available = [] then { poll := .ready [], guard, socket, fed := [] }
          else pollLoop room writable rounds (guard.beginRejection .badRequest) socket
    { polled with fed := fedBytes guard ++ polled.fed }

/-- `poll_read` into a destination with that much room.  Every read brings a segment and every other
round leads on to a state that returns, so the rounds suffice (`pollRead_spec`). -/
def pollRead (room writable : Nat) : Polled :=
  pollLoop room writable (socket.segments.length + 4) guard socket

end Http1
