import OxiBelt.Http.HeaderMap
import OxiBelt.Lib.Search

/-!
# Heads, chunk lines and trailers of upstream responses

The parsers below the response engine of the direct HTTP/1 path
(`direct_h1/response_protocol/{types,head,chunked}.rs`): the response head, the choice of the body mode
from its fields, the line before a chunk and the trailer block.

The crate `httparse` stands as the parameter `Httparse`: what it makes of a head, given how many fields
it may store.
-/

namespace DirectH1

open RustStd ByteString Http

/-! ## Limits, states and failures -/

structure Limits where
  maxResponseHeadBytes : Nat := 64 * 1024
  maxResponseHeaderFields : Nat := 128
  maxResponseHeaderFieldBytes : Nat := 8 * 1024
  maxInterimResponses : Nat := 8
  maxChunkSizeLineBytes : Nat := 8 * 1024
  maxChunkExtensionBytes : Nat := 8 * 1024
  maxTrailerBlockBytes : Nat := 64 * 1024
  maxTrailerFields : Nat := 128
  maxTrailerFieldBytes : Nat := 8 * 1024
  deriving DecidableEq

def maxValidatedMetadataBytes : Nat := 1024 * 1024
def maxValidatedFields : Nat := 4096
def maxValidatedInterims : Nat := 256

/-- `validate`: every limit is positive and bounded. -/
def Limits.valid (limits : Limits) : Bool :=
  let byteLimits := [limits.maxResponseHeadBytes, limits.maxResponseHeaderFieldBytes,
    limits.maxChunkSizeLineBytes, limits.maxChunkExtensionBytes, limits.maxTrailerBlockBytes,
    limits.maxTrailerFieldBytes]
  !(byteLimits.any (fun value => value == 0 || maxValidatedMetadataBytes < value) ||
    limits.maxResponseHeaderFields == 0 || maxValidatedFields < limits.maxResponseHeaderFields ||
    limits.maxTrailerFields == 0 || maxValidatedFields < limits.maxTrailerFields ||
    limits.maxInterimResponses == 0 || maxValidatedInterims < limits.maxInterimResponses)

inductive BodyMode where
  | none
  | contentLength (length : Nat)
  | chunked
  | closeDelimited
  deriving DecidableEq

/-- The reasons the decoder itself gives; a timeout or a cancellation comes from its caller. -/
inductive FailureReason where
  | headTooLarge
  | tooManyHeaders
  | headerFieldTooLarge
  | tooManyInterimResponses
  | invalidStatusLine
  | invalidHeaderSyntax
  | invalidTransferCodingSequence
  | chunkLineTooLarge
  | invalidChunkSize
  | invalidChunkExtension
  | invalidChunkTerminator
  | chunkExtensionTooLarge
  | trailerBlockTooLarge
  | tooManyTrailers
  | invalidTrailerField
  | trailerFieldTooLarge
  | unexpectedEof
  | unsupportedUpgrade
  deriving DecidableEq

abbrev Parsed (α : Type) := Except FailureReason α

/-! ## Bytes -/

def crlf : Bytes := [13, 10]

def isAsciiDigit (byte : UInt8) : Bool := 48 ≤ byte && byte ≤ 57

def toAsciiLowercase (byte : UInt8) : UInt8 := if 65 ≤ byte && byte ≤ 90 then byte + 32 else byte

/-- The punctuation is that of a token: `!`, `#` to `'`, `*`, `+`, `-`, `.`, `^`, `_`, the grave accent,
`|` and `~`. -/
def isTokenByte (byte : UInt8) : Bool :=
  byte == 33 || (35 ≤ byte && byte ≤ 39) || byte == 42 || byte == 43 || byte == 45 || byte == 46 ||
    isAsciiDigit byte || (65 ≤ byte && byte ≤ 90) || byte == 94 || byte == 95 || byte == 96 ||
    (97 ≤ byte && byte ≤ 122) || byte == 124 || byte == 126

def isOws (byte : UInt8) : Bool := byte == 32 || byte == 9

variable (headers : HeaderMap) (bytes : Bytes)

def trimOws : Bytes := ((bytes.dropWhile isOws).reverse.dropWhile isOws).reverse

theorem trimOws_length_le : (trimOws bytes).length ≤ bytes.length := by
  have he := (List.dropWhile_suffix isOws (l := (bytes.dropWhile isOws).reverse)).length_le
  have hs := (List.dropWhile_suffix isOws (l := bytes)).length_le
  rw [List.length_reverse] at he
  rw [trimOws, List.length_reverse]
  omega

def isControl (byte : UInt8) : Bool := (byte < 32 && byte != 9) || byte == 127

/-- The lines before a rest, of which `line` has been read. -/
def splitCrlfFrom (line : Bytes) : Bytes → List Bytes
  | [] => if line = [] then [] else [line]
  | 13 :: 10 :: rest => line :: splitCrlfFrom [] rest
  | byte :: rest => splitCrlfFrom (line ++ [byte]) rest

/-- The lines that `split_crlf` gives: nothing after a last line end gives no line. -/
def splitCrlf : List Bytes := splitCrlfFrom [] bytes

def quotedLength : Bool → Bytes → Option Nat
  | _, [] => none
  | true, byte :: rest => if isControl byte then none else (quotedLength false rest).map (· + 1)
  | false, byte :: rest =>
    if byte = 92 then (quotedLength true rest).map (· + 1)
    else if byte = 34 then some 1
    else if isControl byte then none
    else (quotedLength false rest).map (· + 1)

def parseTokenOrQuoted : Bytes → Option Nat
  | 34 :: rest => (quotedLength false rest).map (· + 1)
  | bytes =>
    let length := (bytes.takeWhile isTokenByte).length
    if 0 < length then some length else none

/-! ## Header fields -/

/-- `HeaderName::from_bytes`. -/
def headerName : Option { name : Str // isHeaderName name = true } :=
  let name := (bytes.map toAsciiLowercase).map charOfByte
  if h : isHeaderName name = true then some ⟨name, h⟩ else none

/-- `HeaderValue::from_bytes`. -/
def headerValue : Option HeaderValue :=
  if h : bytes.all isValueByte = true then some ⟨bytes, h⟩ else none

/-- `HeaderMap::append`. -/
def append (name : { name : Str // isHeaderName name = true }) (value : HeaderValue) : HeaderMap where
  entries := headers.entries ++ [(name.val, value)]
  names := by
    rw [List.all_append, headers.names]
    simp [name.property]

def maxHeaderNameBytes : Nat := 128

/-- One raw field line of `validate_raw_fields`; `fields` counts it too. -/
def validateRawField (fields maxFields maxFieldBytes : Nat)
    (countReason sizeReason syntaxReason : FailureReason) (line : Bytes) : Parsed Unit :=
  if line = [] then .error syntaxReason
  else if maxFields < fields then .error countReason
  else if maxFieldBytes < line.length then .error sizeReason
  else if line.contains 58 = false then .error syntaxReason
  else
    let name := line.takeWhile (· != 58)
    if name = [] ∨ maxHeaderNameBytes < name.length ∨ ¬ name.all isTokenByte = true then
      .error syntaxReason
    else .ok ()

def validateRawLines (maxFields maxFieldBytes : Nat)
    (countReason sizeReason syntaxReason : FailureReason) : Nat → List Bytes → Parsed Unit
  | _, [] => .ok ()
  | fields, line :: lines =>
    match validateRawField (fields + 1) maxFields maxFieldBytes countReason sizeReason syntaxReason
        line with
    | .error reason => .error reason
    | .ok () =>
      validateRawLines maxFields maxFieldBytes countReason sizeReason syntaxReason (fields + 1) lines

def validateRawFields (maxFields maxFieldBytes : Nat)
    (countReason sizeReason syntaxReason : FailureReason) : Parsed Unit :=
  validateRawLines maxFields maxFieldBytes countReason sizeReason syntaxReason 0 (splitCrlf bytes)

/-! ## The head -/

inductive Version where
  | http10
  | http11
  deriving DecidableEq

abbrev StatusCode := { code : Nat // 100 ≤ code ∧ code < 1000 }

/-- `StatusCode::from_u16`. -/
def statusCode (code : Nat) : Option StatusCode :=
  if h : 100 ≤ code ∧ code < 1000 then some ⟨code, h⟩ else none

inductive HttparseError where
  | headerName
  | headerValue
  | newLine
  | status
  | token
  | tooManyHeaders
  | version
  deriving DecidableEq

/-- What `httparse` stores of a response. -/
structure HttparseResponse where
  (version code : Option Nat)
  headers : List (Bytes × Bytes)
  deriving DecidableEq

/-- `httparse::Response::parse` with room for so many fields; `none` is a partial head. -/
abbrev Httparse := Nat → Bytes → Except HttparseError (Option HttparseResponse)

def httparseReason : HttparseError → FailureReason
  | .tooManyHeaders => .tooManyHeaders
  | .status => .invalidStatusLine
  | .version => .invalidStatusLine
  | _ => .invalidHeaderSyntax

def validateStatusLine (line : Bytes) : Parsed Unit :=
  let validVersion := (asBytes "HTTP/1.0 ").isPrefixOf line ||
    (asBytes "HTTP/1.1 ").isPrefixOf line
  if !validVersion || line.length < 12 then .error .invalidStatusLine
  else if !((line.drop 9).take 3).all isAsciiDigit ||
      (12 < line.length && (line.drop 12).head? != some 32) || (line.drop 12).any isControl then
    .error .invalidStatusLine
  else .ok ()

/-- The fields that `httparse` found, appended one after another. -/
def collectHeaders : HeaderMap → List (Bytes × Bytes) → Parsed HeaderMap
  | headers, [] => .ok headers
  | headers, (name, value) :: rest =>
    match headerName name, headerValue value with
    | some name, some value => collectHeaders (append headers name value) rest
    | _, _ => .error .invalidHeaderSyntax

structure Head where
  version : Version
  status : StatusCode
  headers : HeaderMap
  deriving DecidableEq

def readVersion : Option Nat → Parsed Version
  | some 0 => .ok .http10
  | some 1 => .ok .http11
  | _ => .error .invalidStatusLine

/-- What `parse_head` makes of a response that `httparse` has taken apart. -/
def readResponse (response : HttparseResponse) : Parsed Head := do
  let version ← readVersion response.version
  match response.code.bind statusCode with
  | none => .error .invalidStatusLine
  | some status => do
    let headers ← collectHeaders HeaderMap.empty response.headers
    return { version, status, headers }

def parseHead (httparse : Httparse) (limits : Limits) (bytes : Bytes) : Parsed Head :=
  match Search.find crlf bytes with
  | none => .error .invalidStatusLine
  | some statusLineEnd => do
    validateStatusLine (bytes.take statusLineEnd)
    validateRawFields ((bytes.take (bytes.length - 2)).drop (statusLineEnd + 2))
      limits.maxResponseHeaderFields limits.maxResponseHeaderFieldBytes .tooManyHeaders
      .headerFieldTooLarge .invalidHeaderSyntax
    match httparse limits.maxResponseHeaderFields bytes with
    | .error error => .error (httparseReason error)
    | .ok none => .error .invalidHeaderSyntax
    | .ok (some response) => readResponse response

/-! ## The body mode -/

def transferEncoding : Str := "transfer-encoding"
def contentLength : Str := "content-length"

/-- The values of several field lines in one, with commas; a line before which nothing was written adds
no comma. -/
def combineValues : Bytes → List HeaderValue → Bytes
  | combined, [] => combined
  | combined, value :: values =>
    combineValues ((if combined = [] then combined else combined ++ [44]) ++ value.bytes) values

/-- State of `split_quoted_commas` at a byte: the parts so far, the part that is being read, and the two
flags. -/
structure CommaScan where
  parts : List Bytes
  current : Bytes
  (quoted escaped : Bool)

def CommaScan.byte (scan : CommaScan) (byte : UInt8) : Option CommaScan :=
  if scan.escaped then some { scan with current := scan.current ++ [byte], escaped := false }
  else if byte = 92 ∧ scan.quoted = true then
    some { scan with current := scan.current ++ [byte], escaped := true }
  else if byte = 34 then
    some { scan with current := scan.current ++ [byte], quoted := !scan.quoted }
  else if byte = 44 ∧ scan.quoted = false then
    let part := trimOws scan.current
    if part = [] then none else some { scan with parts := scan.parts ++ [part], current := [] }
  else some { scan with current := scan.current ++ [byte] }

def splitQuotedCommas : Option (List Bytes) :=
  match bytes.foldlM CommaScan.byte ⟨[], [], false, false⟩ with
  | none => none
  | some scan =>
    if scan.quoted || scan.escaped then none
    else
      let part := trimOws scan.current
      if part = [] then none else some (scan.parts ++ [part])

/-- The parameters of a coding, counted; `rest` starts with a semicolon. -/
def codingParameters (rest : Bytes) (count : Nat) : Option Nat :=
  match rest with
  | [] => some count
  | first :: rest =>
    if first ≠ 59 then none
    else
      let named := trimOws rest
      let nameLength := (named.takeWhile isTokenByte).length
      if nameLength = 0 then none
      else
        match _hassigned : trimOws (named.drop nameLength) with
        | 61 :: rawValue =>
          let assigned := trimOws rawValue
          match parseTokenOrQuoted assigned with
          | none => none
          | some valueLength => codingParameters (trimOws (assigned.drop valueLength)) (count + 1)
        | _ => none
termination_by rest.length
decreasing_by
  have hnext := trimOws_length_le ((trimOws rawValue).drop valueLength)
  have hvalue := trimOws_length_le rawValue
  have hrest : named.length ≤ rest.length := trimOws_length_le rest
  have hname := trimOws_length_le (named.drop nameLength)
  have hlength := congrArg List.length _hassigned
  simp only [List.length_drop, List.length_cons] at *
  omega

def splitCodingParameters : Option (Bytes × Nat) :=
  let name := trimOws (bytes.takeWhile (· != 59))
  if name = [] ∨ ¬ name.all isTokenByte = true then none
  else (codingParameters (bytes.dropWhile (· != 59)) 0).map fun count => (name, count)

def parseTransferEncoding : Parsed Bool :=
  let combined := combineValues [] (headers.getAll transferEncoding)
  if combined = [] then .ok false
  else
    match splitQuotedCommas combined with
    | some [coding] =>
      match splitCodingParameters (trimOws coding) with
      | some (name, 0) =>
        if name.map toAsciiLowercase = asBytes "chunked" then .ok true
        else .error .invalidTransferCodingSequence
      | _ => .error .invalidTransferCodingSequence
    | _ => .error .invalidTransferCodingSequence

/-- One digit more, in `u64`. -/
def pushDigit (radix : Nat) (parsed : Nat) (digit : Nat) : Option Nat :=
  let next := parsed * radix + digit
  if next < 2 ^ 64 then some next else none

def contentLengthMember (observed : Option Nat) (member : Bytes) : Parsed (Option Nat) :=
  let member := trimOws member
  if member = [] ∨ ¬ member.all isAsciiDigit = true then .error .invalidHeaderSyntax
  else
    match member.foldlM (fun parsed byte => pushDigit 10 parsed (byte.toNat - 48)) 0 with
    | none => .error .invalidHeaderSyntax
    | some parsed =>
      if observed.any (· != parsed) then .error .invalidHeaderSyntax else .ok (some parsed)

def parseContentLength : Parsed (Option Nat) :=
  ((headers.getAll contentLength).flatMap fun value => value.bytes.splitOn 44).foldlM
    contentLengthMember none

/-- A response to `HEAD` and one with status 204 or 304 has no body. -/
def bodyless (requestMethod : Str) (status : StatusCode) : Bool :=
  requestMethod == "HEAD" || status.val == 204 || status.val == 304

def responseBodyMode (requestMethod : Str) (head : Head) : Parsed BodyMode := do
  let transferEncoding ← parseTransferEncoding head.headers
  let contentLength ← parseContentLength head.headers
  if transferEncoding && head.version != .http11 then .error .invalidTransferCodingSequence
  else if transferEncoding && contentLength.isSome then .error .invalidTransferCodingSequence
  else if bodyless requestMethod head.status then .ok .none
  else if transferEncoding then .ok .chunked
  else
    match contentLength with
    | some length => .ok (.contentLength length)
    | none => .ok .closeDelimited

/-! ## Trailers -/

/-- `is_forbidden_trailer_name`. -/
def forbiddenTrailerNames : List Str :=
  ["content-length", "transfer-encoding", "host", "connection",
    "te", "trailer", "upgrade", "keep-alive", "proxy-connection"]

def parseTrailerLine (trailers : HeaderMap) (line : Bytes) : Parsed HeaderMap :=
  if line.contains 58 = false then .error .invalidTrailerField
  else
    match headerName (line.takeWhile (· != 58)) with
    | none => .error .invalidTrailerField
    | some name =>
      if forbiddenTrailerNames.contains name.val then .error .invalidTrailerField
      else
        match headerValue (trimOws ((line.dropWhile (· != 58)).drop 1)) with
        | none => .error .invalidTrailerField
        | some value => .ok (append trailers name value)

def parseTrailers (limits : Limits) (bytes : Bytes) : Parsed HeaderMap :=
  if bytes = crlf then .ok HeaderMap.empty
  else if (crlf ++ crlf).isSuffixOf bytes = false then .error .invalidTrailerField
  else do
    let fields := bytes.take (bytes.length - 4)
    validateRawFields fields limits.maxTrailerFields limits.maxTrailerFieldBytes .tooManyTrailers
      .trailerFieldTooLarge .invalidTrailerField
    (splitCrlf fields).foldlM parseTrailerLine HeaderMap.empty

/-! ## The line before a chunk -/

def hexDigit (byte : UInt8) : Option Nat :=
  if 48 ≤ byte ∧ byte ≤ 57 then some (byte.toNat - 48)
  else if 97 ≤ byte ∧ byte ≤ 102 then some (byte.toNat - 97 + 10)
  else if 65 ≤ byte ∧ byte ≤ 70 then some (byte.toNat - 65 + 10)
  else none

def skipExtensionValue : Bytes → Option Bytes
  | 61 :: assigned => (parseTokenOrQuoted assigned).map fun consumed => assigned.drop consumed
  | bytes => some bytes

theorem skipExtensionValue_length_le {bytes rest : Bytes} (h : skipExtensionValue bytes = some rest) :
    rest.length ≤ bytes.length := by
  unfold skipExtensionValue at h
  split at h
  · obtain ⟨consumed, -, rfl⟩ := Option.map_eq_some_iff.1 h
    rw [List.length_drop, List.length_cons]
    omega
  · rw [Option.some.inj h]

def validateChunkExtensions (bytes : Bytes) : Parsed Unit :=
  let name := bytes.takeWhile fun byte => byte != 61 && byte != 59
  if name = [] ∨ ¬ name.all isTokenByte = true then .error .invalidChunkExtension
  else
    match _hskip : skipExtensionValue (bytes.drop name.length) with
    | none => .error .invalidChunkExtension
    | some [] => .ok ()
    | some (59 :: next) => validateChunkExtensions next
    | some _ => .error .invalidChunkExtension
termination_by bytes.length
decreasing_by
  have hle := skipExtensionValue_length_le _hskip
  simp only [List.length_drop, List.length_cons] at hle
  omega

def parseChunkSizeLine (line : Bytes) (maxExtensionBytes : Nat) : Parsed Nat :=
  let size := line.takeWhile (· != 59)
  let extension := line.dropWhile (· != 59)
  if size = [] ∨ ¬ (size.all fun byte => (hexDigit byte).isSome) = true then .error .invalidChunkSize
  else
    match size.foldlM (fun parsed byte => (hexDigit byte).bind (pushDigit 16 parsed)) 0 with
    | none => .error .invalidChunkSize
    | some parsed =>
      match extension with
      | [] => .ok parsed
      | _ :: extension =>
        if maxExtensionBytes < extension.length then .error .chunkExtensionTooLarge
        else do
          validateChunkExtensions extension
          return parsed

end DirectH1
