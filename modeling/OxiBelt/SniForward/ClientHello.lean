import OxiBelt.Lib.Codec
import OxiBelt.RustStd.Result

/-!
# The server name of a ClientHello (`sni_forward/client_hello.rs`)

The parser reads a handshake message down to the server name extension.  A `ByteCursor` is what is left of its data; the
sum of its offset and a length cannot overflow, because a length has at most three bytes.
-/

namespace SniForward

open RustStd Codec ByteString

/-- `TLS_HANDSHAKE_CLIENT_HELLO`. -/
def tlsHandshakeClientHello : Nat := 0x01

/-- `TLS_EXTENSION_SERVER_NAME`. -/
def tlsExtensionServerName : Nat := 0x0000

/-- `TLS_NAME_TYPE_HOST_NAME`. -/
def tlsNameTypeHostName : Nat := 0x00

namespace ByteCursor

def truncated : Str := "truncated TLS ClientHello"

def take (length : Nat) : Reader Str Bytes := Codec.take truncated length

def readU8 : Reader Str Nat := natural truncated 1

def readU16 : Reader Str Nat := natural truncated 2

def readU24 : Reader Str Nat := natural truncated 3

def remaining : Reader Str Nat := fun data => .ok (data.length, data)

def require (holds : Bool) (message : String) : Reader Str Unit := fun data => do
  ensure holds message
  return ((), data)

/-- What the parser does with a cursor over some data. -/
def parse {α : Type} (reader : Reader Str α) (data : Bytes) : Result α := do
  let (value, _) ← reader data
  return value

end ByteCursor

open ByteCursor

/-! ## Names -/

def isAsciiControlByte (byte : UInt8) : Bool := byte < 32 || byte == 127

def isAsciiAlphanumericByte (byte : UInt8) : Bool :=
  (48 ≤ byte && byte ≤ 57) || (65 ≤ byte && byte ≤ 90) || (97 ≤ byte && byte ≤ 122)

def normalizeSniPattern (pattern : Str) : Str := toAsciiLowercase (trimEndMatches (· == '.') pattern)

def normalizeVisibleSni (value : Str) : Result Str := do
  ensure (trim value == value && !value.isEmpty) "SNI must not be empty or padded"
  ensure (!(asBytes value).any isAsciiControlByte) "SNI contains a control character"
  ensure ((asBytes value).all fun byte => isAsciiAlphanumericByte byte || byte == 46 || byte == 45)
    "SNI contains invalid characters"
  return normalizeSniPattern value

/-! ## The two lists -/

/-- A type of so many bytes and a body behind its length. -/
def readTyped (width : Nat) : Reader Str (Nat × Bytes) := do
  let type ← natural truncated width
  let length ← readU16
  let body ← take length
  return (type, body)

theorem readTyped_length {width type : Nat} {data body rest : Bytes}
    (h : readTyped width data = .ok ((type, body), rest)) : rest.length < data.length := by
  rw [readTyped, Reader.bind_eq] at h
  obtain ⟨_, afterType, ht, h⟩ := h
  obtain ⟨length, afterLength, hl, h⟩ := Reader.bind_eq.1 h
  obtain ⟨_, afterBody, hb, h⟩ := Reader.bind_eq.1 h
  cases h
  have h1 := natural_length ht
  have h2 := natural_length hl
  have h3 := take_length hb
  omega

def parseNames (sni : Option Str) (names : Bytes) : Result (Option Str) :=
  if names.isEmpty then .ok sni
  else
    match _hread : readTyped 1 names with
    | .error e => .error e
    | .ok ((nameType, name), rest) =>
      if nameType == tlsNameTypeHostName then do
        ensure sni.isNone "duplicate TLS host_name entry"
        let value ← context (fromUtf8 name) "SNI is not valid UTF-8"
        let normalized ← normalizeVisibleSni value
        parseNames (some normalized) rest
      else parseNames sni rest
termination_by names.length
decreasing_by all_goals exact readTyped_length _hread

def parseServerNameExtensionSni : Bytes → Result (Option Str) := parse do
  let listLength ← readU16
  let names ← take listLength
  let left ← remaining
  require (left == 0) "unexpected trailing data after TLS server_name list"
  let sni ← (parseNames none names : Result (Option Str))
  return sni

def parseExtensions (sawServerName : Bool) (sni : Option Str) (extensions : Bytes) : Result (Option Str) :=
  if extensions.isEmpty then .ok sni
  else
    match _hread : readTyped 2 extensions with
    | .error e => .error e
    | .ok ((extensionType, extension), rest) =>
      if extensionType == tlsExtensionServerName then do
        ensure (!sawServerName) "duplicate TLS server_name extension"
        let sni ← parseServerNameExtensionSni extension
        parseExtensions true sni rest
      else parseExtensions sawServerName sni rest
termination_by extensions.length
decreasing_by all_goals exact readTyped_length _hread

/-! ## The message -/

def parseClientHelloBodySni : Bytes → Result (Option Str) := parse do
  let _legacyVersion ← take 2
  let _random ← take 32
  let sessionIdLength ← readU8
  require (sessionIdLength ≤ 32) "invalid TLS session ID length"
  let _sessionId ← take sessionIdLength
  let cipherSuitesLength ← readU16
  require (0 < cipherSuitesLength && cipherSuitesLength % 2 == 0) "invalid TLS cipher suite vector length"
  let _cipherSuites ← take cipherSuitesLength
  let compressionMethodsLength ← readU8
  let _compressionMethods ← take compressionMethodsLength
  let left ← remaining
  if left == 0 then return none
  let extensionsLength ← readU16
  let extensions ← take extensionsLength
  let left ← remaining
  require (left == 0) "unexpected trailing data after TLS ClientHello extensions"
  let sni ← (parseExtensions false none extensions : Result (Option Str))
  return sni

def parseRawClientHelloSni : Bytes → Result (Option Str) := parse do
  let handshakeType ← readU8
  require (handshakeType == tlsHandshakeClientHello) "expected TLS ClientHello handshake"
  let bodyLength ← readU24
  let body ← take bodyLength
  let sni ← (parseClientHelloBodySni body : Result (Option Str))
  return sni

def rawClientHelloSni (data : Bytes) : Result (Option Str) :=
  (parseRawClientHelloSni data).mapError fun _ => "invalid TLS ClientHello"

end SniForward
