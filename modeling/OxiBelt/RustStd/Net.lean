import OxiBelt.RustStd.Text

/-!
# IP addresses of the Rust standard library

`core::net::parser` reads an address with small parsers that give back the unread text; a parser
that fails leaves its input where it was.  An address text is accepted only when nothing is left.
-/

namespace RustStd

/-- `IpAddr`; an IPv6 address is kept as its eight 16-bit groups. -/
inductive IpAddr
  | v4 (bits : BitVec 32)
  | v6 (bits : BitVec 128)
  deriving DecidableEq, Repr

structure SocketAddr where
  ip : IpAddr
  port : Nat
  deriving DecidableEq, Repr

abbrev Parser (β : Type) := Str → Option (β × Str)

def readGivenChar (c : Char) : Parser Unit
  | x :: rest => if x = c then some ((), rest) else none
  | [] => none

/-- The maximal run of digits, its value and its length. -/
def readDigits (radix : Nat) : Nat → Nat → Str → Nat × Nat × Str
  | acc, count, [] => (acc, count, [])
  | acc, count, c :: cs =>
    match toDigit radix c with
    | none => (acc, count, c :: cs)
    | some d => readDigits radix (acc * radix + d) (count + 1) cs

/-- `read_number`: between one and `maxDigits` digits, a value of at most `max`, and no leading zero
before another digit unless `allowZeroPrefix`. -/
def readNumber (radix maxDigits max : Nat) (allowZeroPrefix : Bool) : Parser Nat := fun s =>
  let (value, count, rest) := readDigits radix 0 0 s
  if count > maxDigits || value > max || count == 0 then none
  else if !allowZeroPrefix && s.head? == some '0' && count > 1 then none
  else some (value, rest)

/-- `read_separator`: the separator comes before every element but the first. -/
def readSeparator {β : Type} (sep : Char) (index : Nat) (inner : Parser β) : Parser β := fun s =>
  if index > 0 then
    match readGivenChar sep s with
    | none => none
    | some (_, rest) => inner rest
  else inner s

def readOctets : Nat → Nat → Parser (List Nat)
  | 0, _ => fun s => some ([], s)
  | n + 1, index => fun s =>
    match readSeparator '.' index (readNumber 10 3 255 false) s with
    | none => none
    | some (octet, rest) =>
      match readOctets n (index + 1) rest with
      | none => none
      | some (octets, rest) => some (octet :: octets, rest)

def readIpv4Octets : Parser (List Nat) := readOctets 4 0

/-- `read_groups`: up to `limit` colon-separated groups, the last two possibly written as an IPv4
address (then the flag is set).  It stops at the first thing that is not a group. -/
def readGroups (limit : Nat) : Nat → Nat → Str → List Nat × Bool × Str
  | 0, _, s => ([], false, s)
  | n + 1, index, s =>
    let ipv4 := if index + 1 < limit then readSeparator ':' index readIpv4Octets s else none
    match ipv4 with
    | some ([a, b, c, d], rest) => ([a * 256 + b, c * 256 + d], true, rest)
    | _ =>
      match readSeparator ':' index (readNumber 16 4 65535 true) s with
      | none => ([], false, s)
      | some (group, rest) =>
        let (groups, embedded, rest) := readGroups limit n (index + 1) rest
        (group :: groups, embedded, rest)

def bitsOfGroups (width : Nat) (groups : List Nat) : Nat := groups.foldl (fun acc g => acc * 2 ^ width + g) 0

def readIpv6Groups : Parser (List Nat) := fun s =>
  let (head, embedded, rest) := readGroups 8 8 0 s
  if head.length = 8 then some (head, rest)
  else if embedded then none
  else
    match readGivenChar ':' rest with
    | none => none
    | some (_, rest) =>
      match readGivenChar ':' rest with
      | none => none
      | some (_, rest) =>
        let limit := 8 - (head.length + 1)
        let (tail, _, rest) := readGroups limit limit 0 rest
        some (head ++ List.replicate (8 - head.length - tail.length) 0 ++ tail, rest)

/-- `read_ip_addr`: IPv4 first, IPv6 only when that fails. -/
def readIpAddr : Parser IpAddr := fun s =>
  match readIpv4Octets s with
  | some (octets, rest) => some (.v4 (BitVec.ofNat 32 (bitsOfGroups 8 octets)), rest)
  | none =>
    match readIpv6Groups s with
    | some (groups, rest) => some (.v6 (BitVec.ofNat 128 (bitsOfGroups 16 groups)), rest)
    | none => none

/-- `str::parse::<IpAddr>`. -/
def parseIpAddr (s : Str) : Option IpAddr :=
  match readIpAddr s with
  | some (ip, []) => some ip
  | _ => none

/-! ## Display -/

def octetsOf (bits : BitVec 32) : List Nat :=
  [24, 16, 8, 0].map fun shift => (bits.toNat >>> shift) % 256

def groupsOf (bits : BitVec 128) : List Nat :=
  [112, 96, 80, 64, 48, 32, 16, 0].map fun shift => (bits.toNat >>> shift) % 65536

def displayIpv4 (bits : BitVec 32) : Str :=
  ['.'].intercalate ((octetsOf bits).map decimal)

def longestZeroRun (groups : List Nat) : Nat × Nat :=
  let step := fun (acc : (Nat × Nat) × (Nat × Nat)) (entry : Nat × Nat) =>
    let (longest, current) := acc
    if entry.2 = 0 then
      let current := if current.2 = 0 then (entry.1, 1) else (current.1, current.2 + 1)
      (if current.2 > longest.2 then current else longest, current)
    else (longest, (0, 0))
  ((((List.range groups.length).zip groups).foldl step ((0, 0), (0, 0)))).1

def displayGroups (groups : List Nat) : Str := [':'].intercalate (groups.map hexadecimal)

def displayIpv6 (bits : BitVec 128) : Str :=
  let groups := groupsOf bits
  if groups.take 6 = [0, 0, 0, 0, 0, 0xffff] then
    "::ffff:" ++ displayIpv4 (BitVec.ofNat 32 bits.toNat)
  else
    let (start, len) := longestZeroRun groups
    if len > 1 then displayGroups (groups.take start) ++ "::" ++ displayGroups (groups.drop (start + len))
    else displayGroups groups

/-- `IpAddr::to_string`. -/
def IpAddr.display : IpAddr → Str
  | .v4 bits => displayIpv4 bits
  | .v6 bits => displayIpv6 bits

end RustStd
