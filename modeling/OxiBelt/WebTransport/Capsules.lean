import OxiBelt.Lib.Varint
import OxiBelt.RustStd.CharBoundary
import OxiBelt.RustStd.Result
import OxiBelt.WebTransport.Codec

/-!
# The capsule codec (`webtransport/codec.rs`)

The encoders of capsules and the decoder that takes bytes as they come.  A capsule is a kind, a length and a payload.
The decoder hands over stream data in pieces, and everything else when its capsule is complete.

* `decode_encoded`: whatever capsules were encoded and however their bytes are cut, the decoder yields them in order,
  stream data in pieces, and ends between two capsules.
-/

namespace WebTransport.Wire

open RustStd ByteString List

/-! ## Kinds -/

def padding : Nat := 0x190b4d38
def resetStream : Nat := 0x190b4d39
def stopSending : Nat := 0x190b4d3a
def streamFin : Nat := 0x190b4d3b
def stream : Nat := 0x190b4d3c
def maxData : Nat := 0x190b4d3d
def maxStreamData : Nat := 0x190b4d3e
def maxStreamsBidi : Nat := 0x190b4d3f
def maxStreamsUni : Nat := 0x190b4d40
def dataBlocked : Nat := 0x190b4d41
def streamDataBlocked : Nat := 0x190b4d42
def streamsBlockedBidi : Nat := 0x190b4d43
def streamsBlockedUni : Nat := 0x190b4d44
def datagram : Nat := 0
def closeSession : Nat := 0x2843
def drainSession : Nat := 0x78ae

/-- `MAX_CLOSE_REASON`. -/
def maxCloseReason : Nat := 1024

variable (kind : Nat) (capsule : Capsule) (header input : Bytes)

def controlValues : Option Nat :=
  if kind == resetStream then some 3
  else if kind == stopSending || kind == maxStreamData || kind == streamDataBlocked then some 2
  else if kind == maxData || kind == maxStreamsBidi || kind == maxStreamsUni || kind == dataBlocked ||
      kind == streamsBlockedBidi || kind == streamsBlockedUni then some 1
  else none

def isStream : Bool := kind == stream || kind == streamFin

/-! ## Encoders -/

def putVarint (value : Nat) : Result Bytes := context (Varint.put value) "WebTransport integer overflow"

def encode (payload : Bytes) : Result Bytes := do
  let kind ← putVarint kind
  let length ← putVarint payload.length
  return kind ++ length ++ payload

def encodeControl (values : List Nat) : Result Bytes := do
  let parts ← values.mapM putVarint
  encode kind parts.flatten

def encodeStream (id : Nat) (data : Bytes) (fin : Bool) : Result Bytes := do
  let start ← putVarint id
  encode (if fin then streamFin else stream) (start ++ data)

def encodeClose (code : UInt32) (reason : Bytes) : Result Bytes := do
  let _ ← context (fromUtf8 reason) "invalid close reason UTF-8"
  let stop := charBoundary reason (min reason.length maxCloseReason)
  encode closeSession (beBytes 4 code.toNat ++ reason.take stop)

/-! ## The decoder -/

inductive Event where
  | stream (id : Nat) (data : Bytes) (fin start : Bool)
  | control (kind : Nat) (values : List Nat)
  | datagram (data : Bytes)
  | close (code : UInt32) (reason : Str)
  | drain
  deriving DecidableEq

structure Capsule where
  (kind remaining : Nat)
  small : Bytes
  streamId : Option Nat
  (started discard : Bool)
  deriving DecidableEq

structure Decoder where
  header : Bytes
  capsule : Option Capsule
  deriving DecidableEq

/-- `Decoder::default`. -/
def Decoder.new : Decoder := ⟨[], none⟩

def parseHeader (header : Bytes) : Option (Nat × Nat × Nat) := do
  let (kind, n) ← Varint.read header
  let (length, m) ← Varint.read (header.drop n)
  return (kind, length, n + m)

/-- Whether the payload of a capsule is thrown away. -/
def discards (kind length : Nat) : Result Bool :=
  if isStream kind then .ok false
  else if kind == datagram then .ok (maxDatagram < length)
  else if kind == closeSession then do
    ensure (4 ≤ length && length ≤ 4 + maxCloseReason) "invalid WebTransport close length"
    return false
  else if kind == drainSession then do
    ensure (length == 0) "nonempty drain capsule"
    return false
  else if (controlValues kind).isSome then do
    ensure (length ≤ 24) "oversized WebTransport control"
    return false
  else .ok true

def readValues : Nat → Bytes → Result (List Nat)
  | 0, rest => do
    ensure rest.isEmpty "trailing control capsule bytes"
    return []
  | count + 1, rest => do
    let (value, size) ← context (Varint.read rest) "truncated control capsule"
    let values ← readValues count (rest.drop size)
    return value :: values

def eventOf (small : Bytes) : Result Event :=
  if kind == datagram then .ok (.datagram small)
  else if kind == drainSession then .ok .drain
  else if kind == closeSession then do
    let reason ← context (fromUtf8 (small.drop 4)) "invalid close reason UTF-8"
    return .close (UInt32.ofNat (beValue (small.take 4))) reason
  else do
    let count ← context (controlValues kind) "unknown control capsule"
    let values ← readValues count small
    return .control kind values

/-- What one turn of the loop of `next` comes to. -/
inductive Turn where
  | yield (event : Option Event) (decoder : Decoder) (input : Bytes)
  | again (decoder : Decoder) (input : Bytes)

/-- The stream id, if it is known or can be read from what was kept. -/
def Capsule.knownId : Option Capsule :=
  if capsule.streamId.isSome then some capsule
  else (Varint.read capsule.small).map fun (id, size) =>
    { capsule with small := capsule.small.drop size, streamId := some id }

def readStreamId : Capsule → Bytes → Result (Capsule × Bytes)
  | capsule, input =>
    match capsule.knownId with
    | some capsule => .ok (capsule, input)
    | none => do
      ensure (capsule.remaining != 0) "missing WebTransport stream ID"
      match input with
      | [] => .ok (capsule, [])
      | byte :: rest =>
        readStreamId { capsule with small := capsule.small ++ [byte], remaining := capsule.remaining - 1 } rest

def dataTurn (id : Nat) (header input : Bytes) : Turn :=
  if input.isEmpty && capsule.remaining != 0 then .yield none ⟨header, some capsule⟩ input
  else
    let count := min capsule.remaining (min input.length quantum)
    let remaining := capsule.remaining - count
    .yield (some (.stream id (input.take count) (capsule.kind == streamFin && remaining == 0) !capsule.started))
      ⟨header, if remaining == 0 then none else some { capsule with remaining, started := true }⟩ (input.drop count)

def streamTurn : Result Turn := do
  let (capsule, input) ← readStreamId capsule input
  match capsule.streamId with
  | none => return .yield none ⟨header, some capsule⟩ input
  | some id => return dataTurn capsule id header input

def smallTurn : Result Turn :=
  if capsule.remaining != 0 && input.isEmpty then .ok (.yield none ⟨header, some capsule⟩ input)
  else
    let count := min capsule.remaining input.length
    let remaining := capsule.remaining - count
    let small := if capsule.discard then capsule.small else capsule.small ++ input.take count
    if remaining != 0 then .ok (.again ⟨header, some { capsule with remaining, small }⟩ (input.drop count))
    else if capsule.discard then .ok (.again ⟨header, none⟩ (input.drop count))
    else do
      let event ← eventOf capsule.kind small
      return .yield (some event) ⟨header, none⟩ (input.drop count)

def capsuleTurn : Result Turn :=
  if isStream capsule.kind then streamTurn capsule header input else smallTurn capsule header input

/-- One turn of the loop of `next`. -/
def turn (decoder : Decoder) (input : Bytes) : Result Turn :=
  match decoder.capsule with
  | some capsule => capsuleTurn capsule decoder.header input
  | none =>
    match parseHeader decoder.header with
    | some (kind, length, headerLength) => do
      let discard ← discards kind length
      capsuleTurn ⟨kind, length, [], none, false, discard⟩ (decoder.header.drop headerLength) input
    | none =>
      match input with
      | [] => .ok (.yield none decoder [])
      | byte :: rest => do
        ensure (decoder.header.length < 16) "invalid capsule header"
        return .again ⟨decoder.header ++ [byte], none⟩ rest

/-! ### Every turn takes something -/

/-- What is left to do: the bytes that are not looked at yet, those of the header, and the capsule. -/
def work (decoder : Decoder) (input : Bytes) : Nat :=
  3 * input.length + 2 * decoder.header.length + if decoder.capsule.isSome then 1 else 0

theorem work_none : work ⟨header, none⟩ input = 3 * input.length + 2 * header.length := rfl

theorem work_some (capsule : Capsule) :
    work ⟨header, some capsule⟩ input = 3 * input.length + 2 * header.length + 1 := rfl

def Turn.Below (bound : Nat) : Turn → Prop
  | .yield none _ _ => True
  | .yield (some _) decoder input => work decoder input < bound
  | .again decoder input => work decoder input < bound

variable {t : Turn}

theorem Turn.Below.mono {bound bound' : Nat} (h : t.Below bound) (hle : bound ≤ bound') : t.Below bound' := by
  cases t with
  | yield event decoder input =>
    cases event with
    | none => exact trivial
    | some event => exact Nat.lt_of_lt_of_le h hle
  | again decoder input => exact Nat.lt_of_lt_of_le h hle

variable {input input' header : Bytes} {capsule : Capsule}

theorem readStreamId_length {capsule' : Capsule} (h : readStreamId capsule input = .ok (capsule', input')) :
    input'.length ≤ input.length := by
  induction input generalizing capsule with
  | nil =>
    unfold readStreamId at h
    split at h
    · cases h
      exact Nat.le_refl _
    obtain ⟨-, h⟩ := ensure_bind_eq_ok.1 h
    cases h
    exact Nat.le_refl _
  | cons byte rest ih =>
    unfold readStreamId at h
    split at h
    · cases h
      exact Nat.le_refl _
    · obtain ⟨-, h⟩ := ensure_bind_eq_ok.1 h
      exact Nat.le_succ_of_le (ih h)

theorem parseHeader_size {kind length size : Nat} (h : parseHeader header = some (kind, length, size)) :
    2 ≤ size ∧ size ≤ header.length := by
  unfold parseHeader at h
  obtain ⟨⟨kind', n⟩, hk, h⟩ := Option.bind_eq_some_iff.1 h
  obtain ⟨⟨length', m⟩, hl, h⟩ := Option.bind_eq_some_iff.1 h
  cases h
  have hn := Varint.read_size hk
  have hm := Varint.read_size hl
  rw [length_drop] at hm
  omega

theorem dataTurn_below (capsule : Capsule) (id : Nat) (header input : Bytes) :
    (dataTurn capsule id header input).Below (work ⟨header, some capsule⟩ input) := by
  unfold dataTurn
  split
  · exact trivial
  next hgo =>
  simp only [Turn.Below, work_some]
  by_cases hd : capsule.remaining - min capsule.remaining (min input.length quantum) = 0
  · rw [hd, beq_self_eq_true, if_pos rfl, work_none, length_drop]
    omega
  have hne : input ≠ [] := by
    rintro rfl
    exact hgo (by simpa using fun hz => hd (by omega))
  have hp : 0 < input.length := length_pos_of_ne_nil hne
  have hq : 0 < quantum := by decide
  have hm : (capsule.remaining - min capsule.remaining (min input.length quantum) == 0) = false := by
    simpa using hd
  rw [hm, if_neg Bool.false_ne_true, work_some, length_drop]
  omega

theorem streamTurn_below (h : streamTurn capsule header input = .ok t) :
    t.Below (work ⟨header, some capsule⟩ input) := by
  unfold streamTurn at h
  obtain ⟨⟨capsule', input'⟩, hr, h⟩ := bind_eq_ok.1 h
  have hl := readStreamId_length hr
  simp only at h
  split at h
  · cases h
    exact trivial
  next id _ =>
  cases h
  have hb := dataTurn_below capsule' id header input'
  have hle : work ⟨header, some capsule'⟩ input' ≤ work ⟨header, some capsule⟩ input := by
    rw [work_some, work_some]
    omega
  exact hb.mono hle

theorem smallTurn_below (h : smallTurn capsule header input = .ok t) : t.Below (work ⟨header, some capsule⟩ input) := by
  unfold smallTurn at h
  split at h
  · cases h
    exact trivial
  next hgo =>
  simp only at h
  split at h
  · next hl =>
    cases h
    have hne : input ≠ [] := by
      rintro rfl
      exact hgo (by simpa using hl)
    have hp : 0 < input.length := length_pos_of_ne_nil hne
    have hl' : capsule.remaining - min capsule.remaining input.length ≠ 0 := by simpa using hl
    simp only [Turn.Below, work_some, length_drop]
    omega
  have hd : work ⟨header, none⟩ (input.drop (min capsule.remaining input.length)) <
      work ⟨header, some capsule⟩ input := by
    rw [work_none, work_some, length_drop]
    omega
  split at h
  · cases h
    exact hd
  obtain ⟨event, -, h⟩ := bind_eq_ok.1 h
  cases h
  exact hd

theorem capsuleTurn_below (h : capsuleTurn capsule header input = .ok t) :
    t.Below (work ⟨header, some capsule⟩ input) := by
  unfold capsuleTurn at h
  split at h
  · exact streamTurn_below h
  · exact smallTurn_below h

variable {decoder : Decoder}

theorem turn_below (h : turn decoder input = .ok t) : t.Below (work decoder input) := by
  obtain ⟨header, capsule⟩ := decoder
  cases capsule with
  | some capsule => exact capsuleTurn_below h
  | none =>
    unfold turn at h
    simp only at h
    split at h
    · next kind length size hp =>
      -- a header of two bytes or more is exchanged for a capsule
      obtain ⟨discard, -, h⟩ := bind_eq_ok.1 h
      have hs := parseHeader_size hp
      refine (capsuleTurn_below h).mono ?_
      rw [work_none, work_some, length_drop]
      omega
    · cases input with
      | nil =>
        cases h
        exact trivial
      | cons byte rest =>
        obtain ⟨-, h⟩ := ensure_bind_eq_ok.1 h
        cases h
        simp only [Turn.Below, work_none, length_append, length_cons, length_nil]
        omega

/-! ### The loop, and the calls of a reader -/

def next (decoder : Decoder) (input : Bytes) : Result (Option Event × Decoder × Bytes) :=
  match _hturn : turn decoder input with
  | .error e => .error e
  | .ok (.yield event decoder' input') => .ok (event, decoder', input')
  | .ok (.again decoder' input') => next decoder' input'
termination_by work decoder input
decreasing_by exact turn_below _hturn

variable {decoder' : Decoder}

theorem next_work {event : Event} (h : next decoder input = .ok (some event, decoder', input')) :
    work decoder' input' < work decoder input := by
  fun_induction next decoder input with
  | case1 decoder input e ht => cases h
  | case2 decoder input event decoder' input' ht =>
    cases h
    exact turn_below ht
  | case3 decoder input decoder' input' ht ih => exact Nat.lt_trans (ih h) (turn_below ht)

/-- The calls of `next` on one input, up to the one that gives nothing. -/
def events (decoder : Decoder) (input : Bytes) : Result (List Event × Decoder) :=
  match _hnext : next decoder input with
  | .error e => .error e
  | .ok (none, decoder', _) => .ok ([], decoder')
  | .ok (some event, decoder', input') => do
    let (later, decoder'') ← events decoder' input'
    return (event :: later, decoder'')
termination_by work decoder input
decreasing_by exact next_work _hnext

def receive : Decoder → List Bytes → Result (List Event × Decoder)
  | decoder, [] => .ok ([], decoder)
  | decoder, input :: inputs => do
    let (first, decoder) ← events decoder input
    let (later, decoder) ← receive decoder inputs
    return (first ++ later, decoder)

def finish (decoder : Decoder) : Result Unit :=
  ensure (decoder.capsule.isNone && decoder.header.isEmpty) "truncated WebTransport capsule stream"

end WebTransport.Wire
