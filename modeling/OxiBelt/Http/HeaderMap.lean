import OxiBelt.Lib.Bytes
import OxiBelt.RustStd.Text

/-!
# Header maps of the `http` crate

A header map keeps its field lines in the order they were added.  Names are in lower case; a value
is a byte string without control characters other than tab, which the structure carries.  Bytes
above 127 are allowed in a value, but `toStr` refuses them.
-/

namespace Http

open RustStd ByteString List

/-- The bytes `HeaderValue::from_bytes` accepts. -/
def isValueByte (b : UInt8) : Bool := (32 ≤ b && b != 127) || b == 9

def isVisibleAscii (b : UInt8) : Bool := (32 ≤ b && b < 127) || b == 9

structure HeaderValue where
  bytes : Bytes
  valid : bytes.all isValueByte = true
  deriving DecidableEq

def charOfByte (b : UInt8) : Char := Char.ofNat b.toNat

def byteOfChar (c : Char) : UInt8 := UInt8.ofNat c.toNat

def textOfBytes (bytes : Bytes) : Str := bytes.map charOfByte

namespace HeaderValue

/-- `HeaderValue::from_static` on ASCII text. -/
def ofText (text : String) (valid : (text.toList.map byteOfChar).all isValueByte = true) :
    HeaderValue :=
  ⟨text.toList.map byteOfChar, valid⟩

/-- `HeaderValue::to_str` fails on a byte that is not visible ASCII. -/
def toStr (v : HeaderValue) : Option Str :=
  if v.bytes.all isVisibleAscii then some (textOfBytes v.bytes) else none

theorem toStr_eq_some {v : HeaderValue} {s : Str} :
    v.toStr = some s ↔ v.bytes.all isVisibleAscii = true ∧ s = textOfBytes v.bytes := by
  unfold toStr
  split
  · next h => simp [h, eq_comm]
  · next h => simp [h]

theorem toStr_eq_none {v : HeaderValue} : v.toStr = none ↔ ¬ v.bytes.all isVisibleAscii = true := by
  unfold toStr
  split
  · next h => simp [h]
  · next h => simp [h]

/-- One field line extended with a comma and a further element. -/
def extend (v e : HeaderValue) : HeaderValue where
  bytes := v.bytes ++ 44 :: e.bytes
  valid := by
    rw [all_append, all_cons, v.valid, e.valid]
    decide

theorem toStr_extend (v e : HeaderValue) : (v.extend e).toStr =
      match v.toStr, e.toStr with
      | some s, some t => some (s ++ ',' :: t)
      | _, _ => none := by
  unfold toStr extend
  simp only [all_append, all_cons]
  have hc : isVisibleAscii 44 = true := by decide
  have hch : charOfByte 44 = ',' := by decide
  rw [hc]
  by_cases hv : v.bytes.all isVisibleAscii = true <;>
    by_cases he : e.bytes.all isVisibleAscii = true <;>
    simp [hv, he, textOfBytes, hch]

end HeaderValue

/-- The characters of a header name in lower case. -/
def isNameChar (c : Char) : Bool :=
  isAsciiDigit c || isAsciiLowercase c || "!#$%&'*+-.^_`|~".toList.contains c

/-- The names `HeaderName::from_bytes` accepts, after its change to lower case. -/
def isHeaderName (name : Str) : Bool :=
  !name.isEmpty && name.length < 2 ^ 16 && name.all isNameChar

/-- Field lines as (name, value), in order. -/
structure HeaderMap where
  entries : List (Str × HeaderValue)
  names : (entries.all fun entry => isHeaderName entry.1) = true
  deriving DecidableEq

namespace HeaderMap

def empty : HeaderMap := ⟨[], rfl⟩

variable (m : HeaderMap) (name : Str)

/-- `get_all`: the values of the field lines with this name, in order. -/
def getAll : List HeaderValue :=
  (m.entries.filter fun entry => entry.1 == name).map (·.2)

/-- `get`: the value of the first field line with this name. -/
def get : Option HeaderValue :=
  (m.entries.find? fun entry => entry.1 == name).map (·.2)

def containsKey : Bool := m.entries.any fun entry => entry.1 == name

def isEmpty (m : HeaderMap) : Bool := m.entries.isEmpty

/-- The field lines that pass a test. -/
def filter (m : HeaderMap) (keep : Str × HeaderValue → Bool) : HeaderMap where
  entries := m.entries.filter keep
  names := by
    have h := m.names
    rw [all_eq_true] at h ⊢
    exact fun entry he => h entry (mem_filter.1 he).1

/-- `remove`: all field lines with this name go. -/
def remove : HeaderMap := m.filter fun entry => entry.1 != name

/-- `get` reads the first of the lines that `getAll` lists. -/
theorem get_eq_head? : m.get name = (m.getAll name).head? := by
  unfold get getAll
  rw [head?_map, head?_filter]

theorem containsKey_iff : m.containsKey name = true ↔ m.getAll name ≠ [] := by
  unfold containsKey getAll
  rw [any_eq_true, Ne, map_eq_nil_iff, filter_eq_nil_iff]
  push Not
  rfl

theorem getAll_of_not_name {name : Str} (h : isHeaderName name = false) : m.getAll name = [] := by
  unfold getAll
  rw [map_eq_nil_iff, filter_eq_nil_iff]
  intro entry he hn
  have hv := all_eq_true.1 m.names entry he
  rw [beq_iff_eq] at hn
  simp [hn, h] at hv

theorem getAll_filter (keep : Str → HeaderValue → Bool) (name : Str) :
    (m.filter fun entry => keep entry.1 entry.2).getAll name = (m.getAll name).filter (keep name) := by
  unfold getAll filter
  simp only [filter_filter, filter_map]
  congr 1
  apply filter_congr
  intro entry _
  by_cases hn : entry.1 = name
  · simp [hn, Bool.and_comm]
  · have hne : (entry.1 == name) = false := beq_eq_false_iff_ne.2 hn
    simp [hne]

theorem getAll_remove (removed name : Str) :
    (m.remove removed).getAll name = if name == removed then [] else m.getAll name := by
  have h := m.getAll_filter (fun entryName _ => entryName != removed) name
  refine Eq.trans h ?_
  by_cases heq : name = removed
  · simp [heq]
  · simp [heq]

theorem getAll_foldl_remove (names : List Str) (m : HeaderMap) (name : Str) :
    (names.foldl remove m).getAll name = if names.contains name then [] else m.getAll name := by
  induction names generalizing m with
  | nil => rfl
  | cons removed names ih =>
    rw [foldl_cons, ih, getAll_remove, contains_cons]
    by_cases hin : names.contains name = true
    · rw [if_pos hin, if_pos (by rw [hin, Bool.or_true])]
    · rw [Bool.not_eq_true] at hin
      simp only [hin, Bool.or_false, Bool.false_eq_true, if_false]

end HeaderMap

end Http
