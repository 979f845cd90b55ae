import OxiBelt.Lib.Bytes

/-!
# Base64

A codec of byte strings as visible text: `Base64` has the laws that are used of it.  `Base64.Standard` has them, with
the standard alphabet, padding where it is due and no bits behind the last byte.
-/

/-- An encoder of byte strings, four characters for three bytes, and its decoder. -/
class Base64 where
  encode : ByteString.Bytes → List Char
  decode : List Char → Option ByteString.Bytes
  decode_encode : ∀ bytes, decode (encode bytes) = some bytes
  encode_range : ∀ {bytes c}, c ∈ encode bytes → 43 ≤ c.toNat ∧ c.toNat ≤ 122
  encode_length : ∀ bytes, (encode bytes).length = (bytes.length + 2) / 3 * 4

namespace Base64.Standard

open ByteString

/-- The character for six bits: the upper case letters, the lower case letters, the digits, plus and slash. -/
def symbol (n : Nat) : Char :=
  Char.ofNat (if n < 26 then n + 65 else if n < 52 then n + 71 else if n < 62 then n - 4 else if n = 62 then 43 else 47)

def value (c : Char) : Option Nat :=
  let n := c.toNat
  if 65 ≤ n ∧ n ≤ 90 then some (n - 65)
  else if 97 ≤ n ∧ n ≤ 122 then some (n - 71)
  else if 48 ≤ n ∧ n ≤ 57 then some (n + 4)
  else if n = 43 then some 62
  else if n = 47 then some 63
  else none

def encode : Bytes → List Char
  | [] => []
  | [a] => [symbol (a.toNat / 4), symbol (a.toNat % 4 * 16), '=', '=']
  | [a, b] =>
    [symbol (a.toNat / 4), symbol (a.toNat % 4 * 16 + b.toNat / 16), symbol (b.toNat % 16 * 4), '=']
  | a :: b :: c :: rest =>
    symbol (a.toNat / 4) :: symbol (a.toNat % 4 * 16 + b.toNat / 16) ::
      symbol (b.toNat % 16 * 4 + c.toNat / 64) :: symbol (c.toNat % 64) :: encode rest

def decodePadded : List Char → Option Bytes
  | [x, y, '=', '='] => do
    let x ← value x
    let y ← value y
    if y % 16 = 0 then some [UInt8.ofNat (x * 4 + y / 16)] else none
  | [x, y, z, '='] => do
    let x ← value x
    let y ← value y
    let z ← value z
    if z % 4 = 0 then some [UInt8.ofNat (x * 4 + y / 16), UInt8.ofNat (y % 16 * 16 + z / 4)] else none
  | _ => none

def decode : List Char → Option Bytes
  | [] => some []
  | x :: y :: z :: w :: rest =>
    if w = '=' then decodePadded (x :: y :: z :: w :: rest)
    else do
      let x ← value x
      let y ← value y
      let z ← value z
      let w ← value w
      let bytes ← decode rest
      return UInt8.ofNat (x * 4 + y / 16) :: UInt8.ofNat (y % 16 * 16 + z / 4) :: UInt8.ofNat (z % 4 * 64 + w) :: bytes
  | _ => none

/-! ## Round trip -/

variable {n : Nat}

theorem value_symbol (h : n < 64) : value (symbol n) = some n := by
  have ha : ∀ n : Fin 64, value (symbol n) = some n.val := by decide
  exact ha ⟨n, h⟩

theorem symbol_ne_pad (h : n < 64) : symbol n ≠ '=' := by
  intro hp
  have hv := value_symbol h
  rw [hp] at hv
  cases hv

theorem ofNat_eq (a : UInt8) (h : n = a.toNat) : UInt8.ofNat n = a := by rw [h, UInt8.ofNat_toNat]

theorem decode_encode (bytes : Bytes) : decode (encode bytes) = some bytes := by
  induction bytes using encode.induct with
  | case1 => rfl
  | case2 a =>
    have ha := a.toNat_lt
    simp (disch := omega) only [encode, decode, decodePadded, if_true, value_symbol, Option.bind_eq_bind,
      Option.bind_some]
    rw [if_pos (by omega), ofNat_eq a (by omega)]
  | case3 a b =>
    have ha := a.toNat_lt
    have hb := b.toNat_lt
    simp only [encode, decode, if_true]
    rw [decodePadded.eq_2 _ _ _ (symbol_ne_pad (by omega))]
    simp (disch := omega) only [value_symbol, Option.bind_eq_bind, Option.bind_some]
    rw [if_pos (by omega), ofNat_eq a (by omega), ofNat_eq b (by omega)]
  | case4 a b c rest ih =>
    have ha := a.toNat_lt
    have hb := b.toNat_lt
    have hc := c.toNat_lt
    simp (disch := omega) only [encode, decode, ih, value_symbol, symbol_ne_pad, if_false, Option.bind_eq_bind,
      Option.bind_some, Option.pure_def]
    rw [ofNat_eq a (by omega), ofNat_eq b (by omega), ofNat_eq c (by omega)]

/-- Only letters, digits, plus, slash and the padding are written. -/
theorem encode_chars {bytes : Bytes} {c : Char} (h : c ∈ encode bytes) : (value c).isSome ∨ c = '=' := by
  have hs : ∀ n < 64, (value (symbol n)).isSome = true := fun n hn => by rw [value_symbol hn, Option.isSome_some]
  revert c
  show ∀ c ∈ encode bytes, (value c).isSome ∨ c = '='
  fun_induction encode bytes with
  | case1 => exact List.forall_mem_nil _
  | case2 a =>
    have ha := a.toNat_lt
    simp (disch := omega) [hs]
  | case3 a b =>
    have ha := a.toNat_lt
    have hb := b.toNat_lt
    simp (disch := omega) [hs]
  | case4 a b c rest ih =>
    have ha := a.toNat_lt
    have hb := b.toNat_lt
    have hc := c.toNat_lt
    simpa (disch := omega) [hs] using ih

theorem encode_range {bytes : Bytes} {c : Char} (h : c ∈ encode bytes) : 43 ≤ c.toNat ∧ c.toNat ≤ 122 := by
  obtain hs | rfl := encode_chars h
  · by_contra ho
    have hn : value c = none := by
      simp only [value]
      rw [if_neg (by omega), if_neg (by omega), if_neg (by omega), if_neg (by omega), if_neg (by omega)]
    rw [hn] at hs
    cases hs
  · decide

theorem encode_length (bytes : Bytes) : (encode bytes).length = (bytes.length + 2) / 3 * 4 := by
  induction bytes using encode.induct with
  | case1 => rfl
  | case2 | case3 => simp [encode]
  | case4 a b c rest ih =>
    simp only [encode, List.length_cons, ih]
    omega

instance : Base64 := ⟨encode, decode, decode_encode, encode_range, encode_length⟩

end Base64.Standard
