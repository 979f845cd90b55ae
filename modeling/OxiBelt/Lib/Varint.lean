import OxiBelt.Lib.Layout

/-!
# Variable-length integers

The two top bits of the first byte say how many bytes the number takes: one, two, four or eight.  A number that was
written is read off the front of any bytes (`read_append`), and not before its last byte is there (`read_strict`).
-/

namespace Varint

open ByteString List

/-- The greatest number that can be written. -/
def max : Nat := 2 ^ 62 - 1

def read : Bytes → Option (Nat × Nat)
  | [] => none
  | first :: rest =>
    let size := 2 ^ (first.toNat / 64)
    if rest.length + 1 < size then none
    else some ((rest.take (size - 1)).foldl (fun value byte => value * 256 + byte.toNat) (first.toNat % 64), size)

def put (value : Nat) : Option Bytes :=
  if value < 2 ^ 6 then some [UInt8.ofNat value]
  else if value < 2 ^ 14 then some (beBytes 2 (value ||| 0x4000))
  else if value < 2 ^ 30 then some (beBytes 4 (value ||| 0x80000000))
  else if value ≤ max then some (beBytes 8 (value ||| 0xc000000000000000))
  else none

/-! ## One form for the four sizes -/

/-- A number in `2 ^ tag` bytes. -/
def tagged (tag value : Nat) : Bytes :=
  UInt8.ofNat (tag * 64 + value / 256 ^ (2 ^ tag - 1)) :: beBytes (2 ^ tag - 1) (value % 256 ^ (2 ^ tag - 1))

theorem beBytes_mod (width n : Nat) : beBytes width (n % 256 ^ width) = beBytes width n := by
  induction width generalizing n with
  | zero => rfl
  | succ width ih => rw [beBytes, beBytes, pow_succ', Nat.mod_mul_right_mod, Nat.mod_mul_right_div_self, ih]

theorem beBytes_succ (width n : Nat) :
    beBytes (width + 1) n = UInt8.ofNat (n / 256 ^ width % 256) :: beBytes width n := by
  induction width generalizing n with
  | zero => simp [beBytes]
  | succ width ih =>
    have hl : beBytes (width + 1) n = beBytes width (n / 256) ++ [UInt8.ofNat (n % 256)] := rfl
    rw [beBytes, ih, cons_append, ← hl, Nat.div_div_eq_div_mul, ← pow_succ']

variable {value : Nat} {bytes : Bytes}

theorem beBytes_tagged (tag width : Nat) (ht : tag ≤ 3) (h : value < 64 * 256 ^ width) :
    beBytes (width + 1) (value + 256 ^ width * (tag * 64)) =
      UInt8.ofNat (tag * 64 + value / 256 ^ width) :: beBytes width (value % 256 ^ width) := by
  have hp : 0 < 256 ^ width := Nat.pow_pos (by decide)
  have hd : value / 256 ^ width < 64 := Nat.div_lt_of_lt_mul (by rwa [Nat.mul_comm])
  rw [beBytes_succ, Nat.add_mul_div_left _ _ hp, Nat.mod_eq_of_lt (by omega), Nat.add_comm, ← beBytes_mod width,
    Nat.add_mul_mod_self_left]

theorem or_eq_add {bits : Nat} (h : value < 2 ^ bits) (tag : Nat) :
    value ||| 2 ^ bits * tag = value + 2 ^ bits * tag := by
  rw [Nat.or_comm, ← Nat.two_pow_add_eq_or_of_lt h, Nat.add_comm]

theorem put_eq (h : put value = some bytes) :
    ∃ tag, tag ≤ 3 ∧ value < 64 * 256 ^ (2 ^ tag - 1) ∧ bytes = tagged tag value := by
  unfold put at h
  split at h
  · next hs =>
    cases h
    exact ⟨0, by decide, by simpa using hs, by simp [tagged, beBytes]⟩
  split at h
  · next hlt =>
    cases h
    refine ⟨1, by decide, hlt, ?_⟩
    rw [show (0x4000 : Nat) = 2 ^ 14 * 1 from rfl, or_eq_add hlt]
    exact beBytes_tagged 1 1 (by decide) hlt
  split at h
  · next hlt =>
    cases h
    refine ⟨2, by decide, hlt, ?_⟩
    rw [show (0x80000000 : Nat) = 2 ^ 30 * 2 from rfl, or_eq_add hlt]
    exact beBytes_tagged 2 3 (by decide) hlt
  split at h
  · next hle =>
    cases h
    have hlt : value < 2 ^ 62 := Nat.lt_of_le_of_lt hle (by decide)
    refine ⟨3, by decide, hlt, ?_⟩
    rw [show (0xc000000000000000 : Nat) = 2 ^ 62 * 3 from rfl, or_eq_add hlt]
    exact beBytes_tagged 3 7 (by decide) hlt
  · cases h

theorem tagged_length (tag value : Nat) : (tagged tag value).length = 2 ^ tag := by
  have hp : 0 < 2 ^ tag := Nat.two_pow_pos tag
  rw [tagged, length_cons, beBytes_length]
  omega

/-! ## Reading back -/

theorem foldl_beValue (bytes : Bytes) (acc : Nat) :
    bytes.foldl (fun value byte => value * 256 + byte.toNat) acc = acc * 256 ^ bytes.length + beValue bytes := by
  induction bytes using reverseRecOn with
  | nil => simp [beValue]
  | append_singleton bytes byte ih =>
    rw [foldl_append, ih, foldl_cons, foldl_nil, beValue_concat, length_append, length_singleton, pow_succ]
    ring

/-- The first byte of a number in `2 ^ tag` bytes. -/
theorem tagged_first {tag : Nat} (ht : tag ≤ 3) (h : value < 64 * 256 ^ (2 ^ tag - 1)) :
    (UInt8.ofNat (tag * 64 + value / 256 ^ (2 ^ tag - 1))).toNat / 64 = tag ∧
      (UInt8.ofNat (tag * 64 + value / 256 ^ (2 ^ tag - 1))).toNat % 64 = value / 256 ^ (2 ^ tag - 1) := by
  have hd : value / 256 ^ (2 ^ tag - 1) < 64 := Nat.div_lt_of_lt_mul (by rwa [Nat.mul_comm])
  generalize value / 256 ^ (2 ^ tag - 1) = high at hd
  rw [UInt8.toNat_ofNat', Nat.mod_eq_of_lt (by omega)]
  omega

theorem read_append (h : put value = some bytes) (rest : Bytes) :
    read (bytes ++ rest) = some (value, bytes.length) := by
  obtain ⟨tag, htg, hlt, rfl⟩ := put_eq h
  obtain ⟨hs, hh⟩ := tagged_first htg hlt
  have hp : 0 < 2 ^ tag := Nat.two_pow_pos tag
  rw [tagged_length, tagged, cons_append, read]
  simp only [hs, hh, take_left' (beBytes_length _ _)]
  rw [if_neg (by rw [length_append, beBytes_length]; omega), foldl_beValue, beBytes_length,
    beValue_beBytes (Nat.mod_lt _ (Nat.pow_pos (by decide))), Nat.mul_comm, Nat.div_add_mod]

theorem read_strict {part : Bytes} (h : put value = some bytes) (hp : part <+: bytes) (hne : part ≠ bytes) :
    read part = none := by
  obtain ⟨tag, ht, hlt, rfl⟩ := put_eq h
  have hs : part.length < 2 ^ tag := by
    rw [← tagged_length tag value]
    exact Nat.lt_of_le_of_ne hp.length_le fun hl => hne (hp.eq_of_length hl)
  cases part with
  | nil => rfl
  | cons first rest =>
    obtain ⟨rfl, -⟩ := cons_prefix_cons.1 hp
    rw [read]
    simp only [(tagged_first ht hlt).1]
    exact if_pos hs

theorem length_put (h : put value = some bytes) : 0 < bytes.length ∧ bytes.length ≤ 8 := by
  obtain ⟨tag, ht, -, rfl⟩ := put_eq h
  rw [tagged_length]
  exact ⟨Nat.two_pow_pos tag, Nat.pow_le_pow_right (i := tag) (j := 3) (by decide) ht⟩

theorem read_size {size : Nat} (h : read bytes = some (value, size)) : 0 < size ∧ size ≤ bytes.length := by
  cases bytes with
  | nil => cases h
  | cons first rest =>
    by_cases hs : rest.length + 1 < 2 ^ (first.toNat / 64)
    · rw [read, if_pos hs] at h
      cases h
    rw [read, if_neg hs] at h
    cases h
    exact ⟨Nat.two_pow_pos _, Nat.le_of_not_lt hs⟩

end Varint
