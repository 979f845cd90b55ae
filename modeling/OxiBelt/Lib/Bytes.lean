import Mathlib.Tactic

/-!
# Byte strings and layouts that can be read back

Fixed-width big-endian numbers (`beBytes`) and length-prefixed fields (`field`).  A layout made of
parts of known length and of such fields is injective part by part: `append_inj` strips a
part of fixed length, `field_append_inj` a length-prefixed one.
-/

namespace ByteString

open List

abbrev Bytes := List UInt8

/-- A byte string of fixed length, as a `[u8; n]`. -/
abbrev ByteArr (n : Nat) := { bytes : Bytes // bytes.length = n }

def zeros (n : Nat) : ByteArr n := ⟨List.replicate n 0, length_replicate⟩

/-- A fact about all bytes, by going through them. -/
theorem forall_byte {p : UInt8 → Bool} (h : (List.range 256).all (fun n => p (UInt8.ofNat n)) = true)
    (byte : UInt8) : p byte = true := by
  have hb := all_eq_true.1 h byte.toNat (List.mem_range.2 byte.toNat_lt)
  rwa [UInt8.ofNat_toNat] at hb

/-- The low `width` bytes of `n`, most significant first. -/
def beBytes : Nat → Nat → Bytes
  | 0, _ => []
  | width + 1, n => beBytes width (n / 256) ++ [UInt8.ofNat (n % 256)]

@[simp] theorem beBytes_length (width n : Nat) : (beBytes width n).length = width := by
  induction width generalizing n with
  | zero => rfl
  | succ width ih => simp [beBytes, ih]

theorem uint8_ofNat_inj {a b : Nat} (ha : a < 256) (hb : b < 256) (h : UInt8.ofNat a = UInt8.ofNat b) : a = b := by
  have h' := congrArg UInt8.toNat h
  simp only [UInt8.toNat_ofNat'] at h'
  omega

variable {width : Nat}

theorem beBytes_inj {a b : Nat} (ha : a < 256 ^ width) (hb : b < 256 ^ width) (h : beBytes width a = beBytes width b) :
    a = b := by
  induction width generalizing a b with
  | zero => omega
  | succ width ih =>
    have hl : (beBytes width (a / 256)).length = (beBytes width (b / 256)).length := by simp
    obtain ⟨hh, hlw⟩ := append_inj h hl
    have hda : a / 256 < 256 ^ width := by rw [pow_succ] at ha; omega
    have hdb : b / 256 < 256 ^ width := by rw [pow_succ] at hb; omega
    have hd := ih hda hdb hh
    have hm := uint8_ofNat_inj (Nat.mod_lt a (by omega)) (Nat.mod_lt b (by omega)) (List.cons.inj hlw).1
    omega

/-- A byte string behind its length in `width` bytes. -/
def field (width : Nat) (bytes : Bytes) : Bytes := beBytes width bytes.length ++ bytes

/-- A field whose length fits its width is read back from what it starts. -/
theorem field_append_inj {a b x y : Bytes} (ha : a.length < 256 ^ width) (hb : b.length < 256 ^ width)
    (h : field width a ++ x = field width b ++ y) : a = b ∧ x = y := by
  simp only [field, append_assoc] at h
  obtain ⟨hl, hr⟩ := append_inj h (by simp)
  exact append_inj hr (beBytes_inj ha hb hl)

/-- Fields one after another: as each one says where it ends, their number need not be known. -/
theorem fields_inj {parts parts' : List Bytes} (hw : 0 < width)
    (h : ∀ part ∈ parts, part.length < 256 ^ width) (h' : ∀ part ∈ parts', part.length < 256 ^ width)
    (heq : parts.flatMap (field width) = parts'.flatMap (field width)) : parts = parts' := by
  have hne : ∀ part rest, [] ≠ field width part ++ rest := by
    intro part rest hn
    have hl := congrArg List.length hn
    simp only [field, length_nil, length_append, beBytes_length] at hl
    omega
  induction parts generalizing parts' with
  | nil =>
    cases parts' with
    | nil => rfl
    | cons part' parts' => exact absurd heq (hne part' _)
  | cons part parts ih =>
    cases parts' with
    | nil => exact absurd heq.symm (hne part _)
    | cons part' parts' =>
      rw [flatMap_cons, flatMap_cons] at heq
      obtain ⟨hpr, hp⟩ := forall_mem_cons.1 h
      obtain ⟨hpr', hp'⟩ := forall_mem_cons.1 h'
      obtain ⟨rfl, hr⟩ := field_append_inj hpr hpr' heq
      rw [ih hp hp' hr]

/-! ## Joined parts -/

section Join

variable {α β : Type*}

theorem cut_append [BEq α] [LawfulBEq α] {a : α} {before : List α} (h : a ∉ before) (after : List α) :
    (before ++ a :: after).takeWhile (· != a) = before ∧
      (before ++ a :: after).dropWhile (· != a) = a :: after := by
  have hb : ∀ b ∈ before, (b != a) = true := by
    intro b hb
    rw [bne_iff_ne]
    rintro rfl
    exact h hb
  rw [takeWhile_append_of_pos hb, dropWhile_append_of_pos hb]
  simp

theorem intercalate_cons_eq (sep x : List α) (parts : List (List α)) :
    sep.intercalate (x :: parts) = x ++ parts.flatMap (sep ++ ·) := by
  induction parts generalizing x with
  | nil => simp
  | cons y parts ih => rw [intercalate_cons_cons, ih, flatMap_cons, append_assoc, append_assoc]

theorem map_intercalate (f : α → β) (sep : List α) (parts : List (List α)) :
    (sep.intercalate parts).map f = (sep.map f).intercalate (parts.map (List.map f)) := by
  cases parts with
  | nil => rfl
  | cons x parts => simp [intercalate_cons_eq, map_flatMap, flatMap_map]

/-- The letters of joined parts are those of the parts and of the separator. -/
theorem mem_intercalate {b : α} {sep : List α} {parts : List (List α)}
    (h : b ∈ sep.intercalate parts) : b ∈ sep ∨ ∃ part ∈ parts, b ∈ part := by
  cases parts with
  | nil => simp at h
  | cons x parts =>
    simp only [intercalate_cons_eq, mem_append, mem_flatMap] at h
    grind

theorem mem_intercalate_of_mem {b : α} {sep part : List α} {parts : List (List α)}
    (hp : part ∈ parts) (hb : b ∈ part) : b ∈ sep.intercalate parts := by
  cases parts with
  | nil => exact absurd hp not_mem_nil
  | cons x parts =>
    simp only [intercalate_cons_eq, mem_append, mem_flatMap]
    grind

theorem intercalate_append (sep : List α) {front back : List (List α)} (hf : front ≠ []) (hb : back ≠ []) :
    sep.intercalate (front ++ back) = sep.intercalate front ++ (sep ++ sep.intercalate back) := by
  obtain ⟨x, front, rfl⟩ := exists_cons_of_ne_nil hf
  obtain ⟨y, back, rfl⟩ := exists_cons_of_ne_nil hb
  simp [intercalate_cons_eq]

end Join

end ByteString
