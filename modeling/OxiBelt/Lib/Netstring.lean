import OxiBelt.Lib.Bytes

/-!
# Texts behind their length in decimal

`field weight text` writes the size of a text in decimal, a colon and the text.  The size counts each
character with a positive weight, such as the number of bytes it takes.  A field is read back from
whatever it starts (`field_append_inj`).
-/

namespace Netstring

theorem toDigits_inj {m n : Nat} (h : Nat.toDigits 10 m = Nat.toDigits 10 n) : m = n := by
  have hv := congrArg (fun digits => Nat.ofDigitChars 10 digits 0) h
  simpa only [Nat.ofDigitChars_ten_toDigits] using hv

theorem colon_not_mem_toDigits (n : Nat) : ':' ∉ Nat.toDigits 10 n := by
  intro hm
  have hd := Nat.isDigit_of_mem_toDigits (by decide) (by decide) hm
  exact absurd hd (by decide)

/-- Texts that are alike up to their first mark and behind it. -/
theorem cut_inj {α : Type*} {c : α} {a b s t : List α} (ha : c ∉ a) (hb : c ∉ b) (h : a ++ c :: s = b ++ c :: t) :
    a = b ∧ s = t := by
  classical
  have hs := ByteString.cut_append ha s
  rw [h, (ByteString.cut_append hb t).1, (ByteString.cut_append hb t).2] at hs
  exact ⟨hs.1.symm, (List.cons.inj hs.2).2.symm⟩

variable {y x : List Char}

/-- A decimal number in front of a colon is read back. -/
theorem toDigits_append_inj {m n : Nat} (h : Nat.toDigits 10 m ++ ':' :: x = Nat.toDigits 10 n ++ ':' :: y) :
    m = n ∧ x = y := by
  obtain ⟨hd, hr⟩ := cut_inj (colon_not_mem_toDigits m) (colon_not_mem_toDigits n) h
  exact ⟨toDigits_inj hd, hr⟩

section

variable (weight : Char → Nat)

def size (text : List Char) : Nat := (text.map weight).sum

def field (text : List Char) : List Char := Nat.toDigits 10 (size weight text) ++ ':' :: text

variable {weight}

/-- Texts of one size that start alike are equal. -/
theorem append_inj_of_size (hw : ∀ c, 0 < weight c) {a b : List Char} (hs : size weight a = size weight b)
    (h : a ++ x = b ++ y) : a = b ∧ x = y := by
  have he : ∀ t : List Char, size weight t = 0 → t = [] := by
    intro t ht
    rcases t with _ | ⟨c, t⟩
    · rfl
    have := hw c
    simp only [size, List.map_cons, List.sum_cons] at ht
    omega
  have ha : ∀ s t : List Char, size weight (s ++ t) = size weight s + size weight t := by
    intro s t
    simp [size]
  rcases List.append_eq_append_iff.1 h with ⟨t, rfl, rfl⟩ | ⟨t, rfl, rfl⟩
  · rw [ha] at hs
    rw [he t (by omega)]
    simp
  rw [ha] at hs
  rw [he t (by omega)]
  simp

theorem field_append_inj (hw : ∀ c, 0 < weight c) {a b : List Char} (h : field weight a ++ x = field weight b ++ y) :
    a = b ∧ x = y := by
  simp only [field, List.append_assoc, List.cons_append] at h
  obtain ⟨hs, hr⟩ := toDigits_append_inj h
  exact append_inj_of_size hw hs hr

end

end Netstring
