import Mathlib.Tactic

/-!
# Searching for a delimiter in input that grows

`find needle xs` is the place of the first occurrence.  An occurrence that is found stays the first one
when more input arrives (`find_append`).  A search that found nothing may be resumed a little before the
end of what it has seen: `Resumes needle xs start` says that no occurrence starts before `start`, now or
after more input, and `resumes_of_find_none` that the place `xs.length - (needle.length - 1)` is such a
start.
-/

namespace Search

open List

variable {α : Type*} [DecidableEq α]

def find (needle : List α) : List α → Option Nat
  | [] => if needle.isEmpty then some 0 else none
  | x :: xs => if needle.isPrefixOf (x :: xs) then some 0 else (find needle xs).map (· + 1)

/-- `needle` stands at place `i` of `xs`. -/
def At (needle xs : List α) (i : Nat) : Prop := needle <+: xs.drop i

section

variable {needle xs ys : List α} {i k : Nat}

omit [DecidableEq α] in
theorem At.append (h : At needle xs i) (ys : List α) : At needle (xs ++ ys) i := by
  unfold At at *
  rw [drop_append]
  exact h.trans (prefix_append _ _)

omit [DecidableEq α] in
/-- An occurrence that ends inside of `xs` does not need what follows. -/
theorem At.of_append (h : At needle (xs ++ ys) i) (hle : i + needle.length ≤ xs.length) : At needle xs i := by
  unfold At at *
  rw [drop_append_of_le_length (by omega)] at h
  exact prefix_of_prefix_length_le h (prefix_append _ _) (by rw [length_drop]; omega)

/-- A part without occurrences is skipped. -/
theorem find_of_not_at (h : ∀ j < k, ¬ At needle xs j) : find needle xs = (find needle (xs.drop k)).map (k + ·) := by
  induction k generalizing xs with
  | zero => simp
  | succ k ih =>
    have hz : ¬ needle <+: xs := h 0 k.succ_pos
    cases xs with
    | nil =>
      cases needle with
      | nil => exact absurd nil_prefix hz
      | cons a needle => rfl
    | cons x xs =>
      rw [find, if_neg (mt List.isPrefixOf_iff_prefix.1 hz), ih fun j hj => h (j + 1) (by omega), Option.map_map]
      exact congrArg₂ _ (funext fun j => Nat.add_right_comm k j 1) rfl

theorem find_spec (needle xs : List α) :
    (∃ i, find needle xs = some i ∧ At needle xs i ∧ ∀ j < i, ¬ At needle xs j) ∨
      find needle xs = none ∧ ∀ j, ¬ At needle xs j := by
  classical
  by_cases hex : ∃ i, At needle xs i
  · refine .inl ⟨Nat.find hex, ?_, Nat.find_spec hex, fun _ => Nat.find_min hex⟩
    have hp : ∀ rest, needle <+: rest → find needle rest = some 0
      | [], h => by rw [prefix_nil.1 h]; rfl
      | _ :: _, h => if_pos ( List.isPrefixOf_iff_prefix.2 h)
    rw [find_of_not_at fun _ => Nat.find_min hex, hp _ (Nat.find_spec hex)]
    rfl
  · rw [not_exists] at hex
    refine .inr ⟨?_, hex⟩
    rw [find_of_not_at fun j (_ : j < xs.length) => hex j, drop_length]
    cases needle with
    | nil => exact absurd nil_prefix (hex 0)
    | cons a needle => rfl

theorem find_eq_some_iff : find needle xs = some i ↔ At needle xs i ∧ ∀ j < i, ¬ At needle xs j := by
  rcases find_spec needle xs with ⟨k, hf, hat, hl⟩ | ⟨hf, hn⟩
  · rw [hf, Option.some_inj]
    constructor
    · rintro rfl
      exact ⟨hat, hl⟩
    · rintro ⟨hat', hl'⟩
      exact Nat.le_antisymm (not_lt.1 fun h => hl i h hat') (not_lt.1 fun h => hl' k h hat)
  · exact iff_of_false (by simp [hf]) fun h => hn i h.1

theorem find_eq_none_iff : find needle xs = none ↔ ∀ j, ¬ At needle xs j := by
  rcases find_spec needle xs with ⟨k, hf, hat, -⟩ | ⟨hf, hn⟩
  · exact iff_of_false (by simp [hf]) fun h => h k hat
  · exact iff_of_true hf hn

theorem find_le_length (h : find needle xs = some i) : i + needle.length ≤ xs.length := by
  obtain ⟨hat, hl⟩ := find_eq_some_iff.1 h
  have hle := List.IsPrefix.length_le hat
  rw [length_drop] at hle
  by_contra hlt
  have hn : needle = [] := eq_nil_of_length_eq_zero (by omega)
  exact hl 0 (by omega) (hn ▸ nil_prefix)

theorem find_append (h : find needle xs = some i) (ys : List α) :
    find needle (xs ++ ys) = some i := by
  have hle := find_le_length h
  obtain ⟨hat, hl⟩ := find_eq_some_iff.1 h
  refine find_eq_some_iff.2 ⟨hat.append ys, fun j hj hat' => ?_⟩
  exact hl j hj (hat'.of_append (by omega))

/-- An occurrence in longer input that is not in `xs` ends after `xs`. -/
theorem find_append_of_none (h : find needle xs = none)
    (hf : find needle (xs ++ ys) = some i) : xs.length < i + needle.length := by
  by_contra hle
  obtain ⟨hat, -⟩ := find_eq_some_iff.1 hf
  exact find_eq_none_iff.1 h i (hat.of_append (by omega))

theorem find_self_append (h : ∀ j < xs.length, ¬ At needle (xs ++ needle) j)
    (ys : List α) : find needle (xs ++ (needle ++ ys)) = some xs.length := by
  rw [← append_assoc]
  refine find_append (find_eq_some_iff.2 ⟨?_, h⟩) ys
  rw [At, drop_left]

/-! ## Resuming -/

/-- No occurrence starts before `start`, whatever follows. -/
def Resumes (needle xs : List α) (start : Nat) : Prop :=
  start ≤ xs.length ∧ ∀ j < start, ∀ ys, ¬ At needle (xs ++ ys) j

omit [DecidableEq α] in
theorem resumes_zero (needle xs : List α) : Resumes needle xs 0 := ⟨Nat.zero_le _, fun j hj => absurd hj (by omega)⟩

omit [DecidableEq α] in
theorem Resumes.append (h : Resumes needle xs k) (ys : List α) : Resumes needle (xs ++ ys) k := by
  obtain ⟨hle, hn⟩ := h
  refine ⟨by rw [length_append]; omega, fun j hj zs => ?_⟩
  rw [append_assoc]
  exact hn j hj (ys ++ zs)

theorem resumes_of_find_none (h : find needle xs = none) :
    Resumes needle xs (xs.length - (needle.length - 1)) := by
  refine ⟨by omega, fun j hj ys hat => ?_⟩
  exact find_eq_none_iff.1 h j (hat.of_append (by omega))

theorem find_resume (h : Resumes needle xs k) :
    (find needle (xs.drop k)).map (k + ·) = find needle xs := by
  refine (find_of_not_at fun j hj => ?_).symm
  simpa using h.2 j hj []

end

end Search
