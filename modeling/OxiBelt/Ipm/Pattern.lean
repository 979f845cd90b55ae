import OxiBelt.Lib.Glob
import OxiBelt.RustStd.Text

/-!
# Policy patterns (`ipm/mod.rs`, `pattern_matches`)

The matcher cuts a pattern at its stars and places the literal pieces from left to right, each at its
leftmost occurrence in what is left of the value.

* `matchParts_finds`: the loop finds the shortest prefix of the value that the pieces match, or there
  is none.
* `patternMatches_iff`: the matcher answers yes exactly for the values that the pattern covers and
  that, unless the pattern ends in a star, have no proper prefix covered as well: the last piece is
  not moved to the end of the value.
-/

namespace Ipm

open RustStd Wildcard List

/-- `v` is the pattern with each `*` replaced by some text. -/
abbrev Covers (pattern value : Str) : Prop := Glob '*' pattern value

/-- The loop over the pieces.  `first` holds until a piece has been placed, `anchored` says that the
pattern does not start with a star. -/
def matchParts (anchored : Bool) : Bool → List Str → Str → Option Str
  | _, [], remainder => some remainder
  | first, part :: parts, remainder =>
    if part.isEmpty then matchParts anchored first parts remainder
    else
      match find part remainder with
      | none => none
      | some (before, after) =>
        if first && anchored && !before.isEmpty then none else matchParts anchored false parts after

def startsWithStar (pattern : Str) : Bool := pattern.head? == some '*'

def endsWithStar (pattern : Str) : Bool := pattern.getLast? == some '*'

def patternMatches (pattern value : Str) : Bool :=
  if pattern == ['*'] then true
  else
    match matchParts (!startsWithStar pattern) true (pattern.splitOn '*') value with
    | none => false
    | some remainder => endsWithStar pattern || remainder.isEmpty

/-! ## The loop -/

variable {parts : List Str}

/-- Once a piece may stand anywhere, the loop ends behind the shortest match of the pieces. -/
theorem matchParts_finds {anchored first : Bool} {v : Str} (hf : (first && anchored) = false)
    (hl : ∀ part ∈ parts, '*' ∉ part) : Finds '*' (starred '*' parts) v (matchParts anchored first parts v) := by
  induction parts generalizing first v with
  | nil => exact ⟨[], isShortest_nil _ _⟩
  | cons part parts ih =>
    obtain ⟨hpr, hp⟩ := forall_mem_cons.1 hl
    unfold matchParts
    split
    · next he =>
      rw [List.isEmpty_iff.1 he]
      exact Finds.of_leftmost (a := []) not_mem_nil (fun _ _ _ => Nat.zero_le _) (ih hf hp)
    split
    · next hn =>
      refine noPrefix_of_no_occurrence hpr fun a v' hv => ?_
      subst hv
      exact find_ne_none_of_occurrence hn
    next before after hs =>
    obtain rfl := find_eq_append hs
    simp only [hf, Bool.false_and, Bool.false_eq_true, if_false]
    exact (ih (Bool.false_and _) hp).of_leftmost hpr fun _ _ => find_leftmost hs

/-! ## The whole pattern -/

theorem startsWithStar_starred (hne : parts ≠ []) : startsWithStar (starred '*' parts) = true := by
  obtain ⟨x, xs, rfl⟩ := exists_cons_of_ne_nil hne
  rfl

theorem startsWithStar_literal {part more : Str} (hne : part ≠ []) (hl : '*' ∉ part) :
    startsWithStar (part ++ more) = false := by
  obtain ⟨c, cs, rfl⟩ := exists_cons_of_ne_nil hne
  have hc : c ≠ '*' := fun h => hl (by simp [h])
  simpa [startsWithStar] using hc

/-- The loop over all pieces of a pattern ends behind the shortest covered prefix of the value. -/
theorem matchParts_splitOn (pattern value : Str) :
    Finds '*' pattern value (matchParts (!startsWithStar pattern) true (pattern.splitOn '*') value) := by
  obtain ⟨x, parts, hs⟩ := exists_cons_of_ne_nil (splitOn_ne_nil '*' pattern)
  have hpc : ∀ part ∈ x :: parts, '*' ∉ part := fun part hp =>
    notMem_of_mem_splitOn (p := pattern) (hs ▸ hp)
  obtain ⟨hx, hpr⟩ := forall_mem_cons.1 hpc
  have hpt := splitOn_cons_eq hs
  rw [hs]
  by_cases hxe : x = []
  · -- the pattern is empty or starts with a star: no piece is tied to the start of the value
    subst hxe
    rw [nil_append] at hpt
    simp only [matchParts, isEmpty_nil, if_true]
    by_cases hpe : parts = []
    · subst hpe
      rw [starred_nil] at hpt
      subst hpt
      exact ⟨[], isShortest_nil _ _⟩
    have hfr : (true && !startsWithStar pattern) = false := by
      rw [hpt, startsWithStar_starred hpe]
      rfl
    have hs := @matchParts_finds _ _ _ value hfr hpr
    rwa [← hpt] at hs
  · have ha : startsWithStar pattern = false := by
      rw [hpt]
      exact startsWithStar_literal hxe hx
    -- a covered prefix starts with the first piece, whose leftmost occurrence is then the start
    have hst : ∀ u rest, value = u ++ rest → Covers pattern u → ∃ v, value = [] ++ (x ++ v) := by
      intro u rest hv hu
      rw [hpt] at hu
      obtain ⟨w, rfl, -⟩ := (glob_literal_append hx).1 hu
      exact ⟨w ++ rest, by rw [hv, append_assoc, nil_append]⟩
    have hne : x.isEmpty = false := by simpa using hxe
    simp only [matchParts, hne, ha, Bool.false_eq_true, if_false, Bool.not_false, Bool.true_and]
    cases hf : find x value with
    | none =>
      intro u rest hv hu
      obtain ⟨v, hv'⟩ := hst u rest hv hu
      rw [hv'] at hf
      exact find_ne_none_of_occurrence hf
    | some r =>
      obtain ⟨before, after⟩ := r
      have hvl := find_eq_append hf
      cases before with
      | cons c cs =>
        intro u rest hv hu
        obtain ⟨v, hv'⟩ := hst u rest hv hu
        have := find_leftmost hf hv'
        simp at this
      | nil =>
        rw [nil_append] at hvl
        simp only [isEmpty_nil, Bool.not_true, Bool.false_eq_true, if_false]
        rw [hvl, hpt]
        exact (matchParts_finds (Bool.false_and _) hpr).literal hx

/-- The pattern covers no proper prefix of the value, or ends in a star. -/
def PlacedLast (pattern value : Str) : Prop :=
  endsWithStar pattern = true ∨ ∀ u rest, value = u ++ rest → rest ≠ [] → ¬ Covers pattern u

/-- **What the matcher decides.** -/
theorem patternMatches_iff (pattern value : Str) :
    patternMatches pattern value = true ↔ Covers pattern value ∧ PlacedLast pattern value := by
  unfold patternMatches
  split
  · next h =>
    rw [beq_iff_eq] at h
    subst h
    have ha : Covers ['*'] value := by simpa using Glob.star value (@Glob.nil Char '*')
    simpa using ⟨ha, Or.inl rfl⟩
  have hs := matchParts_splitOn pattern value
  split
  · next h =>
    rw [h] at hs
    have hno : ¬ Covers pattern value := hs value [] (append_nil _).symm
    simp [hno]
  next rest h =>
  rw [h] at hs
  obtain ⟨u, hu⟩ := hs
  rw [Bool.or_eq_true, List.isEmpty_iff]
  constructor
  · rintro (he | rfl)
    · obtain ⟨p, rfl⟩ := getLast?_eq_some_iff.1 (beq_iff_eq.1 he)
      refine ⟨?_, .inl he⟩
      rw [hu.split]
      exact glob_append_star rest hu.matched
    have hv : value = u := by rw [hu.split, append_nil]
    subst hv
    refine ⟨hu.matched, .inr fun u' rest' hv hne hu' => ?_⟩
    have hle := hu.least u' rest' hv hu'
    have hln := congrArg List.length hv
    have hp := length_pos_of_ne_nil hne
    rw [length_append] at hln
    omega
  · rintro ⟨-, he | hl⟩
    · exact .inl he
    right
    by_contra hne
    exact hl u rest hu.split hne hu.matched

end Ipm
