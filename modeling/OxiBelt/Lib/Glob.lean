import Mathlib.Tactic

/-!
# Wildcard patterns over an alphabet

A pattern is a word in which one letter, `star`, stands for any word.
`Glob star p v` says that `v` is `p` with each `star` replaced by some word.

A pattern is cut at its stars into literal pieces (`List.splitOn`), and `starred`
puts a star before each piece of a list again.  The facts a piece-by-piece matcher
needs are: a literal head is stripped from both sides (`glob_literal_append`), a
leading star absorbs a prefix (`glob_star_append`), and the shortest match of a
starred piece followed by more pieces starts at its leftmost occurrence
(`Finds.of_leftmost`).
-/

namespace Wildcard

open List

variable {α : Type*}

/-- `v` is the pattern with every `star` replaced by some word. -/
inductive Glob (star : α) : List α → List α → Prop
  | nil : Glob star [] []
  | letter {c : α} {p v : List α} : c ≠ star → Glob star p v → Glob star (c :: p) (c :: v)
  | star {p v : List α} (w : List α) : Glob star p v → Glob star (star :: p) (w ++ v)

variable {star : α} {p v x u : List α} {pieces : List (List α)}

theorem glob_nil_iff : Glob star [] v ↔ v = [] := by
  constructor
  · intro h
    cases h
    rfl
  · rintro rfl
    exact .nil

theorem glob_star_iff : Glob star (star :: p) v ↔ ∃ w u, v = w ++ u ∧ Glob star p u := by
  constructor
  · intro h
    cases h with
    | letter hc _ => exact absurd rfl hc
    | star w h => exact ⟨w, _, rfl, h⟩
  · rintro ⟨w, u, rfl, h⟩
    exact .star w h

/-- A star at the front takes any further word in front of a match. -/
theorem glob_star_append (w : List α) (h : Glob star (star :: p) v) : Glob star (star :: p) (w ++ v) := by
  obtain ⟨w', u, rfl, hu⟩ := glob_star_iff.1 h
  rw [← append_assoc]
  exact .star _ hu

/-- A literal piece is matched by itself and nothing else. -/
theorem glob_literal_append (hx : star ∉ x) : Glob star (x ++ p) v ↔ ∃ u, v = x ++ u ∧ Glob star p u := by
  induction x generalizing v with
  | nil => simp
  | cons c x ih =>
    simp only [mem_cons, not_or] at hx
    constructor
    · intro h
      cases h with
      | letter _ h =>
        obtain ⟨u, rfl, hu⟩ := (ih hx.2).1 h
        exact ⟨u, rfl, hu⟩
      | star _ _ => exact absurd rfl hx.1
    · rintro ⟨u, rfl, hu⟩
      exact .letter (Ne.symm hx.1) ((ih hx.2).2 ⟨u, rfl, hu⟩)

/-- A pattern that ends in a star matches every extension of what it matches. -/
theorem glob_append_star (w : List α) (h : Glob star (p ++ [star]) v) : Glob star (p ++ [star]) (v ++ w) := by
  induction p generalizing v with
  | nil =>
    obtain ⟨w', u, rfl, hu⟩ := glob_star_iff.1 h
    rw [glob_nil_iff] at hu
    subst hu
    simpa using Glob.star (w' ++ w) (@Glob.nil α star)
  | cons c p ih =>
    cases h with
    | letter hc h => exact .letter hc (ih h)
    | star w' h =>
      rw [append_assoc]
      exact .star w' (ih h)

/-! ## Pieces -/

def starred (star : α) (pieces : List (List α)) : List α :=
  pieces.flatMap fun piece => star :: piece

@[simp] theorem starred_nil (star : α) : starred star [] = [] := rfl

@[simp] theorem starred_cons (star : α) (x : List α) (pieces : List (List α)) :
    starred star (x :: pieces) = star :: (x ++ starred star pieces) := rfl

/-- Cutting a pattern at its stars: its first piece, then the others with a star before each. -/
theorem splitOn_cons_eq [DecidableEq α] (h : p.splitOn star = x :: pieces) : p = x ++ starred star pieces := by
  have hp : [star].intercalate (p.splitOn star) = p := intercalate_splitOn star
  rw [h] at hp
  rw [← hp]
  clear h hp
  induction pieces generalizing x with
  | nil => simp [List.intercalate]
  | cons y pieces ih =>
    have := ih (x := y)
    simp only [List.intercalate, intersperse_cons_cons, flatten_cons] at this ⊢
    rw [this]
    simp

theorem notMem_of_mem_splitOn [DecidableEq α] (h : x ∈ p.splitOn star) : star ∉ x := by
  induction p generalizing x with
  | nil =>
    simp only [splitOn_nil, mem_singleton] at h
    simp [h]
  | cons c p ih =>
    rw [splitOn_cons_eq_if_modifyHead] at h
    split at h
    · rcases mem_cons.1 h with rfl | h
      · simp
      · exact ih h
    next hc =>
    obtain ⟨y, ys, hy⟩ := exists_cons_of_ne_nil (splitOn_ne_nil star p)
    rw [hy, modifyHead_cons] at h
    rcases mem_cons.1 h with rfl | h
    · have hy' : star ∉ y := ih (by simp [hy])
      have hcs : c ≠ star := by simpa using hc
      simpa using ⟨Ne.symm hcs, hy'⟩
    · exact ih (by simp [hy, h])

/-! ## Shortest matches -/

/-- `u` is the shortest prefix of `v` that the pattern matches, `rest` what follows it. -/
structure IsShortest (star : α) (p v u rest : List α) : Prop where
  split : v = u ++ rest
  matched : Glob star p u
  least : ∀ u' rest', v = u' ++ rest' → Glob star p u' → u.length ≤ u'.length

/-- No prefix of `v` is matched. -/
def NoPrefix (star : α) (p v : List α) : Prop :=
  ∀ u rest, v = u ++ rest → ¬ Glob star p u

/-- A search at the front of a word leaves what follows the shortest match, or finds that there is none. -/
def Finds (star : α) (p v : List α) : Option (List α) → Prop
  | none => NoPrefix star p v
  | some rest => ∃ u, IsShortest star p v u rest

variable {found : Option (List α)}

theorem isShortest_nil (star : α) (v : List α) : IsShortest star [] v [] v := ⟨rfl, .nil, fun _ _ _ _ => Nat.zero_le _⟩

/-- A literal piece in front is stripped from the word and from its matches. -/
theorem Finds.literal (hx : star ∉ x) (h : Finds star p v found) : Finds star (x ++ p) (x ++ v) found := by
  have hm : ∀ {u' rest'}, x ++ v = u' ++ rest' → Glob star (x ++ p) u' →
      ∃ w, u' = x ++ w ∧ v = w ++ rest' ∧ Glob star p w := by
    intro u' rest' hv hu'
    obtain ⟨w, rfl, hw⟩ := (glob_literal_append hx).1 hu'
    rw [append_assoc] at hv
    exact ⟨w, rfl, append_cancel_left hv, hw⟩
  cases found with
  | none =>
    intro u' rest' hv hu'
    obtain ⟨w, -, hv, hw⟩ := hm hv hu'
    exact h w rest' hv hw
  | some rest =>
    obtain ⟨u, h⟩ := h
    refine ⟨x ++ u, by rw [h.split, append_assoc], (glob_literal_append hx).2 ⟨u, rfl, h.matched⟩, ?_⟩
    intro u' rest' hv hu'
    obtain ⟨w, rfl, hv, hw⟩ := hm hv hu'
    rw [length_append, length_append]
    exact Nat.add_le_add_left (h.least w rest' hv hw) _

/-- A prefix matched by a star and then by starred pieces can start with anything. -/
theorem glob_starred_append (w : List α) (hne : pieces ≠ []) (h : Glob star (starred star pieces) u) :
    Glob star (starred star pieces) (w ++ u) := by
  obtain ⟨x, xs, rfl⟩ := exists_cons_of_ne_nil hne
  exact glob_star_append w h

/-- Any match of the starred pieces in a later part of the word bounds the shortest one. -/
theorem IsShortest.le_of_suffix {mid rest u' rest' : List α}
    (h : IsShortest star (starred star pieces) v u rest) (hv : v = mid ++ (u' ++ rest'))
    (hu' : Glob star (starred star pieces) u') : u.length ≤ mid.length + u'.length := by
  by_cases hne : pieces = []
  · subst hne
    have := h.matched
    rw [starred_nil, glob_nil_iff] at this
    simp [this]
  · have := h.least (mid ++ u') rest' (by rw [hv, append_assoc]) (glob_starred_append mid hne hu')
    simpa using this

/-- What a later occurrence of a piece leaves is a suffix of what the leftmost one leaves. -/
theorem suffix_of_later {a a' v' : List α} (h : a ++ (x ++ v) = a' ++ (x ++ v'))
    (hle : a.length ≤ a'.length) : v' <:+ v := by
  have h1 : v <:+ a ++ (x ++ v) := ⟨a ++ x, by simp⟩
  have h2 : v' <:+ a ++ (x ++ v) := ⟨a' ++ x, by rw [h]; simp⟩
  refine suffix_of_suffix_length_le h2 h1 ?_
  have := congrArg List.length h
  simp only [length_append] at this
  omega

theorem glob_starred_cons (hx : star ∉ x) (h : Glob star (starred star (x :: pieces)) v) :
    ∃ w u, v = w ++ (x ++ u) ∧ Glob star (starred star pieces) u := by
  rw [starred_cons] at h
  obtain ⟨w, u, rfl, hu⟩ := glob_star_iff.1 h
  obtain ⟨u', rfl, hu'⟩ := (glob_literal_append hx).1 hu
  exact ⟨w, u', rfl, hu'⟩

/-- **Leftmost is shortest.**  Placing a piece at its leftmost occurrence leaves room for every
match of the pieces that follow. -/
theorem Finds.of_leftmost {a : List α} (hx : star ∉ x)
    (hl : ∀ a' v', a ++ (x ++ v) = a' ++ (x ++ v') → a.length ≤ a'.length)
    (h : Finds star (starred star pieces) v found) : Finds star (starred star (x :: pieces)) (a ++ (x ++ v)) found := by
  have hm : ∀ {u' rest'}, a ++ (x ++ v) = u' ++ rest' → Glob star (starred star (x :: pieces)) u' →
      ∃ mid w, v = mid ++ (w ++ rest') ∧ Glob star (starred star pieces) w := by
    intro u' rest' hv hu'
    obtain ⟨front, w, rfl, hw⟩ := glob_starred_cons hx hu'
    rw [append_assoc, append_assoc] at hv
    obtain ⟨mid, hm⟩ := suffix_of_later hv (hl front _ hv)
    exact ⟨mid, w, hm.symm, hw⟩
  cases found with
  | none =>
    intro u' rest' hv hu'
    obtain ⟨mid, w, hv, hw⟩ := hm hv hu'
    by_cases hne : pieces = []
    · subst hne
      exact h [] v rfl .nil
    · exact h (mid ++ w) rest' (by rw [hv, append_assoc]) (glob_starred_append mid hne hw)
  | some rest =>
    obtain ⟨u, h⟩ := h
    refine ⟨a ++ (x ++ u), by simp [h.split], .star a ((glob_literal_append hx).2 ⟨u, rfl, h.matched⟩), ?_⟩
    intro u' rest' hv hu'
    obtain ⟨mid, w, hv', hw⟩ := hm hv hu'
    have hln := h.le_of_suffix hv' hw
    have h1 := congrArg List.length hv
    have h2 := congrArg List.length hv'
    simp only [length_append] at h1 h2 ⊢
    omega

theorem noPrefix_of_no_occurrence (hx : star ∉ x)
    (h : ∀ a v', v ≠ a ++ (x ++ v')) : NoPrefix star (starred star (x :: pieces)) v := by
  intro u rest hv hu
  obtain ⟨w, u2, rfl, -⟩ := glob_starred_cons hx hu
  exact h w (u2 ++ rest) (by rw [hv]; simp)

end Wildcard
