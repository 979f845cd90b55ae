import Mathlib.Tactic

/-!
# Lists cut at the largest power of two, and their levels

A history tree over `n ≥ 2` leaves puts the first `2 ^ j` of them on its left, where `2 ^ j` is the
largest power of two below `n`.  `Splits` says that two lists are the halves of such a tree, and
`split_induction` is the induction over its shape.

The same tree can be read level by level from the leaves: `pairUp` joins neighbours and carries an odd
last node up unchanged.  `Splits.pairUp` says that the halves of a tree are still its halves one level
up, which is what relates a recursion from the root to a walk from the leaves.
-/

namespace SplitTree

open List

variable {α : Type*}

/-- The largest power of two below `n`, for `n` above one. -/
def splitSize (n : Nat) : Nat := 2 ^ Nat.log2 (n - 1)

theorem splitSize_pos (n : Nat) : 0 < splitSize n := Nat.two_pow_pos _

variable {n : Nat}

theorem splitSize_lt (h : 2 ≤ n) : splitSize n < n := by
  have hle : 2 ^ Nat.log2 (n - 1) ≤ n - 1 := Nat.log2_self_le (by omega)
  unfold splitSize
  omega

theorem le_two_mul_splitSize : n ≤ 2 * splitSize n := by
  have hlt : n - 1 < 2 ^ (Nat.log2 (n - 1) + 1) := Nat.lt_log2_self
  rw [Nat.pow_succ] at hlt
  unfold splitSize
  omega

theorem splitSize_eq {j : Nat} (hlo : 2 ^ j < n) (hhi : n ≤ 2 * 2 ^ j) : splitSize n = 2 ^ j := by
  have hl : Nat.log2 (n - 1) = j := by
    rw [Nat.log2_eq_iff (by omega), Nat.pow_succ]
    omega
  rw [splitSize, hl]

/-- `ys` and `zs` are the left and the right half of the tree over `ys ++ zs`. -/
def Splits (ys zs : List α) : Prop :=
  ∃ j, ys.length = 2 ^ j ∧ 0 < zs.length ∧ zs.length ≤ 2 ^ j

theorem splits_take_drop {xs : List α} (h : 2 ≤ xs.length) :
    Splits (xs.take (splitSize xs.length)) (xs.drop (splitSize xs.length)) := by
  have hlt := splitSize_lt h
  have hle := le_two_mul_splitSize (n := xs.length)
  refine ⟨Nat.log2 (xs.length - 1), ?_, ?_, ?_⟩
  · rw [length_take]
    exact Nat.min_eq_left hlt.le
  · rw [length_drop]
    omega
  rw [length_drop]
  unfold splitSize at hle ⊢
  omega

section Splits

variable {ys zs : List α}

section

variable (h : Splits ys zs)
include h

theorem Splits.splitSize_eq : splitSize (ys ++ zs).length = ys.length := by
  obtain ⟨j, hys, hp, hle⟩ := h
  rw [length_append, hys]
  exact SplitTree.splitSize_eq (by omega) (by omega)

theorem Splits.two_le_length : 2 ≤ (ys ++ zs).length := by
  obtain ⟨j, hys, hp, _⟩ := h
  have := Nat.two_pow_pos j
  rw [length_append]
  omega

theorem Splits.left_pos : 0 < ys.length := by
  obtain ⟨j, hys, _, _⟩ := h
  rw [hys]
  exact Nat.two_pow_pos j

theorem Splits.right_pos : 0 < zs.length := by
  obtain ⟨_, _, hp, _⟩ := h
  exact hp

/-- A left half is a single leaf or has an even number of leaves. -/
theorem Splits.left_one_or_even :
    (ys.length = 1 ∧ zs.length = 1) ∨ (2 ≤ ys.length ∧ ys.length % 2 = 0) := by
  obtain ⟨j, hys, hp, hle⟩ := h
  rcases j with _ | j
  · simp only [pow_zero] at hys hle
    left
    omega
  right
  have := Nat.two_pow_pos j
  rw [Nat.pow_succ] at hys
  omega

end

end Splits

/-- Induction over the shape of the tree: nothing, one leaf, or two halves. -/
theorem split_induction {P : List α → Prop} (nil : P []) (leaf : ∀ x, P [x])
    (split : ∀ ys zs, Splits ys zs → P ys → P zs → P (ys ++ zs)) : ∀ xs, P xs := by
  intro xs
  induction hn : xs.length using Nat.strong_induction_on generalizing xs with
  | _ n ih =>
    by_cases h0 : xs.length = 0
    · rw [length_eq_zero_iff.1 h0]
      exact nil
    by_cases h1 : xs.length = 1
    · obtain ⟨x, rfl⟩ := List.length_eq_one_iff.1 h1
      exact leaf x
    have h2 : 2 ≤ xs.length := by omega
    have hs := splits_take_drop h2
    have hl := hs.left_pos
    have hr := hs.right_pos
    have hsm := congrArg List.length (take_append_drop (splitSize xs.length) xs)
    rw [length_append] at hsm
    rw [← take_append_drop (splitSize xs.length) xs]
    exact split _ _ hs (ih _ (by omega) _ rfl) (ih _ (by omega) _ rfl)

/-! ## Levels -/

section PairUp

variable (node : α → α → α)

/-- One level up: neighbours are joined, an odd last node is carried up as it is. -/
def pairUp : List α → List α
  | a :: b :: rest => node a b :: pairUp rest
  | [a] => [a]
  | [] => []

theorem length_pairUp : ∀ xs : List α, (pairUp node xs).length = (xs.length + 1) / 2
  | a :: b :: rest => by
    have ih := length_pairUp rest
    simp only [pairUp, length_cons, ih]
    omega
  | [a] => by simp [pairUp]
  | [] => by simp [pairUp]

theorem pairUp_append : ∀ (xs ys : List α), xs.length % 2 = 0 →
    pairUp node (xs ++ ys) = pairUp node xs ++ pairUp node ys
  | a :: b :: rest, ys, h => by
    have hr : rest.length % 2 = 0 := by
      simp only [length_cons] at h
      omega
    simp only [cons_append, pairUp, pairUp_append rest ys hr]
  | [a], ys, h => by simp at h
  | [], ys, _ => rfl

/-- The halves of a tree that is not just two leaves are its halves one level up. -/
theorem Splits.pairUp {ys zs : List α} (h : Splits ys zs) (h2 : 2 ≤ ys.length) :
    Splits (pairUp node ys) (pairUp node zs) := by
  obtain ⟨j, hys, hp, hle⟩ := h
  rcases j with _ | j
  · simp at hys
    omega
  rw [Nat.pow_succ] at hys hle
  refine ⟨j, ?_, ?_, ?_⟩
  all_goals rw [length_pairUp]; omega

/-- The node `i` of a level is joined with: the one before an odd place, the one after an even place,
nothing at an odd end. -/
def sibling (xs : List α) (i : Nat) : Option α :=
  if i % 2 = 1 then xs[i - 1]? else xs[i + 1]?

/-- What the node at place `i` becomes one level up, given its sibling. -/
def join (i : Nat) (x : α) : Option α → α
  | none => x
  | some s => if i % 2 = 1 then node s x else node x s

variable {node}

variable {i : Nat}

theorem sibling_append_left {xs ys : List α} (he : xs.length % 2 = 0) (hi : i < xs.length) :
    sibling (xs ++ ys) i = sibling xs i := by
  unfold sibling
  split
  · exact getElem?_append_left (by omega)
  · exact getElem?_append_left (by omega)

theorem sibling_append_right {xs ys : List α} {i : Nat} (he : xs.length % 2 = 0)
    (hi : xs.length ≤ i) : sibling (xs ++ ys) i = sibling ys (i - xs.length) := by
  have hp : (i - xs.length) % 2 = i % 2 := by omega
  unfold sibling
  rw [hp]
  split
  · rw [getElem?_append_right (by omega)]
    congr 1
    omega
  rw [getElem?_append_right (by omega)]
  congr 1
  omega

theorem sibling_isSome_of_odd {xs : List α} (hi : i < xs.length) (ho : i % 2 = 1) : ∃ s, sibling xs i = some s := by
  refine ⟨xs[i - 1], ?_⟩
  rw [sibling, if_pos ho, getElem?_eq_getElem]

theorem sibling_isSome_of_inner {xs : List α} {i : Nat} (hi : i + 1 < xs.length) : ∃ s, sibling xs i = some s := by
  by_cases ho : i % 2 = 1
  · exact sibling_isSome_of_odd (by omega) ho
  · refine ⟨xs[i + 1], ?_⟩
    rw [sibling, if_neg ho, getElem?_eq_getElem]

theorem sibling_eq_none_of_last {xs : List α} (hi : i + 1 = xs.length) (he : i % 2 = 0) : sibling xs i = none := by
  rw [sibling, if_neg (by omega), getElem?_eq_none (by omega)]

theorem pairUp_getElem? : ∀ (xs : List α) (i : Nat) (x : α), xs[i]? = some x →
    (pairUp node xs)[i / 2]? = some (join node i x (sibling xs i))
  | a :: b :: rest, 0, x, h => by
    simp only [getElem?_cons_zero, Option.some.injEq] at h
    subst h
    rfl
  | a :: b :: rest, 1, x, h => by
    simp only [getElem?_cons_succ, getElem?_cons_zero, Option.some.injEq] at h
    subst h
    rfl
  | a :: b :: rest, i + 2, x, h => by
    have ih := pairUp_getElem? rest i x (by simpa using h)
    have hh : (i + 2) / 2 = i / 2 + 1 := by omega
    have hs : sibling (a :: b :: rest) (i + 2) = sibling rest i := by
      have := @sibling_append_right _ [a, b] rest (i + 2) (by simp) (by simp)
      simpa using this
    have hj : ∀ s, join node (i + 2) x s = join node i x s := by
      intro s
      rcases s with _ | s
      · rfl
      · simp only [join, Nat.add_mod_right]
    rw [hh, hs, hj]
    simpa [pairUp] using ih
  | [a], i, x, h => by
    rcases i with _ | i
    · simpa [pairUp, sibling, join] using h
    · simp at h
  | [], i, x, h => by simp at h

/-- The first `2 k` nodes of a level are the first `k` of the next. -/
theorem pairUp_take (xs : List α) (k : Nat) (hk : 2 * k ≤ xs.length) :
    (pairUp node xs).take k = pairUp node (xs.take (2 * k)) := by
  have hl : (xs.take (2 * k)).length = 2 * k := by simp [hk]
  have ha := pairUp_append node (xs.take (2 * k)) (xs.drop (2 * k)) (by omega)
  rw [take_append_drop] at ha
  rw [ha, take_append_of_le_length (by rw [length_pairUp]; omega), take_of_length_le]
  rw [length_pairUp]
  omega

end PairUp

end SplitTree
