import Mathlib.Tactic

/-!
# Machines fed piece by piece

`feed push s xs` gives a machine its input one item at a time until it stops.  It returns how many
items were taken and how the machine stopped, or the state in which it waits for more.  Feeding two
pieces one after the other is feeding them together (`feed_append`).
-/

namespace Feed

variable {σ α τ : Type*} (push : σ → α → τ ⊕ σ)

def feed : σ → List α → Nat × (τ ⊕ σ)
  | s, [] => (0, .inr s)
  | s, a :: as =>
    match push s a with
    | .inl t => (1, .inl t)
    | .inr s => ((feed s as).1 + 1, (feed s as).2)

variable {push}

theorem feed_consumed_le (s : σ) (xs : List α) : (feed push s xs).1 ≤ xs.length := by
  induction xs generalizing s with
  | nil => exact le_refl 0
  | cons a as ih =>
    rw [feed]
    split
    · simp
    next s' _ =>
    have := ih s'
    simpa using this

theorem feed_consumed_pos (s : σ) {xs : List α} (hne : xs ≠ []) : 0 < (feed push s xs).1 := by
  cases xs with
  | nil => contradiction
  | cons a as =>
    rw [feed]
    split <;> simp

theorem feed_waiting {s s' : σ} {xs : List α} (h : (feed push s xs).2 = .inr s') : (feed push s xs).1 = xs.length := by
  induction xs generalizing s with
  | nil => rfl
  | cons a as ih =>
    rw [feed] at h ⊢
    split
    · next t ht =>
      rw [ht] at h
      cases h
    next s₁ hs =>
    rw [hs] at h
    simpa using ih h

theorem feed_append_stopped {s : σ} {t : τ} {xs : List α} (h : (feed push s xs).2 = .inl t)
    (ys : List α) : feed push s (xs ++ ys) = feed push s xs := by
  induction xs generalizing s with
  | nil => cases h
  | cons a as ih =>
    rw [List.cons_append, feed, feed]
    rw [feed] at h
    split at h
    · rfl
    · simp only [ih h]

/-- **Piece by piece.**  A machine that waits after the first piece goes on with the second. -/
theorem feed_append_waiting {s s' : σ} {xs : List α} (h : (feed push s xs).2 = .inr s') (ys : List α) :
    feed push s (xs ++ ys) = (xs.length + (feed push s' ys).1, (feed push s' ys).2) := by
  induction xs generalizing s with
  | nil =>
    cases h
    simp
  | cons a as ih =>
    rw [List.cons_append, feed]
    rw [feed] at h
    split at h
    · cases h
    · simp only [ih h, List.length_cons, Prod.mk.injEq, and_true]
      omega

end Feed
