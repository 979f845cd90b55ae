import Mathlib.Tactic

/-!
# Runs of a deterministic machine

`run step s xs` lets the machine take the actions of `xs` one after another.  `Along step ok s xs`
says that every action was allowed by `ok` in the state in which it was taken.  `run_invariant` is the
rule by which an invariant of single allowed steps holds at the end of a run.
-/

namespace Transition

variable {σ α : Type*} (step : σ → α → σ) (ok : σ → α → Prop)

def run (s : σ) (xs : List α) : σ := xs.foldl step s

/-- Every action is allowed in the state it is taken in. -/
def Along : σ → List α → Prop
  | _, [] => True
  | s, a :: as => ok s a ∧ Along (step s a) as

instance [∀ s a, Decidable (ok s a)] : ∀ s as, Decidable (Along step ok s as)
  | _, [] => isTrue trivial
  | s, a :: as =>
    haveI : Decidable (Along step ok (step s a) as) := instDecidableAlong (step s a) as
    inferInstanceAs (Decidable (ok s a ∧ Along step ok (step s a) as))

variable {step ok}

@[simp] theorem run_nil (s : σ) : run step s [] = s := rfl

@[simp] theorem run_cons (s : σ) (a : α) (as : List α) :
    run step s (a :: as) = run step (step s a) as := rfl

/-- A run is allowed if its first part is and the rest is from where that ends. -/
theorem along_append {s : σ} {as bs : List α} :
    Along step ok s (as ++ bs) ↔ Along step ok s as ∧ Along step ok (run step s as) bs := by
  induction as generalizing s with
  | nil => simp [Along]
  | cons a as ih => simp [Along, ih, and_assoc]

/-- **Invariant rule.**  What holds at the start and is kept by every allowed step holds at the end
of every run of allowed steps. -/
theorem run_invariant {I : σ → Prop} (hst : ∀ s a, I s → ok s a → I (step s a)) {s : σ}
    (hs : I s) {as : List α} (h : Along step ok s as) : I (run step s as) := by
  induction as generalizing s with
  | nil => exact hs
  | cons a as ih =>
    obtain ⟨ha, has⟩ := h
    exact ih (hst s a hs ha) has

/-- The same, where every step keeps the invariant. -/
theorem run_keeps {I : σ → Prop} (hst : ∀ s a, I s → I (step s a)) {s : σ} (hs : I s) (as : List α) :
    I (run step s as) := by
  induction as generalizing s with
  | nil => exact hs
  | cons a as ih => exact ih (hst s a hs)

end Transition
