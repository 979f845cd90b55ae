import Mathlib.Tactic

/-!
# Messages in flight

A message that arrives changes what its receiver knows, or is refused (`absorb`).  `arrive` lets a whole
word of messages arrive in order.  The state of an ordered channel is described by one equation: from what
the receiver knows now, the messages in flight lead to what the sender has said.  Sending extends the word
(`arrive_snoc`), and receiving takes its first message (`arrive_cons_eq`).
-/

namespace InFlight

variable {ρ γ : Type*} (absorb : ρ → γ → Option ρ)

/-- What the receiver knows when the whole word has arrived; nothing if a message is refused. -/
def arrive (r : ρ) (word : List γ) : Option ρ := word.foldlM absorb r

variable {absorb}

theorem arrive_cons_eq {r s : ρ} {c : γ} {word : List γ} :
    arrive absorb r (c :: word) = some s ↔ ∃ r', absorb r c = some r' ∧ arrive absorb r' word = some s := by
  rw [arrive, List.foldlM_cons]
  exact Option.bind_eq_some_iff

theorem arrive_snoc {r s : ρ} {c : γ} {word : List γ} (h : arrive absorb r word = some s) :
    arrive absorb r (word ++ [c]) = absorb s c := by
  rw [arrive] at h ⊢
  rw [List.foldlM_append, h]
  simp

/-- A reflexive and transitive relation between what is known before and after one message holds between
what is known before and after a word. -/
theorem arrive_le {R : ρ → ρ → Prop} (hr : ∀ r, R r r) (ht : ∀ r s t, R r s → R s t → R r t)
    (hs : ∀ r c s, absorb r c = some s → R r s) {r s : ρ} {word : List γ}
    (h : arrive absorb r word = some s) : R r s := by
  induction word generalizing r with
  | nil =>
    cases h
    exact hr _
  | cons c word ih =>
    obtain ⟨r₁, hc, hw⟩ := arrive_cons_eq.1 h
    exact ht _ _ _ (hs _ _ _ hc) (ih hw)

end InFlight
