import OxiBelt.RustStd.Text

/-!
# Results with an error text

The model of `anyhow::Result`: an error is its outermost message.  A computation in `do` form is
taken apart with `bind_eq_ok` and `ensure_bind_eq_ok`.
-/

namespace RustStd

abbrev Result (α : Type) := Except Str α

/-- The `ensure!` of `anyhow`. -/
def ensure (holds : Bool) (message : String) : Result Unit :=
  if holds then .ok () else .error message.toList

/-- `Option::context`. -/
def context {α : Type} (x : Option α) (message : Str) : Result α :=
  match x with
  | some a => .ok a
  | none => .error message

section

variable {α β : Type}

variable {ε : Type}

theorem bind_eq_ok {x : Except ε α} {f : α → Except ε β} {r : β} :
    (x >>= f) = .ok r ↔ ∃ a, x = .ok a ∧ f a = .ok r := by
  cases x with
  | ok | error => simp [bind, Except.bind]

theorem unit_bind_eq_ok {x : Except ε Unit} {f : Unit → Except ε β} {r : β} :
    (x >>= f) = .ok r ↔ x = .ok () ∧ f () = .ok r := by
  cases x with
  | ok | error => simp [bind, Except.bind]

/-- A computation that gives up under a condition. -/
theorem guard_eq_ok {refused : Bool} {e : ε} {x : Except ε α} {r : α} :
    (if refused then .error e else x) = .ok r ↔ refused = false ∧ x = .ok r := by
  cases refused <;> simp

theorem ensure_bind_eq_ok {b : Bool} {message : String} {f : Unit → Result β} {r : β} :
    (ensure b message >>= f) = .ok r ↔ b = true ∧ f () = .ok r := by
  cases b with
  | true | false => simp [ensure, bind, Except.bind]

theorem context_eq_ok {x : Option α} {message : Str} {a : α} : context x message = .ok a ↔ x = some a := by
  cases x <;> simp [context]

end

/-- `u64::checked_add(1)`. -/
def checkedSucc (n : UInt64) : Option UInt64 := if n.toNat + 1 < 2 ^ 64 then some (n + 1) else none

theorem checkedSucc_toNat {n m : UInt64} (h : checkedSucc n = some m) : m.toNat = n.toNat + 1 := by
  unfold checkedSucc at h
  split at h
  · next hlt =>
    cases h
    rw [UInt64.toNat_add]
    exact Nat.mod_eq_of_lt hlt
  · contradiction

end RustStd
