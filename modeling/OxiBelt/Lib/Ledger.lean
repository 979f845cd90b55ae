import Mathlib.Data.List.AList
import Mathlib.Tactic

/-!
# Totals over a finite map

`total f m` adds up `f key value` over the entries of a map.  The lemmas say how a total moves when one
entry is put in, replaced or removed; they are stated without subtraction, so that `omega` can use them.
-/

namespace Ledger

variable {κ α : Type*}

/-- The sum of `f` over the entries of a map. -/
def total (f : κ → α → Nat) (m : AList fun _ : κ => α) : Nat := (m.entries.map fun e => f e.1 e.2).sum

theorem total_one (m : AList fun _ : κ => α) : total (fun _ _ => 1) m = m.entries.length := by
  rw [total, List.map_const', List.sum_replicate, smul_eq_mul, Nat.mul_one]

@[simp] theorem total_empty (f : κ → α → Nat) : total f ∅ = 0 := rfl

variable [DecidableEq κ] {m : AList fun _ : κ => α} {k : κ} {a b : α}

theorem lookup_insert_apply (k' : κ) : (m.insert k a).lookup k' = if k' = k then some a else m.lookup k' := by
  split
  · next h => rw [h, AList.lookup_insert]
  · next h => rw [AList.lookup_insert_ne h]

theorem lookup_erase_apply (k' : κ) : (m.erase k).lookup k' = if k' = k then none else m.lookup k' := by
  split
  · next h => rw [h, AList.lookup_erase]
  · next h => rw [AList.lookup_erase_ne h]

variable (f : κ → α → Nat)

theorem total_erase_add (h : m.lookup k = some a) : total f (m.erase k) + f k a = total f m := by
  have hm : k ∈ m.entries.keys := AList.lookup_isSome.1 (h ▸ rfl)
  obtain ⟨b, before, after, hbf, he, her⟩ := List.exists_of_kerase hm
  have hb : b = a := by
    have hin : (⟨k, b⟩ : Sigma fun _ : κ => α) ∈ m.entries := by simp [he]
    exact Option.some.inj ((AList.mem_lookup_iff.2 hin).symm.trans h)
  show ((m.entries.kerase k).map fun e => f e.1 e.2).sum + f k a = (m.entries.map fun e => f e.1 e.2).sum
  rw [her, he, hb]
  simp only [List.map_append, List.map_cons, List.sum_append, List.sum_cons]
  omega

theorem total_insert_erase : total f (m.insert k a) = f k a + total f (m.erase k) := rfl

theorem total_insert_new (h : m.lookup k = none) : total f (m.insert k a) = total f m + f k a := by
  have he : m.entries.kerase k = m.entries := List.kerase_of_notMem_keys (AList.lookup_eq_none.1 h)
  rw [total_insert_erase, Nat.add_comm]
  show ((m.entries.kerase k).map fun e => f e.1 e.2).sum + f k a = total f m + f k a
  rw [he, total]

theorem total_insert_add (h : m.lookup k = some a) : total f (m.insert k b) + f k a = total f m + f k b := by
  have := total_erase_add f h
  rw [total_insert_erase]
  omega

theorem total_congr {f g : κ → α → Nat} (h : ∀ k a, m.lookup k = some a → f k a = g k a) : total f m = total g m := by
  rw [total, total]
  congr 1
  refine List.map_congr_left fun entry he => h entry.1 entry.2 ?_
  exact AList.mem_lookup_iff.2 he

theorem length_erase_add (h : m.lookup k = some a) : (m.erase k).entries.length + 1 = m.entries.length := by
  rw [← total_one, ← total_one]
  exact total_erase_add (fun _ _ => 1) h

theorem length_insert_new (h : m.lookup k = none) : (m.insert k a).entries.length = m.entries.length + 1 := by
  rw [← total_one, ← total_one]
  exact total_insert_new (fun _ _ => 1) h

theorem length_insert_old (h : m.lookup k = some a) : (m.insert k b).entries.length = m.entries.length := by
  have hl := total_insert_add (b := b) (fun _ _ => 1) h
  rw [total_one, total_one] at hl
  exact Nat.add_right_cancel hl

theorem le_total (h : m.lookup k = some a) : f k a ≤ total f m := by
  have := total_erase_add f h
  omega

end Ledger
