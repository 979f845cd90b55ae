import Mathlib.Tactic

/-!
# Counting in a list of records

How many records satisfy a condition, when one is added, replaced or removed.  The lemmas are stated without
subtraction, so that `omega` can use them.
-/

namespace Tally

open List

variable {α : Type*} {p : α → Bool} {records : List α} {index : Nat} {old : α}

theorem countP_concat (p : α → Bool) (records : List α) (new : α) :
    (records ++ [new]).countP p = records.countP p + (p new).toNat := by
  rw [countP_append, countP_singleton]
  cases p new <;> rfl

theorem countP_eraseIdx_add (p : α → Bool) (h : records[index]? = some old) :
    (records.eraseIdx index).countP p + (p old).toNat = records.countP p := by
  obtain ⟨hi, rfl⟩ := List.getElem?_eq_some_iff.1 h
  rw [← (getElem_cons_eraseIdx_perm hi).countP_eq, countP_cons]
  cases p records[index] <;> rfl

theorem countP_set_add (p : α → Bool) (h : records[index]? = some old) (new : α) :
    (records.set index new).countP p + (p old).toNat = records.countP p + (p new).toNat := by
  obtain ⟨hi, rfl⟩ := List.getElem?_eq_some_iff.1 h
  have hn : (records.set index new)[index]? = some new := getElem?_set_self hi
  have hb := countP_eraseIdx_add p h
  have ha := countP_eraseIdx_add p hn
  rw [eraseIdx_set_eq] at ha
  omega

/-- The first record that satisfies a condition is taken out. -/
theorem countP_eraseP_add (p : α → Bool) {q : α → Bool} (h : records.find? q = some old) :
    (records.eraseP q).countP p + (p old).toNat = records.countP p := by
  induction records with
  | nil => contradiction
  | cons a records ih =>
    cases hq : q a with
    | true =>
      rw [find?_cons_of_pos hq] at h
      cases h
      rw [eraseP_cons_of_pos hq, countP_cons]
      cases p old <;> rfl
    | false =>
      rw [find?_cons_of_neg (by simp [hq])] at h
      rw [eraseP_cons_of_neg (by simp [hq]), countP_cons, countP_cons, ← ih h]
      omega

theorem sum_ite_eq_count {κ : Type*} [DecidableEq κ] (c : κ) (keys : List κ) :
    (keys.map fun k => if c = k then 1 else 0).sum = keys.count c := by
  induction keys with
  | nil => rfl
  | cons k keys ih =>
    rw [map_cons, sum_cons, ih, count_cons, Nat.add_comm]
    congr 1
    exact if_congr (eq_comm.trans beq_iff_eq.symm) rfl rfl

/-- Every record is counted under its own key. -/
theorem sum_countP_key {κ : Type*} [DecidableEq κ] (key : α → κ) (p : α → Bool) {keys : List κ} (hk : keys.Nodup)
    (ha : ∀ k, k ∈ keys) (records : List α) :
    (keys.map fun k => records.countP fun a => decide (key a = k) && p a).sum = records.countP p := by
  induction records with
  | nil => simp
  | cons a records ih =>
    have ho : (keys.map fun k => if (decide (key a = k) && p a) = true then 1 else 0).sum =
        if p a = true then 1 else 0 := by
      cases p a with
      | false => simp
      | true =>
        simp only [Bool.and_true, decide_eq_true_eq, if_true]
        rw [sum_ite_eq_count, count_eq_one_of_mem hk (ha (key a))]
    simp only [countP_cons]
    rw [sum_map_add, ih, ho]

end Tally
