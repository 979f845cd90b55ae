import Mathlib.Tactic

/-!
# Tables with a primary key

A table is a list of rows of which no two have the same key.  A row that is written over another one is put in its
place (`replace`); `mem_replace` says what the table holds then.
-/

namespace Table

open List

variable {Row Key : Type*} (key : Row → Key)

def Keyed (rows : List Row) : Prop := (rows.map key).Nodup

variable {key} {rows : List Row} {row old new : Row}

namespace Keyed

theorem eq_of_key (h : Keyed key rows) (ho : old ∈ rows) (hr : row ∈ rows) (hk : key row = key old) : row = old :=
  inj_on_of_nodup_map h hr ho hk

theorem map (h : Keyed key rows) {f : Row → Row} (hf : ∀ row, key (f row) = key row) : Keyed key (rows.map f) := by
  have hk : key ∘ f = key := funext hf
  rw [Keyed, map_map, hk]
  exact h

theorem concat (h : Keyed key rows) (hnw : ∀ row ∈ rows, key row ≠ key new) : Keyed key (rows ++ [new]) := by
  rw [Keyed, map_append]
  refine List.Nodup.append h (nodup_singleton _) fun k hk hn => ?_
  obtain ⟨row, hr, rfl⟩ := mem_map.1 hk
  exact hnw row hr (mem_singleton.1 hn)

theorem filter_eq_singleton (h : Keyed key rows) {p : Row → Bool} (hrw : row ∈ rows) (hp : p row = true)
    (hon : ∀ other ∈ rows, p other = true → other = row) : rows.filter p = [row] := by
  have hn : (rows.filter p).Nodup := (List.Nodup.of_map key h).filter p
  have ha : ∀ other ∈ rows.filter p, other = row := fun other ho =>
    hon other (mem_filter.1 ho).1 (mem_filter.1 ho).2
  have hm : row ∈ rows.filter p := mem_filter.2 ⟨hrw, hp⟩
  have hr := eq_replicate_of_mem ha
  have hle : (rows.filter p).length ≤ 1 := List.nodup_replicate.1 (hr ▸ hn)
  have hps : 0 < (rows.filter p).length := length_pos_of_mem hm
  rw [hr, Nat.le_antisymm hle hps]
  rfl

theorem length_filter_le_one (h : Keyed key rows) {p : Row → Bool}
    (hon : ∀ row ∈ rows, ∀ other ∈ rows, p row = true → p other = true → key other = key row) :
    (rows.filter p).length ≤ 1 := by
  by_cases ha : ∃ row ∈ rows, p row = true
  · obtain ⟨row, hr, hp⟩ := ha
    rw [h.filter_eq_singleton hr hp fun other ho hpt =>
      h.eq_of_key hr ho (hon row hr other ho hp hpt)]
    exact Nat.le_refl 1
  · have hn : rows.filter p = [] := filter_eq_nil_iff.2 fun row hr hp => ha ⟨row, hr, hp⟩
    rw [hn]
    exact Nat.zero_le 1

end Keyed

variable [DecidableEq Key]

section

variable (key)

def select (rows : List Row) (k : Key) : Option Row := rows.find? fun row => key row = k

/-- An `UPDATE` of the row with a key. -/
def update (rows : List Row) (k : Key) (change : Row → Row) : List Row :=
  rows.map fun row => if key row = k then change row else row

def replace (rows : List Row) (new : Row) : List Row := update key rows (key new) fun _ => new

end

variable {k : Key}

theorem select_eq_none : select key rows k = none ↔ ∀ row ∈ rows, key row ≠ k := by simp [select]

theorem mem_of_select (h : select key rows k = some row) : row ∈ rows ∧ key row = k :=
  ⟨mem_of_find?_eq_some h, by simpa using find?_some h⟩

namespace Keyed

theorem select_eq (h : Keyed key rows) (hr : row ∈ rows) : select key rows (key row) = some row := by
  cases hs : select key rows (key row) with
  | none => exact absurd rfl (select_eq_none.1 hs row hr)
  | some found =>
    obtain ⟨hf, hk⟩ := mem_of_select hs
    rw [h.eq_of_key hr hf hk]

theorem replace (h : Keyed key rows) : Keyed key (replace key rows new) := by
  refine h.map fun row => ?_
  split
  · next hk => exact hk.symm
  · rfl

theorem update_eq (h : Keyed key rows) (ho : old ∈ rows) {change : Row → Row} (hc : key (change old) = key old) :
    update key rows (key old) change = Table.replace key rows (change old) := by
  refine map_congr_left fun row hr => ?_
  rw [hc]
  refine ite_congr rfl (fun hk => ?_) fun _ => rfl
  rw [h.eq_of_key ho hr hk]

theorem map_ite_eq (h : Keyed key rows) {selects : Row → Bool} (ho : old ∈ rows) (hs : selects old = true)
    (hon : ∀ row, selects row = true → key row = key old) {change : Row → Row}
    (hc : key (change old) = key old) :
    (rows.map fun row => if selects row then change row else row) = Table.replace key rows (change old) := by
  refine (map_congr_left fun row hr => ?_).trans (h.update_eq ho hc)
  refine ite_congr (propext ⟨hon row, fun hk => ?_⟩) (fun _ => rfl) fun _ => rfl
  rw [h.eq_of_key ho hr hk]
  exact hs

end Keyed

theorem mem_replace (ho : old ∈ rows) (hk : key old = key new) :
    row ∈ replace key rows new ↔ row = new ∨ row ∈ rows ∧ key row ≠ key new := by
  rw [replace, update, mem_map]
  constructor
  · rintro ⟨a, ha, rfl⟩
    split
    · exact .inl rfl
    · next hne => exact .inr ⟨ha, hne⟩
  · rintro (rfl | ⟨hr, hne⟩)
    · exact ⟨old, ho, if_pos hk⟩
    · exact ⟨row, hr, if_neg hne⟩

theorem exists_key_replace (ho : old ∈ rows) (hk : key old = key new) (hr : row ∈ rows) :
    ∃ later ∈ replace key rows new, key later = key row := by
  by_cases heq : key row = key new
  · exact ⟨new, (mem_replace ho hk).2 (.inl rfl), heq.symm⟩
  · exact ⟨row, (mem_replace ho hk).2 (.inr ⟨hr, heq⟩), rfl⟩

end Table
