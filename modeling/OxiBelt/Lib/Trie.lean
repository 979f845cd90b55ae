import Mathlib.Data.List.Basic

/-!
# Tries

A tree whose edges have labels; a value is stored at the node that its path of labels leads to.

`valuesAt_insert` says what an insertion changes, `mem_valuesAlong` what a walk along a path finds.
-/

inductive Trie (κ α : Type) where
  | mk (values : List α) (children : List (κ × Trie κ α))

namespace Trie

open List

variable {κ α : Type} [DecidableEq κ]

def empty : Trie κ α := mk [] []

def values : Trie κ α → List α
  | mk values _ => values

def children : Trie κ α → List (κ × Trie κ α)
  | mk _ children => children

/-- A change of the node under a label, which is made if it is missing. -/
def alter (change : Trie κ α → Trie κ α) (label : κ) : List (κ × Trie κ α) → List (κ × Trie κ α)
  | [] => [(label, change empty)]
  | (other, node) :: rest =>
    if label == other then (other, change node) :: rest else (other, node) :: alter change label rest

def insert (value : α) : List κ → Trie κ α → Trie κ α
  | [], node => mk (node.values ++ [value]) node.children
  | label :: path, node => mk node.values (alter (insert value path) label node.children)

def valuesAt : List κ → Trie κ α → List α
  | [], node => node.values
  | label :: path, node => (node.children.lookup label).elim [] (valuesAt path)

/-- The values at the nodes that a walk down the path comes to, as long as there are fewer than `limit` edges above
them. -/
def valuesAlong (limit : Nat) : Nat → List κ → Trie κ α → List α
  | _, [], _ => []
  | depth, label :: path, node =>
    match node.children.lookup label with
    | none => []
    | some child => (if depth + 1 < limit then child.values else []) ++ valuesAlong limit (depth + 1) path child

variable {node : Trie κ α} {path other : List κ} {value : α}

theorem valuesAt_empty : (empty : Trie κ α).valuesAt path = [] := by
  cases path with
  | nil => rfl
  | cons label path => rfl

theorem lookup_alter (change : Trie κ α → Trie κ α) (label other : κ) (children : List (κ × Trie κ α)) :
    (alter change label children).lookup other =
      if other = label then some (change ((children.lookup label).getD empty)) else children.lookup other := by
  induction children with
  | nil =>
    by_cases h : other = label
    · simp [alter, h]
    · simp [alter, h, lookup_cons, beq_false_of_ne h]
  | cons child rest ih =>
    obtain ⟨key, node⟩ := child
    by_cases hk : label = key
    · subst hk
      by_cases h : other = label
      · simp [alter, h]
      · simp [alter, h, lookup_cons, beq_false_of_ne h]
    · by_cases h : other = key
      · subst h
        simp [alter, hk, Ne.symm hk]
      · simp [alter, lookup_cons, beq_false_of_ne hk, beq_false_of_ne h, ih]

/-- An insertion adds the value to what is found at its path. -/
theorem valuesAt_insert :
    (node.insert value path).valuesAt other =
      if other = path then node.valuesAt path ++ [value] else node.valuesAt other := by
  induction path generalizing node other with
  | nil =>
    cases other with
    | nil => rfl
    | cons label other => rfl
  | cons label path ih =>
    cases other with
    | nil => rfl
    | cons first other =>
      show ((alter (insert value path) label node.children).lookup first).elim [] (valuesAt other) = _
      rw [lookup_alter]
      by_cases hl : first = label
      · subst hl
        rw [if_pos rfl, Option.elim_some, ih]
        cases hc : node.children.lookup first with
        | none => simp only [cons.injEq, true_and, valuesAt, hc, Option.getD_none, Option.elim_none, valuesAt_empty]
        | some child => simp only [cons.injEq, true_and, valuesAt, hc, Option.getD_some, Option.elim_some]
      · rw [if_neg hl, if_neg fun h => hl (cons.inj h).1]
        rfl

theorem mem_valuesAlong {limit depth : Nat} : value ∈ node.valuesAlong limit depth path ↔
      ∃ front, front ≠ [] ∧ front <+: path ∧ depth + front.length < limit ∧ value ∈ node.valuesAt front := by
  induction path generalizing node depth with
  | nil =>
    constructor
    · nofun
    · rintro ⟨front, hn, hp, -⟩
      exact absurd (prefix_nil.1 hp) hn
  | cons label path ih =>
    rw [valuesAlong]
    cases hc : node.children.lookup label with
    | none =>
      constructor
      · nofun
      rintro ⟨_ | ⟨first, front⟩, hn, hp, -, hv⟩
      · exact absurd rfl hn
      · rw [valuesAt, (cons_prefix_cons.1 hp).1, hc] at hv
        cases hv
    | some child =>
      have ha : ∀ front, node.valuesAt (label :: front) = child.valuesAt front := by
        intro front
        rw [valuesAt, hc, Option.elim_some]
      show value ∈ _ ++ _ ↔ _
      rw [mem_append, ih]
      constructor
      · rintro (hv | ⟨front, -, hp, hd, hv⟩)
        · split at hv
          · next hd => exact ⟨[label], nofun, cons_prefix_cons.2 ⟨rfl, nil_prefix⟩, hd, (ha []).symm ▸ hv⟩
          · cases hv
        · rw [Nat.add_assoc, Nat.add_comm 1] at hd
          exact ⟨label :: front, nofun, cons_prefix_cons.2 ⟨rfl, hp⟩, hd, (ha front).symm ▸ hv⟩
      rintro ⟨_ | ⟨first, front⟩, hn, hp, hd, hv⟩
      · exact absurd rfl hn
      obtain ⟨rfl, hf⟩ := cons_prefix_cons.1 hp
      rw [ha] at hv
      cases front with
      | nil => exact .inl ((if_pos hd).symm ▸ hv)
      | cons second front =>
        rw [length_cons, Nat.add_comm _ 1, ← Nat.add_assoc] at hd
        exact .inr ⟨_, cons_ne_nil _ _, hf, hd, hv⟩

end Trie
