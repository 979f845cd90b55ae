import Mathlib.Data.List.Basic
import Mathlib.Tactic

/-!
# A bounded window of keys with expiry times

Entries stand in the order in which they came in.  A call drops the entries at the front that have expired, refuses a
key that is still there, and otherwise takes the key in at the end and gives up the oldest entries beyond the capacity.
Times of expiry need not be ordered, so an expired entry can stay behind one that has not expired.

A key that was taken in stays until its time has come, or until as many other keys as the window holds have been taken
in after it (`offer_again_iff`).
-/

namespace Window

open List

variable {κ : Type}

structure Call (κ : Type) where
  key : κ
  ttl : Nat
  now : Nat
  deriving DecidableEq

def keys (entries : List (κ × Nat)) : List κ := entries.map Prod.fst

def prune (now : Nat) (entries : List (κ × Nat)) : List (κ × Nat) := entries.dropWhile (·.2 ≤ now)

def keepLast (capacity : Nat) (entries : List (κ × Nat)) : List (κ × Nat) := entries.drop (entries.length - capacity)

/-- The key stands with its time of expiry, and `newer` entries came after it. -/
def Kept (key : κ) (expiry newer : Nat) (entries : List (κ × Nat)) : Prop :=
  ∃ front back, entries = front ++ (key, expiry) :: back ∧ back.length = newer

section

variable {capacity : Nat} {entries : List (κ × Nat)} {key : κ} {expiry newer : Nat}

theorem prune_suffix (now : Nat) (entries : List (κ × Nat)) : prune now entries <:+ entries := dropWhile_suffix _

theorem keepLast_suffix (capacity : Nat) (entries : List (κ × Nat)) : keepLast capacity entries <:+ entries :=
  drop_suffix _ _

theorem keys_subset {shorter : List (κ × Nat)} (h : shorter <:+ entries) : keys shorter ⊆ keys entries :=
  map_subset _ h.subset

theorem keys_nodup {shorter : List (κ × Nat)} (h : shorter <:+ entries) (hn : (keys entries).Nodup) :
    (keys shorter).Nodup :=
  hn.sublist (h.sublist.map _)

theorem keys_concat (entries : List (κ × Nat)) (entry : κ × Nat) :
    keys (entries ++ [entry]) = keys entries ++ [entry.1] := by
  simp [keys]

section

variable (h : Kept key expiry newer entries)
include h

theorem Kept.mem : key ∈ keys entries := by
  obtain ⟨front, back, rfl, -⟩ := h
  simp [keys]

theorem Kept.pruned {now : Nat} (hlive : now < expiry) :
    Kept key expiry newer (prune now entries) := by
  obtain ⟨front, back, rfl, hb⟩ := h
  induction front with
  | nil =>
    refine ⟨[], back, ?_, hb⟩
    rw [nil_append, prune, dropWhile_cons_of_neg (by simpa using hlive)]
  | cons entry front ih =>
    rw [cons_append, prune, dropWhile_cons]
    split
    · exact ih
    · exact ⟨entry :: front, back, rfl, hb⟩

theorem Kept.concat (entry : κ × Nat) :
    Kept key expiry (newer + 1) (entries ++ [entry]) := by
  obtain ⟨front, back, rfl, hb⟩ := h
  exact ⟨front, back ++ [entry], by simp, by simp [hb]⟩

theorem Kept.trimmed (hr : newer < capacity) :
    Kept key expiry newer (keepLast capacity entries) := by
  obtain ⟨front, back, rfl, hb⟩ := h
  refine ⟨_, back, drop_append_of_le_length ?_, hb⟩
  rw [length_append, length_cons]
  omega

end

/-- The oldest entry of a window with one entry too many. -/
theorem Kept.dropped (h : Kept key expiry capacity entries) (hn : (keys entries).Nodup) :
    key ∉ keys (keepLast capacity entries) := by
  obtain ⟨front, back, rfl, rfl⟩ := h
  have hl : keepLast back.length (front ++ (key, expiry) :: back) = back := by
    have hs : front ++ (key, expiry) :: back = (front ++ [(key, expiry)]) ++ back := by simp
    rw [hs, keepLast]
    refine drop_left' ?_
    simp only [length_append]
    omega
  rw [hl]
  rw [keys, map_append, map_cons] at hn
  exact (nodup_cons.1 (List.Nodup.of_append_right hn)).1

end

/-! ## One call -/

variable [DecidableEq κ]

def offer (capacity : Nat) (entries : List (κ × Nat)) (call : Call κ) : Bool × List (κ × Nat) :=
  let live := prune call.now entries
  if call.key ∈ keys live then (false, live)
  else (true, keepLast capacity (live ++ [(call.key, call.now + call.ttl)]))

variable {capacity : Nat} {entries : List (κ × Nat)} {call : Call κ} {key : κ} {expiry newer : Nat}

theorem offer_eq_refused (h : call.key ∈ keys (prune call.now entries)) :
    offer capacity entries call = (false, prune call.now entries) := if_pos h

theorem offer_eq_accepted (h : call.key ∉ keys (prune call.now entries)) : offer capacity entries call =
      (true, keepLast capacity (prune call.now entries ++ [(call.key, call.now + call.ttl)])) := if_neg h

theorem not_mem_of_accepted (h : (offer capacity entries call).1 = true) :
    call.key ∉ keys (prune call.now entries) := by
  intro hk
  rw [offer_eq_refused hk] at h
  contradiction

theorem offer_nodup (h : (keys entries).Nodup) : (keys (offer capacity entries call).2).Nodup := by
  have hlive := keys_nodup (prune_suffix call.now entries) h
  by_cases hk : call.key ∈ keys (prune call.now entries)
  · rw [offer_eq_refused hk]
    exact hlive
  rw [offer_eq_accepted hk]
  refine keys_nodup (keepLast_suffix _ _) ?_
  rw [keys_concat]
  exact List.nodup_append'.2 ⟨hlive, nodup_singleton _, List.disjoint_singleton.2 hk⟩

theorem offer_not_mem (h : call.key ∉ keys entries) : (offer capacity entries call).1 = true := by
  rw [offer_eq_accepted fun hm => h (keys_subset (prune_suffix _ _) hm)]

theorem offer_absent (h : key ∉ keys entries) (hc : (offer capacity entries call).1 = true → call.key ≠ key) :
    key ∉ keys (offer capacity entries call).2 := by
  have hlive : key ∉ keys (prune call.now entries) := fun hm => h (keys_subset (prune_suffix _ _) hm)
  by_cases hk : call.key ∈ keys (prune call.now entries)
  · rw [offer_eq_refused hk]
    exact hlive
  rw [offer_eq_accepted hk] at hc ⊢
  intro hm
  have hm := keys_subset (keepLast_suffix _ _) hm
  rw [keys_concat, mem_append, mem_singleton] at hm
  exact hm.elim hlive fun heq => hc rfl heq.symm

theorem offer_new (h : (offer capacity entries call).1 = true) (hc : 0 < capacity) :
    Kept call.key (call.now + call.ttl) 0 (offer capacity entries call).2 := by
  rw [offer_eq_accepted (not_mem_of_accepted h)]
  exact Kept.trimmed ⟨_, [], rfl, rfl⟩ hc

section

variable (hkept : Kept key expiry newer entries) (hlive : call.now < expiry)
include hkept hlive

theorem Kept.offer_again (hk : call.key = key) : (offer capacity entries call).1 = false := by
  have hm := (hkept.pruned hlive).mem
  rw [← hk] at hm
  rw [offer_eq_refused hm]

theorem Kept.offer_refused (hr : (offer capacity entries call).1 = false) :
    Kept key expiry newer (offer capacity entries call).2 := by
  by_cases hk : call.key ∈ keys (prune call.now entries)
  · rw [offer_eq_refused hk]
    exact hkept.pruned hlive
  · rw [offer_eq_accepted hk] at hr
    contradiction

theorem Kept.offer_accepted (ha : (offer capacity entries call).1 = true) (hr : newer + 1 < capacity) :
    Kept key expiry (newer + 1) (offer capacity entries call).2 := by
  rw [offer_eq_accepted (not_mem_of_accepted ha)]
  exact ((hkept.pruned hlive).concat _).trimmed hr

theorem Kept.offer_dropped (hn : (keys entries).Nodup) (ha : (offer capacity entries call).1 = true)
    (hr : newer + 1 = capacity) : key ∉ keys (offer capacity entries call).2 := by
  have hk := not_mem_of_accepted ha
  rw [offer_eq_accepted hk]
  refine Kept.dropped (hr ▸ (hkept.pruned hlive).concat _) ?_
  rw [keys_concat]
  exact List.nodup_append'.2 ⟨keys_nodup (prune_suffix _ _) hn, nodup_singleton _, List.disjoint_singleton.2 hk⟩

end

/-! ## Runs -/

def log (capacity : Nat) : List (κ × Nat) → List (Call κ) → List (Call κ × Bool)
  | _, [] => []
  | entries, call :: calls =>
    (call, (offer capacity entries call).1) :: log capacity (offer capacity entries call).2 calls

def after (capacity : Nat) : List (κ × Nat) → List (Call κ) → List (κ × Nat)
  | entries, [] => entries
  | entries, call :: calls => after capacity (offer capacity entries call).2 calls

def accepted (log : List (Call κ × Bool)) : Nat := log.countP (·.2)

theorem log_map_fst (calls : List (Call κ)) : (log capacity entries calls).map Prod.fst = calls := by
  induction calls generalizing entries with
  | nil => rfl
  | cons call calls ih => rw [log, map_cons, ih]

theorem log_append (first rest : List (Call κ)) : log capacity entries (first ++ rest) =
      log capacity entries first ++ log capacity (after capacity entries first) rest := by
  induction first generalizing entries with
  | nil => rfl
  | cons call first ih => rw [cons_append, log, ih, log, after, cons_append]

variable {calls : List (Call κ)}

theorem log_fresh (hn : (calls.map Call.key).Nodup)
    (hf : ∀ call ∈ calls, call.key ∉ keys entries) : log capacity entries calls = calls.map (·, true) := by
  induction calls generalizing entries with
  | nil => rfl
  | cons call calls ih =>
    obtain ⟨hc, hn⟩ := nodup_cons.1 hn
    obtain ⟨hk, hf⟩ := forall_mem_cons.1 hf
    have hr : ∀ other ∈ calls, other.key ∉ keys (offer capacity entries call).2 := by
      intro other ho
      refine offer_absent (hf other ho) fun _ heq => hc ?_
      rw [heq]
      exact mem_map_of_mem ho
    rw [log, offer_not_mem hk, ih hn hr, map_cons]

theorem log_eq_append {front back : List (Call κ × Bool)} (h : log capacity entries calls = front ++ back) :
    ∃ first rest, calls = first ++ rest ∧ log capacity entries first = front ∧
      log capacity (after capacity entries first) rest = back := by
  induction front generalizing entries calls with
  | nil => exact ⟨[], calls, rfl, rfl, h⟩
  | cons item front ih =>
    cases calls with
    | nil => contradiction
    | cons call calls =>
      obtain ⟨rfl, ht⟩ := List.cons.inj h
      obtain ⟨first, rest, rfl, hf, hb⟩ := ih ht
      exact ⟨call :: first, rest, rfl, by rw [log, hf], hb⟩

theorem log_eq_cons {item : Call κ × Bool} {back : List (Call κ × Bool)}
    (h : log capacity entries calls = item :: back) :
    ∃ rest, calls = item.1 :: rest ∧ (offer capacity entries item.1).1 = item.2 ∧
      log capacity (offer capacity entries item.1).2 rest = back := by
  cases calls with
  | nil => contradiction
  | cons call calls =>
    obtain ⟨rfl, ht⟩ := List.cons.inj h
    exact ⟨calls, rfl, rfl, ht⟩

theorem after_nodup (calls : List (Call κ)) (h : (keys entries).Nodup) :
    (keys (after capacity entries calls)).Nodup := by
  induction calls generalizing entries with
  | nil => exact h
  | cons call calls ih => exact ih (offer_nodup h)

theorem after_absent (h : key ∉ keys entries)
    (hc : ∀ item ∈ log capacity entries calls, item.2 = true → item.1.key ≠ key) :
    key ∉ keys (after capacity entries calls) := by
  induction calls generalizing entries with
  | nil => exact h
  | cons call calls ih =>
    obtain ⟨hcl, hc⟩ := forall_mem_cons.1 hc
    exact ih (offer_absent h hcl) hc

/-- As long as its time has not come, a key stays until the window is full of newer ones. -/
theorem after_mem_iff (hn : (keys entries).Nodup) (hkept : Kept key expiry newer entries)
    (hrm : newer < capacity) (hlive : ∀ call ∈ calls, call.now < expiry)
    (hcl : ∀ item ∈ log capacity entries calls, item.2 = true → item.1.key ≠ key) :
    (newer + accepted (log capacity entries calls) < capacity ∧
        Kept key expiry (newer + accepted (log capacity entries calls)) (after capacity entries calls)) ∨
      (capacity ≤ newer + accepted (log capacity entries calls) ∧ key ∉ keys (after capacity entries calls)) := by
  induction calls generalizing entries newer with
  | nil => exact .inl ⟨hrm, hkept⟩
  | cons call calls ih =>
    obtain ⟨hnw, hlive⟩ := forall_mem_cons.1 hlive
    obtain ⟨-, hr⟩ := forall_mem_cons.1 hcl
    have hc : accepted (log capacity entries (call :: calls)) = (offer capacity entries call).1.toNat +
        accepted (log capacity (offer capacity entries call).2 calls) := by
      cases ha : (offer capacity entries call).1 <;> simp [accepted, log, ha, Nat.add_comm]
    rw [hc, ← Nat.add_assoc]
    cases ha : (offer capacity entries call).1 with
    | false => exact ih (offer_nodup hn) (hkept.offer_refused hnw ha) hrm hlive hr
    | true =>
      rw [Bool.toNat_true]
      by_cases hf : newer + 1 < capacity
      · exact ih (offer_nodup hn) (hkept.offer_accepted hnw ha hf) hf hlive hr
      have hd := hkept.offer_dropped hnw hn ha (by omega)
      have hab := after_absent hd hr
      exact .inr ⟨by omega, hab⟩

/-- A key that was accepted, offered again before its time has come and not accepted in between. -/
theorem offer_again_iff {first again : Call κ} {between : List (Call κ)} (hcp : 0 < capacity)
    (hn : (keys entries).Nodup) (hf : (offer capacity entries first).1 = true)
    (hlive : ∀ call ∈ between, call.now < first.now + first.ttl) (hag : again.now < first.now + first.ttl)
    (hk : again.key = first.key)
    (hb : ∀ item ∈ log capacity (offer capacity entries first).2 between, item.2 = true → item.1.key ≠ first.key) :
    (offer capacity (after capacity (offer capacity entries first).2 between) again).1 = true ↔
      capacity ≤ accepted (log capacity (offer capacity entries first).2 between) := by
  have hnw := offer_new hf hcp
  rcases after_mem_iff (offer_nodup hn) hnw hcp hlive hb with ⟨hc, hkept⟩ | ⟨hc, ha⟩
  · rw [Nat.zero_add] at hc
    rw [hkept.offer_again hag hk]
    simpa using hc
  rw [Nat.zero_add] at hc
  rw [← hk] at ha
  exact iff_of_true (offer_not_mem ha) hc

end Window
