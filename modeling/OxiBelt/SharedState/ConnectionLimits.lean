import OxiBelt.Lib.Ledger
import OxiBelt.Lib.Transition

/-!
# Shared connection limits (`shared_state/atomic_updates.rs`)

A connection takes a lease on some keys.  Each key has a counter, and each lease a marker; both expire.  A script of
Redis or a transaction of Postgres is one step, under one clock.

Every lease renews the counters of its keys, but a marker that runs out takes nothing from them.  A counter is the
number of leases on its key as long as a marker never runs out before the counters of its keys (`counter_eq_leases`);
when it does, the counter is too high from then on (`counter_after_expiry`).
-/

namespace SharedState.ConnectionLimits

open Transition

/-! ## Model -/

variable {κ μ η : Type} [DecidableEq κ] [DecidableEq μ]

/-- The value of a marker: the digest of the sorted keys and limits, taken as injective, and for a lease that can be
adopted also its holder. -/
structure Fingerprint (κ η : Type) where
  keys : Finset κ
  holder : Option η
  deriving DecidableEq

/-- A lease whose keys have passed `validate_lease_inputs`; it is adoptable if it names its holder. -/
structure SharedCounterLease (κ μ η : Type) where
  markerKey : μ
  keys : List κ
  holder : Option η
  unique : keys.Nodup

def SharedCounterLease.fingerprint (lease : SharedCounterLease κ μ η) : Fingerprint κ η :=
  ⟨lease.keys.toFinset, lease.holder⟩

structure Config (κ : Type) where
  limit : κ → Nat
  ttl : Nat
  ttl_pos : 0 < ttl

structure Expiring (α : Type) where
  value : α
  expiry : Nat

structure Store (κ μ η : Type) where
  now : Nat
  counters : κ → Expiring Nat
  markers : AList fun _ : μ => Expiring (Fingerprint κ η)

namespace Store

variable (s : Store κ μ η)

/-- A counter as it is read: Redis drops an expired one, and the transaction takes it for zero. -/
def counter (key : κ) : Nat := if s.now < (s.counters key).expiry then (s.counters key).value else 0

def marker (markerKey : μ) : Option (Fingerprint κ η) :=
  (s.markers.lookup markerKey).bind fun marker => if s.now < marker.expiry then some marker.value else none

/-- Writes the counters of a lease and its marker, all with the same expiry. -/
def grant (config : Config κ) (lease : SharedCounterLease κ μ η) (value : κ → Nat) : Store κ μ η :=
  { s with
    counters := fun key => if key ∈ lease.keys then ⟨value key, s.now + config.ttl⟩ else s.counters key
    markers := s.markers.insert lease.markerKey ⟨lease.fingerprint, s.now + config.ttl⟩ }

inductive Outcome where
  | acquired
  | denied (index : Nat)
  | mismatch
  | missingCounter

/-- `connection_acquire_atomic`. -/
def acquire [DecidableEq η] (config : Config κ) (lease : SharedCounterLease κ μ η) : Store κ μ η × Outcome :=
  match s.marker lease.markerKey with
  | some stored =>
    if lease.holder.isSome then
      if stored.holder.isNone || stored.keys != lease.keys.toFinset then (s, .mismatch)
      else if lease.keys.any fun key => s.counter key < 1 then (s, .missingCounter)
      else (s.grant config lease s.counter, .acquired)
    else (s, if stored = lease.fingerprint then .acquired else .mismatch)
  | none =>
    match lease.keys.findIdx? fun key => config.limit key ≤ s.counter key with
    | some index => (s, .denied index)
    | none => (s.grant config lease fun key => s.counter key + 1, .acquired)

def giveBack (lease : SharedCounterLease κ μ η) : Store κ μ η :=
  { s with
    counters := fun key =>
      if key ∈ lease.keys then ⟨(s.counters key).value - 1, (s.counters key).expiry⟩ else s.counters key
    markers := s.markers.erase lease.markerKey }

/-- `connection_release_atomic`: the marker of another holder stays. -/
def release [DecidableEq η] (lease : SharedCounterLease κ μ η) : Store κ μ η :=
  if s.marker lease.markerKey = some lease.fingerprint then s.giveBack lease else s

end Store

open Store

inductive Action (κ μ η : Type) where
  | acquire (lease : SharedCounterLease κ μ η)
  | release (lease : SharedCounterLease κ μ η)
  | tick (elapsed : Nat)

def Store.step [DecidableEq η] (config : Config κ) (s : Store κ μ η) : Action κ μ η → Store κ μ η
  | .acquire lease => (s.acquire config lease).1
  | .release lease => s.release lease
  | .tick elapsed => { s with now := s.now + elapsed }

/-! ## Leases -/

def Counts (now : Nat) (key : κ) (marker : Expiring (Fingerprint κ η)) : Prop :=
  now < marker.expiry ∧ key ∈ marker.value.keys

instance (now : Nat) (key : κ) (marker : Expiring (Fingerprint κ η)) : Decidable (Counts now key marker) :=
  inferInstanceAs (Decidable (_ ∧ _))

/-- The number of unreleased leases on a key whose marker has not expired. -/
def Store.leases (s : Store κ μ η) (key : κ) : Nat :=
  Ledger.total (fun _ marker => if Counts s.now key marker then 1 else 0) s.markers

/-- Every counter is the number of leases on its key, and outlives them. -/
structure Counted (config : Config κ) (s : Store κ μ η) : Prop where
  exact : ∀ key, s.counter key = s.leases key
  within : ∀ key, s.counter key ≤ config.limit key
  outlives : ∀ markerKey marker, s.markers.lookup markerKey = some marker → ∀ key, Counts s.now key marker →
    marker.expiry ≤ (s.counters key).expiry
  renewed : ∀ key, (s.counters key).expiry ≤ s.now + config.ttl
  markers_le : ∀ markerKey marker, s.markers.lookup markerKey = some marker → marker.expiry ≤ s.now + config.ttl

variable {config : Config κ} {s : Store κ μ η} {lease : SharedCounterLease κ μ η} {key : κ}

/-- The marker of a lease replaces one with the keys of `stored`. -/
theorem leases_grant (config : Config κ) (s : Store κ μ η) (lease : SharedCounterLease κ μ η) (value : κ → Nat)
    (key : κ) :
    (s.grant config lease value).leases key +
      (if ∃ stored ∈ s.marker lease.markerKey, key ∈ stored.keys then 1 else 0) =
        s.leases key + if key ∈ lease.keys then 1 else 0 := by
  have hn : (if key ∈ lease.keys then 1 else 0) =
      if Counts s.now key (⟨lease.fingerprint, s.now + config.ttl⟩ : Expiring (Fingerprint κ η)) then 1 else 0 := by
    simp [Counts, SharedCounterLease.fingerprint, config.ttl_pos]
  rw [hn]
  cases hl : s.markers.lookup lease.markerKey with
  | none =>
    rw [if_neg (by simp [marker, hl])]
    exact Ledger.total_insert_new (fun _ marker => if Counts s.now key marker then 1 else 0) hl
  | some marker =>
    have hm : (∃ stored ∈ s.marker lease.markerKey, key ∈ stored.keys) ↔ Counts s.now key marker := by
      by_cases hlt : s.now < marker.expiry <;> simp [Store.marker, hl, Counts, hlt]
    rw [if_congr hm rfl rfl]
    exact Ledger.total_insert_add (fun _ marker => if Counts s.now key marker then 1 else 0) hl

theorem counter_grant (value : κ → Nat) (key : κ) :
    (s.grant config lease value).counter key = if key ∈ lease.keys then value key else s.counter key := by
  unfold counter grant
  by_cases hk : key ∈ lease.keys
  · simp [hk, config.ttl_pos]
  · simp [hk]

theorem Counted.grant (h : Counted config s) {value : κ → Nat}
    (hv : ∀ key ∈ lease.keys, value key = (s.grant config lease value).leases key ∧ value key ≤ config.limit key)
    (ho : ∀ key ∉ lease.keys, ∀ stored ∈ s.marker lease.markerKey, key ∉ stored.keys) :
    Counted config (s.grant config lease value) where
  exact key := by
    rw [counter_grant]
    by_cases hk : key ∈ lease.keys
    · rw [if_pos hk, (hv key hk).1]
    · have hl := leases_grant config s lease value key
      rw [if_neg hk, h.exact]
      rw [if_neg hk, if_neg (by simpa using ho key hk)] at hl
      exact hl.symm
  within key := by
    rw [counter_grant]
    split
    · next hk => exact (hv key hk).2
    · exact h.within key
  outlives markerKey marker hl key hc := by
    have hle : marker.expiry ≤ s.now + config.ttl ∧ (key ∉ lease.keys → marker.expiry ≤ (s.counters key).expiry) := by
      simp only [Store.grant, Ledger.lookup_insert_apply] at hl
      split at hl
      · cases hl
        exact ⟨le_rfl, fun hk => absurd (List.mem_toFinset.1 hc.2) hk⟩
      · exact ⟨h.markers_le _ _ hl, fun _ => h.outlives _ _ hl key hc⟩
    simp only [Store.grant]
    split
    · exact hle.1
    · next hk => exact hle.2 hk
  renewed key := by
    simp only [Store.grant]
    split
    · exact le_rfl
    · exact h.renewed key
  markers_le markerKey marker hl := by
    simp only [Store.grant, Ledger.lookup_insert_apply] at hl
    split at hl
    · cases hl
      exact le_rfl
    · exact h.markers_le _ _ hl

variable [DecidableEq η]

theorem Counted.acquire (h : Counted config s) (lease : SharedCounterLease κ μ η) :
    Counted config (s.acquire config lease).1 := by
  unfold Store.acquire
  cases hm : s.marker lease.markerKey with
  | some stored =>
    dsimp only
    split
    · split
      · exact h
      split
      · exact h
      next hs hc =>
      -- The lease is adopted: the marker keeps its keys, and the counters their values.
      simp only [Bool.or_eq_true, bne_iff_ne, not_or, not_not] at hs
      have hk : ∀ key, key ∈ stored.keys ↔ key ∈ lease.keys := fun key => by rw [hs.2, List.mem_toFinset]
      refine h.grant (fun key hkey => ⟨?_, h.within key⟩) fun key hkey stored' hst => ?_
      · have hl := leases_grant config s lease s.counter key
        rw [hm, if_pos ⟨stored, rfl, (hk key).2 hkey⟩, if_pos hkey] at hl
        rw [h.exact]
        omega
      · cases hm.symm.trans hst
        rwa [hk]
    · exact h
  | none =>
    dsimp only
    split
    · exact h
    next hf =>
    refine h.grant (fun key hkey => ?_) fun key hkey stored hst => ?_
    · have hl := leases_grant config s lease (fun key => s.counter key + 1) key
      rw [hm, if_neg (by simp), if_pos hkey] at hl
      have hlt := List.findIdx?_eq_none_iff.1 hf key hkey
      rw [decide_eq_false_iff_not] at hlt
      have he := h.exact key
      omega
    · rw [hm] at hst
      cases hst

theorem Counted.release (h : Counted config s) (lease : SharedCounterLease κ μ η) :
    Counted config (s.release lease) := by
  unfold Store.release
  split
  · next hm =>
    obtain ⟨marker, hl, hlt, hv⟩ : ∃ marker, s.markers.lookup lease.markerKey = some marker ∧ _ := by
      simpa [Store.marker, Option.bind_eq_some_iff] using hm
    have hc : ∀ key, (s.giveBack lease).counter key = s.counter key - if key ∈ lease.keys then 1 else 0 := fun key => by
      by_cases hk : key ∈ lease.keys <;> by_cases hx : s.now < (s.counters key).expiry <;>
        simp [counter, giveBack, hk, hx]
    have hle : ∀ markerKey marker, (s.giveBack lease).markers.lookup markerKey = some marker →
        s.markers.lookup markerKey = some marker := by
      intro markerKey marker ha
      simp only [giveBack, Ledger.lookup_erase_apply] at ha
      split at ha
      · contradiction
      · exact ha
    have he : ∀ key, ((s.giveBack lease).counters key).expiry = (s.counters key).expiry := by
      intro key
      simp only [giveBack]
      split <;> rfl
    refine ⟨fun key => ?_, fun key => ?_, fun markerKey marker ha key hk => ?_, fun key => ?_,
      fun markerKey marker ha => ?_⟩
    · have ht : (s.giveBack lease).leases key + (if Counts s.now key marker then 1 else 0) = s.leases key :=
        Ledger.total_erase_add (fun _ marker => if Counts s.now key marker then 1 else 0) hl
      simp only [Counts, hlt, hv, SharedCounterLease.fingerprint, List.mem_toFinset, true_and] at ht
      rw [hc, h.exact, ← ht, Nat.add_sub_cancel]
    · rw [hc]
      exact (Nat.sub_le _ _).trans (h.within key)
    · rw [he]
      exact h.outlives _ _ (hle _ _ ha) key hk
    · rw [he]
      exact h.renewed key
    · exact h.markers_le _ _ (hle _ _ ha)
  · exact h

/-! ## The clock -/

/-- No marker runs out by then without the counters of its keys. -/
def Together (s : Store κ μ η) (later : Nat) : Prop :=
  ∀ entry ∈ s.markers.entries, s.now < entry.2.expiry → entry.2.expiry ≤ later →
    ∀ key ∈ entry.2.value.keys, (s.counters key).expiry ≤ later

instance (s : Store κ μ η) (later : Nat) : Decidable (Together s later) := by
  unfold Together
  infer_instance

omit [DecidableEq η] in
theorem Counted.tick (h : Counted config s) {later : Nat} (hl : s.now ≤ later) (ht : Together s later) :
    Counted config { s with now := later } := by
  have hc : ∀ (key : κ) (marker : Expiring (Fingerprint κ η)), Counts later key marker → Counts s.now key marker :=
    fun key marker hm => ⟨hl.trans_lt hm.1, hm.2⟩
  have hx : ∀ key, counter { s with now := later } key = leases { s with now := later } key ∧
      counter { s with now := later } key ≤ s.counter key := by
    intro key
    unfold counter leases
    by_cases hk : (s.counters key).expiry ≤ later
    · -- The counter has run out, and it has outlived its leases.
      rw [if_neg (Nat.not_lt.2 hk)]
      refine ⟨?_, Nat.zero_le _⟩
      have hz : ∀ markerKey marker, s.markers.lookup markerKey = some marker → ¬Counts later key marker :=
        fun markerKey marker hm hn =>
          absurd (h.outlives _ _ hm key (hc key marker hn)) (Nat.not_le.2 (hk.trans_lt hn.1))
      rw [Ledger.total_congr fun markerKey marker hm => if_neg (hz markerKey marker hm)]
      simp [Ledger.total]
    · have hn : later < (s.counters key).expiry := Nat.not_le.1 hk
      have he := h.exact key
      rw [counter, if_pos (hl.trans_lt hn), leases] at he
      rw [if_pos hn, if_pos (hl.trans_lt hn), he]
      refine ⟨Ledger.total_congr fun markerKey marker hm => if_congr ⟨fun hb => ⟨?_, hb.2⟩, hc key marker⟩ rfl rfl,
        le_rfl⟩
      exact Nat.not_le.1 fun hle => hk (ht _ (AList.mem_lookup_iff.1 hm) hb.1 hle key hb.2)
  exact ⟨fun key => (hx key).1, fun key => (hx key).2.trans (h.within key),
    fun markerKey marker hm key hk => h.outlives _ _ hm key (hc key marker hk),
    fun key => (h.renewed key).trans (Nat.add_le_add_right hl _),
    fun markerKey marker hm => (h.markers_le _ _ hm).trans (Nat.add_le_add_right hl _)⟩

/-- The clock moves only to times at which no marker has run out without the counters of its keys. -/
def Allowed (s : Store κ μ η) : Action κ μ η → Prop
  | .tick elapsed => Together s (s.now + elapsed)
  | _ => True

def Store.empty (now : Nat) : Store κ μ η := ⟨now, fun _ => ⟨0, now⟩, ∅⟩

/-- **Counters.**  After any acquisitions, adoptions, releases and clock steps of this kind, every counter is the
number of unreleased leases on its key whose marker has not expired, and within the limit. -/
theorem counter_eq_leases (config : Config κ) (now : Nat) (actions : List (Action κ μ η))
    (ha : Along (Store.step config) Allowed (Store.empty now) actions) (key : κ) :
    (run (Store.step config) (Store.empty now) actions).counter key =
        (run (Store.step config) (Store.empty now) actions).leases key ∧
      (run (Store.step config) (Store.empty now) actions).counter key ≤ config.limit key := by
  have h0 : Counted config (empty now : Store κ μ η) := by
    have hz : ∀ key, counter (empty now : Store κ μ η) key = 0 := fun key => if_neg (lt_irrefl _)
    exact ⟨fun key => hz key, fun key => (hz key).trans_le (Nat.zero_le _), nofun, fun key => Nat.le_add_right _ _,
      nofun⟩
  have h := run_invariant (I := Counted config) (fun s action h ha => ?_) h0 ha
  · exact ⟨h.exact key, h.within key⟩
  · cases action with
    | acquire lease => exact h.acquire lease
    | release lease => exact h.release lease
    | tick elapsed => exact h.tick (Nat.le_add_right _ _) ha

def onlyKey (markerKey : Nat) : SharedCounterLease Unit Nat Unit := ⟨markerKey, [()], none, by decide⟩

def twoAtOnce : Config Unit := ⟨fun _ => 2, 10, by decide⟩

/-- One of two leases is released, and the other is alive. -/
theorem counter_of_two_leases :
    let actions := [.acquire (onlyKey 0), .tick 3, .acquire (onlyKey 1), .release (onlyKey 0), .tick 4]
    let s := run (Store.step twoAtOnce) (Store.empty 0) actions
    s.leases () = 1 ∧ s.counter () = s.leases () ∧ s.counter () ≤ 2 := by
  intro actions s
  have ha : Along (Store.step twoAtOnce) Allowed (Store.empty 0) actions :=
    ⟨trivial, show Together _ _ by decide, trivial, trivial, show Together _ _ by decide, trivial⟩
  exact ⟨by decide, counter_eq_leases twoAtOnce 0 actions ha ()⟩

/-- The first lease has run out, and the second one has renewed the counter. -/
theorem counter_after_expiry :
    let s := run (Store.step twoAtOnce) (Store.empty 0) [.acquire (onlyKey 0), .tick 9, .acquire (onlyKey 1), .tick 2]
    s.counter () = 2 ∧ s.leases () = 1 := by
  decide

end SharedState.ConnectionLimits
