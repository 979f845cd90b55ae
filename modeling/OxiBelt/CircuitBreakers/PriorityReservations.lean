import OxiBelt.CircuitBreakers.AdmissionBooks
import OxiBelt.CircuitBreakers.Priority

/-!
# Reservations are kept

The scheduler's accounts are what its leases hold (`Kept`), whatever else is admitted beside it, and the shared part of
the capacity never eats into the reserved part.  So an eligible request of a class that has not used up its reservation
finds a slot (`reservation_admitted`).
-/

namespace CircuitBreakers

open RustStd List RuntimeState PriorityWorld PriorityLease

/-! ## The global request slots -/

def RuntimeState.globalRequests (state : RuntimeState) : Option (ResourceLimit × Nat) :=
  (state.books .global).map fun books => (books.limits .request, books.active .request)

namespace RuntimeState

variable {state after : RuntimeState} {allocations : Allocations}

theorem SameBooks.globalRequests (h : SameBooks state after) : after.globalRequests = state.globalRequests := by
  rw [RuntimeState.globalRequests, h.books, RuntimeState.globalRequests]

theorem globalRequests_incrementQueued : (state.incrementQueued allocations).globalRequests = state.globalRequests := by
  rw [globalRequests, books_incrementQueued, Option.map_map]
  rfl

theorem globalRequests_decrementQueued : (state.decrementQueued allocations).globalRequests = state.globalRequests := by
  rw [globalRequests, books_decrementQueued, Option.map_map]
  rfl

theorem globalRequests_incrementActive : (state.incrementActive allocations).globalRequests =
      state.globalRequests.map fun global => (global.1, global.2 + (allocations.holds .global .request).toNat) := by
  rw [globalRequests, books_incrementActive, Option.map_map, globalRequests, Option.map_map]
  rfl

theorem globalRequests_decrementActive : (state.decrementActive allocations).globalRequests =
      state.globalRequests.map fun global => (global.1, global.2 - (allocations.holds .global .request).toNat) := by
  rw [globalRequests, books_decrementActive, Option.map_map, globalRequests, Option.map_map]
  rfl

theorem globalRequests_dropTicket (ticket : Option WaiterTicket) :
    (state.dropTicket ticket).globalRequests = state.globalRequests := by
  unfold dropTicket
  split
  · next removed _ h =>
    obtain ⟨ticket, -, hr⟩ := Option.bind_eq_some_iff.1 h
    obtain ⟨removed, -, hs⟩ := Option.map_eq_some_iff.1 hr
    cases hs
    exact globalRequests_decrementQueued
  · rfl

end RuntimeState

/-! ## Ordinary admissions do not touch them -/

/-- No ordinary call or lease holds a global request slot. -/
structure AdmissionWorld.WithoutGlobal (world : AdmissionWorld) : Prop where
  calls : ∀ call ∈ world.calls, call.allocations.holds .global .request = false
  leases : ∀ lease ∈ world.leases, lease.allocations.holds .global .request = false

theorem globalRequestAllocations_holds : globalRequestAllocations.holds .global .request = true := by decide

namespace AdmissionWorld

theorem WithoutGlobal.change {world after : AdmissionWorld} {action : AdmissionAction} (h : world.WithoutGlobal)
    (hr : ∀ request deadline, action = .call request deadline →
      ∀ allocation ∈ request.allocations world.state, allocation.slot ≠ ⟨.global, .request⟩)
    (hch : Change world action after) :
    after.WithoutGlobal ∧ after.state.globalRequests = world.state.globalRequests := by
  have hid : ∀ global : Option (ResourceLimit × Nat), (global.map fun global => (global.1, global.2 + 0)) = global := by
    intro global
    cases global <;> rfl
  cases hch with
  | same => exact ⟨h, rfl⟩
  | started request deadline ha =>
    refine ⟨⟨fun call hc => ?_, h.leases⟩, rfl⟩
    obtain hol | hn := mem_append.1 hc
    · exact h.calls call hol
    · rw [mem_singleton.1 hn]
      refine decide_eq_false fun hm => ?_
      obtain ⟨allocation, hal, hs⟩ := mem_map.1 hm
      exact hr request deadline ha allocation (Allocations.mem_deduplicate hal) hs
  | moved index call phase hc =>
    refine ⟨⟨fun other ho => ?_, h.leases⟩, rfl⟩
    obtain ⟨old, hol, heq⟩ := allocations_of_mem_set hc ho rfl
    exact heq ▸ h.calls old hol
  | queued index call id now next hc ht =>
    refine ⟨⟨fun other ho => ?_, h.leases⟩, globalRequests_incrementQueued⟩
    obtain ⟨old, hol, heq⟩ := allocations_of_mem_set hc ho rfl
    exact heq ▸ h.calls old hol
  | left index call told hc =>
    exact ⟨⟨fun other ho => h.calls other (mem_of_mem_eraseIdx ho), h.leases⟩, globalRequests_dropTicket _⟩
  | granted index call probes admitted hc hcn hs =>
    have hcl := h.calls call (mem_of_getElem? hc)
    refine ⟨⟨fun other ho => h.calls other (mem_of_mem_eraseIdx ho), fun lease hl => ?_⟩, ?_⟩
    · obtain hol | hn := mem_append.1 hl
      · exact h.leases lease hol
      · rw [mem_singleton.1 hn]
        exact hcl
    · show ((admitted.dropTicket call.ticket).incrementActive call.allocations).globalRequests = _
      rw [globalRequests_incrementActive, globalRequests_dropTicket, hs.globalRequests, hcl]
      exact hid _
  | released index lease state hl hs =>
    refine ⟨⟨h.calls, fun other ho => h.leases other (mem_of_mem_eraseIdx ho)⟩, ?_⟩
    show state.globalRequests = _
    rw [hs.globalRequests, globalRequests_decrementActive, h.leases lease (mem_of_getElem? hl)]
    exact hid _

end AdmissionWorld

/-! ## The accounts of the scheduler -/

theorem PriorityClass.mem_all (priorityClass : PriorityClass) : priorityClass ∈ PriorityClass.all := by
  cases priorityClass <;> decide

variable (leases : List PriorityLease)

def leasesOf (priorityClass : PriorityClass) (kind : PriorityLeaseKind) : Nat :=
  leases.countP fun lease => decide (lease.priorityClass = priorityClass) && decide (lease.kind = kind)

def leasesOfKind (kind : PriorityLeaseKind) : Nat :=
  leases.countP fun lease => decide (lease.kind = kind)

theorem sum_leasesOf (kind : PriorityLeaseKind) :
    (PriorityClass.all.map fun priorityClass => leasesOf leases priorityClass kind).sum = leasesOfKind leases kind :=
  Tally.sum_countP_key priorityClass _ (by decide) PriorityClass.mem_all leases

theorem leasesOfKind_add : leasesOfKind leases .reserved + leasesOfKind leases .shared = leases.length := by
  rw [leases.length_eq_countP_add_countP fun lease => decide (lease.kind = .reserved)]
  congr 1
  refine countP_congr fun lease _ => ?_
  cases lease.kind <;> simp

namespace PriorityWorld

/-- The scheduler's counters are the leases it has granted; each is within what the configuration gives. -/
structure Kept (limit : ResourceLimit) (config : PriorityConfig) (world : PriorityWorld) : Prop where
  others : world.base.WithoutGlobal
  enabled : world.priority.enabled = config.enabled
  policies : ∀ priorityClass, world.priority.policies priorityClass =
    ResolvedPriorityPolicy.fromConfig (config.resolved priorityClass) limit
  capacity : world.priority.sharedCapacity =
    limit.active - (PriorityClass.all.map fun priorityClass => (config.resolved priorityClass).reservedRequests).sum
  global : world.base.state.globalRequests = some (limit, world.leases.length)
  reserved : ∀ priorityClass,
    (world.priority.active priorityClass).reserved = leasesOf world.leases priorityClass .reserved
  shared : ∀ priorityClass, (world.priority.active priorityClass).shared = leasesOf world.leases priorityClass .shared
  pool : world.priority.sharedActive = leasesOfKind world.leases .shared
  reserved_le : ∀ priorityClass,
    (world.priority.active priorityClass).reserved ≤ (world.priority.policies priorityClass).reservedRequests
  shared_le : ∀ priorityClass,
    (world.priority.active priorityClass).shared ≤ (world.priority.policies priorityClass).maxSharedRequests
  pool_le : world.priority.sharedActive ≤ world.priority.sharedCapacity

/-- A step that moves no counter of active requests. -/
structure Quiet (world after : PriorityWorld) : Prop where
  calls : after.base.calls = world.base.calls
  baseLeases : after.base.leases = world.base.leases
  global : after.base.state.globalRequests = world.base.state.globalRequests
  leases : after.leases = world.leases
  enabled : after.priority.enabled = world.priority.enabled
  policies : after.priority.policies = world.priority.policies
  capacity : after.priority.sharedCapacity = world.priority.sharedCapacity
  active : after.priority.active = world.priority.active
  pool : after.priority.sharedActive = world.priority.sharedActive

variable {limit : ResourceLimit} {config : PriorityConfig} {world after : PriorityWorld} {index now : Nat}
  {call : PriorityCall}

theorem Quiet.refl (world : PriorityWorld) : Quiet world world := ⟨rfl, rfl, rfl, rfl, rfl, rfl, rfl, rfl, rfl⟩

theorem Kept.of_quiet (h : Kept limit config world) (hq : Quiet world after) : Kept limit config after where
  others := ⟨hq.calls ▸ h.others.calls, hq.baseLeases ▸ h.others.leases⟩
  enabled := hq.enabled.trans h.enabled
  policies := hq.policies ▸ h.policies
  capacity := hq.capacity.trans h.capacity
  global := by rw [hq.global, hq.leases, h.global]
  reserved := by rw [hq.active, hq.leases]; exact h.reserved
  shared := by rw [hq.active, hq.leases]; exact h.shared
  pool := by rw [hq.pool, hq.leases, h.pool]
  reserved_le := by rw [hq.active, hq.policies]; exact h.reserved_le
  shared_le := by rw [hq.active, hq.policies]; exact h.shared_le
  pool_le := by rw [hq.pool, hq.capacity]; exact h.pool_le

theorem quiet_setPhase (phase : CallPhase) : Quiet world (world.setPhase index call phase) :=
  ⟨rfl, rfl, rfl, rfl, rfl, rfl, rfl, rfl, rfl⟩

theorem quiet_dropTicket (world : PriorityWorld) (ticket : Option PriorityTicket) :
    Quiet world (world.dropTicket ticket) := by
  unfold dropTicket
  split
  · exact .refl world
  next priority h =>
  obtain ⟨ticket, -, hr⟩ := Option.bind_eq_some_iff.1 h
  unfold PriorityAdmissionState.remove at hr
  simp only at hr
  split at hr
  · cases hr
    exact ⟨rfl, rfl, globalRequests_decrementQueued, rfl, rfl, rfl, rfl, rfl, rfl⟩
  · contradiction

theorem quiet_leave (told : List AdmissionRejectionReason) : Quiet world (world.leave index call told) := by
  obtain ⟨hcl, hb, hg, hl, he, hp, hc, ha, hpl⟩ := quiet_dropTicket world call.ticket
  exact ⟨hcl, hb, hg, hl, he, hp, hc, ha, hpl⟩

theorem quiet_queueUp (he : world.priority.enabled = true) : Quiet world (world.queueUp index call now) := by
  unfold queueUp
  split
  · exact quiet_setPhase _
  split
  · next hd => simp [he] at hd
  split
  · exact quiet_leave _
  split
  · exact quiet_leave _
  · exact ⟨rfl, rfl, globalRequests_incrementQueued, rfl, rfl, rfl, rfl, rfl, rfl⟩

end PriorityWorld

/-! ## Granting and releasing -/

def PriorityLease.is (lease : PriorityLease) (priorityClass : PriorityClass) (kind : PriorityLeaseKind) : Bool :=
  decide (lease.priorityClass = priorityClass) && decide (lease.kind = kind)

variable {kind : PriorityLeaseKind}

namespace PriorityAdmissionState

variable {priority : PriorityAdmissionState} {lease : PriorityLease} {priorityClass : PriorityClass} {eligible : Bool}
  {globalActive globalCapacity : Nat}

section

variable (priority) (lease)

theorem grant_eq : priority.grant lease = { priority with
      active := fun other => ⟨(priority.active other).reserved + (lease.is other .reserved).toNat,
        (priority.active other).shared + (lease.is other .shared).toNat⟩
      sharedActive := priority.sharedActive + (decide (lease.kind = .shared)).toNat } := by
  obtain ⟨leaseClass, kind⟩ := lease
  cases kind
  all_goals
    simp only [grant]
    congr 1
    funext other
    by_cases h : leaseClass = other
    · subst h
      simp [is]
    · simp [is, h, Function.update_of_ne (Ne.symm h)]

theorem release_eq : priority.release lease = { priority with
      active := fun other => ⟨(priority.active other).reserved - (lease.is other .reserved).toNat,
        (priority.active other).shared - (lease.is other .shared).toNat⟩
      sharedActive := priority.sharedActive - (decide (lease.kind = .shared)).toNat } := by
  obtain ⟨leaseClass, kind⟩ := lease
  cases kind
  all_goals
    simp only [release]
    congr 1
    funext other
    by_cases h : leaseClass = other
    · subst h
      simp [is]
    · simp [is, h, Function.update_of_ne (Ne.symm h)]

end

/-- What a class has left when it gets a slot of each kind. -/
theorem room_of_canAdmit (h : priority.canAdmit priorityClass eligible globalActive globalCapacity = some kind) :
    (kind = .reserved ∧ (priority.active priorityClass).reserved < (priority.policies priorityClass).reservedRequests) ∨
    (kind = .shared ∧ (priority.active priorityClass).shared < (priority.policies priorityClass).maxSharedRequests ∧
      priority.sharedActive + (globalActive - priority.totalActive) < priority.sharedCapacity) := by
  unfold canAdmit at h
  simp only at h
  split at h
  · contradiction
  split at h
  · contradiction
  split at h
  · next hr =>
    cases h
    exact .inl ⟨rfl, of_decide_eq_true (Bool.and_eq_true_iff.1 hr).2⟩
  split at h
  · contradiction
  next hs =>
  split at h
  · next hp =>
    cases h
    exact .inr ⟨rfl, not_le.1 hs, hp⟩
  · contradiction

end PriorityAdmissionState

open PriorityAdmissionState

variable {lease : PriorityLease}

namespace PriorityWorld

variable {limit : ResourceLimit} {config : PriorityConfig} {world after : PriorityWorld} {index now : Nat}
  {call : PriorityCall}

def reservations (config : PriorityConfig) : Nat :=
  (PriorityClass.all.map fun priorityClass => (config.resolved priorityClass).reservedRequests).sum

theorem canAdmit_of_turn {priority : PriorityAdmissionState} {globalActive globalCapacity : Nat}
    (h : turn priority call globalActive globalCapacity = some kind) :
    priority.canAdmit call.priorityClass call.eligible globalActive globalCapacity = some kind := by
  unfold turn at h
  simp only at h
  split at h
  · split at h
    · exact h
    · contradiction
  split at h
  · exact h
  · contradiction

section

variable (h : Kept limit config world)
include h

theorem Kept.totalActive : world.priority.totalActive = world.leases.length := by
  unfold PriorityAdmissionState.totalActive
  simp only [PriorityActive.total, h.reserved, h.shared]
  rw [sum_map_add, sum_leasesOf, sum_leasesOf, leasesOfKind_add]

theorem Kept.reserved_le_config (priorityClass : PriorityClass) :
    leasesOf world.leases priorityClass .reserved ≤ (config.resolved priorityClass).reservedRequests := by
  have hle := h.reserved_le priorityClass
  rw [h.reserved, h.policies] at hle
  exact hle

theorem Kept.pool_le_config : leasesOfKind world.leases .shared ≤ limit.active - reservations config := by
  rw [← h.pool, reservations, ← h.capacity]
  exact h.pool_le

/-- The global counter never exceeds the capacity. -/
theorem Kept.length_le (hs : reservations config ≤ limit.active) : world.leases.length ≤ limit.active := by
  have hr : leasesOfKind world.leases .reserved ≤ reservations config := by
    rw [← sum_leasesOf]
    exact sum_le_sum fun priorityClass _ => h.reserved_le_config priorityClass
  have hp := h.pool_le_config
  have hl := leasesOfKind_add world.leases
  omega

/-- A class that has part of its reservation left leaves a global slot free. -/
theorem Kept.length_lt (hs : reservations config ≤ limit.active) {priorityClass : PriorityClass}
    (hc : leasesOf world.leases priorityClass .reserved < (config.resolved priorityClass).reservedRequests) :
    world.leases.length < limit.active := by
  have hr : leasesOfKind world.leases .reserved < reservations config := by
    rw [← sum_leasesOf]
    exact sum_lt_sum _ _ (fun other _ => h.reserved_le_config other) ⟨priorityClass, PriorityClass.mem_all _, hc⟩
  have hp := h.pool_le_config
  have hl := leasesOfKind_add world.leases
  omega

theorem Kept.granted {quiet : PriorityWorld}
    (ht : turn world.priority call world.leases.length limit.active = some kind) (hq : Quiet world quiet) :
    Kept limit config
      { quiet.withState fun state => state.incrementActive globalRequestAllocations with
        priority := quiet.priority.grant ⟨call.priorityClass, kind⟩
        leases := world.leases ++ [⟨call.priorityClass, kind⟩] } := by
  have hr := room_of_canAdmit (canAdmit_of_turn ht)
  have hk := h.of_quiet hq
  rw [h.totalActive, Nat.sub_self, Nat.add_zero, ← hq.active, ← hq.policies, ← hq.pool, ← hq.capacity] at hr
  rw [grant_eq, ← hq.leases]
  refine { hk with
    others := ⟨hk.others.calls, hk.others.leases⟩
    global := ?_
    reserved := fun other => ?_
    shared := fun other => ?_
    pool := ?_
    reserved_le := fun other => ?_
    shared_le := fun other => ?_
    pool_le := ?_ }
  · show (quiet.base.state.incrementActive globalRequestAllocations).globalRequests = _
    rw [globalRequests_incrementActive, hk.global, globalRequestAllocations_holds, length_append]
    rfl
  · exact (congrArg (· + _) (hk.reserved other)).trans (Tally.countP_concat _ _ _).symm
  · exact (congrArg (· + _) (hk.shared other)).trans (Tally.countP_concat _ _ _).symm
  · exact (congrArg (· + _) hk.pool).trans (Tally.countP_concat _ _ _).symm
  · have hle := hk.reserved_le other
    obtain ⟨rfl, hf⟩ | ⟨rfl, -, -⟩ := hr
    · by_cases heq : call.priorityClass = other
      · subst heq
        simpa [is] using hf
      · simpa [is, heq] using hle
    · simpa [is] using hle
  · have hle := hk.shared_le other
    obtain ⟨rfl, -⟩ | ⟨rfl, hf, -⟩ := hr
    · simpa [is] using hle
    by_cases heq : call.priorityClass = other
    · subst heq
      simpa [is] using hf
    · simpa [is, heq] using hle
  · have hle := hk.pool_le
    obtain ⟨rfl, -⟩ | ⟨rfl, -, hf⟩ := hr
    · simpa using hle
    · simpa using hf

theorem Kept.released (hl : world.leases[index]? = some lease) : Kept limit config
      ({ world with priority := world.priority.release lease, leases := world.leases.eraseIdx index }.withState
        fun state => state.decrementActive globalRequestAllocations) := by
  rw [release_eq]
  refine { h with
    others := ⟨h.others.calls, h.others.leases⟩
    global := ?_
    reserved := fun other => ?_
    shared := fun other => ?_
    pool := ?_
    reserved_le := fun other => (Nat.sub_le _ _).trans (h.reserved_le other)
    shared_le := fun other => (Nat.sub_le _ _).trans (h.shared_le other)
    pool_le := (Nat.sub_le _ _).trans h.pool_le }
  · show (world.base.state.decrementActive globalRequestAllocations).globalRequests =
      some (limit, (eraseIdx _ _).length)
    rw [globalRequests_decrementActive, h.global, globalRequestAllocations_holds,
      length_eraseIdx_of_lt (List.getElem?_eq_some_iff.1 hl).1]
    rfl
  · exact (congrArg (· - _) (h.reserved other)).trans (Nat.eq_sub_of_add_eq (Tally.countP_eraseIdx_add _ hl)).symm
  · exact (congrArg (· - _) (h.shared other)).trans (Nat.eq_sub_of_add_eq (Tally.countP_eraseIdx_add _ hl)).symm
  · exact (congrArg (· - _) h.pool).trans (Nat.eq_sub_of_add_eq (Tally.countP_eraseIdx_add _ hl)).symm

theorem Kept.exists_global :
    ∃ global, world.base.state.scopes .global = some global ∧ global.active .request = world.leases.length ∧
      global.limits .request = limit := by
  obtain ⟨books, hb, hp⟩ := Option.map_eq_some_iff.1 h.global
  obtain ⟨global, hg, rfl⟩ := Option.map_eq_some_iff.1 hb
  obtain ⟨hl, ha⟩ := Prod.mk.inj hp
  exact ⟨global, hg, ha, hl⟩

/-- A call whose turn it is gets its lease. -/
theorem Kept.enter_of_some (he : config.enabled = true)
    (ht : turn world.priority call world.leases.length limit.active = some kind) :
    world.enter index call =
      { (world.leave index call []).withState fun state => state.incrementActive globalRequestAllocations with
        priority := (world.leave index call []).priority.grant ⟨call.priorityClass, kind⟩
        leases := world.leases ++ [⟨call.priorityClass, kind⟩] } := by
  obtain ⟨global, hg, ha, hl⟩ := h.exists_global
  rw [enter, if_pos (h.enabled.trans he), hg]
  simp only [ha, hl, ht]
  rfl

theorem Kept.enter (he : config.enabled = true) : Kept limit config (world.enter index call) := by
  cases ht : turn world.priority call world.leases.length limit.active with
  | none =>
    -- the call goes on to queue up
    obtain ⟨global, hg, ha, hl⟩ := h.exists_global
    rw [PriorityWorld.enter, if_pos (h.enabled.trans he), hg]
    simp only [ha, hl, ht]
    exact h.of_quiet (quiet_setPhase _)
  | some kind =>
    rw [h.enter_of_some he ht]
    exact h.granted ht (quiet_leave [])

theorem Kept.ofCall {phase : CallPhase} {next : PriorityCall → PriorityWorld}
    (hn : ∀ call, Kept limit config (next call)) : Kept limit config (world.ofCall index phase next) := by
  unfold PriorityWorld.ofCall
  split
  · exact h
  split
  · exact hn _
  · exact h

theorem Kept.step (he : config.enabled = true) {action : PriorityAction}
    (ha : world.GlobalByPriority action) : Kept limit config (world.step action) := by
  cases action with
  | ordinary action =>
    obtain ⟨ho, hg⟩ := h.others.change (fun request deadline hac => by
        subst hac
        exact ha) (AdmissionWorld.step_change world.base action)
    exact { h with others := ho, global := hg.trans h.global }
  | call priorityClass eligible deadline => exact h.of_quiet ⟨rfl, rfl, rfl, rfl, rfl, rfl, rfl, rfl, rfl⟩
  | enter index => exact h.ofCall fun call => h.enter he
  | queueUp index now => exact h.ofCall fun call => h.of_quiet (quiet_queueUp (h.enabled.trans he))
  | wait index now =>
    refine h.ofCall fun call => ?_
    unfold wait
    simp only
    split
    · exact h.of_quiet (quiet_leave _)
    · exact h.of_quiet (quiet_setPhase _)
  | wake index => exact h.ofCall fun call => h.of_quiet (quiet_setPhase _)
  | expire | cancel => exact h.ofCall fun call => h.of_quiet (quiet_leave _)
  | release index =>
    show Kept limit config (world.release index)
    unfold release
    cases hl : world.leases[index]? with
    | none => exact h
    | some lease => exact h.released hl

end

theorem Kept.start {settings : Settings} {limits : ScopeLimits} {enabled : Bool} (config : PriorityConfig)
    (hg : settings.scopes .global = some (limits, enabled)) :
    Kept (limits .request) config (start settings config) := by
  have hl : globalLimit settings = limits .request := by
    rw [globalLimit, hg]
    rfl
  have hr : (fromSettings settings).globalRequests = some (limits .request, 0) := by
    show Option.map _ (Option.map _ (Option.map _ (settings.scopes .global))) = _
    rw [hg]
    rfl
  refine ⟨⟨fun _ h => by contradiction, fun _ h => by contradiction⟩, rfl, fun priorityClass => ?_, ?_, hr,
    fun _ => rfl, fun _ => rfl, rfl, fun _ => Nat.zero_le _, fun _ => Nat.zero_le _, Nat.zero_le _⟩
  · show ResolvedPriorityPolicy.fromConfig _ (globalLimit settings) = _
    rw [hl]
  show (globalLimit settings).active - _ = _
  rw [hl]
  rfl

end PriorityWorld

open PriorityWorld Transition

/-- **Reservations are kept.**  With a configuration whose reservations fit into the global capacity and into the shares
of their classes, and where no other request takes a global slot, after every run:

* the global slots in use are the leases of the scheduler, and no more than the capacity;
* an eligible request of a class that holds fewer reserved leases than its reservation, and whose lane is empty, is
  admitted at once. -/
theorem reservation_admitted (settings : Settings) (config : PriorityConfig) (limits : ScopeLimits) (enabled : Bool)
    (hglobal : settings.scopes .global = some (limits, enabled)) (henabled : config.enabled = true)
    (hsum : reservations config ≤ (limits .request).active)
    (hshare : ∀ priorityClass, (config.resolved priorityClass).reservedRequests ≤
      maxClassRequests (limits .request).active (config.resolved priorityClass).maxShare)
    (actions : List PriorityAction)
    (hactions : Along PriorityWorld.step GlobalByPriority (PriorityWorld.start settings config) actions) :
    let world := run PriorityWorld.step (PriorityWorld.start settings config) actions
    (∃ global, world.base.state.scopes .global = some global ∧ global.active .request = world.leases.length ∧
      global.active .request ≤ (limits .request).active) ∧
    ∀ priorityClass deadline,
      leasesOf world.leases priorityClass .reserved < (config.resolved priorityClass).reservedRequests →
      world.priority.laneEmpty priorityClass true = true →
        ((world.step (.call priorityClass true deadline)).step (.enter world.calls.length)).leases =
          world.leases ++ [⟨priorityClass, .reserved⟩] := by
  intro world
  have hk : Kept (limits .request) config world :=
    run_invariant (fun _ _ h hal => h.step henabled hal) (Kept.start config hglobal) hactions
  constructor
  · obtain ⟨global, hsc, ha, -⟩ := hk.exists_global
    exact ⟨global, hsc, ha, ha ▸ hk.length_le hsum⟩
  intro priorityClass deadline hc hl
  have hr : (world.priority.active priorityClass).reserved <
      (world.priority.policies priorityClass).reservedRequests := by
    rw [hk.reserved, hk.policies]
    exact hc
  have ht : (world.priority.active priorityClass).total < (world.priority.policies priorityClass).maxRequests := by
    have hs := hk.shared_le priorityClass
    have hf : (world.priority.policies priorityClass).reservedRequests ≤
        (world.priority.policies priorityClass).maxRequests := by
      rw [hk.policies]
      exact hshare priorityClass
    rw [ResolvedPriorityPolicy.maxSharedRequests] at hs
    rw [PriorityActive.total]
    omega
  -- the call is the last one, and it is its turn
  let call : PriorityCall := { priorityClass, eligible := true, deadline }
  have hcl : Kept (limits .request) config (world.step (.call priorityClass true deadline)) := hk.step henabled trivial
  have htr : turn world.priority call world.leases.length (limits .request).active = some .reserved := by
    simp [turn, call, PriorityAdmissionState.canAdmit, not_le.2 (hk.length_lt hsum hc), not_le.2 ht, hr, hl]
  have hls : (world.step (.call priorityClass true deadline)).calls[world.calls.length]? = some call :=
    getElem?_concat_length
  show ((world.step (.call priorityClass true deadline)).ofCall world.calls.length .entering _).leases = _
  rw [ofCall, hls]
  simp only [if_true, call]
  rw [hcl.enter_of_some henabled htr]
  rfl

/-- Two global slots, of which one is reserved for interactive requests. -/
def twoSlots : Settings :=
  { oneAtATime with
    scopes
      | .global => some (.forScope ⟨2, 4, 2, 2, 2, 2⟩ 50, false)
      | _ => none }

def oneReserved : PriorityConfig := ⟨true, [{ name := .interactive, reservedRequests := some 1 }]⟩

def sharedSlotUsed : List PriorityAction := [.call .default false none, .enter 0]

theorem reservation_admitted_twoSlots :
    (((run PriorityWorld.step (.start twoSlots oneReserved) sharedSlotUsed).step
      (.call .interactive true none)).step (.enter 0)).leases = [⟨.default, .shared⟩, ⟨.interactive, .reserved⟩] := by
  have ha := (reservation_admitted twoSlots oneReserved _ _ rfl rfl (by decide)
    (fun priorityClass => by cases priorityClass <;> first | exact Nat.zero_le _ | decide +kernel) sharedSlotUsed
    (by decide +kernel)).2 .interactive none (by decide +kernel) (by decide +kernel)
  have hc : (run step (.start twoSlots oneReserved) sharedSlotUsed).calls.length = 0 := by
    decide +kernel
  rw [hc] at ha
  refine ha.trans ?_
  decide +kernel

/-- **Isolation of the classes.**  After any run, no class has more reserved leases than its reservation or more leases
than its share, and together they share only what the reservations leave of the capacity. -/
theorem classes_isolated (settings : Settings) (config : PriorityConfig) (limits : ScopeLimits) (enabled : Bool)
    (hglobal : settings.scopes .global = some (limits, enabled)) (henabled : config.enabled = true)
    (actions : List PriorityAction)
    (hactions : Along step GlobalByPriority (start settings config) actions) :
    let leases := (run step (start settings config) actions).leases
    (∀ priorityClass, leasesOf leases priorityClass .reserved ≤ (config.resolved priorityClass).reservedRequests ∧
      leasesOf leases priorityClass .reserved + leasesOf leases priorityClass .shared ≤
        max (config.resolved priorityClass).reservedRequests
          (maxClassRequests (limits .request).active (config.resolved priorityClass).maxShare)) ∧
      leasesOfKind leases .shared ≤ (limits .request).active - reservations config := by
  have hk : Kept (limits .request) config _ :=
    run_invariant (fun _ _ h hal => h.step henabled hal) (Kept.start config hglobal) hactions
  refine ⟨fun priorityClass => ?_, hk.pool_le_config⟩
  have hr := hk.reserved_le_config priorityClass
  have hs := hk.shared_le priorityClass
  rw [hk.shared, hk.policies] at hs
  change _ ≤ maxClassRequests _ _ - (config.resolved priorityClass).reservedRequests at hs
  omega

theorem classes_isolated_twoSlots :
    let leases := (run step (.start twoSlots oneReserved)
      (sharedSlotUsed ++ [.call .interactive true none, .enter 0])).leases
    leases = [⟨.default, .shared⟩, ⟨.interactive, .reserved⟩] ∧ leasesOf leases .interactive .reserved ≤ 1 ∧
      leasesOfKind leases .shared ≤ 1 := by
  obtain ⟨hclass, hpool⟩ := classes_isolated twoSlots oneReserved _ _ rfl rfl
    (sharedSlotUsed ++ [.call .interactive true none, .enter 0]) (by decide +kernel)
  exact ⟨by decide +kernel, (hclass .interactive).1, hpool⟩

end CircuitBreakers
