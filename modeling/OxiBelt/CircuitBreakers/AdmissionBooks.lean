import OxiBelt.CircuitBreakers.Admission
import OxiBelt.Lib.Tally

/-!
# The books of admission

`Change` says once what a step can do to the counters, the queues and the leases.  From it follow the two invariants:
the counters are the leases and waiting calls that hold a slot (`Balanced`), and no counter is beyond its limit
(`Within`).  `admission_accounted` puts them together for whole runs, with the rule that a new request never overtakes
a waiting one that could be admitted.
-/

namespace CircuitBreakers

open RustStd List RuntimeState Option QueueKey AdmissionWorld AdmissionQueues

namespace RuntimeState

variable {state after : RuntimeState} {allocations : Allocations} {ticket : WaiterTicket} {waiter : Waiter} {now : Nat}

/-! ## Removing a waiter -/

/-- A ticket whose waiter is in its lane takes it out. -/
theorem dropTicket_some
    (h : ((state.waiters.lane ticket.key).find? fun waiter => waiter.id == ticket.id) = some waiter) :
    ∃ queues, state.waiters.remove ticket = some (queues, waiter) ∧
      state.dropTicket (some ticket) = { state.decrementQueued waiter.allocations with waiters := queues } := by
  refine ⟨_, by rw [remove, h]; rfl, ?_⟩
  rw [dropTicket, bind_some, removeWaiter, remove, h]
  rfl

end RuntimeState

/-! ## The retry limit -/

/-- An allocation has a limit of its own only for retries, where it is within the budget.  A budget of more than 53 bits
is not represented exactly by the source's arithmetic. -/
structure Allocation.Limited (retry : RetryBudget) (allocation : Allocation) : Prop where
  configured : allocation.resource ≠ .retry → allocation.limit = none
  budget : allocation.resource = .retry →
    ∃ limit, allocation.limit = some limit ∧ (retry.max ≤ 2 ^ 53 → limit.active ≤ retry.max)

variable {index now : Nat} {state : RuntimeState}

theorem RuntimeState.retryLimit_le (hp : 0 < state.retry.max) (hm : state.retry.max ≤ 2 ^ 53) (overloadMultiplier : ℚ) :
    (state.retryLimit overloadMultiplier).active ≤ state.retry.max := by
  refine Nat.max_le.2 ⟨?_, hp⟩
  have ha := Nat.min_le_right (max (Double.floor (Double.mul (Double.ofNat
    (((state.scopes .global).map fun scope => scope.active .request).getD 0)) state.retry.percent)) state.retry.min)
    state.retry.max
  exact (Double.floor_mul_le (ha.trans hm) (Double.clampUnit_nonneg _) (Double.clampUnit_le_one _)).trans ha

variable {allocation : Allocation}

theorem limited_scopedAllocations {retry : RetryBudget} {route pool : Option Str} {resource : ResourceKind}
    (hr : resource ≠ .retry) (h : allocation ∈ scopedAllocations route pool resource) :
    allocation.Limited retry := by
  have hp : allocation.resource = resource ∧ allocation.limit = none := by
    unfold scopedAllocations at h
    cases route <;> cases pool <;> simp at h <;> aesop
  exact ⟨fun _ => hp.2, fun hrt => absurd (hp.1.symm.trans hrt) hr⟩

theorem AdmissionRequest.limited (hps : 0 < state.retry.max) (request : AdmissionRequest)
    (h : allocation ∈ request.allocations state) : allocation.Limited state.retry := by
  cases request with
  | globalRequest | routeScopeRequest =>
    cases mem_singleton.1 h
    exact ⟨fun _ => rfl, fun hr => by contradiction⟩
  | retryAttempt route pool overloadMultiplier =>
    obtain ha | hr := mem_append.1 h
    · exact limited_scopedAllocations (by decide) ha
    · cases mem_singleton.1 hr
      exact ⟨fun hne => absurd rfl hne, fun _ => ⟨_, rfl, fun hm => retryLimit_le hps hm _⟩⟩
  | _ => exact limited_scopedAllocations (by decide) h

variable {call : Call}

namespace AdmissionWorld

variable {world : AdmissionWorld} {action : AdmissionAction}

/-! ## What a step can do -/

/-- The changes of a step: nothing, a new call, a call in another phase, a place in the queue, the end of a call
without a lease, a granted lease, a released one. -/
inductive Change (world : AdmissionWorld) (action : AdmissionAction) : AdmissionWorld → Prop
  | same : Change world action world
  | started (request : AdmissionRequest) (deadline : Option Nat) (haction : action = .call request deadline) :
      Change world action { world with calls := world.calls ++ [request.newCall world.state deadline] }
  | moved (index : Nat) (call : Call) (phase : CallPhase) (hcall : world.calls[index]? = some call) :
      Change world action { world with calls := world.calls.set index { call with phase := phase } }
  | queued (index : Nat) (call : Call) (id now next : Nat) (hcall : world.calls[index]? = some call)
      (hticket : call.ticket = none) :
      Change world action
        { world with
          state := { world.state with nextWaiter := next }.enqueue
            ⟨id, QueueKey.fromAllocations call.allocations, now⟩ ⟨id, call.allocations, now⟩
          calls := world.calls.set index
            { call with
              ticket := some ⟨id, QueueKey.fromAllocations call.allocations, now⟩
              phase := .timing } }
  | left (index : Nat) (call : Call) (told : List AdmissionRejection) (hcall : world.calls[index]? = some call) :
      Change world action (world.leave index call told)
  | granted (index : Nat) (call : Call) (probes : List ScopeKey) (admitted : RuntimeState)
      (hcall : world.calls[index]? = some call) (hcan : world.state.canAdmit call.allocations = true)
      (hsame : world.state.SameBooks admitted) :
      Change world action
        { world with
          state := (admitted.dropTicket call.ticket).incrementActive call.allocations
          calls := world.calls.eraseIdx index
          leases := world.leases ++ [⟨call.allocations, probes⟩] }
  | released (index : Nat) (lease : Lease) (state : RuntimeState) (hlease : world.leases[index]? = some lease)
      (hsame : (world.state.decrementActive lease.allocations).SameBooks state) :
      Change world action { world with state := state, leases := world.leases.eraseIdx index }

inductive Attempted (state : RuntimeState) (allocations : Allocations) (ticket : Option WaiterTicket) (now : Nat) :
    RuntimeState × Option (Except AdmissionRejection Lease) → Prop
  | nothing : Attempted state allocations ticket now (state, none)
  | refused (rejection : AdmissionRejection) :
      Attempted state allocations ticket now (state.dropTicket ticket, some (.error rejection))
  | admitted (admitted : RuntimeState) (probes : List ScopeKey) (hcan : state.canAdmit allocations = true)
      (hselected : state.selectedForCaller allocations ticket now = true) (hsame : state.SameBooks admitted) :
      Attempted state allocations ticket now
        ((admitted.dropTicket ticket).incrementActive allocations, some (.ok ⟨allocations, probes⟩))

theorem attempt_cases (state : RuntimeState) (allocations : Allocations) (ticket : Option WaiterTicket) (now : Nat) :
    Attempted state allocations ticket now (state.attempt allocations ticket now) := by
  unfold attempt
  split
  · cases state.circuitAvailable allocations now with
    | error retryAfter => exact .refused _
    | ok _ =>
      simp only
      split
      · next ht =>
        obtain ⟨hs, hc⟩ := Bool.and_eq_true_iff.1 ht
        cases ha : state.circuitAdmission allocations now with
        | error retryAfter => exact .refused _
        | ok admission => exact .admitted admission.1 admission.2 hc hs (sameBooks_circuitAdmission ha)
      · exact .nothing
  · exact .nothing

theorem ofCall_change {phase : CallPhase} {next : Call → AdmissionWorld}
    (h : ∀ call, world.calls[index]? = some call → Change world action (next call)) :
    Change world action (world.ofCall index phase next) := by
  unfold ofCall
  cases hc : world.calls[index]? with
  | none => exact .same
  | some call =>
    simp only
    split
    · exact h call hc
    · exact .same

theorem enter_change (hc : world.calls[index]? = some call) : Change world action (world.enter index call now) := by
  have hcs := attempt_cases world.state call.allocations call.ticket now
  unfold enter
  generalize world.state.attempt call.allocations call.ticket now = result at hcs
  cases hcs with
  | nothing => exact .moved index call _ hc
  | refused rejection => exact .left index call [rejection] hc
  | admitted admitted probes hcn hsl hs => exact .granted index call probes admitted hc hcn hs

theorem queueUp_change (hc : world.calls[index]? = some call) : Change world action (world.queueUp index call now) := by
  unfold queueUp RuntimeState.queueUp
  split
  · next ht =>
    rw [isNone_iff_eq_none] at ht
    split
    · next rejection h =>
      have hl : Change world action (world.leave index call [rejection]) := .left index call _ hc
      rw [leave, ht] at hl
      exact hl
    next h =>
    split at h
    · cases h
      exact .queued index call _ now _ hc ht
    · contradiction
  · exact .moved index call _ hc

theorem step_change (world : AdmissionWorld) (action : AdmissionAction) : Change world action (world.step action) := by
  cases action with
  | call request deadline => exact .started request deadline rfl
  | enter index now => exact ofCall_change fun call hc => enter_change hc
  | queueUp index now => exact ofCall_change fun call hc => queueUp_change hc
  | wait index now =>
    refine ofCall_change fun call hc => ?_
    unfold wait
    simp only
    split
    · exact .left index call _ hc
    · exact .moved index call _ hc
  | wake index => exact ofCall_change fun call hc => .moved index call _ hc
  | expire index | cancel index => exact ofCall_change fun call hc => .left index call _ hc
  | release index outcome now =>
    show Change world _ (world.release index outcome now)
    unfold release
    cases hl : world.leases[index]? with
    | none => exact .same
    | some lease =>
      refine .released index lease _ hl ?_
      unfold RuntimeState.release
      split
      · exact sameBooks_foldl (fun state key => sameBooks_modifyCircuit state key _) _ _
      · exact sameBooks_finishCircuits _ _

/-! ## The counters are what is held -/

end AdmissionWorld

def Call.hasTicket (key : QueueKey) (id : Nat) (call : Call) : Bool :=
  call.ticket.any fun ticket => ticket.key == key && ticket.id == id

def Call.waitsFor (key : ScopeKey) (resource : ResourceKind) (call : Call) : Bool :=
  call.ticket.isSome && call.allocations.holds key resource

namespace AdmissionWorld

variable {world : AdmissionWorld}

structure Balanced (world : AdmissionWorld) : Prop where
  active : ∀ key books, world.state.books key = some books → ∀ resource,
    books.active resource = world.leases.countP fun lease => lease.allocations.holds key resource
  queued : ∀ key books, world.state.books key = some books → ∀ resource,
    books.queued resource = world.calls.countP (Call.waitsFor key resource)
  tickets : ∀ key id, ((world.state.waiters.lane key).countP fun waiter => waiter.id == id) =
    world.calls.countP (Call.hasTicket key id)
  keyed : ∀ key, ∀ waiter ∈ world.state.waiters.lane key, QueueKey.fromAllocations waiter.allocations = key
  named : ∀ call ∈ world.calls, ∀ ticket ∈ call.ticket, ticket.key = QueueKey.fromAllocations call.allocations

structure Dropped (state : RuntimeState) (call : Call) (after : RuntimeState) : Prop where
  books : ∀ key, after.books key = (state.books key).map fun books =>
    { books with queued := fun resource => books.queued resource - (call.waitsFor key resource).toNat }
  lanes : ∀ key id, ((after.waiters.lane key).countP fun waiter => waiter.id == id) +
    (call.hasTicket key id).toNat = (state.waiters.lane key).countP fun waiter => waiter.id == id
  keyed : ∀ key, ∀ waiter ∈ after.waiters.lane key, waiter ∈ state.waiters.lane key

section

variable (h : world.Balanced)
include h

theorem Balanced.dropTicket (hcl : world.calls[index]? = some call) :
    Dropped world.state call (world.state.dropTicket call.ticket) := by
  cases ht : call.ticket with
  | none =>
    refine ⟨fun key => ?_, fun key id => ?_, fun _ _ hw => hw⟩
    · simp [Call.waitsFor, ht, RuntimeState.dropTicket]
    · simp [Call.hasTicket, ht, RuntimeState.dropTicket]
  | some ticket =>
    -- the place of the call is in the lane
    have hm := mem_of_getElem? hcl
    have hh : call.hasTicket ticket.key ticket.id = true := by simp [Call.hasTicket, ht]
    have hp : 0 < (world.state.waiters.lane ticket.key).countP fun waiter => waiter.id == ticket.id := by
      rw [h.tickets]
      exact List.countP_pos_iff.2 ⟨call, List.mem_of_getElem? hcl, hh⟩
    obtain ⟨waiter, hw⟩ := isSome_iff_exists.1 (find?_isSome.2 (List.countP_pos_iff.1 hp))
    obtain ⟨queues, hr, ha⟩ := dropTicket_some hw
    have hk : fromAllocations waiter.allocations = fromAllocations call.allocations :=
      (h.keyed _ _ (mem_of_find?_eq_some hw)).trans (h.named call hm ticket ht)
    rw [ha]
    refine ⟨fun key => ?_, fun key id => ?_, fun key other ho => ?_⟩
    · show (world.state.decrementQueued waiter.allocations).books key = _
      rw [books_decrementQueued, holds_eq hk]
      simp [Call.waitsFor, ht]
    · show (queues.lane key).countP _ + _ = _
      rw [lane_remove hr]
      split
      · next heq =>
        subst heq
        have hc := Tally.countP_eraseP_add (fun waiter => waiter.id == id) hw
        have hf : waiter.id = ticket.id := by simpa using find?_some hw
        rw [hf] at hc
        simpa [Call.hasTicket, ht] using hc
      · next hne =>
        have ho : (ticket.key == key) = false := beq_false_of_ne (Ne.symm hne)
        simp [Call.hasTicket, ht, ho]
    · have hl : other ∈ queues.lane key := ho
      rw [lane_remove hr] at hl
      split at hl
      · next heq => exact heq ▸ mem_of_mem_eraseP hl
      · exact hl

theorem Balanced.started (ht : call.ticket = none) : Balanced { world with calls := world.calls ++ [call] } := by
  refine ⟨h.active, fun key books hb resource => ?_, fun key id => ?_, h.keyed, fun other ho => ?_⟩
  · rw [h.queued key books hb, Tally.countP_concat]
    simp [Call.waitsFor, ht]
  · rw [h.tickets, Tally.countP_concat]
    simp [Call.hasTicket, ht]
  obtain hol | hn := mem_append.1 ho
  · exact h.named other hol
  · rw [mem_singleton.1 hn, ht]
    simp

theorem Balanced.moved {phase : CallPhase} (hc : world.calls[index]? = some call) :
    Balanced { world with calls := world.calls.set index { call with phase := phase } } := by
  refine ⟨h.active, fun key books hb resource => ?_, fun key id => ?_, h.keyed, fun other ho => ?_⟩
  · have hs := Tally.countP_set_add (Call.waitsFor key resource) hc { call with phase := phase }
    rw [h.queued key books hb]
    exact (Nat.add_right_cancel hs).symm
  · have hs := Tally.countP_set_add (Call.hasTicket key id) hc { call with phase := phase }
    rw [h.tickets]
    exact (Nat.add_right_cancel hs).symm
  obtain hol | rfl := mem_or_eq_of_mem_set ho
  · exact h.named other hol
  · exact h.named call (mem_of_getElem? hc)

theorem Balanced.queuedUp {id next : Nat} (hc : world.calls[index]? = some call) (ht : call.ticket = none) : Balanced
      { world with
        state := { world.state with nextWaiter := next }.enqueue
          ⟨id, fromAllocations call.allocations, now⟩ ⟨id, call.allocations, now⟩
        calls := world.calls.set index
          { call with
            ticket := some ⟨id, fromAllocations call.allocations, now⟩
            phase := .timing } } := by
  refine ⟨fun key books ha resource => ?_, fun key books ha resource => ?_, fun key id' => ?_,
    fun key waiter hw => ?_, fun other ho ticket ho' => ?_⟩
  · obtain ⟨before, hb, rfl⟩ := map_eq_some_iff.1 ((books_incrementQueued key).symm.trans ha)
    exact h.active key before hb resource
  · obtain ⟨before, hb, rfl⟩ := map_eq_some_iff.1 ((books_incrementQueued key).symm.trans ha)
    have hs := Tally.countP_set_add (Call.waitsFor key resource) hc
      { call with ticket := some ⟨id, fromAllocations call.allocations, now⟩, phase := .timing }
    rw [← h.queued key before hb] at hs
    simp only [Call.waitsFor, ht, isSome_none, Bool.false_and, Bool.toNat_false, isSome_some,
      Bool.true_and, Nat.add_zero] at hs
    exact hs.symm
  · show ((world.state.waiters.push _ _).lane key).countP _ = _
    have hs := Tally.countP_set_add (Call.hasTicket key id') hc
      { call with ticket := some ⟨id, fromAllocations call.allocations, now⟩, phase := .timing }
    rw [← h.tickets key id'] at hs
    simp only [Call.hasTicket, ht, any_none, Bool.toNat_false, Nat.add_zero, any_some] at hs
    rw [hs, lane_push]
    split
    · next heq =>
      subst heq
      rw [Tally.countP_concat]
      simp
    · next hne => simp [beq_false_of_ne (Ne.symm hne)]
  · have hl : waiter ∈ (world.state.waiters.push _ _).lane key := hw
    rw [lane_push] at hl
    split at hl
    · next heq =>
      obtain hol | hn := mem_append.1 hl
      · exact h.keyed key waiter (heq ▸ hol)
      · rw [mem_singleton.1 hn, heq]
    · exact h.keyed key waiter hl
  · obtain hol | rfl := mem_or_eq_of_mem_set ho
    · exact h.named other hol ticket ho'
    · cases ho'
      rfl

theorem Balanced.calls_eraseIdx (hc : world.calls[index]? = some call) (rejections : List AdmissionRejection) : Balanced
      { world with
        state := world.state.dropTicket call.ticket
        calls := world.calls.eraseIdx index
        rejections := rejections } := by
  have hd := h.dropTicket hc
  refine ⟨fun key books ha resource => ?_, fun key books ha resource => ?_, fun key id => ?_,
    fun key waiter hw => ?_, fun other ho => ?_⟩
  · obtain ⟨before, hb, rfl⟩ := map_eq_some_iff.1 ((hd.books key).symm.trans ha)
    exact h.active key before hb resource
  · obtain ⟨before, hb, rfl⟩ := map_eq_some_iff.1 ((hd.books key).symm.trans ha)
    have he := Tally.countP_eraseIdx_add (Call.waitsFor key resource) hc
    rw [← h.queued key before hb] at he
    exact Nat.sub_eq_of_eq_add he.symm
  · have he := Tally.countP_eraseIdx_add (Call.hasTicket key id) hc
    rw [← h.tickets key id, ← hd.lanes key id] at he
    exact (Nat.add_right_cancel he).symm
  · exact h.keyed key waiter (hd.keyed key waiter hw)
  · exact h.named other (mem_of_mem_eraseIdx ho)

/-- The active counters follow the leases, and all else stays. -/
theorem Balanced.leases {leases : List Lease} {moved : ScopeKey → ScopeBooks → ScopeBooks}
    (hw : state.waiters = world.state.waiters)
    (hb : ∀ key, state.books key = (world.state.books key).map (moved key))
    (hm : ∀ key books, (moved key books).queued = books.queued ∧ ∀ resource,
      (books.active resource = world.leases.countP fun lease => lease.allocations.holds key resource) →
      (moved key books).active resource = leases.countP fun lease => lease.allocations.holds key resource) :
    Balanced { world with state := state, leases := leases } := by
  refine ⟨fun key books ha resource => ?_, fun key books ha resource => ?_, fun key id => ?_, fun key => ?_, h.named⟩
  · obtain ⟨before, hbf, rfl⟩ := map_eq_some_iff.1 ((hb key).symm.trans ha)
    exact (hm key before).2 resource (h.active key before hbf resource)
  · obtain ⟨before, hbf, rfl⟩ := map_eq_some_iff.1 ((hb key).symm.trans ha)
    rw [(hm key before).1]
    exact h.queued key before hbf resource
  · rw [← h.tickets, ← hw]
  · show ∀ waiter ∈ state.waiters.lane key, _
    rw [hw]
    exact h.keyed key

theorem Balanced.of_sameBooks (hs : world.state.SameBooks state) : Balanced { world with state := state } := by
  refine h.leases hs.waiters (fun key => ?_) fun key books => ⟨rfl, fun _ => id⟩
  rw [hs.books]
  exact map_id'.symm

/-- A lease is added, and its slots are counted. -/
theorem Balanced.incrementActive (allocations : Allocations) (probes : List ScopeKey) : Balanced { world with
        state := world.state.incrementActive allocations
        leases := world.leases ++ [⟨allocations, probes⟩] } := by
  refine h.leases (forAllocations_fields _ _ _).1 (fun key => books_incrementActive key)
    fun key books => ⟨rfl, fun resource ha => ?_⟩
  rw [Tally.countP_concat, ← ha]

/-- A lease is removed, and its slots are no longer counted. -/
theorem Balanced.decrementActive {lease : Lease} (hl : world.leases[index]? = some lease) : Balanced { world with
        state := world.state.decrementActive lease.allocations
        leases := world.leases.eraseIdx index } := by
  refine h.leases (forAllocations_fields _ _ _).1 (fun key => books_decrementActive key)
    fun key books => ⟨rfl, fun resource ha => ?_⟩
  have he := Tally.countP_eraseIdx_add (fun lease => lease.allocations.holds key resource) hl
  exact Nat.sub_eq_of_eq_add (ha.trans he.symm)

theorem Balanced.change {action : AdmissionAction} {after : AdmissionWorld}
    (hch : Change world action after) : after.Balanced := by
  cases hch with
  | same => exact h
  | started request deadline _ => exact h.started rfl
  | moved index call phase hc => exact h.moved hc
  | queued index call id now next hc ht => exact h.queuedUp hc ht
  | left index call told hc => exact h.calls_eraseIdx hc _
  | granted index call probes admitted hc hcn hs =>
    have he := (h.of_sameBooks hs).calls_eraseIdx hc world.rejections
    exact he.incrementActive call.allocations probes
  | released index lease state hl hs => exact (h.decrementActive hl).of_sameBooks hs

end

/-! ## No counter is beyond its limit -/

end AdmissionWorld

/-- The most that may be active: the retry budget for retries, the configured limit for the rest. -/
def ScopeBooks.capacity (retry : RetryBudget) (books : ScopeBooks) (resource : ResourceKind) : Nat :=
  if resource = .retry then retry.max else (books.limits resource).active

theorem RuntimeState.dropTicket_retry (state : RuntimeState) (ticket : Option WaiterTicket) :
    (state.dropTicket ticket).retry = state.retry := by
  unfold dropTicket removeWaiter
  cases ticket with
  | none => rfl
  | some ticket =>
    cases hr : state.waiters.remove ticket with
    | none => simp [hr]
    | some removed =>
      simp only [bind_some, hr, map_some]
      exact (forAllocations_fields _ _ _).2

namespace AdmissionWorld

variable {world after : AdmissionWorld} {settings : Settings}

structure Within (settings : Settings) (world : AdmissionWorld) : Prop where
  retry : world.state.retry = settings.retryBudget
  limits : ∀ key, (world.state.books key).map ScopeBooks.limits = (settings.scopes key).map Prod.fst
  limited : ∀ call ∈ world.calls, ∀ allocation ∈ call.allocations.list, allocation.Limited settings.retryBudget
  bounded : ∀ key books, world.state.books key = some books → ∀ resource,
    books.active resource ≤ books.capacity settings.retryBudget resource

/-- A step that changes no limit and adds to no active counter. -/
theorem Within.of_map (h : Within settings world) {moved : ScopeKey → ScopeBooks → ScopeBooks}
    (hr : after.state.retry = world.state.retry)
    (hcl : ∀ call ∈ after.calls, ∃ old ∈ world.calls, old.allocations = call.allocations)
    (hb : ∀ key, after.state.books key = (world.state.books key).map (moved key))
    (hm : ∀ key books, (moved key books).limits = books.limits ∧
      ∀ resource, (moved key books).active resource ≤ books.active resource) : Within settings after := by
  refine ⟨hr.trans h.retry, fun key => ?_, fun call hca => ?_, fun key books ha resource => ?_⟩
  · rw [hb, Option.map_map, ← h.limits key]
    congr 1
    exact funext fun books => (hm key books).1
  · obtain ⟨old, ho, heq⟩ := hcl call hca
    exact heq ▸ h.limited old ho
  rw [hb] at ha
  obtain ⟨before, hbf, rfl⟩ := map_eq_some_iff.1 ha
  rw [ScopeBooks.capacity, (hm key before).1]
  exact ((hm key before).2 resource).trans (h.bounded key before hbf resource)

theorem allocations_of_mem_set {calls : List Call} {new other : Call} (hc : calls[index]? = some call)
    (h : other ∈ calls.set index new) (hn : new.allocations = call.allocations) :
    ∃ old ∈ calls, old.allocations = other.allocations := by
  obtain ho | rfl := mem_or_eq_of_mem_set h
  · exact ⟨other, ho, rfl⟩
  · exact ⟨call, mem_of_getElem? hc, hn.symm⟩

/-- A request that may be admitted finds a free place for each of its slots.  Where the retry budget has more than 53
bits, the leases that live are too few to use it up. -/
theorem Within.free (h : Within settings world) (hb : world.Balanced) (hlv : world.leases.length < 2 ^ 53)
    (hc : call ∈ world.calls) (hcn : world.state.canAdmit call.allocations = true) {key : ScopeKey}
    {books : ScopeBooks} (hbk : world.state.books key = some books) {resource : ResourceKind}
    (hh : call.allocations.holds key resource = true) :
    books.active resource < books.capacity settings.retryBudget resource := by
  obtain ⟨allocation, hm, hs⟩ := mem_map.1 (of_decide_eq_true hh)
  obtain ⟨rfl, rfl⟩ := Slot.mk.inj hs
  have ha : books.active allocation.resource < (allocation.limit.getD (books.limits allocation.resource)).active := by
    have := all_eq_true.1 hcn allocation hm
    obtain ⟨scope, hs, rfl⟩ := map_eq_some_iff.1 hbk
    rwa [hs, any_some, decide_eq_true_eq] at this
  have hl := h.limited call hc allocation hm
  unfold ScopeBooks.capacity
  split
  · next hr =>
    obtain ⟨limit, hlm, hle⟩ := hl.budget hr
    rw [hlm, getD_some] at ha
    by_cases hmx : settings.retryBudget.max ≤ 2 ^ 53
    · exact ha.trans_le (hle hmx)
    have hct : books.active allocation.resource ≤ world.leases.length := by
      rw [hb.active _ books hbk]
      exact countP_le_length
    omega
  · next hp =>
    rw [hl.configured hp, getD_none] at ha
    exact ha

theorem Within.granted (h : Within settings world) (hb : world.Balanced) (hl : world.leases.length < 2 ^ 53)
    {admitted : RuntimeState} (hc : world.calls[index]? = some call)
    (hcn : world.state.canAdmit call.allocations = true) (hs : world.state.SameBooks admitted) (leases : List Lease) :
    Within settings
      { world with
        state := (admitted.dropTicket call.ticket).incrementActive call.allocations
        calls := world.calls.eraseIdx index
        leases := leases } := by
  have hd := (hb.of_sameBooks hs).dropTicket hc
  have hbk : ∀ key, ((admitted.dropTicket call.ticket).incrementActive call.allocations).books key =
      (world.state.books key).map fun books => ⟨books.limits,
        fun resource => books.active resource + (call.allocations.holds key resource).toNat,
        fun resource => books.queued resource - (call.waitsFor key resource).toNat⟩ := by
    intro key
    rw [books_incrementActive, hd.books key, Option.map_map]
    show (admitted.books key).map _ = _
    rw [hs.books]
    rfl
  refine ⟨?_, fun key => ?_, fun other ho => ?_, fun key books ha resource => ?_⟩
  · show ((admitted.dropTicket call.ticket).incrementActive call.allocations).retry = _
    rw [incrementActive, (forAllocations_fields _ _ _).2, dropTicket_retry, hs.retry]
    exact h.retry
  · rw [hbk, Option.map_map, ← h.limits key]
    rfl
  · exact h.limited other (mem_of_mem_eraseIdx ho)
  rw [hbk] at ha
  obtain ⟨before, hbf, rfl⟩ := map_eq_some_iff.1 ha
  show before.active resource + (call.allocations.holds key resource).toNat ≤
    before.capacity settings.retryBudget resource
  cases hh : call.allocations.holds key resource with
  | false => exact h.bounded key before hbf resource
  | true => exact h.free hb hl (mem_of_getElem? hc) hcn hbf hh

theorem Within.change (h : Within settings world) (hb : world.Balanced) (hl : world.leases.length < 2 ^ 53)
    {action : AdmissionAction} (hch : Change world action after) : Within settings after := by
  cases hch with
  | same => exact h
  | started request deadline _ =>
    refine ⟨h.retry, h.limits, fun other ho => ?_, h.bounded⟩
    obtain hol | hn := mem_append.1 ho
    · exact h.limited other hol
    rw [mem_singleton.1 hn, ← h.retry]
    have hp : 0 < world.state.retry.max := h.retry ▸ settings.retryBudget_max_pos
    exact fun allocation ha => request.limited hp (Allocations.mem_deduplicate ha)
  | moved index call phase hc =>
    exact ⟨h.retry, h.limits, fun other ho => by
      obtain ⟨old, hol, heq⟩ := allocations_of_mem_set hc ho rfl
      exact heq ▸ h.limited old hol, h.bounded⟩
  | queued index call id now next hc ht =>
    refine h.of_map ?_ (fun other ho => allocations_of_mem_set hc ho rfl)
      (fun key => books_incrementQueued key) fun key books => ⟨rfl, fun resource => le_rfl⟩
    exact (forAllocations_fields _ _ _).2
  | left index call told hc =>
    exact h.of_map (dropTicket_retry _ _)
      (fun other ho => ⟨other, mem_of_mem_eraseIdx ho, rfl⟩) (hb.dropTicket hc).books
      fun key books => ⟨rfl, fun resource => le_rfl⟩
  | granted index call probes admitted hc hcn hs => exact h.granted hb hl hc hcn hs _
  | released index lease state hls hs =>
    refine h.of_map ?_ (fun other ho => ⟨other, ho, rfl⟩)
      (fun key => (congrFun hs.books key).trans (books_decrementActive key))
      fun key books => ⟨rfl, fun resource => Nat.sub_le _ _⟩
    exact hs.retry.trans (forAllocations_fields _ _ _).2

/-! ## No overtaking -/

/-- Whoever is admitted without a ticket found no head of a lane with a common slot that could be admitted. -/
theorem enter_selected (hcl : world.calls[index]? = some call) (ht : call.ticket = none)
    (hg : (world.step (.enter index now)).leases ≠ world.leases) :
    world.state.waiters.oldestAdmissibleOverlap (fromAllocations call.allocations)
      (world.state.admissible now) = none := by
  have hc := attempt_cases world.state call.allocations call.ticket now
  simp only [step, ofCall, hcl] at hg
  split at hg
  · unfold enter at hg
    generalize world.state.attempt call.allocations call.ticket now = result at hc hg
    cases hc with
    | nothing | refused => exact absurd rfl hg
    | admitted admitted probes hcn hs hsm =>
      rw [ht] at hs
      exact isNone_iff_eq_none.1 hs
  · exact absurd rfl hg

theorem books_start {key : ScopeKey} {books : ScopeBooks}
    (h : (start settings).state.books key = some books) (resource : ResourceKind) :
    books.active resource = 0 ∧ books.queued resource = 0 := by
  obtain ⟨scope, hs, rfl⟩ := map_eq_some_iff.1 h
  obtain ⟨limits, -, rfl⟩ := map_eq_some_iff.1 hs
  exact ⟨rfl, rfl⟩

theorem Balanced.start (settings : Settings) : (start settings).Balanced :=
  ⟨fun _ _ h resource => (books_start h resource).1, fun _ _ h resource => (books_start h resource).2,
    fun _ _ => rfl, fun _ _ h => by contradiction, fun _ h => by contradiction⟩

theorem Within.start (settings : Settings) : Within settings (start settings) := by
  refine ⟨rfl, fun key => ?_, fun _ h => by contradiction, fun key books h resource => ?_⟩
  · show Option.map _ (Option.map _ (Option.map _ _)) = _
    rw [Option.map_map, Option.map_map]
    rfl
  rw [(books_start h resource).1]
  exact Nat.zero_le _

end AdmissionWorld

open Transition

/-- **Admission is accounted for.**  After every run of calls, waits, cancellations, timeouts and releases, with any
settings and fewer than `2 ^ 53` leases alive at a time:

* the active counter of each configured scope and resource is the number of live leases that hold it, and is within the
  limit of the settings, or for retries the maximum of the retry budget;
* the queued counter is the number of calls that wait for it, and the lanes hold just the places of these calls;
* a request that has no place in a queue is not admitted while the head of a lane with which it shares a slot could
  be. -/
theorem admission_accounted (settings : Settings) (actions : List AdmissionAction)
    (hlive : Along step (fun world _ => world.leases.length < 2 ^ 53)
      (start settings) actions) :
    let world := run step (start settings) actions
    (∀ key limits enabled, settings.scopes key = some (limits, enabled) →
      ∃ scope, world.state.scopes key = some scope ∧ ∀ resource,
        (scope.active resource = world.leases.countP fun lease => lease.allocations.holds key resource) ∧
        scope.active resource ≤
          (if resource = .retry then settings.retryBudget.max else (limits resource).active) ∧
        scope.queued resource = world.calls.countP (Call.waitsFor key resource)) ∧
    (∀ key id, ((world.state.waiters.lane key).countP fun waiter => waiter.id == id) =
      world.calls.countP (Call.hasTicket key id)) ∧
    (∀ index call now key waiter slot, world.calls[index]? = some call → call.ticket = none →
      (world.step (.enter index now)).leases ≠ world.leases →
      (world.state.waiters.lane key).head? = some waiter → slot ∈ call.allocations.slots → slot ∈ key →
        world.state.admissible now waiter.allocations = false) := by
  intro world
  obtain ⟨hb, hw⟩ : world.Balanced ∧ Within settings world :=
    run_invariant (I := fun world => world.Balanced ∧ Within settings world)
      (fun world action h hlive => ⟨h.1.change (step_change world action),
        h.2.change h.1 hlive (step_change world action)⟩)
      ⟨Balanced.start settings, Within.start settings⟩ hlive
  refine ⟨fun key limits enabled hs => ?_, hb.tickets, ?_⟩
  · have hl := hw.limits key
    rw [hs, map_some] at hl
    obtain ⟨books, hbk, hbs⟩ := map_eq_some_iff.1 hl
    obtain ⟨scope, hst, rfl⟩ := map_eq_some_iff.1 hbk
    refine ⟨scope, hst, fun resource => ⟨hb.active key _ hbk resource, ?_, hb.queued key _ hbk resource⟩⟩
    have hbn := hw.bounded key _ hbk resource
    rw [ScopeBooks.capacity, hbs] at hbn
    exact hbn
  · intro index call now key waiter slot hc ht hg hh hsl hk
    refine oldestAdmissibleOverlap_eq_none (enter_selected hc ht hg) ?_
    exact mem_overlappingHeads hh (mem_fromAllocations.2 hsl) hk

/-- One request at a time, and no more scopes than the global one. -/
def oneAtATime : Settings where
  scopes
    | .global => some (.forScope ⟨1, 4, 1, 1, 1, 1⟩ 50, false)
    | _ => none
  retry := ⟨1 / 10, 1, none, none, 25⟩
  automaticRetries := 4
  failure := ⟨true, [.connectError], 5, 20, 1 / 2, 10000, 1000, 30000, 1, 2⟩
  capacityRetryAfterMs := 1000

/-- A request that is admitted, and one that queues up behind it. -/
def secondWaits : List AdmissionAction :=
  [.call .globalRequest none, .enter 0 0, .call .globalRequest none, .enter 0 0, .queueUp 0 0]

theorem admission_accounted_oneAtATime :
    (run step (.start oneAtATime) secondWaits).leases.length = 1 ∧
      ∃ scope, (run step (.start oneAtATime) secondWaits).state.scopes .global = some scope ∧
        scope.active .request = 1 ∧ scope.queued .request = 1 := by
  refine ⟨by decide +kernel, ?_⟩
  obtain ⟨scope, hs, hc⟩ := (admission_accounted oneAtATime secondWaits (by decide +kernel)).1 .global _ _ rfl
  obtain ⟨ha, -, hq⟩ := hc .request
  exact ⟨scope, hs, ha.trans (by decide +kernel), hq.trans (by decide +kernel)⟩

end CircuitBreakers
