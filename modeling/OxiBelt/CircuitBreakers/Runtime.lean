import OxiBelt.CircuitBreakers.Circuit
import OxiBelt.Lib.Ledger
import OxiBelt.Lib.Table
import OxiBelt.RustStd.Fs
import Mathlib.Data.List.Destutter
import Mathlib.Data.List.MinMax

/-!
# Scopes, queues and circuits (`circuit_breakers/types.rs`, `queue.rs`, `configuration.rs`, `runtime.rs`)

The state behind the admission lock.  Every scope counts for each resource the requests that are active and those that
wait; a request takes a set of scope and resource pairs together (`Allocations`), and waits in the lane of exactly this
set.  The counters of metrics are left out.

`RuntimeState.books` is the part of a scope that the counters make up.  The operations on circuits leave it alone, and
the four ways to move counters are one definition, `forAllocations`.
-/

namespace CircuitBreakers

open RustStd List
open Function (update update_apply)

/-! ## Types -/

inductive ResourceKind
  | request
  | upstreamRequest
  | retry
  | connection
  | stream
  | bodyInspection
  | decompression
  deriving DecidableEq, Repr

/-- `self as u8`. -/
def ResourceKind.index : ResourceKind → Nat
  | .request => 0
  | .upstreamRequest => 1
  | .retry => 2
  | .connection => 3
  | .stream => 4
  | .bodyInspection => 5
  | .decompression => 6

inductive ScopeKey
  | global
  | route (name : Str)
  | pool (name : Str)
  deriving DecidableEq

def ScopeKey.kind : ScopeKey → Str
  | .global => "global"
  | .route _ => "route"
  | .pool _ => "pool"

def ScopeKey.label : ScopeKey → Str
  | .global => "global"
  | .route name => name
  | .pool name => name

/-- By kind and then by label. -/
def ScopeKey.le (left right : ScopeKey) : Bool :=
  if left.kind = right.kind then strLe left.label right.label else strLe left.kind right.kind

structure ResourceLimit where
  (active queue timeout : Nat)
  deriving DecidableEq

/-- `ResolvedAutoScope`. -/
structure ResolvedScope where
  (activeRequests pendingRequests connections streams inspectionJobs decompressionJobs : Nat)

abbrev ScopeLimits := ResourceKind → ResourceLimit

def ScopeLimits.forScope (resolved : ResolvedScope) (pendingQueueTimeoutMs : Nat) : ScopeLimits :=
  let request : ResourceLimit :=
    ⟨resolved.activeRequests, resolved.pendingRequests, fromMillis pendingQueueTimeoutMs⟩
  fun
    | .request | .upstreamRequest | .retry => request
    | .connection => { request with active := resolved.connections }
    | .stream => { request with active := resolved.streams }
    | .bodyInspection => { request with active := resolved.inspectionJobs }
    | .decompression => { request with active := resolved.decompressionJobs }

structure ScopeState where
  limits : ScopeLimits
  failureEnabled : Bool
  active : ResourceKind → Nat := fun _ => 0
  queued : ResourceKind → Nat := fun _ => 0
  circuit : FailureCircuit := {}

/-- `QueueAllocation`. -/
structure Slot where
  scope : ScopeKey
  resource : ResourceKind
  deriving DecidableEq

def Slot.le (left right : Slot) : Bool :=
  if left.scope.kind = right.scope.kind ∧ left.scope.label = right.scope.label then
    decide (left.resource.index ≤ right.resource.index)
  else left.scope.le right.scope

structure Allocation where
  scope : ScopeKey
  resource : ResourceKind
  limit : Option ResourceLimit := none
  deriving DecidableEq

def Allocation.slot (allocation : Allocation) : Slot := ⟨allocation.scope, allocation.resource⟩

def Allocation.effectiveLimit (allocation : Allocation) (scope : ScopeState) : ResourceLimit :=
  allocation.limit.getD (scope.limits allocation.resource)

/-! ## Allocations without repetition -/

/-- A list of allocations, no two of the same scope and resource. -/
structure Allocations where
  list : List Allocation
  keyed : Table.Keyed Allocation.slot list

namespace Allocations

/-- One turn of the loop of `deduplicate_allocations`: a limit replaces that of the allocation that is there. -/
def merge (unique : Allocations) (allocation : Allocation) : Allocations :=
  if h : ∃ existing ∈ unique.list, existing.slot = allocation.slot then
    ⟨Table.update Allocation.slot unique.list allocation.slot fun existing =>
        if allocation.limit.isSome then { existing with limit := allocation.limit } else existing,
      unique.keyed.map fun row => by
        split
        · split <;> rfl
        · rfl⟩
  else
    ⟨unique.list ++ [allocation], unique.keyed.concat fun row hrow heq => h ⟨row, hrow, heq⟩⟩

def deduplicate (allocations : List Allocation) : Allocations := allocations.foldl merge ⟨[], nodup_nil⟩

variable {row : Allocation}

theorem mem_merge {unique : Allocations} {allocation : Allocation} (h : row ∈ (unique.merge allocation).list) :
    row ∈ unique.list ∨ row = allocation := by
  unfold merge at h
  split at h
  · obtain ⟨existing, he, rfl⟩ := mem_map.1 h
    split
    · next hs =>
      split
      · -- with the new limit it is the new allocation
        obtain ⟨scope, resource, limit⟩ := allocation
        obtain ⟨rfl, rfl⟩ := Slot.mk.inj hs
        exact .inr rfl
      · exact .inl he
    · exact .inl he
  · obtain hr | hn := mem_append.1 h
    · exact .inl hr
    · exact .inr (mem_singleton.1 hn)

theorem mem_foldl_merge {allocations : List Allocation} {unique : Allocations}
    (h : row ∈ (allocations.foldl merge unique).list) : row ∈ unique.list ∨ row ∈ allocations := by
  induction allocations generalizing unique with
  | nil => exact .inl h
  | cons allocation allocations ih =>
    obtain hm | hr := ih h
    · obtain ho | rfl := mem_merge hm
      · exact .inl ho
      · exact .inr mem_cons_self
    · exact .inr (mem_cons_of_mem _ hr)

theorem mem_deduplicate {allocations : List Allocation} (h : row ∈ (deduplicate allocations).list) :
    row ∈ allocations :=
  (mem_foldl_merge h).resolve_left not_mem_nil

variable (allocations : Allocations)

def slots : List Slot := allocations.list.map Allocation.slot

/-- Whether a slot of the scope and resource is among the allocations. -/
def holds (key : ScopeKey) (resource : ResourceKind) : Bool :=
  decide (⟨key, resource⟩ ∈ allocations.slots)

theorem count_slots (key : ScopeKey) (resource : ResourceKind) :
    allocations.slots.count ⟨key, resource⟩ = (allocations.holds key resource).toNat := by
  unfold holds
  by_cases h : ⟨key, resource⟩ ∈ allocations.slots
  · rw [slots, count_eq_one_of_mem allocations.keyed h, ← slots, decide_eq_true h]
    rfl
  · rw [count_eq_zero_of_not_mem h, decide_eq_false h]
    rfl

end Allocations

/-! ## Queues -/

/-- `QueueKey`: what a lane's requests wait for, in a fixed order. -/
abbrev QueueKey := List Slot

def QueueKey.fromAllocations (allocations : Allocations) : QueueKey :=
  allocations.slots.insertionSort fun left right => Slot.le left right = true

theorem QueueKey.mem_fromAllocations {allocations : Allocations} {slot : Slot} :
    slot ∈ QueueKey.fromAllocations allocations ↔ slot ∈ allocations.slots := mem_insertionSort _

/-- The lane of a request says which slots it waits for. -/
theorem QueueKey.holds_eq {left right : Allocations}
    (h : QueueKey.fromAllocations left = QueueKey.fromAllocations right) : left.holds = right.holds := by
  funext key resource
  refine decide_eq_decide.2 ?_
  rw [← QueueKey.mem_fromAllocations, h, QueueKey.mem_fromAllocations]

def QueueKey.overlaps (key other : QueueKey) : Bool := key.any fun slot => decide (slot ∈ other)

structure Waiter where
  id : Nat
  allocations : Allocations
  queuedAt : Nat

structure WaiterTicket where
  id : Nat
  key : QueueKey
  queuedAt : Nat
  deriving DecidableEq

/-- `AdmissionQueues`. -/
abbrev AdmissionQueues := AList fun _ : QueueKey => List Waiter

namespace AdmissionQueues

variable (queues : AdmissionQueues) (ticket : WaiterTicket)

variable (key : QueueKey)

def lane : List Waiter := (queues.lookup key).getD []

def isEmpty (queues : AdmissionQueues) (key : QueueKey) : Bool := (queues.lane key).isEmpty

def isHead : Bool :=
  (queues.lane ticket.key).head?.any fun waiter => waiter.id == ticket.id

def overlappingHeads : List Waiter :=
  (queues.entries.filter fun lane => key.overlaps lane.1).filterMap fun lane => lane.2.head?

def oldestAdmissibleOverlap (admissible : Allocations → Bool) : Option Nat :=
  (((queues.overlappingHeads key).filter fun waiter => admissible waiter.allocations).argmin
    fun waiter => toLex (waiter.queuedAt, waiter.id)).map Waiter.id

def push (waiter : Waiter) : AdmissionQueues :=
  queues.insert ticket.key (queues.lane ticket.key ++ [waiter])

/-- The first waiter of the ticket's number leaves its lane, and an empty lane is removed. -/
def remove : Option (AdmissionQueues × Waiter) :=
  ((queues.lane ticket.key).find? fun waiter => waiter.id == ticket.id).map fun waiter =>
    let rest := (queues.lane ticket.key).eraseP fun waiter => waiter.id == ticket.id
    (if rest.isEmpty then queues.erase ticket.key else queues.insert ticket.key rest, waiter)

variable {queues : AdmissionQueues} {ticket : WaiterTicket} {key : QueueKey} {waiter : Waiter}

theorem lane_push (key : QueueKey) : (queues.push ticket waiter).lane key =
      if key = ticket.key then queues.lane ticket.key ++ [waiter] else queues.lane key := by
  rw [lane, push, Ledger.lookup_insert_apply]
  split
  · rfl
  · rfl

theorem lane_remove {after : AdmissionQueues} (h : queues.remove ticket = some (after, waiter)) (key : QueueKey) :
    after.lane key =
      if key = ticket.key then (queues.lane ticket.key).eraseP fun waiter => waiter.id == ticket.id
      else queues.lane key := by
  obtain ⟨found, -, ha⟩ := Option.map_eq_some_iff.1 h
  cases ha
  by_cases hk : key = ticket.key
  · subst hk
    rw [if_pos rfl, lane]
    split
    · next he =>
      rw [AList.lookup_erase, List.isEmpty_iff.1 he]
      rfl
    · rw [AList.lookup_insert]
      rfl
  · rw [if_neg hk, lane]
    split
    · rw [AList.lookup_erase_ne hk, lane]
    · rw [AList.lookup_insert_ne hk, lane]

theorem mem_overlappingHeads {other : QueueKey} {slot : Slot} (hh : (queues.lane other).head? = some waiter)
    (hk : slot ∈ key) (hot : slot ∈ other) : waiter ∈ queues.overlappingHeads key := by
  unfold lane at hh
  cases hl : queues.lookup other with
  | none =>
    rw [hl] at hh
    contradiction
  | some waiters =>
    rw [hl] at hh
    have he : (⟨other, waiters⟩ : Sigma fun _ : QueueKey => List Waiter) ∈ queues.entries := AList.mem_lookup_iff.1 hl
    have ho : QueueKey.overlaps key other = true := any_eq_true.2 ⟨slot, hk, decide_eq_true hot⟩
    exact mem_filterMap.2 ⟨_, mem_filter.2 ⟨he, ho⟩, hh⟩

/-- Nobody is selected only if no head that shares a resource may be admitted. -/
theorem oldestAdmissibleOverlap_eq_none {admissible : Allocations → Bool}
    (h : queues.oldestAdmissibleOverlap key admissible = none) (hw : waiter ∈ queues.overlappingHeads key) :
    admissible waiter.allocations = false := by
  rw [oldestAdmissibleOverlap, Option.map_eq_none_iff, argmin_eq_none, filter_eq_nil_iff] at h
  exact eq_false_of_ne_true (h waiter hw)

end AdmissionQueues

/-! ## The state behind the lock -/

structure RetryBudget where
  percent : ℚ
  (min max queue timeout : Nat)

structure RuntimeState where
  scopes : ScopeKey → Option ScopeState
  waiters : AdmissionQueues := ∅
  nextWaiter : Nat := 1
  retry : RetryBudget
  failure : FailureConfig
  capacityRetryAfter : Nat
  transitionSequence : Nat := 0

inductive AdmissionRejectionReason
  | activeLimit
  | queueFull
  | queueTimeout
  | circuitOpen
  | retryBudget
  deriving DecidableEq, Repr

structure AdmissionRejection where
  reason : AdmissionRejectionReason
  retryAfter : Nat
  deriving DecidableEq, Repr

namespace RuntimeState

variable (state : RuntimeState) (probes : List ScopeKey) (allocations : Allocations) (now : Nat)

variable (ticket : WaiterTicket) (outcome : CircuitOutcome) (key : ScopeKey)

/-- `scopes.get_mut(key)`. -/
def modifyScope (change : ScopeState → ScopeState) : RuntimeState :=
  { state with scopes := update state.scopes key ((state.scopes key).map change) }

def modifyCircuit (change : FailureCircuit → FailureCircuit) : RuntimeState :=
  state.modifyScope key fun scope => { scope with circuit := change scope.circuit }

def forAllocations (change : ResourceKind → ScopeState → ScopeState) (state : RuntimeState)
    (allocations : List Allocation) : RuntimeState :=
  allocations.foldl (fun state allocation => state.modifyScope allocation.scope (change allocation.resource)) state

def canAdmit : Bool :=
  allocations.list.all fun allocation =>
    (state.scopes allocation.scope).any fun scope =>
      decide (scope.active allocation.resource < (allocation.effectiveLimit scope).active)

def canQueue : Bool :=
  allocations.list.all fun allocation =>
    (state.scopes allocation.scope).any fun scope =>
      decide (scope.queued allocation.resource < (allocation.effectiveLimit scope).queue)

def queueRejectionReason : AdmissionRejectionReason :=
  if allocations.list.any fun allocation =>
      (state.scopes allocation.scope).any fun scope =>
        (allocation.effectiveLimit scope).queue == 0 &&
          decide ((allocation.effectiveLimit scope).active ≤ scope.active allocation.resource)
  then .activeLimit else .queueFull

def incrementActive : RuntimeState :=
  forAllocations (fun resource scope =>
    { scope with active := update scope.active resource (scope.active resource + 1) }) state allocations.list

def decrementActive : RuntimeState :=
  forAllocations (fun resource scope =>
    { scope with active := update scope.active resource (scope.active resource - 1) }) state allocations.list

/-- The loop over the scopes of `enqueue`. -/
def incrementQueued : RuntimeState :=
  forAllocations (fun resource scope =>
    { scope with queued := update scope.queued resource (scope.queued resource + 1) }) state allocations.list

/-- The loop over the scopes of `remove_waiter`. -/
def decrementQueued : RuntimeState :=
  forAllocations (fun resource scope =>
    { scope with queued := update scope.queued resource (scope.queued resource - 1) }) state allocations.list

def enqueue (waiter : Waiter) : RuntimeState :=
  { state.incrementQueued waiter.allocations with waiters := state.waiters.push ticket waiter }

def removeWaiter : Option (RuntimeState × Waiter) :=
  (state.waiters.remove ticket).map fun removed =>
    ({ state.decrementQueued removed.2.allocations with waiters := removed.1 }, removed.2)

def dropTicket (ticket : Option WaiterTicket) : RuntimeState :=
  match ticket.bind state.removeWaiter with
  | some (after, _) => after
  | none => state

/-! ## Circuits -/

def circuitScopes : List ScopeKey :=
  (((allocations.list.filter fun allocation => allocation.resource == .upstreamRequest).map
    Allocation.scope).insertionSort fun left right => ScopeKey.le left right = true).destutter (· ≠ ·)

/-- Whether the circuit of one scope lets a request pass. -/
def scopeAvailable : Except Nat Unit :=
  match state.scopes key with
  | none => .error 0
  | some scope =>
    if scope.failureEnabled then
      match scope.circuit.available now state.failure with
      | .ok _ => .ok ()
      | .error wait => .error wait
    else .ok ()

def circuitAvailable : Except Nat Unit :=
  if state.failure.enabled then (circuitScopes allocations).forM (state.scopeAvailable now) else .ok ()

/-- The request begins at the circuit of one scope; the scope is noted if it is a probe there. -/
def beginScope (begun : RuntimeState × List ScopeKey) (key : ScopeKey) : Except Nat (RuntimeState × List ScopeKey) :=
  match begun.1.scopes key with
  | none => .error 0
  | some scope =>
    if scope.failureEnabled then
      let probe := scope.circuit.beginProbe now begun.1.failure
      .ok (begun.1.modifyCircuit key fun _ => probe.1,
        if probe.2.isSome || probe.1.state == .halfOpen then begun.2 ++ [key] else begun.2)
    else .ok begun

def circuitAdmission : Except Nat (RuntimeState × List ScopeKey) :=
  if state.failure.enabled then do
    (circuitScopes allocations).forM (state.scopeAvailable now)
    (circuitScopes allocations).foldlM (beginScope now) (state, [])
  else .ok (state, [])

/-- `transition_sequence.wrapping_add(1)`. -/
def nextSequence : Nat := (state.transitionSequence + 1) % 2 ^ 64

def finishScope (now : Nat) (state : RuntimeState) (key : ScopeKey) : RuntimeState :=
  match state.scopes key with
  | none => state
  | some scope =>
    if scope.failureEnabled then
      let numbered := { state with transitionSequence := state.nextSequence }
      numbered.modifyCircuit key fun circuit =>
        (circuit.finish (decide (key ∈ probes)) outcome now state.failure state.nextSequence).1
    else state

def finishCircuits (now : Nat) : RuntimeState :=
  if state.failure.enabled then
    ((allocations.list.filter fun allocation => allocation.resource == .upstreamRequest).map Allocation.scope).foldl
      (finishScope probes outcome now) state
  else state

def abandonCircuits : RuntimeState :=
  probes.foldl (fun state key => state.modifyCircuit key fun circuit => circuit.abandonProbe true) state

/-! ## What moves the counters -/

end RuntimeState

structure ScopeBooks where
  limits : ScopeLimits
  active : ResourceKind → Nat
  queued : ResourceKind → Nat

def ScopeState.books (scope : ScopeState) : ScopeBooks := ⟨scope.limits, scope.active, scope.queued⟩

namespace RuntimeState

def books (state : RuntimeState) (key : ScopeKey) : Option ScopeBooks := (state.scopes key).map ScopeState.books

variable {state after : RuntimeState} {key : ScopeKey} {allocations : Allocations} {now : Nat}

theorem scopes_modifyScope (change : ScopeState → ScopeState) (other : ScopeKey) :
    (state.modifyScope key change).scopes other =
      if other = key then (state.scopes other).map change else state.scopes other := by
  show update state.scopes key ((state.scopes key).map change) other = _
  rw [update_apply]
  split
  · next h => rw [h]
  · rfl

/-- Two states with the same counters, queues and budget. -/
structure SameBooks (state after : RuntimeState) : Prop where
  books : after.books = state.books
  waiters : after.waiters = state.waiters
  retry : after.retry = state.retry

theorem SameBooks.refl (state : RuntimeState) : SameBooks state state := ⟨rfl, rfl, rfl⟩

theorem SameBooks.trans {middle : RuntimeState} (h : SameBooks state middle) (h' : SameBooks middle after) :
    SameBooks state after :=
  ⟨h'.books.trans h.books, h'.waiters.trans h.waiters, h'.retry.trans h.retry⟩

theorem sameBooks_modifyCircuit (state : RuntimeState) (key : ScopeKey) (change : FailureCircuit → FailureCircuit) :
    SameBooks state (state.modifyCircuit key change) := by
  refine ⟨funext fun other => ?_, rfl, rfl⟩
  rw [books, modifyCircuit, scopes_modifyScope, books]
  split
  · rw [Option.map_map]
    rfl
  · rfl

theorem sameBooks_beginScope {begun finished : RuntimeState × List ScopeKey}
    (h : beginScope now begun key = .ok finished) : SameBooks begun.1 finished.1 := by
  unfold beginScope at h
  split at h
  · contradiction
  next scope _ =>
  split at h
  · cases h
    exact sameBooks_modifyCircuit begun.1 key fun _ => (scope.circuit.beginProbe now begun.1.failure).1
  · cases h
    exact .refl _

theorem sameBooks_foldlM_beginScope {keys : List ScopeKey} {begun finished : RuntimeState × List ScopeKey}
    (h : keys.foldlM (beginScope now) begun = .ok finished) : SameBooks begun.1 finished.1 := by
  induction keys generalizing begun with
  | nil =>
    cases h
    exact .refl _
  | cons key keys ih =>
    rw [foldlM_cons] at h
    obtain ⟨middle, hf, hr⟩ := bind_eq_ok.1 h
    exact (sameBooks_beginScope hf).trans (ih hr)

theorem sameBooks_circuitAdmission {probes : List ScopeKey}
    (h : state.circuitAdmission allocations now = .ok (after, probes)) : SameBooks state after := by
  unfold circuitAdmission at h
  split at h
  · obtain ⟨-, -, hb⟩ := bind_eq_ok.1 h
    exact sameBooks_foldlM_beginScope hb
  · cases h
    exact .refl _

theorem sameBooks_foldl {step : RuntimeState → ScopeKey → RuntimeState}
    (h : ∀ state key, SameBooks state (step state key)) (keys : List ScopeKey) (state : RuntimeState) :
      SameBooks state (keys.foldl step state) := by
  induction keys generalizing state with
  | nil => exact .refl _
  | cons key keys ih => exact (h state key).trans (ih _)

theorem sameBooks_finishScope (probes : List ScopeKey) (outcome : CircuitOutcome) (now : Nat) (state : RuntimeState)
    (key : ScopeKey) : SameBooks state (finishScope probes outcome now state key) := by
  unfold finishScope
  split
  · exact .refl _
  split
  · have hn : SameBooks state { state with transitionSequence := state.nextSequence } := ⟨rfl, rfl, rfl⟩
    exact hn.trans (sameBooks_modifyCircuit _ key _)
  · exact .refl _

theorem sameBooks_finishCircuits (probes : List ScopeKey) (outcome : CircuitOutcome) :
    SameBooks state (state.finishCircuits probes allocations outcome now) := by
  unfold finishCircuits
  split
  · exact sameBooks_foldl (sameBooks_finishScope probes outcome now) _ state
  · exact .refl _

section Counters

variable {move : Nat → Nat → Nat}

/-- **Counters.**  A move of one counter for each allocation is one move by how often a scope and resource occur. -/
theorem books_forAllocations (get : ScopeBooks → ResourceKind → Nat)
    (put : (ResourceKind → Nat) → ScopeBooks → ScopeBooks) {change : ResourceKind → ScopeState → ScopeState}
    (hz : ∀ x, move x 0 = x) (hm : ∀ x n, move (move x 1) n = move x (n + 1))
    (hg : ∀ books, put (get books) books = books) (hp : ∀ f g books, put f (put g books) = put f books)
    (hgp : ∀ f books, get (put f books) = f)
    (hc : ∀ resource scope, (change resource scope).books =
      put (update (get scope.books) resource (move (get scope.books resource) 1)) scope.books)
    (allocations : Allocations) (key : ScopeKey) :
    (forAllocations change state allocations.list).books key = (state.books key).map fun books =>
      put (fun resource => move (get books resource) (allocations.holds key resource).toNat) books := by
  simp only [← allocations.count_slots, Allocations.slots]
  generalize allocations.list = list
  induction list generalizing state with
  | nil =>
    show state.books key = (state.books key).map fun books => put (fun resource => move (get books resource) 0) books
    simp only [hz, hg]
    exact Option.map_id'.symm
  | cons allocation list ih =>
    show (forAllocations change (state.modifyScope allocation.scope (change allocation.resource)) list).books key = _
    rw [ih, books, scopes_modifyScope, books]
    have hct : ∀ resource, ((allocation :: list).map Allocation.slot).count ⟨key, resource⟩ =
        (list.map Allocation.slot).count ⟨key, resource⟩ +
          if key = allocation.scope ∧ resource = allocation.resource then 1 else 0 := by
      intro resource
      rw [map_cons, count_cons]
      congr 1
      refine if_congr ?_ rfl rfl
      rw [beq_iff_eq, Allocation.slot, Slot.mk.injEq, eq_comm, @eq_comm _ allocation.resource]
    simp only [hct]
    by_cases hk : key = allocation.scope
    · rw [if_pos hk]
      cases state.scopes key with
      | none => rfl
      | some scope =>
        simp only [Option.map_some, hc, hgp, hp, hk, true_and]
        congr 2
        funext other
        rw [update_apply]
        split
        · next h => rw [h, hm]
        · rfl
    · rw [if_neg hk]
      simp only [hk, false_and, if_false, Nat.add_zero]

end Counters

theorem forAllocations_fields (change : ResourceKind → ScopeState → ScopeState) (state : RuntimeState)
    (list : List Allocation) :
    (forAllocations change state list).waiters = state.waiters ∧
      (forAllocations change state list).retry = state.retry := by
  induction list generalizing state with
  | nil => exact ⟨rfl, rfl⟩
  | cons allocation list ih => exact ih (state.modifyScope allocation.scope (change allocation.resource))

theorem books_incrementActive (key : ScopeKey) :
    (state.incrementActive allocations).books key = (state.books key).map fun books =>
      { books with active := fun resource => books.active resource + (allocations.holds key resource).toNat } :=
  books_forAllocations (·.active) (fun active books => { books with active }) Nat.add_zero (fun _ _ => by omega)
    (fun _ => rfl) (fun _ _ _ => rfl) (fun _ _ => rfl) (fun _ _ => rfl) allocations key

theorem books_decrementActive (key : ScopeKey) :
    (state.decrementActive allocations).books key = (state.books key).map fun books =>
      { books with active := fun resource => books.active resource - (allocations.holds key resource).toNat } :=
  books_forAllocations (·.active) (fun active books => { books with active }) Nat.sub_zero (fun _ _ => by omega)
    (fun _ => rfl) (fun _ _ _ => rfl) (fun _ _ => rfl) (fun _ _ => rfl) allocations key

theorem books_incrementQueued (key : ScopeKey) :
    (state.incrementQueued allocations).books key = (state.books key).map fun books =>
      { books with queued := fun resource => books.queued resource + (allocations.holds key resource).toNat } :=
  books_forAllocations (·.queued) (fun queued books => { books with queued }) Nat.add_zero (fun _ _ => by omega)
    (fun _ => rfl) (fun _ _ _ => rfl) (fun _ _ => rfl) (fun _ _ => rfl) allocations key

theorem books_decrementQueued (key : ScopeKey) :
    (state.decrementQueued allocations).books key = (state.books key).map fun books =>
      { books with queued := fun resource => books.queued resource - (allocations.holds key resource).toNat } :=
  books_forAllocations (·.queued) (fun queued books => { books with queued }) Nat.sub_zero (fun _ _ => by omega)
    (fun _ => rfl) (fun _ _ _ => rfl) (fun _ _ => rfl) (fun _ _ => rfl) allocations key

end RuntimeState

end CircuitBreakers
