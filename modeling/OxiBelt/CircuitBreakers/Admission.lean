import OxiBelt.CircuitBreakers.Runtime
import OxiBelt.Lib.Transition

/-!
# Admission (`circuit_breakers/runtime.rs`)

The calls of `admit` as they run side by side, with priority classes off.  A call is a loop of sections under the lock:
it tries to get its slots (`attempt`), it takes a place in the queue if it has none (`queueUp`), and it reads how long
it may wait.  Between two sections any other call may run.  A call that waits is woken, runs out of time or is dropped
by its caller; its place in the queue goes with it.  A granted lease lives until it is released with an outcome.
-/

namespace CircuitBreakers

open RustStd

/-! ## Requests -/

def scopedAllocations (route pool : Option Str) (resource : ResourceKind) : List Allocation :=
  ⟨.global, resource, none⟩ ::
    ((route.map fun name => ⟨.route name, resource, none⟩).toList ++
      (pool.map fun name => ⟨.pool name, resource, none⟩).toList)

/-- The share of the retry budget that is left at the current load. -/
def RuntimeState.retryLimit (state : RuntimeState) (overloadMultiplier : ℚ) : ResourceLimit :=
  let originals := ((state.scopes .global).map fun scope => scope.active .request).getD 0
  let proportional := Double.floor (Double.mul (Double.ofNat originals) state.retry.percent)
  let allowance := min (max proportional state.retry.min) state.retry.max
  let adjusted := Double.floor (Double.mul (Double.ofNat allowance) (Double.clampUnit overloadMultiplier))
  ⟨max adjusted 1, state.retry.queue, state.retry.timeout⟩

/-- The callers of `admit`. -/
inductive AdmissionRequest
  | routeRequest (route : Str)
  | globalRequest
  | routeScopeRequest (route : Str)
  | upstreamAttempt (route : Str) (pool : Option Str)
  | retryAttempt (route : Str) (pool : Option Str) (overloadMultiplier : ℚ)
  | upstreamConnection (pool : Option Str)
  | upstreamStream (route : Str) (pool : Option Str)
  | bodyInspection (route : Str)
  | decompression (route : Str)

def AdmissionRequest.allocations (state : RuntimeState) : AdmissionRequest → List Allocation
  | .routeRequest route => scopedAllocations (some route) none .request
  | .globalRequest => [⟨.global, .request, none⟩]
  | .routeScopeRequest route => [⟨.route route, .request, none⟩]
  | .upstreamAttempt route pool => scopedAllocations (some route) pool .upstreamRequest
  | .retryAttempt route pool overloadMultiplier =>
    scopedAllocations (some route) pool .upstreamRequest ++
      [⟨.global, .retry, some (state.retryLimit overloadMultiplier)⟩]
  | .upstreamConnection pool => scopedAllocations none pool .connection
  | .upstreamStream route pool => scopedAllocations (some route) pool .stream
  | .bodyInspection route => scopedAllocations (some route) none .bodyInspection
  | .decompression route => scopedAllocations (some route) none .decompression

def AdmissionRequest.exhaustedReason : AdmissionRequest → Option AdmissionRejectionReason
  | .retryAttempt _ _ _ => some .retryBudget
  | _ => none

/-! ## The sections of a call -/

/-- `AdmissionLease`. -/
structure Lease where
  allocations : Allocations
  probes : List ScopeKey

namespace RuntimeState

variable (state : RuntimeState) (allocations : Allocations)

variable (ticket : Option WaiterTicket) (exhaustedReason : Option AdmissionRejectionReason) (now : Nat)

/-- Whether the head of a lane could be admitted. -/
def admissible (allocations : Allocations) : Bool :=
  (state.circuitAvailable allocations now).isOk && state.canAdmit allocations

/-- Whether it is the caller's turn: the head of its lane has to be the oldest of the heads that could be admitted, and
a caller without a ticket has to find none. -/
def selectedForCaller : Bool :=
  let selected :=
    state.waiters.oldestAdmissibleOverlap (QueueKey.fromAllocations allocations) (state.admissible now)
  match ticket with
  | none => selected.isNone
  | some ticket => selected == some ticket.id

/-- The first section of the loop of `admit`. -/
def attempt : RuntimeState × Option (Except AdmissionRejection Lease) :=
  if (ticket.isNone && state.waiters.isEmpty (QueueKey.fromAllocations allocations)) ||
      ticket.any fun ticket => state.waiters.isHead ticket then
    match state.circuitAvailable allocations now with
    | .error retryAfter => (state.dropTicket ticket, some (.error ⟨.circuitOpen, retryAfter⟩))
    | .ok () =>
      if state.selectedForCaller allocations ticket now && state.canAdmit allocations then
        match state.circuitAdmission allocations now with
        | .error retryAfter => (state.dropTicket ticket, some (.error ⟨.circuitOpen, retryAfter⟩))
        | .ok (admitted, probes) =>
          ((admitted.dropTicket ticket).incrementActive allocations, some (.ok ⟨allocations, probes⟩))
      else (state, none)
  else (state, none)

/-- The second section: a place in the queue. -/
def queueUp : Except AdmissionRejection (RuntimeState × WaiterTicket) :=
  if state.canQueue allocations then
    let ticket : WaiterTicket := ⟨state.nextWaiter, QueueKey.fromAllocations allocations, now⟩
    let numbered := { state with nextWaiter := max ((state.nextWaiter + 1) % 2 ^ 64) 1 }
    .ok (numbered.enqueue ticket ⟨state.nextWaiter, allocations, now⟩, ticket)
  else .error ⟨exhaustedReason.getD (state.queueRejectionReason allocations), state.capacityRetryAfter⟩

def queueTimeout (deadline : Option Nat) (queuedAt now : Nat) : Nat :=
  let configured := (allocations.list.filterMap fun allocation =>
    (state.scopes allocation.scope).map fun scope => (allocation.effectiveLimit scope).timeout).min?.getD 0
  let remaining := configured - (now - queuedAt)
  (deadline.map fun deadline => min remaining (deadline - now)).getD remaining

def timeoutRejection : AdmissionRejection :=
  ⟨exhaustedReason.getD .queueTimeout, state.capacityRetryAfter⟩

def release (lease : Lease) (outcome : CircuitOutcome) (now : Nat) : RuntimeState :=
  let state := state.decrementActive lease.allocations
  if outcome = .neutral then state.abandonCircuits lease.probes
  else state.finishCircuits lease.probes lease.allocations outcome now

end RuntimeState

/-! ## Calls that run side by side -/

inductive CallPhase
  | entering
  | queueing
  | timing
  | waiting
  deriving DecidableEq

structure Call where
  allocations : Allocations
  exhaustedReason : Option AdmissionRejectionReason
  deadline : Option Nat
  ticket : Option WaiterTicket := none
  phase : CallPhase := .entering

/-- The call of `admit` that a request makes. -/
def AdmissionRequest.newCall (request : AdmissionRequest) (state : RuntimeState) (deadline : Option Nat) : Call where
  allocations := .deduplicate (request.allocations state)
  exhaustedReason := request.exhaustedReason
  deadline := deadline

/-- The runtime, the calls in progress, the leases that live, and what callers were told. -/
structure AdmissionWorld where
  state : RuntimeState
  calls : List Call := []
  leases : List Lease := []
  rejections : List AdmissionRejection := []

inductive AdmissionAction
  | call (request : AdmissionRequest) (deadline : Option Nat)
  | enter (index now : Nat)
  | queueUp (index now : Nat)
  | wait (index now : Nat)
  | wake (index : Nat)
  | expire (index : Nat)
  | cancel (index : Nat)
  | release (index : Nat) (outcome : CircuitOutcome) (now : Nat)

namespace AdmissionWorld

variable (world : AdmissionWorld) (index : Nat) (call : Call)

def ofCall (phase : CallPhase) (next : Call → AdmissionWorld) : AdmissionWorld :=
  match world.calls[index]? with
  | none => world
  | some call => if call.phase = phase then next call else world

def setPhase (phase : CallPhase) : AdmissionWorld :=
  { world with calls := world.calls.set index { call with phase := phase } }

/-- A call ends without a lease; its place in the queue is removed if it has one. -/
def leave (told : List AdmissionRejection) : AdmissionWorld :=
  { world with
    state := world.state.dropTicket call.ticket
    calls := world.calls.eraseIdx index
    rejections := world.rejections ++ told }

def enter (now : Nat) : AdmissionWorld :=
  match world.state.attempt call.allocations call.ticket now with
  | (state, none) => { world with state := state }.setPhase index call .queueing
  | (state, some (.ok lease)) =>
    { world with state := state, calls := world.calls.eraseIdx index, leases := world.leases ++ [lease] }
  | (state, some (.error rejection)) =>
    { world with
      state := state, calls := world.calls.eraseIdx index, rejections := world.rejections ++ [rejection] }

def queueUp (world : AdmissionWorld) (index : Nat) (call : Call) (now : Nat) : AdmissionWorld :=
  if call.ticket.isNone then
    match world.state.queueUp call.allocations call.exhaustedReason now with
    | .error rejection =>
      { world with calls := world.calls.eraseIdx index, rejections := world.rejections ++ [rejection] }
    | .ok (state, ticket) =>
      { world with
        state := state, calls := world.calls.set index { call with ticket := some ticket, phase := .timing } }
  else world.setPhase index call .timing

def wait (now : Nat) : AdmissionWorld :=
  let queuedAt := (call.ticket.map WaiterTicket.queuedAt).getD now
  if world.state.queueTimeout call.allocations call.deadline queuedAt now = 0 then
    world.leave index call [world.state.timeoutRejection call.exhaustedReason]
  else world.setPhase index call .waiting

def release (world : AdmissionWorld) (index : Nat) (outcome : CircuitOutcome) (now : Nat) : AdmissionWorld :=
  match world.leases[index]? with
  | none => world
  | some lease =>
    { world with state := world.state.release lease outcome now, leases := world.leases.eraseIdx index }

def step : AdmissionAction → AdmissionWorld
  | .call request deadline =>
    { world with calls := world.calls ++ [request.newCall world.state deadline] }
  | .enter index now => world.ofCall index .entering fun call => world.enter index call now
  | .queueUp index now => world.ofCall index .queueing fun call => world.queueUp index call now
  | .wait index now => world.ofCall index .timing fun call => world.wait index call now
  | .wake index => world.ofCall index .waiting fun call => world.setPhase index call .entering
  | .expire index =>
    world.ofCall index .waiting fun call =>
      world.leave index call [world.state.timeoutRejection call.exhaustedReason]
  | .cancel index => world.ofCall index .waiting fun call => world.leave index call []
  | .release index outcome now => world.release index outcome now

end AdmissionWorld

/-! ## Configuration -/

/-- `CircuitBreakerRetryBudgetConfig`; a capacity without a number is `auto`. -/
structure RetryBudgetConfig where
  percent : ℚ
  minConcurrency : Nat
  (maxConcurrency maxQueue : Option Nat)
  queueTimeoutMs : Nat

/-- `resolve_retry_budget`; `automatic` is what the resources of the process allow. -/
def RetryBudgetConfig.resolve (config : RetryBudgetConfig) (automatic : Nat) : RetryBudget :=
  let max := Nat.max (config.maxConcurrency.getD automatic) 1
  { percent := config.percent
    min := config.minConcurrency
    max := Nat.max max config.minConcurrency
    queue := config.maxQueue.getD (min (2 * max) 256)
    timeout := fromMillis config.queueTimeoutMs }

/-- What the configuration resolves to: the limits of each scope and whether its circuit is used. -/
structure Settings where
  scopes : ScopeKey → Option (ScopeLimits × Bool)
  retry : RetryBudgetConfig
  automaticRetries : Nat
  failure : FailureConfig
  capacityRetryAfterMs : Nat

variable (settings : Settings)

def Settings.retryBudget : RetryBudget := settings.retry.resolve settings.automaticRetries

def RuntimeState.fromSettings : RuntimeState where
  scopes key := (settings.scopes key).map fun scope => { limits := scope.1, failureEnabled := scope.2 }
  retry := settings.retryBudget
  failure := settings.failure
  capacityRetryAfter := fromMillis settings.capacityRetryAfterMs

def AdmissionWorld.start : AdmissionWorld := { state := .fromSettings settings }

theorem Settings.retryBudget_max_pos : 0 < settings.retryBudget.max := by
  show 0 < Nat.max (Nat.max _ 1) _
  exact Nat.lt_of_lt_of_le Nat.one_pos ((Nat.le_max_right _ _).trans (Nat.le_max_left _ _))

end CircuitBreakers
