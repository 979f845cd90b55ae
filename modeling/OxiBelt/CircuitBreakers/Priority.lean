import OxiBelt.CircuitBreakers.Admission

/-!
# Priority admission (`circuit_breakers/priority.rs`)

Requests from clients take their global slot through the priority scheduler.  Each class may have a reservation, which
only its own eligible requests use; the rest of the capacity is shared by all, up to a share of each class.  The
scheduler keeps its own accounts next to the global counter, under the same lock.

Everything else that is admitted goes on beside it: the world here contains the one of `Admission`, with its calls and
leases, and both work on the same scopes.
-/

namespace CircuitBreakers

open RustStd
open Function (update)

/-! ## Classes and policies -/

inductive PriorityClass
  | admin
  | health
  | securityCallback
  | interactive
  | default
  | background
  | crawler
  deriving DecidableEq, Repr

/-- `PriorityClass::ALL`. -/
def PriorityClass.all : List PriorityClass :=
  [.admin, .health, .securityCallback, .interactive, .default, .background, .crawler]

inductive PriorityRejectionPolicy
  | queue
  | reject
  deriving DecidableEq

/-- The settings of one class in the configuration; a number of pending requests is `auto` where it is `some none`. -/
structure PriorityClassConfig where
  name : PriorityClass
  reservedRequests : Option Nat := none
  maxShare : Option ℚ := none
  maxPendingRequests : Option (Option Nat) := none
  pendingQueueTimeoutMs : Option Nat := none
  rejectionPolicy : Option PriorityRejectionPolicy := none

structure PriorityConfig where
  enabled : Bool
  classes : List PriorityClassConfig

structure PriorityClassPolicy where
  reservedRequests : Nat
  maxShare : ℚ
  maxPendingRequests : Option (Option Nat)
  pendingQueueTimeoutMs : Option Nat
  rejectionPolicy : PriorityRejectionPolicy

namespace PriorityClassPolicy

def defaultFor : PriorityClass → PriorityClassPolicy
  | .background => ⟨0, 1 / 2, some (some 0), none, .reject⟩
  | .crawler => ⟨0, 1 / 4, some (some 0), none, .reject⟩
  | _ => ⟨0, 1, none, none, .queue⟩

def apply (policy : PriorityClassPolicy) (override : PriorityClassConfig) : PriorityClassPolicy where
  reservedRequests := override.reservedRequests.getD policy.reservedRequests
  maxShare := override.maxShare.getD policy.maxShare
  maxPendingRequests := override.maxPendingRequests.or policy.maxPendingRequests
  pendingQueueTimeoutMs := override.pendingQueueTimeoutMs.or policy.pendingQueueTimeoutMs
  rejectionPolicy := override.rejectionPolicy.getD policy.rejectionPolicy

end PriorityClassPolicy

/-- `resolved_priority_policy`. -/
def PriorityConfig.resolved (config : PriorityConfig) (priorityClass : PriorityClass) : PriorityClassPolicy :=
  match config.classes.find? fun candidate => candidate.name = priorityClass with
  | some override => (PriorityClassPolicy.defaultFor priorityClass).apply override
  | none => .defaultFor priorityClass

def maxClassRequests (globalCapacity : Nat) (maxShare : ℚ) : Nat :=
  if 1 ≤ maxShare then globalCapacity else Double.floor (Double.mul (Double.ofNat globalCapacity) maxShare)

structure ResolvedPriorityPolicy where
  (reservedRequests maxRequests maxPendingRequests queueTimeout : Nat)
  rejectionPolicy : PriorityRejectionPolicy

namespace ResolvedPriorityPolicy

def fromConfig (policy : PriorityClassPolicy) (global : ResourceLimit) : ResolvedPriorityPolicy :=
  let automaticQueue :=
    if policy.rejectionPolicy = .queue then
      max (Double.ceil (Double.mul (Double.ofNat global.queue) policy.maxShare)) 1
    else 0
  let maxPendingRequests := (policy.maxPendingRequests.getD none).getD automaticQueue
  { reservedRequests := policy.reservedRequests
    maxRequests := maxClassRequests global.active policy.maxShare
    maxPendingRequests := if policy.rejectionPolicy = .reject then 0 else maxPendingRequests
    queueTimeout := fromMillis (policy.pendingQueueTimeoutMs.getD (global.timeout / 1000000))
    rejectionPolicy := policy.rejectionPolicy }

def maxSharedRequests (policy : ResolvedPriorityPolicy) : Nat := policy.maxRequests - policy.reservedRequests

end ResolvedPriorityPolicy

/-! ## The scheduler -/

inductive PriorityLeaseKind
  | reserved
  | shared
  deriving DecidableEq

structure PriorityLease where
  priorityClass : PriorityClass
  kind : PriorityLeaseKind
  deriving DecidableEq

structure PriorityActive where
  reserved : Nat := 0
  shared : Nat := 0

def PriorityActive.total (active : PriorityActive) : Nat := active.reserved + active.shared

/-- A place in the lane of a class for requests that may use its reservation, or in that for those that may not. -/
structure PriorityTicket where
  id : Nat
  priorityClass : PriorityClass
  eligible : Bool
  queuedAt : Nat
  deriving DecidableEq

structure PriorityAdmissionState where
  enabled : Bool
  policies : PriorityClass → ResolvedPriorityPolicy
  sharedCapacity : Nat
  sharedActive : Nat := 0
  active : PriorityClass → PriorityActive := fun _ => {}
  queued : PriorityClass → Nat := fun _ => 0
  queues : PriorityClass → Bool → List PriorityTicket := fun _ _ => []
  nextWaiter : Nat := 1

def chooseOldest (candidate : Option PriorityTicket) (next : PriorityTicket) : Option PriorityTicket :=
  match candidate with
  | none => some next
  | some current => if next.queuedAt < current.queuedAt then some next else some current

namespace PriorityAdmissionState

def fromConfig (config : PriorityConfig) (global : ResourceLimit) : PriorityAdmissionState :=
  let policies := fun priorityClass => ResolvedPriorityPolicy.fromConfig (config.resolved priorityClass) global
  { enabled := config.enabled
    policies := policies
    sharedCapacity :=
      global.active - (PriorityClass.all.map fun priorityClass => (policies priorityClass).reservedRequests).sum }

variable (priority : PriorityAdmissionState) (priorityClass : PriorityClass) (eligible : Bool)

def laneEmpty : Bool :=
  (priority.queues priorityClass eligible).isEmpty

def totalActive : Nat :=
  (PriorityClass.all.map fun priorityClass => (priority.active priorityClass).total).sum

variable (lease : PriorityLease) (ticket : PriorityTicket) (globalActive globalCapacity : Nat)

/-- Whether a request of the class gets a slot, and which kind. -/
def canAdmit : Option PriorityLeaseKind :=
  let policy := priority.policies priorityClass
  let active := priority.active priorityClass
  if globalCapacity ≤ globalActive then none
  else if policy.maxRequests ≤ active.total then none
  else if eligible && decide (active.reserved < policy.reservedRequests) then some .reserved
  else if policy.maxSharedRequests ≤ active.shared then none
  else
    let untrackedActive := globalActive - priority.totalActive
    if priority.sharedActive + untrackedActive < priority.sharedCapacity then some .shared else none

/-- The oldest head that can use a reservation, or else the oldest head that can be admitted at all. -/
def selectedWaiter : Option PriorityTicket :=
  let reserved := (PriorityClass.all.filterMap fun priorityClass =>
    if priority.canAdmit priorityClass true globalActive globalCapacity = some .reserved then
      (priority.queues priorityClass true).head?
    else none).foldl chooseOldest none
  let shared := (PriorityClass.all.flatMap fun priorityClass => [true, false].filterMap fun eligible =>
    if (priority.canAdmit priorityClass eligible globalActive globalCapacity).isSome then
      (priority.queues priorityClass eligible).head?
    else none).foldl chooseOldest none
  reserved.or shared

def isSelected : Bool :=
  (priority.selectedWaiter globalActive globalCapacity).any fun selected => selected.id == ticket.id

/-- Whether a class refuses to queue; the reason itself is only counted. -/
def refusesQueue : Bool :=
  let policy := priority.policies priorityClass
  policy.rejectionPolicy = .reject || decide (policy.maxPendingRequests ≤ priority.queued priorityClass)

def enqueue (now : Nat) : PriorityAdmissionState × PriorityTicket :=
  let ticket : PriorityTicket := ⟨priority.nextWaiter, priorityClass, eligible, now⟩
  ({ priority with
      nextWaiter := max ((priority.nextWaiter + 1) % 2 ^ 64) 1
      queues := update priority.queues priorityClass
        (update (priority.queues priorityClass) eligible (priority.queues priorityClass eligible ++ [ticket]))
      queued := update priority.queued priorityClass (priority.queued priorityClass + 1) },
    ticket)

def remove : Option PriorityAdmissionState :=
  let queue := priority.queues ticket.priorityClass ticket.eligible
  if queue.any fun candidate => candidate.id == ticket.id then
    some { priority with
      queues := update priority.queues ticket.priorityClass
        (update (priority.queues ticket.priorityClass) ticket.eligible
          (queue.eraseP fun candidate => candidate.id == ticket.id))
      queued := update priority.queued ticket.priorityClass (priority.queued ticket.priorityClass - 1) }
  else none

/-- The source's `admit`. -/
def grant : PriorityAdmissionState :=
  let active := priority.active lease.priorityClass
  match lease.kind with
  | .reserved =>
    { priority with
      active := update priority.active lease.priorityClass { active with reserved := active.reserved + 1 } }
  | .shared =>
    { priority with
      active := update priority.active lease.priorityClass { active with shared := active.shared + 1 }
      sharedActive := priority.sharedActive + 1 }

def release : PriorityAdmissionState :=
  let active := priority.active lease.priorityClass
  match lease.kind with
  | .reserved =>
    { priority with
      active := update priority.active lease.priorityClass { active with reserved := active.reserved - 1 } }
  | .shared =>
    { priority with
      active := update priority.active lease.priorityClass { active with shared := active.shared - 1 }
      sharedActive := priority.sharedActive - 1 }

end PriorityAdmissionState

/-! ## Calls of `admit_priority_global_request` -/

def globalRequestAllocations : Allocations := .deduplicate [⟨.global, .request, none⟩]

structure PriorityCall where
  priorityClass : PriorityClass
  eligible : Bool
  deadline : Option Nat
  ticket : Option PriorityTicket := none
  phase : CallPhase := .entering

/-- The ordinary admissions, the scheduler, its calls in progress, the leases it has granted and what it told those that
it did not admit. -/
structure PriorityWorld where
  base : AdmissionWorld
  priority : PriorityAdmissionState
  calls : List PriorityCall := []
  leases : List PriorityLease := []
  rejections : List AdmissionRejection := []

inductive PriorityAction
  | ordinary (action : AdmissionAction)
  | call (priorityClass : PriorityClass) (eligible : Bool) (deadline : Option Nat)
  | enter (index : Nat)
  | queueUp (index now : Nat)
  | wait (index now : Nat)
  | wake (index : Nat)
  | expire (index : Nat)
  | cancel (index : Nat)
  | release (index : Nat)

namespace PriorityWorld

variable (world : PriorityWorld) (index : Nat) (call : PriorityCall)

def withState (change : RuntimeState → RuntimeState) : PriorityWorld :=
  { world with base := { world.base with state := change world.base.state } }

/-- `remove_priority_waiter`. -/
def dropTicket (ticket : Option PriorityTicket) : PriorityWorld :=
  match ticket.bind world.priority.remove with
  | none => world
  | some priority =>
    { world with priority := priority }.withState fun state => state.decrementQueued globalRequestAllocations

/-- The kind of slot that a caller gets now, if it is its turn. -/
def turn (priority : PriorityAdmissionState) (call : PriorityCall) (globalActive globalCapacity : Nat) :
    Option PriorityLeaseKind :=
  let kind := priority.canAdmit call.priorityClass call.eligible globalActive globalCapacity
  match call.ticket with
  | some ticket => if priority.isSelected ticket globalActive globalCapacity then kind else none
  | none =>
    if priority.laneEmpty call.priorityClass call.eligible &&
        ((priority.selectedWaiter globalActive globalCapacity).isNone || kind == some .reserved)
    then kind else none

def setPhase (phase : CallPhase) : PriorityWorld :=
  { world with calls := world.calls.set index { call with phase := phase } }

/-- A call ends; its place in the queue is removed if it has one. -/
def leave (told : List AdmissionRejectionReason) : PriorityWorld :=
  { world.dropTicket call.ticket with
    calls := world.calls.eraseIdx index
    rejections := world.rejections ++ told.map fun reason => ⟨reason, world.base.state.capacityRetryAfter⟩ }

/-- The first section of the loop.  Where the scheduler is off, the request goes the ordinary way. -/
def enter : PriorityWorld :=
  if world.priority.enabled then
    match world.base.state.scopes .global with
    | none => world.leave index call []
    | some global =>
      match turn world.priority call (global.active .request) (global.limits .request).active with
      | none => world.setPhase index call .queueing
      | some kind =>
        let dropped := (world.leave index call []).withState fun state => state.incrementActive globalRequestAllocations
        { dropped with
          priority := dropped.priority.grant ⟨call.priorityClass, kind⟩
          leases := world.leases ++ [⟨call.priorityClass, kind⟩] }
  else
    let dropped := world.leave index call []
    { dropped with base := dropped.base.step (.call .globalRequest call.deadline) }

/-- The second section: a place in the lane of the class, if the class and the global queue have room. -/
def queueUp (now : Nat) : PriorityWorld :=
  if call.ticket.isSome then world.setPhase index call .timing
  else if !world.priority.enabled then
    let left := world.leave index call []
    { left with base := left.base.step (.call .globalRequest call.deadline) }
  else if world.priority.refusesQueue call.priorityClass then world.leave index call [.activeLimit]
  else if !world.base.state.canQueue globalRequestAllocations then
    world.leave index call [world.base.state.queueRejectionReason globalRequestAllocations]
  else
    let queued := world.priority.enqueue call.priorityClass call.eligible now
    { world with
      priority := queued.1
      calls := world.calls.set index { call with ticket := some queued.2, phase := .timing } }.withState
        fun state => state.incrementQueued globalRequestAllocations

def wait (now : Nat) : PriorityWorld :=
  let globalTimeout := ((world.base.state.scopes .global).map fun global => (global.limits .request).timeout).getD 0
  let configured := min globalTimeout (world.priority.policies call.priorityClass).queueTimeout
  let remaining := configured - (now - (call.ticket.map PriorityTicket.queuedAt).getD now)
  if (call.deadline.map fun deadline => min remaining (deadline - now)).getD remaining = 0 then
    world.leave index call [.queueTimeout]
  else world.setPhase index call .waiting

def release (world : PriorityWorld) (index : Nat) : PriorityWorld :=
  match world.leases[index]? with
  | none => world
  | some lease =>
    { world with priority := world.priority.release lease, leases := world.leases.eraseIdx index }.withState
      fun state => state.decrementActive globalRequestAllocations

def ofCall (phase : CallPhase) (next : PriorityCall → PriorityWorld) : PriorityWorld :=
  match world.calls[index]? with
  | none => world
  | some call => if call.phase = phase then next call else world

def step (world : PriorityWorld) : PriorityAction → PriorityWorld
  | .ordinary action => { world with base := world.base.step action }
  | .call priorityClass eligible deadline =>
    { world with calls := world.calls ++ [{ priorityClass, eligible, deadline }] }
  | .enter index => world.ofCall index .entering fun call => world.enter index call
  | .queueUp index now => world.ofCall index .queueing fun call => world.queueUp index call now
  | .wait index now => world.ofCall index .timing fun call => world.wait index call now
  | .wake index => world.ofCall index .waiting fun call => world.setPhase index call .entering
  | .expire index => world.ofCall index .waiting fun call => world.leave index call [.queueTimeout]
  | .cancel index => world.ofCall index .waiting fun call => world.leave index call []
  | .release index => world.release index

/-- The limit of the global request slots, as the configuration resolves it. -/
def globalLimit (settings : Settings) : ResourceLimit :=
  ((settings.scopes .global).map fun scope => scope.1 .request).getD ⟨0, 0, 0⟩

def start (settings : Settings) (config : PriorityConfig) : PriorityWorld where
  base := .start settings
  priority := .fromConfig config (globalLimit settings)

/-- Every global request takes the way of the scheduler. -/
def GlobalByPriority : PriorityAction → Prop
  | .ordinary (.call request _) =>
    ∀ allocation ∈ request.allocations world.base.state, allocation.slot ≠ ⟨.global, .request⟩
  | _ => True

instance (world : PriorityWorld) : ∀ action, Decidable (world.GlobalByPriority action)
  | .ordinary (.call request _) => inferInstanceAs (Decidable
      (∀ allocation ∈ request.allocations world.base.state, allocation.slot ≠ ⟨.global, .request⟩))
  | .ordinary (.enter _ _) | .ordinary (.queueUp _ _) | .ordinary (.wait _ _) | .ordinary (.wake _)
  | .ordinary (.expire _) | .ordinary (.cancel _) | .ordinary (.release _ _ _) => isTrue trivial
  | .call _ _ _ | .enter _ | .queueUp _ _ | .wait _ _ | .wake _ | .expire _ | .cancel _ | .release _ => isTrue trivial

end PriorityWorld

end CircuitBreakers
