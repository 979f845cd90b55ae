import OxiBelt.Lib.Double
import OxiBelt.RustStd.Result

/-!
# The failure circuit of a scope (`circuit_breakers/circuit.rs`)

A circuit is closed, open for some time, or half-open.  A closed circuit opens on too many failures; once its timeout
is over the next request makes it half-open, and the outcomes that arrive then close it or open it again.  The circuit
counts the probes that are in flight, and it is told with each outcome whether it is the outcome of a probe, but not of
which half-open period.

Times are nanoseconds.  A `Duration` here never comes near its maximum, which the source's saturating operations guard.
-/

namespace CircuitBreakers

open RustStd

/-- `Duration::from_millis`. -/
def fromMillis (ms : Nat) : Nat := ms * 1000000

/-! ## Outcomes and policy -/

inductive CircuitState
  | closed
  | opened
  | halfOpen
  deriving DecidableEq, Repr

inductive CircuitOutcomeFailure
  | connectError
  | firstByteTimeout
  | responseReadTimeout
  | protocolError
  | status (code : Nat)
  deriving DecidableEq, Repr

inductive CircuitOutcome
  | success
  | failure (failure : CircuitOutcomeFailure)
  | neutral
  deriving DecidableEq, Repr

inductive CircuitFailureCondition
  | connectError
  | firstByteTimeout
  | responseReadTimeout
  | protocolError
  | status502
  | status503
  | status504
  deriving DecidableEq, Repr

/-- `CircuitBreakerFailureConfig`. -/
structure FailureConfig where
  enabled : Bool
  on : List CircuitFailureCondition
  (consecutiveFailures minimumRequests : Nat)
  failureRatio : ℚ
  (windowMs openTimeoutMs maxOpenTimeoutMs halfOpenMaxProbes halfOpenSuccesses : Nat)

variable (policy : FailureConfig)

def FailureConfig.validate : Result Unit := do
  ensure (!policy.on.isEmpty) "circuit_breakers.failure.on must not be empty"
  ensure (!(policy.consecutiveFailures == 0 || policy.minimumRequests == 0))
    "circuit_breakers.failure thresholds must be greater than 0"
  ensure (decide (0 ≤ policy.failureRatio ∧ policy.failureRatio ≤ 1))
    "circuit_breakers.failure.failure_ratio must be finite and between 0 and 1"
  ensure (!(policy.windowMs == 0 || policy.openTimeoutMs == 0 || policy.maxOpenTimeoutMs == 0))
    "circuit_breakers.failure durations must be greater than 0"
  ensure (!decide (policy.maxOpenTimeoutMs < policy.openTimeoutMs))
    "circuit_breakers.failure.max_open_timeout_ms must be at least open_timeout_ms"
  ensure (!(policy.halfOpenMaxProbes == 0 || policy.halfOpenSuccesses == 0))
    "circuit_breakers.failure half-open limits must be greater than 0"
  pure ()

/-- An accepted policy lets at least one probe through. -/
theorem FailureConfig.halfOpenMaxProbes_pos {policy : FailureConfig} (h : policy.validate = .ok ()) :
    0 < policy.halfOpenMaxProbes := by
  simp only [FailureConfig.validate, ensure_bind_eq_ok] at h
  obtain ⟨-, -, -, -, -, hl, -⟩ := h
  simp only [Bool.not_eq_true', Bool.or_eq_false_iff, beq_eq_false_iff_ne] at hl
  exact Nat.pos_of_ne_zero hl.1

def CircuitFailureCondition.covers : CircuitFailureCondition → CircuitOutcomeFailure → Bool
  | .connectError, .connectError => true
  | .firstByteTimeout, .firstByteTimeout => true
  | .responseReadTimeout, .responseReadTimeout => true
  | .protocolError, .protocolError => true
  | .status502, .status code => code == 502
  | .status503, .status code => code == 503
  | .status504, .status code => code == 504
  | _, _ => false

def failureMatches (failure : CircuitOutcomeFailure) : Bool :=
  policy.on.any fun condition => condition.covers failure

/-- The `failed` of `finish`. -/
def FailureConfig.failed : CircuitOutcome → Bool
  | .failure failure => failureMatches policy failure
  | _ => false

def doubledCapped (value : Nat) (policy : FailureConfig) : Nat :=
  min (2 * value) (fromMillis policy.maxOpenTimeoutMs)

/-- Half of the time and up to as much again, by the number of the transition. -/
def jittered (value sequence : Nat) : Nat :=
  let half := value / 2
  let spreadMs := half / 1000000
  half + fromMillis (sequence % (spreadMs + 1))

/-! ## The circuit -/

structure FailureCircuit where
  state : CircuitState := .closed
  openUntil : Option Nat := none
  openTimeout : Nat := 0
  probes : Nat := 0
  successes : Nat := 0
  consecutiveFailures : Nat := 0
  samples : List (Nat × Bool) := []

namespace FailureCircuit

variable (circuit : FailureCircuit) (failed : Bool) (now : Nat)

/-- `saturating_duration_since` of the end of the open time. -/
def remaining : Nat :=
  (circuit.openUntil.map fun until_ => until_ - now).getD 0

/-- Whether a request may pass, and then whether as a probe; otherwise how long to wait. -/
def available (policy : FailureConfig) : Except Nat Bool :=
  match circuit.state with
  | .closed => .ok false
  | .opened => if circuit.remaining now = 0 then .ok true else .error (circuit.remaining now)
  | .halfOpen => if circuit.probes < policy.halfOpenMaxProbes then .ok true else .error circuit.openTimeout

def beginProbe (policy : FailureConfig) : FailureCircuit × Option (CircuitState × CircuitState) :=
  match circuit.state with
  | .closed => (circuit, none)
  | .opened =>
    if circuit.openUntil.any fun until_ => until_ - now ≠ 0 then (circuit, none)
    else
      ({ circuit with
          state := .halfOpen
          probes := 1
          successes := 0
          openTimeout := if circuit.openTimeout = 0 then fromMillis policy.openTimeoutMs else circuit.openTimeout },
        some (.opened, .halfOpen))
  | .halfOpen =>
    if circuit.probes < policy.halfOpenMaxProbes then ({ circuit with probes := circuit.probes + 1 }, none)
    else (circuit, none)

def abandonProbe (probe : Bool) : FailureCircuit :=
  if probe && circuit.state == .halfOpen then { circuit with probes := circuit.probes - 1 } else circuit

def close (circuit : FailureCircuit) : FailureCircuit :=
  { circuit with
    state := .closed, openUntil := none, openTimeout := 0, probes := 0, successes := 0, consecutiveFailures := 0
    samples := [] }

def recordSample (failed : Bool) (policy : FailureConfig) : FailureCircuit :=
  let recent := circuit.samples.dropWhile fun sample => fromMillis policy.windowMs < now - sample.1
  { circuit with samples := recent ++ [(now, failed)] }

/-- The source's `open`. -/
def trip (policy : FailureConfig) (sequence : Nat) : FailureCircuit :=
  let base := if circuit.openTimeout = 0 then fromMillis policy.openTimeoutMs else circuit.openTimeout
  let timeout := jittered (min base (fromMillis policy.maxOpenTimeoutMs)) sequence
  { circuit with
    openTimeout := timeout, openUntil := some (now + timeout), state := .opened, probes := 0, successes := 0 }

/-- `ratio_open` of `finish`. -/
def ratioOpen (policy : FailureConfig) : Bool :=
  let failures := (circuit.samples.filter fun sample => sample.2).length
  let requests := circuit.samples.length
  decide (policy.minimumRequests ≤ requests) &&
    decide (policy.failureRatio ≤ Double.div (Double.ofNat failures) (Double.ofNat requests))

def countFailure : FailureCircuit :=
  { circuit with consecutiveFailures := if failed then circuit.consecutiveFailures + 1 else 0 }

def finishClosed (policy : FailureConfig) (sequence : Nat) : FailureCircuit × Option (CircuitState × CircuitState) :=
  let counted := (circuit.recordSample now failed policy).countFailure failed
  if failed && (decide (policy.consecutiveFailures ≤ counted.consecutiveFailures) || counted.ratioOpen policy) then
    (counted.trip now policy sequence, some (.closed, .opened))
  else (counted, none)

/-- The outcome of a request on a half-open circuit: whose request it is does not matter. -/
def finishHalfOpen (policy : FailureConfig) (sequence : Nat) : FailureCircuit × Option (CircuitState × CircuitState) :=
  if failed then
    ({ circuit with openTimeout := doubledCapped circuit.openTimeout policy }.trip now policy sequence,
      some (.halfOpen, .opened))
  else
    let counted := { circuit with successes := circuit.successes + 1 }
    if policy.halfOpenSuccesses ≤ counted.successes then (counted.close, some (.halfOpen, .closed))
    else (counted, none)

def finish (probe : Bool) (outcome : CircuitOutcome) (now : Nat) (policy : FailureConfig)
    (sequence : Nat) : FailureCircuit × Option (CircuitState × CircuitState) :=
  let circuit := circuit.abandonProbe probe
  if outcome = .neutral then (circuit, none)
  else
    match circuit.state with
    | .closed => circuit.finishClosed (policy.failed outcome) now policy sequence
    | .halfOpen => circuit.finishHalfOpen (policy.failed outcome) now policy sequence
    | .opened => (circuit, none)

/-! ## What the operations do in each state -/

variable {circuit : FailureCircuit} {now sequence : Nat} {policy : FailureConfig} {probe passes : Bool}
  {outcome : CircuitOutcome}

@[simp] theorem abandonProbe_state : (circuit.abandonProbe probe).state = circuit.state := by
  unfold abandonProbe
  split <;> rfl

@[simp] theorem abandonProbe_successes : (circuit.abandonProbe probe).successes = circuit.successes := by
  unfold abandonProbe
  split <;> rfl

@[simp] theorem abandonProbe_openTimeout : (circuit.abandonProbe probe).openTimeout = circuit.openTimeout := by
  unfold abandonProbe
  split <;> rfl

theorem abandonProbe_probes (h : circuit.state = .halfOpen) :
    (circuit.abandonProbe probe).probes = circuit.probes - probe.toNat := by
  cases probe <;> simp [abandonProbe, h]

/-- A request that may pass an open circuit makes it half-open. -/
theorem beginProbe_opened (h : circuit.state = .opened) (ha : circuit.available now policy = .ok passes) :
    (circuit.beginProbe now policy).2 = some (.opened, .halfOpen) ∧
      (circuit.beginProbe now policy).1.state = .halfOpen ∧ (circuit.beginProbe now policy).1.probes = 1 ∧
      (circuit.beginProbe now policy).1.successes = 0 := by
  have ho : ¬ (circuit.openUntil.any fun until_ => until_ - now ≠ 0) = true := by
    simp only [available, h] at ha
    split at ha
    · next hz => cases hu : circuit.openUntil <;> simp_all [remaining]
    · contradiction
  rw [beginProbe, h]
  simp only [if_neg ho, and_self]

/-- A request that may pass a half-open circuit takes one of its probes. -/
theorem beginProbe_halfOpen (h : circuit.state = .halfOpen) (ha : circuit.available now policy = .ok passes) :
    circuit.probes < policy.halfOpenMaxProbes ∧
      circuit.beginProbe now policy = ({ circuit with probes := circuit.probes + 1 }, none) := by
  have hf : circuit.probes < policy.halfOpenMaxProbes := by
    simp only [available, h] at ha
    split at ha
    · assumption
    · contradiction
  refine ⟨hf, ?_⟩
  rw [beginProbe, h]
  simp only [if_pos hf]

theorem finish_opened (h : circuit.state = .opened) :
    (circuit.finish probe outcome now policy sequence).1.state = .opened := by
  unfold finish
  split
  · rw [abandonProbe_state, h]
  · simp [h]

/-- A closed circuit does not become half-open by an outcome. -/
theorem finish_closed (h : circuit.state = .closed) :
    (circuit.finish probe outcome now policy sequence).1.state ≠ .halfOpen := by
  unfold finish
  split
  · simp [h]
  simp only [abandonProbe_state, h, finishClosed]
  split
  · simp [trip]
  · simp [recordSample, countFailure, h]

/-- The three things an outcome can do to a half-open circuit. -/
theorem finish_halfOpen (h : circuit.state = .halfOpen) (ho : outcome ≠ .neutral) :
    (policy.failed outcome = true ∧ (circuit.finish probe outcome now policy sequence).1.state = .opened) ∨
    (policy.failed outcome = false ∧ policy.halfOpenSuccesses ≤ circuit.successes + 1 ∧
      (circuit.finish probe outcome now policy sequence).1.state = .closed) ∨
    (policy.failed outcome = false ∧ circuit.successes + 1 < policy.halfOpenSuccesses ∧
      (circuit.finish probe outcome now policy sequence).1 =
        { circuit.abandonProbe probe with successes := circuit.successes + 1 }) := by
  simp only [finish, if_neg ho, abandonProbe_state, h, finishHalfOpen]
  cases policy.failed outcome with
  | true => exact .inl ⟨rfl, rfl⟩
  | false =>
    simp only [Bool.false_eq_true, if_false, abandonProbe_successes]
    split
    · next hd => exact .inr (.inl ⟨trivial, hd, rfl⟩)
    · next hm => exact .inr (.inr ⟨trivial, not_le.1 hm, rfl⟩)

end FailureCircuit

end CircuitBreakers
