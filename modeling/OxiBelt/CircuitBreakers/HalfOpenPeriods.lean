import OxiBelt.CircuitBreakers.Circuit
import OxiBelt.Lib.Tally
import OxiBelt.Lib.Transition

/-!
# Half-open periods of a circuit

One circuit under a fixed policy, with the requests that pass it.  A request that is admitted gets a lease; the lease
records for the account kept here, and not in the source, in which half-open period it was granted.  A lease ends with
an outcome, at any time and in any order.

The circuit itself does not know the period of a lease.  A probe of an earlier period that ends in a later one gives
back a probe that it does not hold (`probes_of_stale_release`), and any outcome that arrives in a half-open period
counts (`stale_failure_opens`).  As long as neither happens, the number of probes in flight is bounded
(`probes_bounded`), and only the probes of the period decide how it ends (`period_ends_by_probes`).
-/

namespace CircuitBreakers

/-- The part of an `AdmissionLease` that concerns one circuit, with the number of the half-open period at its grant. -/
structure CircuitLease where
  probe : Bool
  period : Nat
  deriving DecidableEq

/-- A circuit, the leases in flight, and the account of half-open periods: how many there were, and how many
successful outcomes of its own probes the last one has had. -/
structure CircuitWorld where
  circuit : FailureCircuit := {}
  leases : List CircuitLease := []
  period : Nat := 0
  probeSuccesses : Nat := 0

inductive CircuitEvent
  | admission (now : Nat)
  | release (index : Nat) (outcome : CircuitOutcome) (now sequence : Nat)

namespace CircuitWorld

variable (policy : FailureConfig) (world : CircuitWorld)

def IsProbe (lease : CircuitLease) : Prop := lease.probe = true ∧ lease.period = world.period

instance (world : CircuitWorld) (lease : CircuitLease) : Decidable (world.IsProbe lease) :=
  inferInstanceAs (Decidable (_ ∧ _))

/-- `circuit_admission` for the one circuit: a request is a probe if it found the circuit half-open or made it so. -/
def admission (now : Nat) : CircuitWorld :=
  match world.circuit.available now policy with
  | .error _ => world
  | .ok _ =>
    let begun := world.circuit.beginProbe now policy
    let period := if begun.2.isSome then world.period + 1 else world.period
    { circuit := begun.1
      leases := world.leases ++ [⟨begun.2.isSome || begun.1.state == .halfOpen, period⟩]
      period := period
      probeSuccesses := if begun.2.isSome then 0 else world.probeSuccesses }

/-- `abandon_circuits` and `finish_circuits` for the one circuit. -/
def settle (circuit : FailureCircuit) (probe : Bool) (outcome : CircuitOutcome) (now sequence : Nat) : FailureCircuit :=
  if outcome = .neutral then circuit.abandonProbe probe else (circuit.finish probe outcome now policy sequence).1

/-- `release` for the one circuit. -/
def release (index : Nat) (outcome : CircuitOutcome) (now sequence : Nat) : CircuitWorld :=
  match world.leases[index]? with
  | none => world
  | some lease =>
    { world with
      circuit := settle policy world.circuit lease.probe outcome now sequence
      leases := world.leases.eraseIdx index
      probeSuccesses :=
        if world.circuit.state = .halfOpen ∧ world.IsProbe lease ∧ outcome ≠ .neutral ∧ policy.failed outcome = false
        then world.probeSuccesses + 1 else world.probeSuccesses }

def step : CircuitEvent → CircuitWorld
  | .admission now => world.admission policy now
  | .release index outcome now sequence => world.release policy index outcome now sequence

def probesOf (leases : List CircuitLease) (period : Nat) : Nat :=
  leases.countP fun lease => lease.probe && lease.period == period

def inFlight (period : Nat) : Nat := probesOf world.leases period

open FailureCircuit

variable {policy : FailureConfig} {world : CircuitWorld} {now sequence index period : Nat} {outcome : CircuitOutcome}
  {lease : CircuitLease} {event : CircuitEvent}

/-! ## What an admission can do -/

/-- The outcomes of an admission: refused, let through by a closed circuit, the first probe of a new period, or one
more probe of the period. -/
inductive Admission (policy : FailureConfig) (world : CircuitWorld) : CircuitWorld → Prop
  | refused : Admission policy world world
  | plain (hstate : world.circuit.state = .closed) :
      Admission policy world { world with leases := world.leases ++ [⟨false, world.period⟩] }
  | first (circuit : FailureCircuit) (hstate : world.circuit.state = .opened) (hnew : circuit.state = .halfOpen)
      (hprobes : circuit.probes = 1) (hsuccesses : circuit.successes = 0) :
      Admission policy world
        { circuit := circuit
          leases := world.leases ++ [⟨true, world.period + 1⟩]
          period := world.period + 1
          probeSuccesses := 0 }
  | further (circuit : FailureCircuit) (hstate : world.circuit.state = .halfOpen)
      (hfree : world.circuit.probes < policy.halfOpenMaxProbes) (hnew : circuit.state = .halfOpen)
      (hprobes : circuit.probes = world.circuit.probes + 1) (hsuccesses : circuit.successes = world.circuit.successes) :
      Admission policy world
        { world with circuit := circuit, leases := world.leases ++ [⟨true, world.period⟩] }

theorem admission_cases (policy : FailureConfig) (world : CircuitWorld) (now : Nat) :
    Admission policy world (world.admission policy now) := by
  unfold admission
  cases ha : world.circuit.available now policy with
  | error wait => exact .refused
  | ok passes =>
    cases hs : world.circuit.state with
    | closed =>
      simp only [beginProbe, hs, Option.isSome_none, Bool.false_eq_true, if_false]
      exact .plain hs
    | opened =>
      obtain ⟨hm, hn, hp, hsc⟩ := beginProbe_opened hs ha
      simp only [hm, Option.isSome_some, if_true, Bool.true_or]
      exact .first _ hs hn hp hsc
    | halfOpen =>
      obtain ⟨hf, hb⟩ := beginProbe_halfOpen hs ha
      simp only [hb, hs, Option.isSome_none, Bool.false_eq_true, if_false]
      exact .further _ hs hf rfl rfl rfl

/-- A circuit that is half-open after an outcome was so before, and a probe was given back. -/
theorem settle_halfOpen {circuit : FailureCircuit} {probe : Bool}
    (h : (settle policy circuit probe outcome now sequence).state = .halfOpen) :
    circuit.state = .halfOpen ∧
      (settle policy circuit probe outcome now sequence).probes = circuit.probes - probe.toNat := by
  unfold settle at h ⊢
  split at h
  · next hn =>
    rw [abandonProbe_state] at h
    rw [if_pos hn]
    exact ⟨h, abandonProbe_probes h⟩
  next ho =>
  rw [if_neg ho]
  cases hs : circuit.state with
  | closed => exact absurd h (finish_closed hs)
  | opened => exact absurd h (by simp [finish_opened hs])
  | halfOpen =>
    obtain ⟨-, hop⟩ | ⟨-, -, hc⟩ | ⟨-, -, hm⟩ := @finish_halfOpen circuit now sequence policy probe outcome hs ho
    · exact absurd h (by simp [hop])
    · exact absurd h (by simp [hc])
    · rw [hm]
      exact ⟨rfl, abandonProbe_probes hs⟩

/-! ## The number of probes in flight -/

theorem probesOf_append (leases : List CircuitLease) (new : CircuitLease) (period : Nat) :
    probesOf (leases ++ [new]) period = probesOf leases period + (new.probe && new.period == period).toNat :=
  Tally.countP_concat _ leases new

theorem probesOf_append_probe (leases : List CircuitLease) (period : Nat) :
    probesOf (leases ++ [⟨true, period⟩]) period = probesOf leases period + 1 := by
  rw [probesOf_append]
  simp

theorem probesOf_append_le {leases : List CircuitLease} {limit : Nat} (hb : ∀ period, probesOf leases period ≤ limit)
    (hf : probesOf leases period < limit) (other : Nat) : probesOf (leases ++ [⟨true, period⟩]) other ≤ limit := by
  by_cases hp : period = other
  · subst hp
    rw [probesOf_append_probe]
    exact hf
  · rw [probesOf_append, beq_false_of_ne hp]
    exact hb other

theorem probesOf_eraseIdx {leases : List CircuitLease} (h : leases[index]? = some lease) (period : Nat) :
    probesOf (leases.eraseIdx index) period + (lease.probe && lease.period == period).toNat =
      probesOf leases period :=
  Tally.countP_eraseIdx_add _ h

/-- A probe lease that ends while the circuit is half-open is one of that period. -/
def ProbesEndInPeriod (world : CircuitWorld) : CircuitEvent → Prop
  | .admission _ => True
  | .release index _ _ _ =>
    ∀ lease ∈ world.leases[index]?, lease.probe = true → world.circuit.state = .halfOpen → lease.period = world.period

instance (world : CircuitWorld) : ∀ event, Decidable (world.ProbesEndInPeriod event)
  | .admission _ => isTrue trivial
  | .release index _ _ _ => inferInstanceAs (Decidable (∀ lease ∈ world.leases[index]?,
      lease.probe = true → world.circuit.state = .halfOpen → lease.period = world.period))

/-- The counter of a half-open circuit is the number of probes of the period. -/
structure Accounted (policy : FailureConfig) (world : CircuitWorld) : Prop where
  past : ∀ lease ∈ world.leases, lease.period ≤ world.period
  bounded : ∀ period, world.inFlight period ≤ policy.halfOpenMaxProbes
  exact : world.circuit.state = .halfOpen → world.circuit.probes = world.inFlight world.period

theorem inFlight_of_later (hp : ∀ lease ∈ world.leases, lease.period ≤ world.period)
    (h : world.period < period) : world.inFlight period = 0 := by
  refine List.countP_eq_zero.2 fun lease hl => ?_
  have hle := hp lease hl
  have hne : lease.period ≠ period := by omega
  simp [hne]

theorem past_append (hp : ∀ lease ∈ world.leases, lease.period ≤ world.period) (hle : world.period ≤ period)
    (probe : Bool) : ∀ lease ∈ world.leases ++ [⟨probe, period⟩], lease.period ≤ period := by
  intro lease hl
  obtain ho | hn := List.mem_append.1 hl
  · exact (hp lease ho).trans hle
  · rw [List.mem_singleton.1 hn]

theorem Accounted.admission (hps : 0 < policy.halfOpenMaxProbes) (h : Accounted policy world) :
    Accounted policy (world.admission policy now) := by
  have hc := admission_cases policy world now
  generalize world.admission policy now = after at hc
  cases hc with
  | refused => exact h
  | plain hs =>
    refine ⟨past_append h.past le_rfl false, fun period => ?_, fun hh => ?_⟩
    · rw [inFlight, probesOf_append]
      exact h.bounded period
    · rw [hs] at hh
      contradiction
  | first circuit hs hnw hpr hsc =>
    have hn := inFlight_of_later h.past (Nat.lt_succ_self world.period)
    -- the new period starts with one probe, the others keep theirs
    refine ⟨past_append h.past (Nat.le_succ _) true, probesOf_append_le h.bounded (hn.trans_lt hps), fun _ => ?_⟩
    rw [inFlight, probesOf_append_probe, ← inFlight, hn, hpr]
  | further circuit hs hf hnw hpr hsc =>
    have he := h.exact hs
    refine ⟨past_append h.past le_rfl true, probesOf_append_le h.bounded (he.symm.trans_lt hf), fun _ => ?_⟩
    rw [inFlight, probesOf_append_probe, ← inFlight, ← he, hpr]

theorem Accounted.release (ha : ProbesEndInPeriod world (.release index outcome now sequence))
    (h : Accounted policy world) : Accounted policy (world.release policy index outcome now sequence) := by
  cases hl : world.leases[index]? with
  | none =>
    simp only [CircuitWorld.release, hl]
    exact h
  | some lease =>
    simp only [CircuitWorld.release, hl]
    refine ⟨fun other ho => ?_, fun period => ?_, fun hh => ?_⟩
    · exact h.past other (List.mem_of_mem_eraseIdx ho)
    · exact (Nat.le_of_add_right_le (probesOf_eraseIdx hl period).le).trans (h.bounded period)
    obtain ⟨hs, hp⟩ := settle_halfOpen hh
    have hc := probesOf_eraseIdx hl world.period
    have how : (lease.probe && lease.period == world.period) = lease.probe := by
      cases hpr : lease.probe with
      | false => rfl
      | true => simp [ha lease hl hpr hs]
    rw [how, ← inFlight, ← h.exact hs] at hc
    show (settle policy world.circuit lease.probe outcome now sequence).probes = _
    rw [hp]
    exact Nat.sub_eq_of_eq_add hc.symm

theorem Accounted.step (hp : 0 < policy.halfOpenMaxProbes) (h : Accounted policy world)
    (ha : ProbesEndInPeriod world event) : Accounted policy (world.step policy event) := by
  cases event with
  | admission now => exact h.admission hp
  | release index outcome now sequence => exact h.release ha

theorem Accounted.start (policy : FailureConfig) : Accounted policy {} :=
  ⟨by simp, fun period => Nat.zero_le _, by simp⟩

/-! ## How a half-open period ends -/

/-- An outcome that counts and arrives while the circuit is half-open is that of a probe of the period. -/
def OutcomesOfProbes (world : CircuitWorld) : CircuitEvent → Prop
  | .admission _ => True
  | .release index outcome _ _ =>
    ∀ lease ∈ world.leases[index]?, outcome ≠ .neutral → world.circuit.state = .halfOpen → world.IsProbe lease

instance (world : CircuitWorld) : ∀ event, Decidable (world.OutcomesOfProbes event)
  | .admission _ => isTrue trivial
  | .release index outcome _ _ => inferInstanceAs (Decidable (∀ lease ∈ world.leases[index]?,
      outcome ≠ .neutral → world.circuit.state = .halfOpen → world.IsProbe lease))

/-- The successes that a half-open circuit has counted are those of its probes. -/
def Counted (world : CircuitWorld) : Prop :=
  world.circuit.state = .halfOpen → world.circuit.successes = world.probeSuccesses

theorem Counted.admission (h : Counted world) : Counted (world.admission policy now) := by
  have hc := admission_cases policy world now
  generalize world.admission policy now = after at hc
  cases hc with
  | refused => exact h
  | plain hst => exact h
  | first circuit hst hn hp hs => exact fun _ => hs
  | further circuit hst hf hn hp hs => exact fun _ => hs.trans (h hst)

theorem Counted.release (ha : OutcomesOfProbes world (.release index outcome now sequence))
    (h : Counted world) : Counted (world.release policy index outcome now sequence) := by
  cases hl : world.leases[index]? with
  | none =>
    simp only [CircuitWorld.release, hl]
    exact h
  | some lease =>
    simp only [CircuitWorld.release, hl]
    intro hh
    obtain ⟨hs, -⟩ := settle_halfOpen hh
    have hc := h hs
    simp only [settle] at hh ⊢
    by_cases ho : outcome = .neutral
    · simp [ho, hc]
    have hp := ha lease hl ho hs
    rw [if_neg ho] at hh ⊢
    obtain ⟨-, hop⟩ | ⟨-, -, hcl⟩ | ⟨hf, -, hm⟩ :=
      @finish_halfOpen world.circuit now sequence policy lease.probe outcome hs ho
    · rw [hop] at hh
      contradiction
    · rw [hcl] at hh
      contradiction
    · rw [if_pos ⟨hs, hp, ho, hf⟩, hm, ← hc]

theorem Counted.step (h : Counted world) (ha : OutcomesOfProbes world event) : Counted (world.step policy event) := by
  cases event with
  | admission now => exact h.admission
  | release index outcome now sequence => exact h.release ha

theorem admission_state (h : world.circuit.state = .halfOpen) :
    (world.admission policy now).circuit.state = .halfOpen := by
  have hc := admission_cases policy world now
  generalize world.admission policy now = after at hc
  cases hc with
  | refused => exact h
  | plain hst => exact h
  | first _ _ hn | further _ _ _ hn => exact hn

/-- The ends of a half-open period: a failed outcome of a probe opens the circuit again, and the last of the required
successful outcomes of probes closes it. -/
inductive Ends (policy : FailureConfig) (world : CircuitWorld) : CircuitEvent → CircuitState → Prop
  | reopens (index : Nat) (outcome : CircuitOutcome) (now sequence : Nat) (lease : CircuitLease)
      (hlease : world.leases[index]? = some lease) (hprobe : world.IsProbe lease)
      (hfailed : policy.failed outcome = true) :
      Ends policy world (.release index outcome now sequence) .opened
  | closes (index : Nat) (outcome : CircuitOutcome) (now sequence : Nat) (lease : CircuitLease)
      (hlease : world.leases[index]? = some lease) (hprobe : world.IsProbe lease) (houtcome : outcome ≠ .neutral)
      (hsuccess : policy.failed outcome = false) (henough : policy.halfOpenSuccesses ≤ world.probeSuccesses + 1) :
      Ends policy world (.release index outcome now sequence) .closed

theorem Counted.ends (h : Counted world) (ha : OutcomesOfProbes world event) (hs : world.circuit.state = .halfOpen) :
    (world.step policy event).circuit.state = .halfOpen ∨
      Ends policy world event (world.step policy event).circuit.state := by
  cases event with
  | admission now => exact .inl (admission_state hs)
  | release index outcome now sequence =>
    cases hl : world.leases[index]? with
    | none =>
      simp only [CircuitWorld.step, CircuitWorld.release, hl]
      exact .inl hs
    | some lease =>
      simp only [CircuitWorld.step, CircuitWorld.release, hl, settle]
      by_cases ho : outcome = .neutral
      · rw [if_pos ho, abandonProbe_state]
        exact .inl hs
      rw [if_neg ho]
      have hp := ha lease hl ho hs
      obtain ⟨hf, hop⟩ | ⟨hsc, he, hc⟩ | ⟨-, -, hm⟩ :=
        @finish_halfOpen world.circuit now sequence policy lease.probe outcome hs ho
      · rw [hop]
        exact .inr (.reopens index outcome now sequence lease hl hp hf)
      · rw [hc]
        rw [h hs] at he
        exact .inr (.closes index outcome now sequence lease hl hp ho hsc he)
      · rw [hm]
        exact .inl ((abandonProbe_state).trans hs)

theorem release_opened (h : world.circuit.state = .opened) :
    (world.release policy index outcome now sequence).circuit.state = .opened := by
  cases hl : world.leases[index]? with
  | none => simp only [release, hl, h]
  | some lease =>
    simp only [release, hl]
    show (settle policy world.circuit lease.probe outcome now sequence).state = .opened
    unfold settle
    split
    · rw [abandonProbe_state, h]
    · exact finish_opened h

end CircuitWorld

open CircuitWorld Transition

/-- **Probes are bounded.**  In every run of admissions and releases in which no probe of an earlier half-open period
ends while the circuit is half-open again, no half-open period has more probes in flight than the policy allows. -/
theorem probes_bounded (policy : FailureConfig) (hvalid : policy.validate = .ok ()) (events : List CircuitEvent)
    (hevents : Along (CircuitWorld.step policy) ProbesEndInPeriod {} events) (period : Nat) :
    (run (CircuitWorld.step policy) {} events).inFlight period ≤ policy.halfOpenMaxProbes := by
  have hp := FailureConfig.halfOpenMaxProbes_pos hvalid
  exact (run_invariant (fun _ _ h ha => Accounted.step hp h ha) (Accounted.start policy)
    hevents).bounded period

/-- A policy that opens at the first failed connection and lets two probes through. -/
def twoProbes : FailureConfig where
  enabled := true
  on := [.connectError]
  consecutiveFailures := 1
  minimumRequests := 20
  failureRatio := 1 / 2
  windowMs := 10000
  openTimeoutMs := 1000
  maxOpenTimeoutMs := 30000
  halfOpenMaxProbes := 2
  halfOpenSuccesses := 2

theorem twoProbes_valid : twoProbes.validate = .ok () := by
  simp only [FailureConfig.validate, RustStd.ensure_bind_eq_ok]
  norm_num [twoProbes]
  rfl

/-- One request opens the circuit; after its timeout there are two probes, of which one fails. -/
def failedProbe : List CircuitEvent :=
  [.admission 0, .release 0 (.failure .connectError) 0 1, .admission (fromMillis 1000), .admission (fromMillis 1000),
    .release 0 (.failure .connectError) (fromMillis 1000) 2]

theorem probes_bounded_failedProbe :
    twoProbes.validate = .ok () ∧ (run (CircuitWorld.step twoProbes) {} failedProbe).inFlight 1 = 1 ∧
      (run (CircuitWorld.step twoProbes) {} failedProbe).inFlight 1 ≤ twoProbes.halfOpenMaxProbes :=
  ⟨twoProbes_valid, by decide +kernel, probes_bounded twoProbes twoProbes_valid failedProbe (by decide +kernel) 1⟩

/-- The other probe is still in flight when the second half-open period begins with two more probes.  Its release frees
a place that it does not hold, and a third probe of the period is let through. -/
theorem probes_of_stale_release : twoProbes.validate = .ok () ∧ twoProbes.halfOpenMaxProbes = 2 ∧
      (run (CircuitWorld.step twoProbes) {}
        (failedProbe ++ [.admission (fromMillis 3000), .admission (fromMillis 3000),
          .release 0 .neutral (fromMillis 3000) 3, .admission (fromMillis 3000)])).inFlight 2 = 3 := by
  refine ⟨twoProbes_valid, rfl, ?_⟩
  decide +kernel

/-- **A half-open period is ended by its probes.**  In every run in which the outcomes that arrive in half-open periods
are those of the probes of the period, a step from a half-open circuit leaves it half-open, opens it because a probe of
the period failed, or closes it after the required number of successful probes of the period; and the release of any
other lease leaves an open or half-open circuit as it is. -/
theorem period_ends_by_probes (policy : FailureConfig) (events : List CircuitEvent) (event : CircuitEvent)
    (hevents : Along (CircuitWorld.step policy) OutcomesOfProbes {} (events ++ [event])) :
    let world := run (CircuitWorld.step policy) {} events
    let after := (world.step policy event).circuit.state
    (world.circuit.state = .halfOpen → after = .halfOpen ∨ Ends policy world event after) ∧
      (∀ index outcome now sequence lease, event = .release index outcome now sequence →
        world.leases[index]? = some lease → ¬ world.IsProbe lease → world.circuit.state ≠ .closed →
          after = world.circuit.state) := by
  intro world after
  obtain ⟨hb, ha⟩ := along_append.1 hevents
  have hc : Counted world := run_invariant (fun _ _ h ha => Counted.step h ha) (fun _ => rfl) hb
  have he : world.circuit.state = .halfOpen → after = .halfOpen ∨ Ends policy world event after := hc.ends ha.1
  refine ⟨he, ?_⟩
  rintro index outcome now sequence lease rfl hl hp hcl
  cases hs : world.circuit.state with
  | closed => exact absurd hs hcl
  | opened => exact release_opened hs
  | halfOpen =>
    -- a release of this lease would have to be neutral
    obtain hh | hen := he hs
    · exact hh
    · clear_value after
      cases hen with
      | reopens _ _ _ _ _ ho hpr | closes _ _ _ _ _ ho hpr => exact absurd (Option.some.inj (ho.symm.trans hl) ▸ hpr) hp

/-- A circuit that was opened by one of three requests, and is probed while the other two are in flight. -/
def lateOutcomes : List CircuitEvent :=
  [.admission 0, .admission 0, .admission 0, .release 0 (.failure .connectError) 0 1, .admission (fromMillis 1000)]

theorem period_ends_by_probes_lateOutcomes :
    (run (CircuitWorld.step twoProbes) {} lateOutcomes).circuit.state = .halfOpen ∧
      Ends twoProbes (run (CircuitWorld.step twoProbes) {} lateOutcomes)
        (.release 2 (.failure .connectError) (fromMillis 1000) 2) .opened := by
  refine (and_iff_left_of_imp fun hs => ?_).2 (by decide +kernel)
  have he := (period_ends_by_probes twoProbes lateOutcomes
    (.release 2 (.failure .connectError) (fromMillis 1000) 2) (by decide +kernel)).1 hs
  convert he.resolve_left (by decide +kernel) using 1
  decide +kernel

/-- The failure of a request that was admitted before the circuit opened opens it again, and two such requests that
succeed close it while the only probe is in flight. -/
theorem stale_failure_opens : (run (CircuitWorld.step twoProbes) {} lateOutcomes).circuit.state = .halfOpen ∧
      (run (CircuitWorld.step twoProbes) {} lateOutcomes).leases =
        [⟨false, 0⟩, ⟨false, 0⟩, ⟨true, 1⟩] ∧
      (run (CircuitWorld.step twoProbes) {}
        (lateOutcomes ++ [.release 0 (.failure .connectError) (fromMillis 1000) 2])).circuit.state = .opened ∧
      (run (CircuitWorld.step twoProbes) {}
        (lateOutcomes ++
          [.release 0 .success (fromMillis 1000) 2, .release 0 .success (fromMillis 1000) 3])).circuit.state =
            .closed := by
  refine ⟨?_, ?_, ?_, ?_⟩ <;> decide +kernel

end CircuitBreakers
