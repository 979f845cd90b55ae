import OxiBelt.CircuitBreakers.HalfOpenPeriods

/-!
# How long a circuit stays open

A circuit that fails a half-open period opens again for twice the time, up to a maximum, and every open period is
jittered.  The doubling starts from the period as it was jittered.  An open period is therefore within its bounds
(`openPeriod_in_bounds`) if the one before it was not shortened, and with the smallest jitter no period ever grows
(`openPeriods_never_grow`).
-/

namespace CircuitBreakers

inductive CircuitCall
  | beginProbe (now : Nat)
  | finish (probe : Bool) (outcome : CircuitOutcome) (now sequence : Nat)
  | abandonProbe (probe : Bool)
  | close

variable (policy : FailureConfig)

def FailureCircuit.after (circuit : FailureCircuit) : CircuitCall → FailureCircuit
  | .beginProbe now => (circuit.beginProbe now policy).1
  | .finish probe outcome now sequence => (circuit.finish probe outcome now policy sequence).1
  | .abandonProbe probe => circuit.abandonProbe probe
  | .close => circuit.close

/-- A circuit with the open periods before the last one since it was closed, the latest first. -/
structure OpenPeriods where
  circuit : FailureCircuit := {}
  earlier : List Nat := []

/-- The list after the circuit has become another. -/
def OpenPeriods.next (s : OpenPeriods) (circuit : FailureCircuit) : OpenPeriods where
  circuit := circuit
  earlier :=
    match s.circuit.state, circuit.state with
    | _, .closed => []
    | .halfOpen, .opened => s.circuit.openTimeout :: s.earlier
    | _, _ => s.earlier

def OpenPeriods.step (s : OpenPeriods) (call : CircuitCall) : OpenPeriods :=
  s.next (s.circuit.after policy call)

/-- The open period after so many failed half-open periods, without jitter. -/
def openTarget (failed : Nat) : Nat :=
  min (fromMillis policy.openTimeoutMs * 2 ^ failed) (fromMillis policy.maxOpenTimeoutMs)

/-- The period in front of the list was made by doubling the latest of the list, and so on down to the policy's. -/
inductive Doubling (policy : FailureConfig) : Nat → List Nat → Prop
  | first (sequence : Nat) : Doubling policy (jittered (openTarget policy 0) sequence) []
  | again {period : Nat} {earlier : List Nat} (sequence : Nat) (h : Doubling policy period earlier) :
      Doubling policy (jittered (doubledCapped period policy) sequence) (period :: earlier)

open FailureCircuit Transition

section Jitter

variable {policy : FailureConfig} {value sequence period : Nat} {earlier : List Nat}

theorem jittered_le : jittered value sequence ≤ value := by
  have hs : sequence % (value / 2 / 1000000 + 1) ≤ value / 2 / 1000000 := Nat.lt_succ_iff.1 (Nat.mod_lt _ (by omega))
  simp only [jittered, fromMillis]
  omega

theorem half_le_jittered : value / 2 ≤ jittered value sequence := Nat.le_add_right _ _

/-- Times in milliseconds have a half. -/
theorem openTarget_even (failed : Nat) : 2 ∣ openTarget policy failed := by
  have hm : ∀ ms, 2 ∣ fromMillis ms := fun ms => ⟨ms * 500000, by unfold fromMillis; omega⟩
  unfold openTarget
  rcases min_choice (fromMillis policy.openTimeoutMs * 2 ^ failed) (fromMillis policy.maxOpenTimeoutMs) with h | h
  · rw [h]
    exact (hm _).mul_right _
  · rw [h]
    exact hm _

/-- Doubling the target and capping it gives the next one. -/
theorem openTarget_succ (failed : Nat) :
    openTarget policy (failed + 1) = doubledCapped (openTarget policy failed) policy := by
  simp only [openTarget, doubledCapped, pow_succ, ← mul_assoc]
  omega

theorem FailureConfig.openTarget_pos (h : policy.validate = .ok ()) (failed : Nat) : 0 < openTarget policy failed := by
  simp only [FailureConfig.validate, RustStd.ensure_bind_eq_ok] at h
  obtain ⟨-, -, -, hd, -⟩ := h
  simp only [Bool.not_eq_true', Bool.or_eq_false_iff, beq_eq_false_iff_ne] at hd
  refine lt_min (Nat.mul_pos ?_ (by positivity)) ?_
  · unfold fromMillis
    omega
  · unfold fromMillis
    omega

theorem Doubling.le_target (h : Doubling policy period earlier) : period ≤ openTarget policy earlier.length := by
  induction h with
  | first sequence => exact jittered_le
  | again sequence h ih =>
    refine jittered_le.trans ?_
    rw [List.length_cons, openTarget_succ]
    unfold doubledCapped
    omega

/-- If the period before was as long as it could be, or long enough for the maximum, then the doubling starts from the
right value. -/
theorem Doubling.target_le (h : Doubling policy period earlier) (hp : ∀ previous ∈ earlier.head?,
      previous = openTarget policy (earlier.length - 1) ∨ fromMillis policy.maxOpenTimeoutMs ≤ 2 * previous) :
    openTarget policy earlier.length ≤ 2 * period := by
  have hh : ∀ value sequence, openTarget policy earlier.length ≤ value →
      openTarget policy earlier.length ≤ 2 * jittered value sequence := by
    intro value sequence hle
    obtain ⟨n, hn⟩ := @openTarget_even policy earlier.length
    have := @half_le_jittered value sequence
    omega
  cases h with
  | first sequence => exact hh _ _ le_rfl
  | @again previous earlier sequence h =>
    refine hh _ _ ?_
    rcases hp previous rfl with heq | hle
    · rw [List.length_cons, openTarget_succ, heq]
      rfl
    · exact (min_le_right _ _).trans (le_min hle le_rfl)

theorem Doubling.pos (hv : policy.validate = .ok ()) (h : Doubling policy period earlier) : 0 < period := by
  have hj : ∀ value sequence, 2 ≤ value → 0 < jittered value sequence := by
    intro value sequence hle
    have := @half_le_jittered value sequence
    omega
  have ht := FailureConfig.openTarget_pos hv 0
  obtain ⟨n, hn⟩ := @openTarget_even policy 0
  induction h with
  | first sequence => exact hj _ _ (by omega)
  | again sequence h ih =>
    refine hj _ _ (le_min (by omega) ?_)
    have := min_le_right (fromMillis policy.openTimeoutMs * 2 ^ 0) (fromMillis policy.maxOpenTimeoutMs)
    unfold openTarget at ht hn
    omega

end Jitter

/-! ## Runs -/

namespace OpenPeriods

/-- The timeout of a circuit that is not closed was made by doubling. -/
def Sound (s : OpenPeriods) : Prop :=
  match s.circuit.state with
  | .closed => s.circuit.openTimeout = 0 ∧ s.earlier = []
  | _ => Doubling policy s.circuit.openTimeout s.earlier

variable {policy : FailureConfig} {s : OpenPeriods} {circuit : FailureCircuit} {now sequence : Nat}

theorem Sound.same (h : s.Sound policy) (hs : circuit.state = s.circuit.state)
    (ht : circuit.openTimeout = s.circuit.openTimeout) : (s.next circuit).Sound policy := by
  unfold Sound OpenPeriods.next at *
  dsimp only
  rw [hs, ht]
  cases hst : s.circuit.state <;> simp_all

theorem Sound.beginProbe (hv : policy.validate = .ok ()) (h : s.Sound policy) :
    (s.next (s.circuit.beginProbe now policy).1).Sound policy := by
  unfold FailureCircuit.beginProbe
  cases hs : s.circuit.state with
  | closed => exact h.same rfl rfl
  | opened =>
    dsimp only
    split
    · exact h.same rfl rfl
    · simp only [Sound, hs] at h
      simp only [Sound, OpenPeriods.next, if_neg (h.pos hv).ne']
      exact h
  | halfOpen =>
    dsimp only
    split
    · exact h.same hs.symm rfl
    · exact h.same rfl rfl

theorem Sound.finish (hv : policy.validate = .ok ()) (h : s.Sound policy) {probe : Bool} {outcome : CircuitOutcome} :
    (s.next (s.circuit.finish probe outcome now policy sequence).1).Sound policy := by
  have hst := @abandonProbe_state s.circuit probe
  have hto := @abandonProbe_openTimeout s.circuit probe
  unfold FailureCircuit.finish
  generalize s.circuit.abandonProbe probe = abandoned at hst hto
  dsimp only
  split
  · exact h.same hst hto
  cases hs : abandoned.state with
  | closed =>
    unfold finishClosed
    dsimp only
    split
    · -- the first period comes from the policy
      simp only [Sound, ← hst, hs] at h
      simp only [Sound, OpenPeriods.next, ← hst, hs, h, trip, countFailure, recordSample, hto, if_true]
      simpa [openTarget] using @Doubling.first policy sequence
    · exact h.same hst hto
  | opened => exact h.same hst hto
  | halfOpen =>
    unfold finishHalfOpen
    dsimp only
    split
    · -- a further one from twice the last
      simp only [Sound, ← hst, hs] at h
      have hp := h.pos hv
      have ht := FailureConfig.openTarget_pos hv 0
      have hz : doubledCapped s.circuit.openTimeout policy ≠ 0 := by
        unfold openTarget at ht
        unfold doubledCapped
        omega
      have hc : min (doubledCapped s.circuit.openTimeout policy) (fromMillis policy.maxOpenTimeoutMs) =
          doubledCapped s.circuit.openTimeout policy := min_eq_left (min_le_right _ _)
      simp only [Sound, OpenPeriods.next, ← hst, hs, trip, hto, if_neg hz, hc]
      exact .again sequence h
    · split
      · exact ⟨rfl, rfl⟩
      · exact h.same hst hto

theorem Sound.run (hv : policy.validate = .ok ()) (calls : List CircuitCall) :
    Sound policy (run (OpenPeriods.step policy) {} calls) := by
  refine run_keeps (I := Sound policy) (s := {}) (fun s call h => ?_) ⟨rfl, rfl⟩ calls
  cases call with
  | beginProbe now => exact h.beginProbe hv
  | finish probe outcome now sequence => exact h.finish hv
  | abandonProbe probe => exact h.same abandonProbe_state abandonProbe_openTimeout
  | close => exact ⟨rfl, rfl⟩

end OpenPeriods

/-- **Bounds of an open period.**  In every run, a circuit that is open after so many failed half-open periods is so for
at most the target of that number, and for at least half of it if the period before was not shortened by its jitter or
is at least half of the maximum. -/
theorem openPeriod_in_bounds (policy : FailureConfig) (hv : policy.validate = .ok ()) (calls : List CircuitCall)
    (hopen : (run (OpenPeriods.step policy) {} calls).circuit.state = .opened) :
    let s := run (OpenPeriods.step policy) {} calls
    s.circuit.openTimeout ≤ openTarget policy s.earlier.length ∧
      ((∀ previous ∈ s.earlier.head?, previous = openTarget policy (s.earlier.length - 1) ∨
          fromMillis policy.maxOpenTimeoutMs ≤ 2 * previous) →
        openTarget policy s.earlier.length ≤ 2 * s.circuit.openTimeout) := by
  have h := OpenPeriods.Sound.run hv calls
  simp only [OpenPeriods.Sound, hopen] at h
  exact ⟨h.le_target, h.target_le⟩

/-- One request opens the circuit, and this many half-open periods fail, with the same sequence number every time. -/
def failedPeriods (sequence failed : Nat) : List CircuitCall :=
  .finish false (.failure .connectError) 0 sequence ::
    (List.range failed).flatMap fun n =>
      [.beginProbe (fromMillis 30000 * (n + 1)),
        .finish true (.failure .connectError) (fromMillis 30000 * (n + 1)) sequence]

/-- The sequence number 500 draws the longest first period. -/
theorem openPeriod_in_bounds_full :
    let s := run (OpenPeriods.step twoProbes) {} (failedPeriods 500 1)
    s.earlier = [fromMillis 1000] ∧ s.circuit.openTimeout ≤ openTarget twoProbes s.earlier.length ∧
      openTarget twoProbes s.earlier.length ≤ 2 * s.circuit.openTimeout :=
  ⟨by decide +kernel,
    (openPeriod_in_bounds twoProbes twoProbes_valid (failedPeriods 500 1) (by decide +kernel)).imp_right
      fun hlower => hlower (by decide +kernel)⟩

/-- With the smallest jitter every time, the doubling only undoes the halving: after three failed half-open periods the
circuit opens for half a second again, where the growth asks for at least four. -/
theorem openPeriods_never_grow :
    let s := run (OpenPeriods.step twoProbes) {} (failedPeriods 0 3)
    twoProbes.validate = .ok () ∧ s.circuit.state = .opened ∧ s.earlier.length = 3 ∧
      s.circuit.openTimeout = fromMillis 500 ∧ openTarget twoProbes 3 = fromMillis 8000 :=
  ⟨twoProbes_valid, by decide +kernel, by decide +kernel, by decide +kernel, by decide +kernel⟩

end CircuitBreakers
