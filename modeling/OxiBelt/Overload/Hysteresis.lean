import OxiBelt.Lib.Transition

/-!
# The state of the overload manager (`overload.rs`)

Samples of the process move the manager between three states.  Two counters keep it from going to and fro: one of
samples with a soft signal, which is the way from normal to soft, and one of samples below the recovery thresholds,
which is the way back.

A hard signal does not set back the counter of recovery, and a failed probe sets back neither.  A run in which that
never matters obeys the law of the counters (`counted_in_a_row`); otherwise samples from before a hard signal count
towards the recovery from it (`recovers_too_early`), and soft signals from before an outage towards the next one.

What a sample shows is a parameter.  Counters of the source saturate, but they are set back when they reach their
bound.
-/

namespace Overload

open Transition

inductive OverloadState
  | normal
  | soft
  | hard
  deriving DecidableEq

/-- The configuration, with `threshold_signal(..).is_some()` and `below_recovery_thresholds` for it. -/
structure OverloadConfig (Sample : Type) where
  (softEnterSamples recoverySamples signalStaleTimeout : Nat)
  thresholdSignal : Sample → Bool → Bool
  belowRecoveryThresholds : Sample → Bool

structure OverloadRuntime where
  state : OverloadState := .normal
  softSamples : Nat := 0
  recoverySamples : Nat := 0
  probeFailureSince : Option Nat := none

inductive Probe (Sample : Type)
  | sample (sample : Sample)
  | failure (now : Nat)

variable {Sample : Type} (config : OverloadConfig Sample)

namespace OverloadRuntime

variable (runtime : OverloadRuntime)

def recordProbeFailure (now : Nat) : OverloadRuntime :=
  let firstFailure := runtime.probeFailureSince.getD now
  { runtime with
    probeFailureSince := some firstFailure
    state := if config.signalStaleTimeout ≤ now - firstFailure then .hard else runtime.state }

def applyPressureSample (sample : Sample) : OverloadRuntime :=
  if config.thresholdSignal sample true then { runtime with softSamples := 0, state := .hard }
  else
    match runtime.state, config.thresholdSignal sample false with
    | .normal, true =>
      if config.softEnterSamples ≤ runtime.softSamples + 1 then
        { runtime with softSamples := 0, recoverySamples := 0, state := .soft }
      else { runtime with softSamples := runtime.softSamples + 1 }
    | .normal, false => { runtime with softSamples := 0 }
    | _, true => { runtime with recoverySamples := 0 }
    | state, false =>
      if config.belowRecoveryThresholds sample then
        if config.recoverySamples ≤ runtime.recoverySamples + 1 then
          { runtime with recoverySamples := 0, state := if state = .hard then .soft else .normal }
        else { runtime with recoverySamples := runtime.recoverySamples + 1 }
      else { runtime with recoverySamples := 0 }

/-- `sample`, for an enabled manager; a sample ends the time of failed probes. -/
def step : Probe Sample → OverloadRuntime
  | .sample sample => { runtime with probeFailureSince := none }.applyPressureSample config sample
  | .failure now => runtime.recordProbeFailure config now

end OverloadRuntime

/-! ## The recent past -/

/-- A run with its past: each probe with the state in which it was made, the latest first. -/
structure Recorded (Sample : Type) where
  runtime : OverloadRuntime := {}
  past : List (OverloadState × Probe Sample) := []

def Recorded.step (run : Recorded Sample) (probe : Probe Sample) : Recorded Sample where
  runtime := run.runtime.step config probe
  past := (run.runtime.state, probe) :: run.past

/-- A sample below the recovery thresholds without a signal. -/
def isRecovering : Probe Sample → Bool
  | .sample sample => !config.thresholdSignal sample true && !config.thresholdSignal sample false &&
      config.belowRecoveryThresholds sample
  | .failure _ => false

def isSoft : Probe Sample → Bool
  | .sample sample => !config.thresholdSignal sample true && config.thresholdSignal sample false
  | .failure _ => false

def isSample : Probe Sample → Bool
  | .sample _ => true
  | .failure _ => false

def recoveringInARow (state : OverloadState) (past : List (OverloadState × Probe Sample)) : Nat :=
  (past.takeWhile fun x => x.1 == state && isRecovering config x.2).length

/-- How many of the latest samples in a row had a soft signal; probes that failed are no samples. -/
def softInARow (past : List (OverloadState × Probe Sample)) : Nat :=
  ((past.filter fun x => isSample x.2).takeWhile fun x => isSoft config x.2).length

/-- No count is interrupted: while recovery is counted no hard signal comes and no probe fails, and while soft signals
are counted the first of the failed probes does not become stale. -/
def Uninterrupted (run : Recorded Sample) : Probe Sample → Prop
  | .sample sample => config.thresholdSignal sample true = true → run.runtime.recoverySamples = 0
  | .failure now => run.runtime.recoverySamples = 0 ∧
      (config.signalStaleTimeout ≤ now - run.runtime.probeFailureSince.getD now → run.runtime.softSamples = 0)

/-- The counters count what has come in a row, and each of them only in its states. -/
structure Counted (run : Recorded Sample) : Prop where
  recovery : run.runtime.recoverySamples ≤ recoveringInARow config run.runtime.state run.past
  soft : run.runtime.softSamples ≤ softInARow config run.past
  idle : run.runtime.state ≠ .normal → run.runtime.softSamples = 0
  calm : run.runtime.state = .normal → run.runtime.recoverySamples = 0

/-- What a change to a milder state takes, and the change from normal to soft. -/
structure Earned (run next : Recorded Sample) : Prop where
  recovery : run.runtime.state = .hard ∧ next.runtime.state = .soft ∨
      run.runtime.state = .soft ∧ next.runtime.state = .normal →
    config.recoverySamples ≤ recoveringInARow config run.runtime.state next.past
  soft : run.runtime.state = .normal ∧ next.runtime.state = .soft →
    config.softEnterSamples ≤ softInARow config next.past

section Steps

variable {config} {run : Recorded Sample}

theorem Earned.of_hard {next : Recorded Sample} (h : next.runtime.state = .hard) : Earned config run next where
  recovery := by rintro (⟨-, hn⟩ | ⟨-, hn⟩) <;> cases h.symm.trans hn
  soft := by rintro ⟨-, hn⟩; cases h.symm.trans hn

theorem Earned.of_same {next : Recorded Sample} (h : next.runtime.state = run.runtime.state) :
    Earned config run next where
  recovery := by rintro (⟨hr, hn⟩ | ⟨hr, hn⟩) <;> cases hr.symm.trans (h.symm.trans hn)
  soft := by rintro ⟨hr, hn⟩; cases hr.symm.trans (h.symm.trans hn)

/-- A failed probe changes the state only to hard. -/
theorem Counted.failure (h : Counted config run) {now : Nat} (hu : Uninterrupted config run (.failure now)) :
    Counted config (run.step config (.failure now)) ∧ Earned config run (run.step config (.failure now)) := by
  obtain ⟨⟨state, soft, recovery, since⟩, past⟩ := run
  obtain ⟨rfl, hstale⟩ := hu
  have hp : softInARow config ((state, .failure now) :: past) = softInARow config past := by
    simp [softInARow, isSample]
  simp only [Recorded.step, OverloadRuntime.step, OverloadRuntime.recordProbeFailure]
  split
  · next hs =>
    refine ⟨{ recovery := Nat.zero_le _, soft := ?_, idle := fun _ => hstale hs, calm := nofun }, .of_hard rfl⟩
    exact (hstale hs).trans_le (Nat.zero_le _)
  · refine ⟨{ recovery := Nat.zero_le _, soft := ?_, idle := h.idle, calm := fun _ => rfl }, .of_same rfl⟩
    exact hp ▸ h.soft

/-- Each branch of a sample sets a counter to what the past has, or back to zero. -/
theorem Counted.sample (h : Counted config run) {sample : Sample} (hu : Uninterrupted config run (.sample sample)) :
    Counted config (run.step config (.sample sample)) ∧ Earned config run (run.step config (.sample sample)) := by
  obtain ⟨⟨state, soft, recovery, since⟩, past⟩ := run
  by_cases hh : config.thresholdSignal sample true = true
  · obtain rfl : recovery = 0 := hu hh
    simp only [Recorded.step, OverloadRuntime.step, OverloadRuntime.applyPressureSample, if_pos hh]
    exact ⟨{ recovery := Nat.zero_le _, soft := Nat.zero_le _, idle := fun _ => rfl, calm := nofun }, .of_hard rfl⟩
  have hp (h : isRecovering config (.sample sample) = true) :
      recoveringInARow config state ((state, .sample sample) :: past) = recoveringInARow config state past + 1 := by
    simp [recoveringInARow, h]
  have hq (h : isSoft config (.sample sample) = true) :
      softInARow config ((state, .sample sample) :: past) = softInARow config past + 1 := by
    simp [softInARow, isSample, h]
  simp only [Recorded.step, OverloadRuntime.step, OverloadRuntime.applyPressureSample, if_neg hh]
  split
  · next ht =>
    -- in the normal state a soft signal is counted
    obtain rfl : recovery = 0 := h.calm rfl
    have hsoft : soft + 1 ≤ softInARow config ((.normal, .sample sample) :: past) :=
      hq (by simp [isSoft, hh, ht]) ▸ Nat.succ_le_succ h.soft
    split
    · next he =>
      refine ⟨{ recovery := Nat.zero_le _, soft := Nat.zero_le _, idle := fun _ => rfl, calm := nofun }, ?_, ?_⟩
      · rintro (⟨hr, -⟩ | ⟨hr, -⟩) <;> cases hr
      · exact fun _ => he.trans hsoft
    · exact ⟨{ recovery := Nat.zero_le _, soft := hsoft, idle := (absurd rfl ·), calm := fun _ => rfl }, .of_same rfl⟩
  · obtain rfl : recovery = 0 := h.calm rfl
    exact ⟨{ recovery := Nat.zero_le _, soft := Nat.zero_le _, idle := fun _ => rfl, calm := fun _ => rfl },
      .of_same rfl⟩
  · -- in the others it sets recovery back
    next hn _ =>
    have hidle : soft = 0 := h.idle hn
    exact ⟨{ recovery := Nat.zero_le _, soft := hidle.trans_le (Nat.zero_le _), idle := h.idle, calm := (absurd · hn) },
      .of_same rfl⟩
  · next state _ _ hn ht =>
    have hidle : soft = 0 := h.idle hn
    have hsoft : soft ≤ softInARow config ((state, .sample sample) :: past) := hidle.trans_le (Nat.zero_le _)
    split
    · next hb =>
      have hrecovery : recovery + 1 ≤ recoveringInARow config state ((state, .sample sample) :: past) :=
        hp (by simp [isRecovering, hh, ht, hb]) ▸ Nat.succ_le_succ h.recovery
      split
      · next he =>
        refine ⟨{ recovery := Nat.zero_le _, soft := hsoft, idle := fun _ => hidle, calm := fun _ => rfl }, ?_, ?_⟩
        · exact fun _ => he.trans hrecovery
        · exact fun hs => absurd hs.1 hn
      · exact ⟨{ recovery := hrecovery, soft := hsoft, idle := h.idle, calm := (absurd · hn) }, .of_same rfl⟩
    · exact ⟨{ recovery := Nat.zero_le _, soft := hsoft, idle := h.idle, calm := (absurd · hn) }, .of_same rfl⟩

theorem Counted.step (h : Counted config run) {probe : Probe Sample} (hu : Uninterrupted config run probe) :
    Counted config (run.step config probe) ∧ Earned config run (run.step config probe) := by
  cases probe with
  | sample sample => exact h.sample hu
  | failure now => exact h.failure hu

end Steps

/-- A run in which no count is interrupted leaves hard for soft, and soft for normal, only right after enough
recovering samples in a row in the state it leaves, and enters soft from normal only after enough samples in a row with
a soft signal. -/
theorem counted_in_a_row (probes : List (Probe Sample)) (probe : Probe Sample)
    (h : Along (Recorded.step config) (Uninterrupted config) {} (probes ++ [probe])) :
    Earned config (run (Recorded.step config) {} probes)
      ((run (Recorded.step config) {} probes).step config probe) := by
  obtain ⟨hs, hp, -⟩ := along_append.1 h
  have hc : Counted config (run (Recorded.step config) {} probes) :=
    run_invariant (fun _ _ hc hu => (hc.step hu).1) (by constructor <;> simp) hs
  exact (hc.step hp).2

/-! ## Interrupted counts -/

/-- Samples by what they show: a hard signal, a soft one only, neither, or that the process has recovered. -/
inductive Shown
  | hard
  | soft
  | neither
  | recovered
  deriving DecidableEq

/-- One soft signal is enough to enter the soft state, two recovering samples are needed to leave it. -/
def twoToRecover : OverloadConfig Shown where
  softEnterSamples := 1
  recoverySamples := 2
  signalStaleTimeout := 1000
  thresholdSignal sample hard := sample == .hard || !hard && sample == .soft
  belowRecoveryThresholds sample := sample == .recovered

theorem counted_in_a_row_recovered :
    Earned twoToRecover (run (Recorded.step twoToRecover) {} [.sample .hard, .sample .recovered])
      (run (Recorded.step twoToRecover) {} [.sample .hard, .sample .recovered, .sample .recovered]) :=
  counted_in_a_row twoToRecover [.sample .hard, .sample .recovered] (.sample .recovered) (by
    simp [Along, Uninterrupted, Recorded.step, OverloadRuntime.step, OverloadRuntime.applyPressureSample,
      twoToRecover])

/-- A hard signal comes after one recovering sample in the soft state; one more after it and the hard state is left. -/
theorem recovers_too_early : ∃ run next : Recorded Shown, run = Transition.run (Recorded.step twoToRecover) {}
        [.sample .soft, .sample .recovered, .sample .hard] ∧
      next = run.step twoToRecover (.sample .recovered) ∧ run.runtime.state = .hard ∧ next.runtime.state = .soft ∧
      recoveringInARow twoToRecover .hard next.past = 1 ∧ ¬ Earned twoToRecover run next := by
  refine ⟨_, _, rfl, rfl, by decide, by decide, by decide, fun h => ?_⟩
  exact absurd (h.recovery (by decide)) (by decide)

end Overload
