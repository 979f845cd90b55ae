import OxiBelt.Admin.RolloutRun

/-!
# Directives and the transition tables

`classify` and the tables of `may_transition_to` are kept apart in the source.  `Directed` says when a
directive is given; from it, whatever the coordinator makes of a directive is a change that the tables
allow.
-/

namespace Rollout

open RustStd

/-- The effect is recorded, or the state lies behind its start and before its end. -/
def RolloutTarget.MayHaveStarted (target : RolloutTarget) : Prop :=
  target.effectStartedAt.isSome ∨
    target.state ∈ [.applying, .acked, .rollbackAssigned, .rollingBack]

def Directed (record : MutationRecord) (targets : List RolloutTarget) : RolloutDirective → Prop
  | .commit => record.state = .fullyApplied ∨
      (record.state = .expanding ∧ ∀ target ∈ targets, target.state = .acked)
  | .rollBack members => (record.state ≠ .rollingBack → record.state.mayTransitionTo .rollingBack) ∧
      ∀ target ∈ targets, target.MayHaveStarted → target.instanceId ∈ members
  | .finishRolledBack => record.state = .rollingBack ∧ ∀ target ∈ targets, rollbackCompleteForTarget target
  | directive => ∀ next ∈ terminalState directive, record.state.mayTransitionTo next

def Allowed (record : MutationRecord) (targets : List RolloutTarget) (directive : RolloutDirective) : Prop :=
  match transitionPlan record targets directive with
  | some plan => (∀ next ∈ plan.nextState, record.state.mayTransitionTo next) ∧
      ∀ change ∈ plan.targets, ∀ target ∈ targets, target.instanceId = change.instanceId →
        change.expectedState = target.state ∧ target.state.mayTransitionTo change.nextState
  | none => ∀ next ∈ terminalState directive, record.state.mayTransitionTo next

section Directed

variable {record : MutationRecord} {targets : List RolloutTarget} (rank : Str → Str → Nat)

attribute [local simp] Directed terminalState MutationState.mayTransitionTo MutationState.isTerminal

theorem rollbackDirective_directed (h : record.state ≠ .rollingBack → record.state.mayTransitionTo .rollingBack) :
    Directed record targets (rollbackDirective targets) := by
  refine ⟨h, fun target ht hs => List.mem_map.2 ⟨target, List.mem_filter.2 ⟨ht, ?_⟩, rfl⟩⟩
  simpa [RolloutTarget.MayHaveStarted, or_assoc] using hs

theorem classifyRollback_directed (hs : record.state = .rollingBack) (timedOut : Bool) :
    Directed record targets (classifyRollback targets timedOut) := by
  unfold classifyRollback
  split
  · simp [hs]
  split
  · next ha => exact ⟨hs, by simpa using ha⟩
  split
  · simp [hs]
  · exact rollbackDirective_directed fun hne => absurd hs hne

theorem classifyValidation_directed (hs : record.state = .validating) (timedOut : Bool) (members : List Str) :
    Directed record targets (classifyValidation rank record targets timedOut members) := by
  unfold classifyValidation
  dsimp only
  repeat' split
  all_goals simp [hs]

theorem classifyCanary_directed (hs : record.state = .canaryApplying) (timedOut : Bool) (members : List Str) :
    Directed record targets (classifyCanary rank record targets timedOut members) := by
  have hr : Directed record targets (rollbackDirective targets) := rollbackDirective_directed fun _ => hs ▸ rfl
  unfold classifyCanary
  dsimp only
  split
  · simp
  · exact hr
  · exact hr
  split
  · exact hr
  split
  · simp
  · exact hr

theorem classify_directed (membershipExact : Bool) (clock : PhaseClock) (members : List Str) :
    Directed record targets (classify rank record targets membershipExact clock members) := by
  unfold classify
  split
  · simp
  next ht =>
  split
  · rcases hs : record.state <;>
      simp_all
  split
  · split
    · next hs => split <;> simp [hs]
    · next hs => split <;> simp [hs]
    · next hs =>
      split
      · simp [hs]
      · exact rollbackDirective_directed fun hne => absurd hs hne
    · apply rollbackDirective_directed
      rcases hs : record.state <;> simp_all
  split
  · simp
  · next hs => exact classifyValidation_directed rank hs _ _
  · next hs => exact classifyCanary_directed rank hs _ _
  · next hs =>
    dsimp only
    split
    · exact rollbackDirective_directed fun _ => hs ▸ rfl
    split <;> simp
  · next hs =>
    split
    · exact rollbackDirective_directed fun _ => hs ▸ rfl
    split
    · next ha => exact .inr ⟨hs, by simpa using ha⟩
    · simp
  · next hs => exact .inl hs
  · next hs => exact classifyRollback_directed hs _
  · next hs => simp [hs]
  all_goals simp

variable {directive : RolloutDirective}

/-- The changes of targets are allowed by the filter of `transition_plan`, whatever the directive. -/
theorem transitionPlan_changes {plan : RolloutTransitionPlan}
    (hd : (targets.map (·.instanceId)).Nodup) (h : transitionPlan record targets directive = some plan) :
    ∀ change ∈ plan.targets, ∀ target ∈ targets, target.instanceId = change.instanceId →
      change.expectedState = target.state ∧ target.state.mayTransitionTo change.nextState := by
  obtain ⟨⟨next, canary, members, assigned⟩, hp, rfl⟩ := Option.map_eq_some_iff.1 h
  intro change hc target ht hi
  obtain ⟨instanceId, -, hb⟩ := List.mem_filterMap.1 hc
  obtain ⟨row, hf, hr⟩ := Option.bind_eq_some_iff.1 hb
  split at hr
  · next hm =>
    cases hr
    have hrow : row.instanceId = instanceId := by simpa using List.find?_some hf
    obtain rfl := List.inj_on_of_nodup_map hd ht (List.mem_of_find?_eq_some hf) (hi.trans hrow.symm)
    exact ⟨rfl, hm⟩
  · cases hr

theorem Directed.planned_allowed {next : Option MutationState}
    {rest : Option Str × List Str × TargetState} (h : Directed record targets directive)
    (hp : planned record directive = some (next, rest)) : ∀ state ∈ next, record.state.mayTransitionTo state := by
  cases directive with
  | rollBack =>
    cases hp
    intro state hn
    split at hn
    · next hne =>
      cases hn
      exact h.1 (by simpa using hne)
    · cases hn
  | validate | applyCanary | applyExpansion =>
    cases hp
    intro state hn
    split at hn
    · next hs =>
      cases hn
      rw [eq_of_beq hs]
      rfl
    · cases hn
  | observeCanary | commit =>
    simp only [planned] at hp
    split at hp
    · next hs =>
      cases hp
      rintro state ⟨⟩
      rw [eq_of_beq hs]
      rfl
    · cases hp
  | _ => cases hp

theorem Directed.allowed (h : Directed record targets directive)
    (hd : (targets.map (·.instanceId)).Nodup) : Allowed record targets directive := by
  unfold Allowed
  split
  · next plan hp =>
    refine ⟨?_, transitionPlan_changes hd hp⟩
    obtain ⟨⟨next, rest⟩, hn, rfl⟩ := Option.map_eq_some_iff.1 hp
    exact h.planned_allowed hn
  · next hp =>
    cases directive with
    | commit =>
      rcases h with hs | ⟨hs, -⟩
      · simp [hs]
      · simp [transitionPlan, planned, hs] at hp
    | rollBack => simp
    | finishRolledBack => simp [h.1]
    | _ => exact h

end Directed

/-- **Directives keep to the tables.** -/
theorem classify_within_tables (rank : Str → Str → Nat) (record : MutationRecord) (targets : List RolloutTarget)
    (hd : (targets.map (·.instanceId)).Nodup) (membershipExact : Bool) (clock : PhaseClock)
    (members : List Str) (directive : RolloutDirective)
    (hc : classify rank record targets membershipExact clock members = directive) :
    Allowed record targets directive ∧
    (directive = .commit → record.state = .fullyApplied ∨ ∀ target ∈ targets, target.state = .acked) ∧
    (∀ named, directive = .rollBack named →
      ∀ target ∈ targets, target.MayHaveStarted → target.instanceId ∈ named) ∧
    (directive = .finishRolledBack →
      ∀ target ∈ targets, target.MayHaveStarted → target.state = .rolledBack) := by
  have h : Directed record targets directive := hc ▸ classify_directed rank membershipExact clock members
  refine ⟨h.allowed hd, ?_, ?_, ?_⟩
  · rintro rfl
    exact h.imp_right And.right
  · rintro named rfl
    exact h.2
  · rintro rfl target ht hs
    have hb := h.2 target ht
    simp only [rollbackCompleteForTarget, RolloutTarget.MayHaveStarted] at hb hs
    rcases hst : target.state <;> simp_all

def startedTarget (instanceId : String) (state : TargetState) (effectStartedAt : Option Nat) : RolloutTarget :=
  ⟨instanceId.toList, state, 1, 1, none, none, effectStartedAt, none, none, none, none, none, none, none⟩

/-- The second of three targets refuses: the two that have started are rolled back, and both get an assignment. -/
theorem classify_within_tables_refused :
    let record : MutationRecord :=
      ⟨"r", "route", "1", "2", "d", "c", "m", .expanding⟩
    let targets := [startedTarget "a" .acked (some 5), startedTarget "b" .nacked (some 6),
      startedTarget "c" .validated none]
    Allowed record targets (.rollBack ["a", "b"]) ∧
      (transitionPlan record targets (.rollBack ["a", "b"])).map (·.targets.length) = some 2 :=
  ⟨(classify_within_tables (fun _ _ => 0) _ _ (by decide) true ⟨false, false, false⟩
    ["a", "b", "c"] _ rfl).1, by decide⟩

end Rollout
