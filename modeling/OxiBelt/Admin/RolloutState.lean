import OxiBelt.RustStd.Text

/-!
# The fixed-member rollout state machine (`admin_mutation/rollout_state.rs`)

A clustered mutation goes through validation, a canary, expansion and commit, or is rolled back.
`classify` decides from the record of the mutation and the rows of its targets what the coordinator does
next, and `transitionPlan` writes that down as changes of rows.

The coordinator only ever assigns work: `transitionPlan_targets` says to which states its plans move
targets.
-/

namespace Rollout

open RustStd

inductive MutationState where
  | claimed | validating | applying | canaryApplying | canaryHealthy | expanding | fullyApplied
  | committed | failed | rollingBack | rolledBack | rollbackFailed | indeterminate
  deriving DecidableEq

namespace MutationState

def isTerminal : MutationState → Bool
  | committed | failed | rolledBack | rollbackFailed | indeterminate => true
  | _ => false

def mayTransitionTo (state next : MutationState) : Bool :=
  match state with
  | claimed => next == validating || next == applying || next == committed || next == failed ||
      next == indeterminate
  | validating => next == applying || next == canaryApplying || next == committed || next == failed ||
      next == indeterminate
  | applying => next == fullyApplied || next == committed || next == failed || next == rollingBack ||
      next == indeterminate
  | canaryApplying => next == canaryHealthy || next == failed || next == rollingBack ||
      next == indeterminate
  | canaryHealthy => next == expanding || next == failed || next == rollingBack || next == indeterminate
  | expanding => next == fullyApplied || next == failed || next == rollingBack || next == indeterminate
  | fullyApplied => next == committed || next == failed || next == rollingBack || next == indeterminate
  | rollingBack => next == rolledBack || next == rollbackFailed || next == indeterminate
  | committed | failed | rolledBack | rollbackFailed | indeterminate => false

end MutationState

inductive TargetState where
  | pending | validating | validated | applyAssigned | applying | acked | nacked | rollbackAssigned
  | rollingBack | rolledBack | rollbackFailed
  deriving DecidableEq

namespace TargetState

def mayTransitionTo (state next : TargetState) : Bool :=
  match state with
  | pending => next == validating || next == nacked
  | validating => next == validated || next == applying || next == nacked
  | validated => next == applyAssigned || next == nacked
  | applyAssigned => next == applying || next == nacked
  | applying => next == acked || next == nacked || next == rollbackAssigned || next == rollingBack
  | acked => next == rollbackAssigned || next == rollingBack
  | nacked => next == rollbackAssigned || next == rollingBack
  | rollbackAssigned => next == rollingBack || next == rollbackFailed
  | rollingBack => next == rolledBack || next == rollbackFailed
  | rolledBack | rollbackFailed => false

end TargetState

structure RolloutTarget where
  instanceId : Str
  state : TargetState
  (stateVersion assignmentEpoch : Nat)
  bootId : Option Str
  (instanceEpoch effectStartedAt : Option Nat)
  (validationRevision validationDigest appliedRevision appliedDigest restoredRevision : Option Str)
  (restoredDigest errorCode : Option Str)
  deriving DecidableEq

structure MutationRecord where
  (requestId resource expectedPreviousRevision newRevision contentDigest clusterId : Str)
  membershipRevision : Str
  state : MutationState
  deriving DecidableEq

inductive RolloutDirective where
  | awaitMembership
  | validate (members : List Str)
  | awaitValidation
  | applyCanary (member : Str)
  | observeCanary
  | applyExpansion (members : List Str)
  | commit
  | failBeforeApply (code : String)
  | rollBack (members : List Str)
  | finishRolledBack
  | finishRollbackFailed
  | finishIndeterminate
  | completed (state : MutationState)

/-! ## Classification -/

/-- `Iterator::min_by_key`: the first of the least. -/
def minByKey (key : Str → Nat) : List Str → Option Str
  | [] => none
  | x :: xs =>
    match minByKey key xs with
    | none => some x
    | some y => if key x ≤ key y then some x else some y

/-- The member with the least digest of request and member; `rank` is SHA-256 as a number. -/
def deterministicCanary (rank : Str → Str → Nat) (requestId : Str) (members : List Str) : Option Str :=
  minByKey (rank requestId) members

variable (targets : List RolloutTarget)

def rollbackDirective : RolloutDirective :=
  .rollBack ((targets.filter fun target =>
    target.effectStartedAt.isSome || target.state == .applying || target.state == .acked ||
      target.state == .rollbackAssigned || target.state == .rollingBack).map (·.instanceId))

def rollbackCompleteForTarget (target : RolloutTarget) : Bool :=
  target.state == .rolledBack ||
    (target.effectStartedAt.isNone && (target.state == .pending || target.state == .validating ||
      target.state == .validated || target.state == .applyAssigned || target.state == .nacked))

def classifyRollback (rollbackTimedOut : Bool) : RolloutDirective :=
  if targets.any (·.state == .rollbackFailed) then .finishRollbackFailed
  else if targets.all rollbackCompleteForTarget then .finishRolledBack
  else if rollbackTimedOut then .finishIndeterminate
  else rollbackDirective targets

def applyReadyTargets (exclude : Option Str) : List Str :=
  (targets.filter fun target =>
    (target.state == .validated || target.state == .applyAssigned || target.state == .applying) &&
      exclude.all fun excluded => target.instanceId != excluded).map (·.instanceId)

def targetState (instanceId : Str) : Option TargetState :=
  (targets.find? (·.instanceId == instanceId)).map (·.state)

/-- What the clock of the database says about the current phase. -/
structure PhaseClock where
  (phaseTimedOut rollbackTimedOut observationComplete : Bool)

section Classify

variable (rank : Str → Str → Nat)

def canaryMember (requestId : Str) (members : List Str) : Str :=
  (deterministicCanary rank requestId members).getD []

variable (record : MutationRecord)

def classifyValidation (targets : List RolloutTarget) (phaseTimedOut : Bool) (members : List Str) : RolloutDirective :=
  if targets.any (·.state == .nacked) then .failBeforeApply "rollout_validation_failed"
  else if phaseTimedOut then .failBeforeApply "rollout_validation_timeout"
  else if targets.all fun target => target.state == .validated || target.state == .applying then
    let validationMatches := targets.all fun target =>
      target.validationRevision == some record.newRevision && target.validationDigest.isSome
    let validationDigest := targets.head?.bind (·.validationDigest)
    let validationConverged := validationMatches && validationDigest.isSome &&
      targets.all fun target => target.validationDigest == validationDigest
    if validationConverged then .applyCanary (canaryMember rank record.requestId members)
    else .failBeforeApply "rollout_validation_evidence_mismatch"
  else
    let pending := (targets.filter (·.state == .pending)).map (·.instanceId)
    if pending.isEmpty then .awaitValidation else .validate pending

/-- The branch of `classify` for a canary that is being applied. -/
def classifyCanary (targets : List RolloutTarget) (phaseTimedOut : Bool) (members : List Str) : RolloutDirective :=
  let canary := canaryMember rank record.requestId members
  match targetState targets canary with
  | some .acked => .observeCanary
  | some .nacked | none => rollbackDirective targets
  | some state =>
    if phaseTimedOut then rollbackDirective targets
    else if state == .validated || state == .applyAssigned || state == .applying then .applyCanary canary
    else rollbackDirective targets

def classify (targets : List RolloutTarget) (membershipExact : Bool)
    (clock : PhaseClock) (members : List Str) : RolloutDirective :=
  if record.state.isTerminal then .completed record.state
  else if targets.length ≠ members.length then .finishIndeterminate
  else if !membershipExact then
    match record.state with
    | .claimed | .validating =>
      if clock.phaseTimedOut then .failBeforeApply "rollout_membership_unavailable" else .awaitMembership
    | .rollingBack => if clock.rollbackTimedOut then .finishIndeterminate else rollbackDirective targets
    | _ => rollbackDirective targets
  else
    match record.state with
    | .claimed => .validate members
    | .validating => classifyValidation rank record targets clock.phaseTimedOut members
    | .canaryApplying => classifyCanary rank record targets clock.phaseTimedOut members
    | .canaryHealthy =>
      let canary := canaryMember rank record.requestId members
      if targetState targets canary != some .acked || clock.phaseTimedOut then rollbackDirective targets
      else if clock.observationComplete then .applyExpansion (applyReadyTargets targets (some canary))
      else .observeCanary
    | .expanding =>
      if targets.any (·.state == .nacked) || clock.phaseTimedOut then rollbackDirective targets
      else if targets.all (·.state == .acked) then .commit
      else .applyExpansion (applyReadyTargets targets none)
    | .fullyApplied => .commit
    | .rollingBack => classifyRollback targets clock.rollbackTimedOut
    | .applying => .finishIndeterminate
    | .committed | .failed | .rolledBack | .rollbackFailed | .indeterminate => .completed record.state

end Classify

/-! ## What the coordinator makes of a directive (`admin_cluster_runtime/coordinator.rs`) -/

inductive SharedPublicationState where
  | applying | applied | restored | indeterminate
  deriving DecidableEq

def isForwardDirective : RolloutDirective → Bool
  | .awaitMembership | .validate _ | .awaitValidation | .applyCanary _ | .observeCanary
  | .applyExpansion _ | .commit => true
  | _ => false

def abandonedWinnerResponseDirectiveForState (publicationState : Option SharedPublicationState)
    (targets : List RolloutTarget) : RolloutDirective :=
  if publicationState == some .indeterminate then .finishIndeterminate
  else
    let effectIsDurable := publicationState == some .applied || publicationState == some .restored
    let affected := (targets.filter fun target =>
      target.effectStartedAt.isSome || target.state == .applying || target.state == .acked ||
        target.state == .rollbackAssigned || target.state == .rollingBack).map (·.instanceId)
    if effectIsDurable || !affected.isEmpty then .rollBack affected
    else .failBeforeApply "winner_response_owner_lost"

structure TargetPlan where
  instanceId : Str
  expectedState : TargetState
  expectedStateVersion : Nat
  nextState : TargetState

structure RolloutTransitionPlan where
  expectedState : MutationState
  nextState : Option MutationState
  canaryInstanceId : Option Str
  targets : List TargetPlan

/-- The next state of the mutation, the canary and the members to assign to. -/
def planned (record : MutationRecord) :
    RolloutDirective → Option (Option MutationState × Option Str × List Str × TargetState)
  | .validate members =>
    some (if record.state == .claimed then some .validating else none, none, members, .validating)
  | .applyCanary member =>
    some (if record.state == .validating then some .canaryApplying else none, some member, [member],
      .applyAssigned)
  | .observeCanary =>
    if record.state == .canaryApplying then some (some .canaryHealthy, none, [], .applyAssigned) else none
  | .applyExpansion members =>
    some (if record.state == .canaryHealthy then some .expanding else none, none, members, .applyAssigned)
  | .commit => if record.state == .expanding then some (some .fullyApplied, none, [], .applyAssigned) else none
  | .rollBack members =>
    some (if record.state != .rollingBack then some .rollingBack else none, none, members,
      .rollbackAssigned)
  | _ => none

def transitionPlan (record : MutationRecord) (targets : List RolloutTarget)
    (directive : RolloutDirective) : Option RolloutTransitionPlan :=
  (planned record directive).map fun (nextState, canary, members, assigned) =>
    { expectedState := record.state
      nextState := nextState
      canaryInstanceId := canary
      targets := members.filterMap fun instanceId =>
        (targets.find? (·.instanceId == instanceId)).bind fun target =>
          if target.state.mayTransitionTo assigned then
            some ⟨instanceId, target.state, target.stateVersion, assigned⟩
          else none }

def TargetState.isAssignment (state : TargetState) : Bool :=
  state == .validating || state == .applyAssigned || state == .rollbackAssigned

/-- **Plans only assign.** -/
theorem transitionPlan_targets {record : MutationRecord} {targets : List RolloutTarget}
    {directive : RolloutDirective} {plan : RolloutTransitionPlan}
    (h : transitionPlan record targets directive = some plan) :
    ∀ target ∈ plan.targets, target.nextState.isAssignment = true := by
  obtain ⟨⟨next, canary, members, assigned⟩, hp, rfl⟩ := Option.map_eq_some_iff.1 h
  intro target ht
  obtain ⟨instanceId, -, hb⟩ := List.mem_filterMap.1 ht
  obtain ⟨row, -, hr⟩ := Option.bind_eq_some_iff.1 hb
  split at hr
  · cases hr
    show assigned.isAssignment = true
    cases directive with
    | validate | applyCanary | applyExpansion | rollBack => cases hp; rfl
    | observeCanary | commit =>
      cases (Option.ite_none_right_eq_some.1 hp).2
      rfl
    | _ => cases hp
  · cases hr

end Rollout
