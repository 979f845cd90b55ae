import OxiBelt.Admin.RolloutStore
import OxiBelt.Lib.Transition

/-!
# Runs of a clustered rollout (`server/admin_cluster_runtime.rs`)

Each instance runs a coordinator and a member worker.  Both take what they load from the store along
while other instances act; only single transactions are atomic.  The rest of the cluster (heartbeats,
heads, other mutations, leases that expire) is the environment, and an instance may restart.

* `applyTransitionPlan_kept`: a coordinator never starts an effect.
* `no_effect_after_undo`: after a mutation has failed or was rolled back, no target starts to apply.  The
  reason is that members never get work: the query of `load_member_work` does not select two of the
  columns that it reads.
* `safe_iff_missing_column`: with all columns selected, the rollout would not be safe.  A member that
  holds an assignment when the mutation is rolled back still applies it, since neither the assignment nor
  `transition_target_fenced` is bound to the state of the mutation.
-/

namespace Rollout

open RustStd Transition Transition

/-! ## Member workers -/

structure ExecutionEvidence where
  revision : Str
  digest : Str
  deriving DecidableEq

/-- How the effect of a piece of work ends: applied, restored or observed; found at the previous state;
refused; not to be seen. -/
inductive EffectOutcome where
  | done (evidence : ExecutionEvidence)
  | previous (evidence : ExecutionEvidence)
  | refused (code : Str)
  | unknown

/-- What the executor makes of a piece of work. -/
inductive ExecutorOutcome where
  | rejected (code : Str)
  | operation (validation : ExecutionEvidence) (sharedStaged : Bool) (effect : EffectOutcome)

inductive MemberCall where
  | checkpoint (observer : Bool) (prior : ExecutionEvidence) (sealed : Nat)
  | publishHead (update : ResourceHeadUpdate)
  | currentTarget
  | transition (next : TargetState) (effectStarted : Bool) (applied restored : Option ExecutionEvidence)
      (errorCode : Option Str)

/-- `transition` of `support.rs`: the expected row is the one that the member holds. -/
def fencedTransition (target : RolloutTarget) (next : TargetState) (effectStarted : Bool)
    (applied restored : Option ExecutionEvidence) (errorCode : Option Str) : FencedTargetTransition :=
  let validation := if next == .validated then applied else none
  let applied := if next == .validated then none else applied
  { expectedState := target.state
    expectedStateVersion := target.stateVersion
    assignmentEpoch := target.assignmentEpoch
    nextState := next
    effectStarted := effectStarted
    validationRevision := validation.map (·.revision)
    validationDigest := validation.map (·.digest)
    appliedRevision := applied.map (·.revision)
    appliedDigest := applied.map (·.digest)
    restoredRevision := restored.map (·.revision)
    restoredDigest := restored.map (·.digest)
    errorCode := errorCode }

def matchesValidationEvidence (target : RolloutTarget) (validation : ExecutionEvidence) : Bool :=
  target.validationRevision == some validation.revision && target.validationDigest == some validation.digest

section Programs

variable (record : MutationRecord) (target : RolloutTarget) (prior : ExecutionEvidence) (sealed : Nat)

def candidate : ExecutionEvidence := ⟨record.newRevision, record.contentDigest⟩

def acknowledge (evidence : ExecutionEvidence) : MemberCall :=
  .transition .acked false (some evidence) none none

def refuse (next : TargetState) (code : Str) : MemberCall := .transition next false none none (some code)

def assignedHead (applied : ExecutionEvidence) (ready : Bool) : MemberCall :=
  .publishHead ⟨some record.newRevision, applied.revision, applied.digest, ready⟩

/-- `apply_assigned` and `apply_shared_observation`, behind the checks of the validation. -/
def applyAssigned (sharedStaged : Bool) (effect : EffectOutcome) : List MemberCall :=
  let start := [.checkpoint sharedStaged prior sealed, assignedHead record prior false,
    .transition .applying true none none none]
  match sharedStaged, effect with
  | true, .done _ =>
    start ++ [assignedHead record (candidate record) true, .currentTarget, acknowledge (candidate record)]
  | false, .done evidence =>
    start ++ [assignedHead record evidence true, .currentTarget, acknowledge evidence]
  | false, .refused code => start ++ [.currentTarget, refuse .nacked code]
  -- a shared effect that is not to be seen yet is left for the next poll
  | _, _ => []

/-- `recover_applying` and `recover_shared`. -/
def recoverApplying (sharedStaged : Bool) (effect : EffectOutcome) : List MemberCall :=
  match sharedStaged, effect with
  | true, .done _ => [assignedHead record (candidate record) true, acknowledge (candidate record)]
  | true, _ => []
  | false, .done evidence => [assignedHead record evidence true, acknowledge evidence]
  | false, .previous evidence =>
    [assignedHead record evidence true, refuse .nacked "recovered_previous"]
  | false, _ => [refuse .nacked "recovery_indeterminate"]

/-- `rollback_assigned` and `observe_shared_rollback`. -/
def rollbackAssigned (outcome : ExecutorOutcome) : List MemberCall :=
  let start := if target.state == .rollbackAssigned then
    [.transition .rollingBack true none none none, .currentTarget] else []
  let restored (evidence : ExecutionEvidence) : List MemberCall :=
    start ++ [.publishHead ⟨none, evidence.revision, evidence.digest, true⟩,
      .transition .rolledBack false none (some evidence) none]
  if target.effectStartedAt.isNone then restored prior
  else
    match outcome with
    | .rejected _ => []
    | .operation validation sharedStaged effect =>
      if !matchesValidationEvidence target validation then []
      else
        match sharedStaged, effect with
        | true, .done _ => restored prior
        | false, .done evidence => restored evidence
        | false, .refused code => start ++ [refuse .rollbackFailed code]
        | _, _ => []

/-- `process_member_work`: the calls for a piece of work; none where it ends with an error. -/
def processMemberWork (outcome : ExecutorOutcome) : List MemberCall :=
  match target.state with
  | .validating =>
    match outcome with
    | .rejected code => [refuse .nacked code]
    | .operation validation _ _ => [.transition .validated false (some validation) none none]
  | .applyAssigned =>
    match outcome with
    | .rejected _ => []
    | .operation validation sharedStaged effect =>
      if matchesValidationEvidence target validation then
        applyAssigned record prior sealed sharedStaged effect
      else []
  | .applying =>
    match outcome with
    | .rejected _ => []
    | .operation validation sharedStaged effect =>
      if matchesValidationEvidence target validation then recoverApplying record sharedStaged effect else []
  | .rollbackAssigned | .rollingBack => rollbackAssigned target prior outcome
  | _ => []

end Programs

inductive MemberTask where
  | idle
  | queued (work : List RolloutTarget)
  | started (record : MutationRecord) (target : RolloutTarget) (work : List RolloutTarget)
  | running (record : MutationRecord) (held : RolloutTarget) (calls : List MemberCall)
      (work : List RolloutTarget)

variable (columns : List TargetColumn) (rank : Str → Str → Nat) (db : Database) (member : MemberFence)

/-- One call of a member that holds a target row; the row it holds then, and the tables. -/
def memberCall (now : Nat) (record : MutationRecord)
    (held : RolloutTarget) : MemberCall → Result (RolloutTarget × Database)
  | .checkpoint observer prior sealed => do
    let checkpoint : Checkpoint := ⟨member.instanceId, held.assignmentEpoch, record.newRevision,
      record.contentDigest, prior.revision, prior.digest, sealed⟩
    if observer then return (held, ← ensureObserverCheckpoint db member checkpoint)
    let (_, db) ← publishCheckpoint db member checkpoint
    return (held, db)
  | .publishHead update => do
    let db ← publishResourceHead db member update
    return (held, db)
  | .currentTarget => do
    let targets ← loadTargets db
    let target ← context (targets.find? (·.instanceId == held.instanceId)) "cluster target disappeared"
    return (target, db)
  | .transition next effectStarted applied restored errorCode => do
    let db ← transitionTargetFenced db member
      (fencedTransition held next effectStarted applied restored errorCode) now
    return (held, db)

inductive MemberLabel where
  | load
  | start
  | decide (outcome : ExecutorOutcome) (sealed : Nat)
  | call (now : Nat)

/-- One step of a member worker.  A piece of work that fails is given up and the next one is taken. -/
def memberStep : MemberTask → MemberLabel → MemberTask × Database
  | .idle, .load =>
    match loadMemberWork columns db member with
    | .ok work => (.queued work, db)
    | .error _ => (.idle, db)
  | .queued [], .start => (.idle, db)
  | .queued (target :: work), .start => (.started db.mutation.record target work, db)
  | .started record target work, .decide outcome sealed =>
    (.running record target (processMemberWork record target
      ⟨record.expectedPreviousRevision, db.revision.contentDigest⟩ sealed outcome) work, db)
  | .running _ _ [] work, .call _ => (.queued work, db)
  | .running record held (call :: calls) work, .call now =>
    match memberCall db member now record held call with
    | .ok (held, db) => (.running record held calls work, db)
    | .error _ => (.queued work, db)
  | task, _ => (task, db)

/-! ## Coordinator workers -/

inductive CoordinatorTask where
  | idle
  | recorded (record : MutationRecord)
  | loaded (record : MutationRecord) (targets : List RolloutTarget)
  | classified (record : MutationRecord) (targets : List RolloutTarget) (directive : RolloutDirective)
  | fenced (record : MutationRecord) (targets : List RolloutTarget) (directive : RolloutDirective)
      (fence : CoordinatorFence)

inductive CoordinatorLabel where
  | loadRecord
  | loadTargets
  | classify (clock : PhaseClock) (members : List Str)
  | acquire (exact : ExactMembership) (lostWinner : Option (Option SharedPublicationState))
  | execute

def terminalState : RolloutDirective → Option MutationState
  | .commit => some .committed
  | .failBeforeApply _ => some .failed
  | .finishRolledBack => some .rolledBack
  | .finishRollbackFailed => some .rollbackFailed
  | .finishIndeterminate => some .indeterminate
  | _ => none

/-- The last part of `reconcile`. -/
def executeDirective (record : MutationRecord)
    (targets : List RolloutTarget) (directive : RolloutDirective) (fence : CoordinatorFence) :
    Result Database :=
  match transitionPlan record targets directive with
  | some plan => applyTransitionPlan rank db fence plan
  | none =>
    match terminalState directive with
    | some terminal => guardedClusterFinish db fence terminal
    | none => .ok db

/-- One step of a coordinator worker.  If the origin of a shared mutation has lost the response it waits
for, forward progress is given up. -/
def coordinatorStep : CoordinatorTask → CoordinatorLabel → CoordinatorTask × Database
  | .idle, .loadRecord => (.recorded db.mutation.record, db)
  | .recorded record, .loadTargets =>
    match loadTargets db with
    | .ok targets => (.loaded record targets, db)
    | .error _ => (.idle, db)
  | .loaded record targets, .classify clock members =>
    -- the clock is read for the phase of the record
    if db.mutation.record.state == record.state then
      (.classified record targets (classify rank record targets true clock members), db)
    else (.idle, db)
  | .classified record targets directive, .acquire exact lostWinner =>
    match acquireCoordinatorFence db member exact with
    | .ok (some fence, db) =>
      match lostWinner with
      | some publication =>
        if isForwardDirective directive then
          (.fenced record targets (abandonedWinnerResponseDirectiveForState publication targets) fence, db)
        else (.fenced record targets directive fence, db)
      | none => (.fenced record targets directive fence, db)
    | .ok (none, db) => (.idle, db)
    | .error _ => (.idle, db)
  | .fenced record targets directive fence, .execute =>
    match executeDirective rank db record targets directive fence with
    | .ok db => (.idle, db)
    | .error _ => (.idle, db)
  | task, _ => (task, db)

/-! ## The cluster -/

structure System where
  db : Database
  members : Str → MemberTask
  coordinators : Str → CoordinatorTask

inductive Label where
  | member (fence : MemberFence) (label : MemberLabel)
  | coordinator (fence : MemberFence) (label : CoordinatorLabel)
  | environment (heartbeats : List Heartbeat) (heads : List ResourceHead) (checkpoints : List Checkpoint)
      (revision : LogicalRevision) (admissionAuditConfirmed coordinatorLive : Bool)
  | restart (instanceId : Str)

def step (s : System) : Label → System
  | .member fence label =>
    let (task, db) := memberStep columns s.db fence (s.members fence.instanceId) label
    { s with db := db, members := Function.update s.members fence.instanceId task }
  | .coordinator fence label =>
    let (task, db) := coordinatorStep rank s.db fence (s.coordinators fence.instanceId) label
    { s with db := db, coordinators := Function.update s.coordinators fence.instanceId task }
  | .environment heartbeats heads checkpoints revision admissionAuditConfirmed coordinatorLive =>
    { s with
      db :=
        { s.db with
          heartbeats := heartbeats
          heads := heads
          checkpoints := checkpoints
          revision := revision
          mutation :=
            { s.db.mutation with
              admissionAuditConfirmed := admissionAuditConfirmed
              coordinatorLive := coordinatorLive } } }
  | .restart instanceId =>
    { s with
      members := Function.update s.members instanceId .idle
      coordinators := Function.update s.coordinators instanceId .idle }

structure Admitted (s : System) : Prop where
  members : ∀ instanceId, s.members instanceId = .idle
  coordinators : ∀ instanceId, s.coordinators instanceId = .idle
  claimed : s.db.mutation.record.state = .claimed
  pending : ∀ target ∈ s.db.targets, target.state = .pending ∧ target.effectStartedAt = none

/-- The mutation has ended without effect. -/
def Database.undone : Prop :=
  db.mutation.record.state = .failed ∨ db.mutation.record.state = .rolledBack

/-- No target starts to apply, and no effect starts. -/
def Kept (before after : List RolloutTarget) : Prop :=
  List.Forall₂ (fun target target' => target'.instanceId = target.instanceId ∧
    (target'.state = .applying → target.state = .applying) ∧
    (target.effectStartedAt = none → target'.effectStartedAt = none)) before after

/-- After the mutation has ended without effect, every step keeps the targets. -/
def Safe : Prop :=
  ∀ (s : System) (before later : List Label) (label : Label), Admitted s →
    (run (step columns rank) s before).db.undone →
    Kept (run (step columns rank) s (before ++ later)).db.targets
      (run (step columns rank) s (before ++ later ++ [label])).db.targets

section Safety

variable {columns : List TargetColumn} {rank : Str → Str → Nat} {db db' : Database} {s : System}

theorem Kept.refl (targets : List RolloutTarget) : Kept targets targets := List.forall₂_same.2 fun _ _ => ⟨rfl, id, id⟩

theorem Kept.trans {a b c : List RolloutTarget} (h : Kept a b) (h' : Kept b c) : Kept a c := by
  induction h generalizing c with
  | nil => exact h'
  | cons hr hrw ih =>
    obtain ⟨row', rows', hr', hrw', rfl⟩ := List.forall₂_cons_left_iff.1 h'
    obtain ⟨hid, ha, he⟩ := hr
    obtain ⟨hid', ha', he'⟩ := hr'
    exact .cons ⟨hid'.trans hid, ha ∘ ha', he' ∘ he⟩ (ih hrw')

theorem Kept.head {before after : List RolloutTarget} (h : Kept before after)
    (ha : after.head?.map (·.state) = some .applying) : before.head?.map (·.state) = some .applying := by
  cases h with
  | nil => exact ha
  | cons hr _ => exact congrArg some (hr.2.1 (Option.some.inj ha))

theorem kept_updateTarget {instanceId : Str} {change : RolloutTarget → RolloutTarget}
    (hc : ∀ target, (change target).instanceId = target.instanceId ∧
      (change target).state ≠ .applying ∧ (change target).effectStartedAt = target.effectStartedAt) :
    Kept db.targets (updateTarget db instanceId change).targets := by
  unfold updateTarget Kept
  rw [List.forall₂_map_right_iff, List.forall₂_same]
  intro target _
  split
  · obtain ⟨hid, ha, he⟩ := hc target
    exact ⟨hid, fun h => absurd h ha, fun h => he.trans h⟩
  · exact ⟨rfl, id, id⟩

variable {fence : CoordinatorFence} {column : TargetColumn}

theorem applyTargetPlan_kept {plan : TargetPlan} (hp : plan.nextState.isAssignment = true)
    (h : applyTargetPlan fence db plan = .ok db') :
    Kept db.targets db'.targets := by
  unfold applyTargetPlan at h
  simp only [bind_eq_ok] at h
  obtain ⟨row, -, _, -, _, -, h⟩ := h
  cases h
  refine kept_updateTarget fun target => ⟨rfl, ?_, rfl⟩
  show plan.nextState ≠ .applying
  intro ha
  rw [ha] at hp
  exact absurd hp (by decide)

/-- **A coordinator never starts an effect.** -/
theorem applyTransitionPlan_kept {plan : RolloutTransitionPlan}
    (hpl : ∀ target ∈ plan.targets, target.nextState.isAssignment = true)
    (h : applyTransitionPlan rank db fence plan = .ok db') : Kept db.targets db'.targets := by
  have hfl : ∀ (plans : List TargetPlan) (db db' : Database), (∀ target ∈ plans, target.nextState.isAssignment = true) →
        plans.foldlM (applyTargetPlan fence) db = .ok db' → Kept db.targets db'.targets := by
    intro plans
    induction plans with
    | nil =>
      intro db db' _ h
      cases h
      exact Kept.refl _
    | cons plan plans ih =>
      intro db db' hp h
      obtain ⟨hf, hr⟩ := List.forall_mem_cons.1 hp
      rw [List.foldlM_cons, bind_eq_ok] at h
      obtain ⟨middle, hm, h⟩ := h
      exact (applyTargetPlan_kept hf hm).trans (ih middle db' hr h)
  unfold applyTransitionPlan at h
  simp only [bind_eq_ok] at h
  obtain ⟨_, -, _, -, _, -, middle, hm, h⟩ := h
  have hk := hfl _ _ _ hpl hm
  split at h
  · cases h
    exact hk
  rw [ensure_bind_eq_ok] at h
  obtain ⟨-, h⟩ := h
  cases h
  exact hk

theorem guardedClusterFinish_targets {terminal : MutationState} (h : guardedClusterFinish db fence terminal = .ok db') :
    db'.targets = db.targets := by
  unfold guardedClusterFinish at h
  simp only [bind_eq_ok] at h
  obtain ⟨_, -, _, -, _, -, _, -, h⟩ := h
  cases h
  rfl

theorem acquireCoordinatorFence_targets {member : MemberFence} {exact : ExactMembership}
    {fence : Option CoordinatorFence} (h : acquireCoordinatorFence db member exact = .ok (fence, db')) :
    db'.targets = db.targets := by
  unfold acquireCoordinatorFence at h
  simp only [bind_eq_ok] at h
  obtain ⟨_, -, _, -, _, -, _, -, _, -, _, -, h⟩ := h
  split at h
  · cases h
    rfl
  · cases h
    rfl

theorem coordinatorStep_kept (task : CoordinatorTask) (label : CoordinatorLabel) :
    Kept db.targets (coordinatorStep rank db member task label).2.targets := by
  unfold coordinatorStep
  split
  · exact Kept.refl _
  · split <;> exact Kept.refl _
  · split <;> exact Kept.refl _
  · split
    · next ha =>
      have ht := acquireCoordinatorFence_targets ha
      split
      · split <;> (rw [ht]; exact Kept.refl _)
      · rw [ht]
        exact Kept.refl _
    · next ha =>
      rw [acquireCoordinatorFence_targets ha]
      exact Kept.refl _
    · exact Kept.refl _
  · split
    · next he =>
      unfold executeDirective at he
      split at he
      · next plan hp => exact applyTransitionPlan_kept (transitionPlan_targets hp) he
      split at he
      · rw [guardedClusterFinish_targets he]
        exact Kept.refl _
      · cases he
        exact Kept.refl _
    · exact Kept.refl _
  · exact Kept.refl _

def Workless (s : System) : Prop :=
  ∀ instanceId, s.members instanceId = .idle ∨ s.members instanceId = .queued []

/-- A member without work gets none, if a column is missing. -/
theorem memberStep_workless {column : TargetColumn} (hc : column ∈ loadTargetsColumns)
    (hm : columns.contains column = false) (member : MemberFence) {task : MemberTask}
    (ht : task = .idle ∨ task = .queued []) (label : MemberLabel) :
    ((memberStep columns db member task label).1 = .idle ∨
      (memberStep columns db member task label).1 = .queued []) ∧
      (memberStep columns db member task label).2 = db := by
  rcases ht with rfl | rfl
  · cases label with
    | load =>
      simp only [memberStep]
      split
      · next work hw =>
        rw [loadMemberWork_missing hc hm hw]
        exact ⟨.inr rfl, rfl⟩
      · exact ⟨.inl rfl, rfl⟩
    | _ => exact ⟨.inl rfl, rfl⟩
  · cases label with
    | start => exact ⟨.inl rfl, rfl⟩
    | _ => exact ⟨.inr rfl, rfl⟩

theorem Workless.update (hs : Workless s) (instanceId : Str) {task : MemberTask}
    (ht : task = .idle ∨ task = .queued []) :
    Workless { s with members := Function.update s.members instanceId task } :=
  (Function.forall_update_iff s.members fun _ (task : MemberTask) => task = .idle ∨ task = .queued []).2
    ⟨ht, fun other _ => hs other⟩

theorem step_workless (hc : column ∈ loadTargetsColumns) (hm : columns.contains column = false) (hs : Workless s)
    (label : Label) :
    Workless (step columns rank s label) ∧ Kept s.db.targets (step columns rank s label).db.targets := by
  cases label with
  | member fence label =>
    obtain ⟨ht, hdb⟩ := @memberStep_workless columns s.db column hc hm fence _ (hs fence.instanceId) label
    refine ⟨hs.update fence.instanceId ht, ?_⟩
    show Kept s.db.targets (memberStep columns s.db fence _ label).2.targets
    rw [hdb]
    exact Kept.refl _
  | coordinator fence label =>
    exact ⟨hs, coordinatorStep_kept fence (s.coordinators fence.instanceId) label⟩
  | environment heartbeats heads checkpoints revision admissionAuditConfirmed coordinatorLive =>
    exact ⟨hs, Kept.refl _⟩
  | restart restarted => exact ⟨hs.update restarted (.inl rfl), Kept.refl _⟩

theorem safe_of_missing (hc : column ∈ loadTargetsColumns) (hm : columns.contains column = false) :
    Safe columns rank := by
  intro s before later label hs _
  have hr : Workless (run (step columns rank) s (before ++ later)) :=
    run_keeps (I := Workless) (fun _ label hs => (step_workless hc hm hs label).1)
      (fun instanceId => .inl (hs.members instanceId)) _
  have ha : run (step columns rank) s (before ++ later ++ [label]) =
      step columns rank (run (step columns rank) s (before ++ later)) label := by
    rw [run, List.foldl_append]
    rfl
  rw [ha]
  exact (step_workless hc hm hr label).2

/-- **No effect after an undo.**  Once the mutation has failed or is rolled back, no target is moved to
applying and no effect starts, in any interleaving. -/
theorem no_effect_after_undo (rank : Str → Str → Nat) (s : System) (before later : List Label)
    (label : Label) (hs : Admitted s)
    (hundone : (run (step loadMemberWorkColumns rank) s before).db.undone) :
    Kept (run (step loadMemberWorkColumns rank) s (before ++ later)).db.targets
      (run (step loadMemberWorkColumns rank) s (before ++ later ++ [label])).db.targets := by
  have hm : loadMemberWorkColumns.contains .validationRevision = false := by decide
  exact safe_of_missing (by decide) hm s before later label hs hundone

end Safety

/-! ## Two members -/

section TwoMembers

def digest (c : Char) : Str := "sha256:" ++ List.replicate 64 c

def fenceOf (name : String) : MemberFence :=
  ⟨"cluster", "m1", name.toList, "boot", 1⟩

def twoMembers : System where
  db :=
    { mutation :=
        { record := ⟨"r", "config", "old", "new", digest 'b', "cluster",
            "m1", .claimed⟩
          stateVersion := 0
          admissionAuditConfirmed := true
          canaryInstanceId := none
          coordinator := none
          coordinatorEpoch := 0
          coordinatorLive := false }
      targets := ["a", "b"].map fun name =>
        ⟨name.toList, .pending, 0, 0, none, none, none, none, none, none, none, none, none, none⟩
      heartbeats := ["a", "b"].map fun name => ⟨fenceOf name, [], [], [], true, true⟩
      heads := ["a", "b"].map fun name =>
        ⟨name.toList, "config", "boot", 1, none, "old", digest 'a', true⟩
      checkpoints := []
      revision := ⟨"old", digest 'a'⟩ }
  members := fun _ => .idle
  coordinators := fun _ => .idle

theorem twoMembers_admitted : Admitted twoMembers where
  members := fun _ => rfl
  coordinators := fun _ => rfl
  claimed := rfl
  pending := by decide

def reconcile (clock : PhaseClock) : List Label :=
  [.loadRecord, .loadTargets, .classify clock ["a", "b"],
    .acquire ⟨"cluster", "m1", [], [], [], digest 'a', [fenceOf "a", fenceOf "b"]⟩ none,
    .execute].map (.coordinator (fenceOf "a"))

def early : PhaseClock := ⟨false, false, false⟩

def late : PhaseClock := ⟨true, false, false⟩

/-- A mutation that times out in validation. -/
theorem no_effect_after_undo_timeout : (run (step loadMemberWorkColumns fun _ _ => 0) twoMembers
        (reconcile early ++ reconcile late)).db.undone ∧
      Kept (run (step loadMemberWorkColumns fun _ _ => 0) twoMembers
          (reconcile early ++ reconcile late ++ [])).db.targets
        (run (step loadMemberWorkColumns fun _ _ => 0) twoMembers
          (reconcile early ++ reconcile late ++ [] ++ [.member (fenceOf "a") .load])).db.targets := by
  refine (and_iff_left_of_imp fun hu => ?_).2 (.inl (by decide +kernel))
  exact no_effect_after_undo _ twoMembers _ [] _ twoMembers_admitted hu

/-- Validation of both members, the canary assigned to the first of them, which takes its work up; then
the phase times out and the mutation is rolled back. -/
def rollbackRun : List Label :=
  let validation : ExecutorOutcome := .operation ⟨"new", digest 'c'⟩ false .unknown
  let apply : ExecutorOutcome := .operation ⟨"new", digest 'c'⟩ false (.done ⟨"new", digest 'b'⟩)
  let validate (name : String) : List Label :=
    [.load, .start, .decide validation 0, .call 1, .call 1, .start].map (.member (fenceOf name))
  reconcile early ++ validate "a" ++ validate "b" ++ reconcile early ++
    [.load, .start, .decide apply 0].map (.member (fenceOf "a")) ++ reconcile late ++ reconcile early

/-- With all columns, the canary applies what has been rolled back. -/
theorem rollbackRun_unsafe : ¬ Safe loadTargetsColumns fun _ _ => 0 := by
  intro hs
  have hu : (run (step loadTargetsColumns fun _ _ => 0) twoMembers rollbackRun).db.undone := by
    right
    decide +kernel
  have hk := hs twoMembers rollbackRun
    ([.call 2, .call 2].map (.member (fenceOf "a"))) (.member (fenceOf "a") (.call 2)) twoMembers_admitted
    hu
  exact absurd (hk.head (by decide +kernel)) (by decide +kernel)

end TwoMembers

theorem step_of_columns {columns : List TargetColumn}
    (h : ∀ column ∈ loadTargetsColumns, columns.contains column = true) :
    step columns = step loadTargetsColumns := by
  have hm : memberStep columns = memberStep loadTargetsColumns := by
    funext db member task label
    unfold memberStep
    rw [loadMemberWork_of_columns h, loadMemberWork_of_columns (by decide)]
  funext rank s label
  unfold step
  rw [hm]

/-- **What the safety rests on.**  The rollout is safe exactly if the query for the work of a member lacks
a column, so that members never act. -/
theorem safe_iff_missing_column :
    (∀ rank, Safe columns rank) ↔ ∃ column ∈ loadTargetsColumns, columns.contains column = false := by
  constructor
  · intro hs
    by_contra ha
    push Not at ha
    have hcl : ∀ column ∈ loadTargetsColumns, columns.contains column = true := by
      intro column hc
      exact Bool.eq_true_of_not_eq_false (ha column hc)
    have h := hs fun _ _ => 0
    unfold Safe at h
    rw [step_of_columns hcl] at h
    exact rollbackRun_unsafe h
  · rintro ⟨column, hc, hm⟩ rank
    exact safe_of_missing hc hm

end Rollout
