import OxiBelt.Admin.RolloutState
import OxiBelt.RustStd.Result

/-!
# The rollout store (`admin_mutation/rollout_store*.rs`)

The rows of one clustered mutation and the tables its transactions read.  Each function is one
transaction: it returns the new tables, or an error and nothing changes.

* Coordinators: `acquireCoordinatorFence`, `applyTransitionPlan`, `guardedClusterFinish`.
* Members: `publishCheckpoint`, `publishResourceHead`, `transitionTargetFenced`.
* Queries: `loadTargets`, `loadMemberWork`.  A query selects columns by name, and `targetFromRow` reads
  columns by name; it fails on a row without one of them (`targetFromRow_eq_ok`).
-/

namespace Rollout

open RustStd

/-! ## Tables -/

structure MemberFence where
  (clusterId membershipRevision instanceId bootId : Str)
  instanceEpoch : Nat
  deriving DecidableEq

/-- The columns by which a mutation names its coordinator. -/
def MemberFence.sameBoot (member other : MemberFence) : Bool :=
  member.instanceId == other.instanceId && member.bootId == other.bootId && member.instanceEpoch == other.instanceEpoch

structure Heartbeat where
  fence : MemberFence
  (buildVersion capabilityVersion artifactKeyFingerprint : Str)
  ready : Bool
  /-- `lease_expires_at > now()`. -/
  live : Bool
  deriving DecidableEq

structure ResourceHead where
  (instanceId resource bootId : Str)
  instanceEpoch : Nat
  assignedRevision : Option Str
  (appliedRevision appliedDigest : Str)
  ready : Bool
  deriving DecidableEq

structure Checkpoint where
  instanceId : Str
  assignmentEpoch : Nat
  (candidateRevision candidateDigest priorRevision priorDigest : Str)
  /-- Nonce, digest and length of the ciphertext. -/
  sealed : Nat
  deriving DecidableEq

structure MutationRow where
  record : MutationRecord
  stateVersion : Nat
  admissionAuditConfirmed : Bool
  canaryInstanceId : Option Str
  coordinator : Option MemberFence
  coordinatorEpoch : Nat
  /-- `coordinator_lease_expires_at > now()`. -/
  coordinatorLive : Bool
  deriving DecidableEq

structure LogicalRevision where
  (committedRevision contentDigest : Str)
  deriving DecidableEq

structure Database where
  mutation : MutationRow
  targets : List RolloutTarget
  heartbeats : List Heartbeat
  heads : List ResourceHead
  checkpoints : List Checkpoint
  revision : LogicalRevision
  deriving DecidableEq

structure ExactMembership where
  (clusterId membershipRevision buildVersion capabilityVersion artifactKeyFingerprint : Str)
  baselineDigest : Str
  members : List MemberFence

structure CoordinatorFence where
  member : MemberFence
  exactMembership : ExactMembership
  (coordinatorEpoch mutationStateVersion : Nat)

/-! ## Queries -/

inductive TargetColumn where
  | instanceId | state | stateVersion | assignmentEpoch | bootId | instanceEpoch | effectStartedAt
  | validationRevision | validationDigest | appliedRevision | appliedDigest | restoredRevision
  | restoredDigest | errorCode
  deriving DecidableEq

/-- The columns of `load_targets`. -/
def loadTargetsColumns : List TargetColumn :=
  [.instanceId, .state, .stateVersion, .assignmentEpoch, .bootId, .instanceEpoch, .effectStartedAt,
    .validationRevision, .validationDigest, .appliedRevision, .appliedDigest, .restoredRevision,
    .restoredDigest, .errorCode]

/-- The columns of `load_member_work`. -/
def loadMemberWorkColumns : List TargetColumn :=
  [.instanceId, .state, .stateVersion, .assignmentEpoch, .bootId, .instanceEpoch, .effectStartedAt,
    .appliedRevision, .appliedDigest, .restoredRevision, .restoredDigest, .errorCode]

/-- `Row::try_get` by name. -/
def tryGet {α : Type} (columns : List TargetColumn) (column : TargetColumn) (value : α) : Result α :=
  if columns.contains column then .ok value else .error "no column found for name"

def targetFromRow (columns : List TargetColumn) (row : RolloutTarget) : Result RolloutTarget := do
  let instanceId ← tryGet columns .instanceId row.instanceId
  let state ← tryGet columns .state row.state
  let stateVersion ← tryGet columns .stateVersion row.stateVersion
  let assignmentEpoch ← tryGet columns .assignmentEpoch row.assignmentEpoch
  let bootId ← tryGet columns .bootId row.bootId
  let instanceEpoch ← tryGet columns .instanceEpoch row.instanceEpoch
  let effectStartedAt ← tryGet columns .effectStartedAt row.effectStartedAt
  let validationRevision ← tryGet columns .validationRevision row.validationRevision
  let validationDigest ← tryGet columns .validationDigest row.validationDigest
  let appliedRevision ← tryGet columns .appliedRevision row.appliedRevision
  let appliedDigest ← tryGet columns .appliedDigest row.appliedDigest
  let restoredRevision ← tryGet columns .restoredRevision row.restoredRevision
  let restoredDigest ← tryGet columns .restoredDigest row.restoredDigest
  let errorCode ← tryGet columns .errorCode row.errorCode
  return ⟨instanceId, state, stateVersion, assignmentEpoch, bootId, instanceEpoch, effectStartedAt,
    validationRevision, validationDigest, appliedRevision, appliedDigest, restoredRevision,
    restoredDigest, errorCode⟩

variable {columns : List TargetColumn}

theorem tryGet_eq_ok {α : Type} {column : TargetColumn} {value a : α} :
    tryGet columns column value = .ok a ↔ columns.contains column = true ∧ value = a := by
  unfold tryGet
  cases columns.contains column <;> simp

theorem targetFromRow_eq_ok {row target : RolloutTarget} : targetFromRow columns row = .ok target ↔
      (∀ column ∈ loadTargetsColumns, columns.contains column = true) ∧ row = target := by
  unfold targetFromRow
  simp only [bind_eq_ok, tryGet_eq_ok, loadTargetsColumns, List.forall_mem_cons, List.not_mem_nil,
    false_implies, implies_true, and_true, and_assoc, exists_and_left, exists_eq_left', pure, Except.pure,
    Except.ok.injEq]

variable (db : Database) (fence : CoordinatorFence) (member : MemberFence) (exact : ExactMembership)
  (transition : FencedTargetTransition)

def loadTargets : Result (List RolloutTarget) :=
  db.targets.mapM (targetFromRow loadTargetsColumns)

def isMemberWork (state : TargetState) : Bool :=
  state == .validating || state == .applyAssigned || state == .applying || state == .rollbackAssigned ||
    state == .rollingBack

/-- The rows of `load_member_work`. -/
def memberWorkRows : List RolloutTarget :=
  db.targets.filter fun target =>
    target.instanceId == member.instanceId && db.mutation.record.clusterId == member.clusterId &&
      db.mutation.record.membershipRevision == member.membershipRevision &&
      db.mutation.admissionAuditConfirmed && !db.mutation.record.state.isTerminal &&
      isMemberWork target.state

/-- `load_member_work`, for the columns that its query selects. -/
def loadMemberWork (columns : List TargetColumn) (db : Database) (member : MemberFence) :
    Result (List RolloutTarget) :=
  (memberWorkRows db member).mapM (targetFromRow columns)

theorem loadMemberWork_of_columns {db : Database} {member : MemberFence}
    (h : ∀ column ∈ loadTargetsColumns, columns.contains column = true) :
    loadMemberWork columns db member = .ok (memberWorkRows db member) := by
  unfold loadMemberWork
  induction memberWorkRows db member with
  | nil => rfl
  | cons row rows ih =>
    rw [List.mapM_cons, ih, targetFromRow_eq_ok.2 ⟨h, rfl⟩]
    rfl

theorem loadMemberWork_missing {column : TargetColumn} {db : Database} {member : MemberFence}
    {work : List RolloutTarget} (hc : column ∈ loadTargetsColumns) (hm : columns.contains column = false)
    (h : loadMemberWork columns db member = .ok work) :
    work = [] := by
  unfold loadMemberWork at h
  rcases hr : memberWorkRows db member with _ | ⟨row, rows⟩
  · rw [hr] at h
    cases h
    rfl
  rw [hr, List.mapM_cons, bind_eq_ok] at h
  obtain ⟨target, hrw, -⟩ := h
  have ha := (targetFromRow_eq_ok.1 hrw).1 column hc
  rw [hm] at ha
  exact absurd ha (by decide)

/-! ## Fences -/

def requireLiveMember : Result Unit :=
  ensure (db.heartbeats.any fun heartbeat =>
    heartbeat.fence == member && heartbeat.ready && heartbeat.live) "member authority was fenced"

def requireCurrentMemberBoot : Result Unit :=
  ensure (db.heartbeats.any fun heartbeat => heartbeat.fence == member && heartbeat.live)
    "resource head publisher was fenced"

def liveHeartbeats (clusterId : Str) : List Heartbeat :=
  db.heartbeats.filter fun heartbeat => heartbeat.fence.clusterId == clusterId && heartbeat.live

def lockExactMembership : Result Unit :=
  let rows := liveHeartbeats db exact.clusterId
  ensure (rows.length == exact.members.length &&
    (rows.zip exact.members).all fun (row, expected) =>
      row.fence.instanceId == expected.instanceId && row.fence.bootId == expected.bootId &&
        row.fence.instanceEpoch == expected.instanceEpoch &&
        row.fence.membershipRevision == exact.membershipRevision &&
        row.buildVersion == exact.buildVersion && row.capabilityVersion == exact.capabilityVersion &&
        row.artifactKeyFingerprint == exact.artifactKeyFingerprint && row.ready && row.live)
    "live Admin membership changed"

def headOf (instanceId bootId : Str) (instanceEpoch : Nat) : Option ResourceHead :=
  db.heads.find? fun head =>
    head.instanceId == instanceId && head.resource == db.mutation.record.resource &&
      head.bootId == bootId && head.instanceEpoch == instanceEpoch

/-- The head is ready and shows this revision; a missing head is distinct from any value. -/
def headShows (head : Option ResourceHead) (revision digest : Str) : Bool :=
  head.any fun head => head.appliedRevision == revision && head.appliedDigest == digest && head.ready

/-- The evidence of one target against its live head.  In the last case a missing head makes the
comparison NULL, which does not count. -/
def evidenceInvalid (baselineDigest : Str) (target : RolloutTarget) (heartbeat : Heartbeat) : Bool :=
  let record := db.mutation.record
  let head := headOf db target.instanceId heartbeat.fence.bootId heartbeat.fence.instanceEpoch
  match target.state with
  | .pending | .validating | .validated | .applyAssigned | .rolledBack =>
    !headShows head record.expectedPreviousRevision baselineDigest
  | .acked => !headShows head record.newRevision record.contentDigest
  | .applying | .nacked | .rollbackAssigned | .rollingBack | .rollbackFailed =>
    head.any fun head =>
      !((head.appliedRevision == record.expectedPreviousRevision && head.appliedDigest == baselineDigest) ||
        (head.appliedRevision == record.newRevision && head.appliedDigest == record.contentDigest))

def validateActiveMemberEvidence : Result Unit := do
  ensure (db.targets.length == exact.members.length) "active rollout target membership is not exact"
  ensure (db.targets.all fun target =>
    (db.heartbeats.filter fun heartbeat => heartbeat.fence.clusterId == db.mutation.record.clusterId &&
      heartbeat.fence.instanceId == target.instanceId).all fun heartbeat =>
        !evidenceInvalid db exact.baselineDigest target heartbeat)
    "active rollout member evidence is inconsistent"

/-! ## Coordinator transactions -/

/-- `acquire_coordinator_fence`; no fence if another coordinator holds the lease. -/
def acquireCoordinatorFence : Result (Option CoordinatorFence × Database) := do
  ensure (exact.members.contains member) "coordinator member is outside exact membership"
  lockExactMembership db exact
  ensure db.mutation.admissionAuditConfirmed "cluster mutation admission is not externally anchored"
  ensure (!db.mutation.record.state.isTerminal) "terminal mutation cannot acquire coordinator authority"
  ensure (db.mutation.record.clusterId == member.clusterId &&
    db.mutation.record.membershipRevision == member.membershipRevision) "coordinator target mismatch"
  validateActiveMemberEvidence db exact
  let same := db.mutation.coordinator.any (·.sameBoot member)
  if db.mutation.coordinatorLive && !same then return (none, db)
  let epoch := if same && db.mutation.coordinatorLive then db.mutation.coordinatorEpoch
    else db.mutation.coordinatorEpoch + 1
  return (some ⟨member, exact, epoch, db.mutation.stateVersion⟩,
    { db with
      mutation :=
        { db.mutation with coordinator := some member, coordinatorEpoch := epoch, coordinatorLive := true } })

def lockCoordinator (expectedState : Option MutationState) (requireExactMembership : Bool) : Result Unit := do
  if requireExactMembership then lockExactMembership db fence.exactMembership
  ensure (db.mutation.coordinator.any (·.sameBoot fence.member) &&
    db.mutation.coordinatorEpoch == fence.coordinatorEpoch && db.mutation.coordinatorLive)
    "coordinator authority was fenced"
  if requireExactMembership then validateActiveMemberEvidence db fence.exactMembership
  ensure (db.mutation.stateVersion == fence.mutationStateVersion)
    "coordinator mutation version was fenced"
  ensure (expectedState.all fun expected => db.mutation.record.state == expected)
    "coordinator mutation state changed"

def updateTarget (instanceId : Str) (change : RolloutTarget → RolloutTarget) : Database :=
  { db with
    targets := db.targets.map fun target =>
      if target.instanceId == instanceId then change target else target }

def applyTargetPlan (db : Database) (plan : TargetPlan) : Result Database := do
  let row ← context (db.targets.find? (·.instanceId == plan.instanceId)) "rollout target missing"
  ensure (row.state == plan.expectedState && row.stateVersion == plan.expectedStateVersion)
    "rollout target plan CAS conflict"
  ensure (row.state.mayTransitionTo plan.nextState) "invalid target plan transition"
  let assignment := plan.nextState == .validating || plan.nextState == .applyAssigned
  return updateTarget db plan.instanceId fun target =>
    { target with
      state := plan.nextState
      stateVersion := target.stateVersion + 1
      assignmentEpoch := if assignment then fence.coordinatorEpoch else target.assignmentEpoch }

def applyTransitionPlan (rank : Str → Str → Nat) (db : Database) (fence : CoordinatorFence)
    (plan : RolloutTransitionPlan) : Result Database := do
  let compensating := plan.nextState == some .rollingBack || plan.expectedState == .rollingBack ||
    (!plan.targets.isEmpty && plan.targets.all fun target =>
      target.nextState == .rollbackAssigned || target.nextState == .rollingBack)
  lockCoordinator db fence (some plan.expectedState) (!compensating)
  ensure (plan.canaryInstanceId.all fun canary =>
    deterministicCanary rank db.mutation.record.requestId (db.targets.map (·.instanceId)) == some canary)
    "rollout canary is not the deterministic fixed-member selection"
  ensure (plan.canaryInstanceId.all fun canary =>
    db.mutation.canaryInstanceId.all fun persisted => persisted == canary)
    "rollout canary conflicts with the persisted selection"
  let db ← plan.targets.foldlM (applyTargetPlan fence) db
  match plan.nextState with
  | none => return db
  | some next => do
    ensure (plan.expectedState.mayTransitionTo next) "invalid mutation plan transition"
    return { db with
      mutation :=
        { db.mutation with
          record := { db.mutation.record with state := next }
          stateVersion := db.mutation.stateVersion + 1
          canaryInstanceId := db.mutation.canaryInstanceId.or plan.canaryInstanceId } }

/-- The live acknowledgement of one target.  Comparisons with NULL do not count; a missing heartbeat
leaves the head missing. -/
def commitInvalid (target : RolloutTarget) : Bool :=
  let record := db.mutation.record
  let heartbeat := db.heartbeats.find? fun heartbeat =>
    heartbeat.fence.clusterId == record.clusterId && heartbeat.fence.instanceId == target.instanceId
  let head := heartbeat.bind fun heartbeat =>
    headOf db target.instanceId heartbeat.fence.bootId heartbeat.fence.instanceEpoch
  target.state != .acked || target.appliedRevision.any (· != record.newRevision) ||
    target.appliedDigest.any (· != record.contentDigest) ||
    (heartbeat.any fun heartbeat =>
      target.bootId.any (heartbeat.fence.bootId != ·) ||
        target.instanceEpoch.any (heartbeat.fence.instanceEpoch != ·) || !heartbeat.ready ||
        heartbeat.fence.membershipRevision != record.membershipRevision || !heartbeat.live) ||
    !headShows head record.newRevision record.contentDigest

def verifyCommit : Result Unit := do
  ensure (db.mutation.record.state == .fullyApplied) "cluster commit requires fully_applied state"
  ensure (2 ≤ db.targets.length && db.targets.length ≤ 1024) "cluster commit target set is incomplete"
  ensure (db.targets.all fun target => !commitInvalid db target)
    "cluster commit lacks exact live ACK evidence"
  ensure ((liveHeartbeats db db.mutation.record.clusterId).all fun heartbeat =>
    heartbeat.fence.membershipRevision == db.mutation.record.membershipRevision &&
      db.targets.any (·.instanceId == heartbeat.fence.instanceId)) "cluster commit membership is not exact"

def verifyNotApplied : Result Unit :=
  ensure (db.targets.all (·.effectStartedAt.isNone)) "failed is unsafe after a target may have applied"

def restoreInvalid (target : RolloutTarget) : Bool :=
  let record := db.mutation.record
  let head := target.bootId.bind fun bootId => target.instanceEpoch.bind fun instanceEpoch =>
    headOf db target.instanceId bootId instanceEpoch
  target.effectStartedAt.isSome && (target.state != .rolledBack ||
    target.restoredRevision.any (· != record.expectedPreviousRevision) ||
    target.restoredDigest.any (· != db.revision.contentDigest) ||
    !headShows head record.expectedPreviousRevision db.revision.contentDigest)

def verifyRestored : Result Unit :=
  ensure (db.targets.all fun target => !restoreInvalid db target)
    "cluster rollback lacks exact restoration evidence"

def verifyTerminal : MutationState → Result Unit
  | .committed => verifyCommit db
  | .failed => verifyNotApplied db
  | .rolledBack => verifyRestored db
  | .rollbackFailed | .indeterminate => pure ()
  | _ => .error "unsupported cluster terminal state"

/-- `guarded_cluster_finish_tx`. -/
def guardedClusterFinish (terminal : MutationState) : Result Database := do
  lockCoordinator db fence none (terminal == .committed)
  verifyTerminal db terminal
  ensure (db.mutation.record.state.mayTransitionTo terminal) "invalid mutation terminal transition"
  let record := db.mutation.record
  ensure (terminal != .committed || db.revision.committedRevision == record.expectedPreviousRevision)
    "logical revision commit conflict"
  return { db with
    revision := if terminal == .committed then ⟨record.newRevision, record.contentDigest⟩ else db.revision
    mutation :=
      { db.mutation with
        record := { record with state := terminal }
        stateVersion := db.mutation.stateVersion + 1
        coordinator := none
        coordinatorLive := false } }

/-! ## Member transactions -/

def isAsciiGraphic (c : Char) : Bool := '!' ≤ c && c ≤ '~'

def validateIdentifier (name : String) (value : Str) (maximumBytes : Nat) : Result Unit := do
  ensure (!value.isEmpty) (name ++ " must not be empty")
  ensure ((asBytes value).length ≤ maximumBytes) (name ++ " exceeds " ++ toString maximumBytes ++ " bytes")
  ensure (value.all fun c => isAsciiGraphic c && c != '\'' && c != '"')
    (name ++ " contains unsupported characters")

def isSha256Digest (value : Str) : Bool :=
  (asBytes value).length == 71 && "sha256:".toList.isPrefixOf value &&
    (value.drop 7).all fun c => isAsciiDigit c || ('a' ≤ c && c ≤ 'f')

/-- `publish_checkpoint`: whether the checkpoint was inserted. -/
def publishCheckpoint (checkpoint : Checkpoint) : Result (Bool × Database) := do
  requireLiveMember db member
  let record := db.mutation.record
  let bound := db.targets.any fun target =>
    target.instanceId == member.instanceId && target.assignmentEpoch == checkpoint.assignmentEpoch &&
      (target.state == .applyAssigned || target.state == .applying)
  let current := record.newRevision == checkpoint.candidateRevision &&
    record.contentDigest == checkpoint.candidateDigest &&
    record.expectedPreviousRevision == checkpoint.priorRevision &&
    db.revision.committedRevision == checkpoint.priorRevision &&
    db.revision.contentDigest == checkpoint.priorDigest
  if bound && current && !db.checkpoints.any (·.instanceId == member.instanceId) then
    return (true, { db with checkpoints := db.checkpoints ++ [{ checkpoint with instanceId := member.instanceId }] })
  ensure (db.checkpoints.contains { checkpoint with instanceId := member.instanceId })
    "rollback checkpoint binding conflict"
  return (false, db)

/-- `ensure_observer_checkpoint`: the checkpoint of the assignment is bound like this one, or this one is
published. -/
def ensureObserverCheckpoint (checkpoint : Checkpoint) : Result Database := do
  requireLiveMember db member
  match db.checkpoints.find? fun row =>
    row.instanceId == member.instanceId && row.assignmentEpoch == checkpoint.assignmentEpoch with
  | some row => do
    ensure (row.candidateRevision == checkpoint.candidateRevision &&
      row.candidateDigest == checkpoint.candidateDigest && row.priorRevision == checkpoint.priorRevision &&
      row.priorDigest == checkpoint.priorDigest)
      "shared observer checkpoint conflicts with its rollout binding"
    return db
  | none => do
    let (_, db) ← publishCheckpoint db member checkpoint
    return db

structure ResourceHeadUpdate where
  assignedRevision : Option Str
  (appliedRevision appliedDigest : Str)
  ready : Bool
  deriving DecidableEq

def ResourceHeadUpdate.validate (update : ResourceHeadUpdate) : Result Unit := do
  validateIdentifier "applied_revision" update.appliedRevision 256
  validateIdentifier "applied_digest" update.appliedDigest 256
  ensure (isSha256Digest update.appliedDigest) "resource head digest must be canonical SHA-256"
  match update.assignedRevision with
  | none => return ()
  | some assigned => do
    validateIdentifier "assigned_revision" assigned 256
    ensure (!update.ready || assigned == update.appliedRevision)
      "ready resource head has not applied its assignment"

/-- `publish_resource_head`, for the resource of the mutation. -/
def publishResourceHead (update : ResourceHeadUpdate) : Result Database := do
  update.validate
  requireCurrentMemberBoot db member
  let resource := db.mutation.record.resource
  let head : ResourceHead :=
    { instanceId := member.instanceId, resource, bootId := member.bootId,
      instanceEpoch := member.instanceEpoch, assignedRevision := update.assignedRevision,
      appliedRevision := update.appliedRevision, appliedDigest := update.appliedDigest,
      ready := update.ready }
  let others := db.heads.filter fun row =>
    !(row.instanceId == member.instanceId && row.resource == resource)
  return { db with heads := others ++ [head] }

structure FencedTargetTransition where
  expectedState : TargetState
  (expectedStateVersion assignmentEpoch : Nat)
  nextState : TargetState
  effectStarted : Bool
  (validationRevision validationDigest appliedRevision appliedDigest restoredRevision : Option Str)
  (restoredDigest errorCode : Option Str)

def FencedTargetTransition.texts : List (String × Option Str) :=
  [("validation_revision", transition.validationRevision),
    ("validation_digest", transition.validationDigest),
    ("applied_revision", transition.appliedRevision), ("applied_digest", transition.appliedDigest),
    ("restored_revision", transition.restoredRevision), ("restored_digest", transition.restoredDigest),
    ("error_code", transition.errorCode)]

/-- `verify_evidence`: the evidence is what is expected and what the live head shows. -/
def verifyEvidence (revision digest : Option Str)
    (expectedRevision expectedDigest : Str) (kind : String) : Result Unit := do
  ensure (revision == some expectedRevision && digest == some expectedDigest)
    (kind ++ " evidence does not match the durable mutation")
  ensure (headShows (headOf db member.instanceId member.bootId member.instanceEpoch) expectedRevision
    expectedDigest) (kind ++ " evidence does not match the live member resource head")

/-- What a transition to `validated` must show. -/
def verifyValidation (record : MutationRecord) (transition : FencedTargetTransition) : Result Unit := do
  let revision ← context transition.validationRevision
    "validated target must provide its runtime revision"
  let digest ← context transition.validationDigest
    "validated target must provide its reference-set digest"
  ensure (revision == record.newRevision)
    "validated target runtime revision does not match the durable mutation"
  ensure (isSha256Digest digest) "validated target reference-set digest is invalid"

/-- A side effect needs a checkpoint that binds candidate and prior state. -/
def verifyCheckpoint : Result Unit := do
  ensure transition.effectStarted "side-effect transitions must durably mark effect_started"
  let record := db.mutation.record
  ensure (db.checkpoints.any fun checkpoint =>
    checkpoint.instanceId == member.instanceId && checkpoint.assignmentEpoch == transition.assignmentEpoch &&
      checkpoint.candidateRevision == record.newRevision &&
      checkpoint.candidateDigest == record.contentDigest &&
      checkpoint.priorRevision == record.expectedPreviousRevision &&
      checkpoint.priorDigest == db.revision.contentDigest)
    "side-effect transition requires a bound rollback checkpoint"

def verifyNextState : Result Unit :=
  let record := db.mutation.record
  match transition.nextState with
  | .validated => verifyValidation record transition
  | .applying | .rollingBack => verifyCheckpoint db member transition
  | .acked => verifyEvidence db member transition.appliedRevision transition.appliedDigest
      record.newRevision record.contentDigest "ACK"
  | .rolledBack => verifyEvidence db member transition.restoredRevision transition.restoredDigest
      record.expectedPreviousRevision db.revision.contentDigest "rollback"
  | .nacked | .rollbackFailed =>
    ensure transition.errorCode.isSome "failure transition requires an error code"
  | _ => pure ()

/-- `transition_target_fenced`, at the time `now`. -/
def transitionTargetFenced (now : Nat) : Result Database := do
  ensure (transition.expectedState.mayTransitionTo transition.nextState) "invalid fenced target transition"
  transition.texts.forM fun (name, value) =>
    match value with
    | some value => validateIdentifier name value 256
    | none => pure ()
  requireLiveMember db member
  let row ← context (db.targets.find? (·.instanceId == member.instanceId))
    "assigned rollout target missing"
  ensure (row.state == transition.expectedState && row.stateVersion == transition.expectedStateVersion &&
    row.assignmentEpoch == transition.assignmentEpoch) "target assignment was fenced"
  verifyNextState db member transition
  return updateTarget db member.instanceId fun target =>
    { target with
      state := transition.nextState
      stateVersion := target.stateVersion + 1
      bootId := some member.bootId
      instanceEpoch := some member.instanceEpoch
      effectStartedAt :=
        if transition.effectStarted then target.effectStartedAt.or (some now) else target.effectStartedAt
      validationRevision := transition.validationRevision.or target.validationRevision
      validationDigest := transition.validationDigest.or target.validationDigest
      appliedRevision := transition.appliedRevision.or target.appliedRevision
      appliedDigest := transition.appliedDigest.or target.appliedDigest
      restoredRevision := transition.restoredRevision.or target.restoredRevision
      restoredDigest := transition.restoredDigest.or target.restoredDigest
      errorCode := transition.errorCode }

end Rollout
