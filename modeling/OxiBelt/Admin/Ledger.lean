import OxiBelt.Admin.RolloutStore
import OxiBelt.Lib.Table
import OxiBelt.Lib.Transition

/-!
# The mutation ledger (`admin_mutation/store.rs`, `admin_mutation/ledger.rs`)

A resource has a committed revision and room for one reservation.  A claim enters a mutation for the next revision and
reserves the resource; a finish commits the revision, releases the reservation, or leaves the resource blocked.

Each transaction locks the rows that it reads and is taken as one step.  Under the lock the second look of a claim for
its request finds what the first one found, and so it is made once.  The text of a response is a parameter, with the
check that it holds nothing secret.

`ledger_serializes` is about any sequence of claims and finishes, with initialisations, transitions, confirmations,
membership cutovers and clean-ups in between.
-/

namespace Rollout

/-- `blocks_resource`. -/
def MutationState.blocksResource : MutationState → Bool
  | .rollbackFailed | .indeterminate => true
  | _ => false

end Rollout

namespace MutationLedger

open RustStd Rollout List Table

/-! ## Records -/

inductive StoreRolloutMode where
  | singleInstance
  | adminCluster
  deriving DecidableEq

structure MutationClaim where
  (requestId fingerprint principal signerId action resource expectedPreviousRevision : Str)
  (newRevision contentDigest : Str)
  (clusterId membershipRevision : Option Str)
  (issuedAt expiresAt allowedClockSkewSeconds retentionSeconds auditRecordId : Int)
  deriving DecidableEq

def MutationClaim.validate (claim : MutationClaim) : Result Unit := do
  [("request_id", claim.requestId), ("fingerprint", claim.fingerprint), ("principal", claim.principal),
    ("signer_id", claim.signerId), ("action", claim.action), ("resource", claim.resource),
    ("expected_previous_revision", claim.expectedPreviousRevision), ("new_revision", claim.newRevision),
    ("content_digest", claim.contentDigest)].forM fun (name, value) => validateIdentifier name value 256
  claim.clusterId.forM fun value => validateIdentifier "cluster_id" value 256
  claim.membershipRevision.forM fun value => validateIdentifier "membership_revision" value 256
  ensure (claim.clusterId.isSome == claim.membershipRevision.isSome)
    "cluster_id and membership_revision must be provided together"
  ensure (claim.expectedPreviousRevision != claim.newRevision)
    "new_revision must differ from expected_previous_revision"
  ensure (0 < claim.auditRecordId) "audit_record_id must be positive"
  ensure (0 ≤ claim.allowedClockSkewSeconds && claim.allowedClockSkewSeconds ≤ 300)
    "allowed_clock_skew_seconds must be between 0 and 300"
  ensure (1 ≤ claim.retentionSeconds && claim.retentionSeconds ≤ 31536000)
    "retention_seconds must be between 1 and 31536000"

/-- A row of `oxibelt_admin_mutation_revisions`. -/
structure RevisionRow where
  (storeNamespace resource committedRevision contentDigest : Str)
  (clusterId membershipRevision pendingRequestId pendingRevision : Option Str)
  deriving DecidableEq

structure TerminalMutation (Value : Type) where
  state : MutationState
  httpStatus : Nat
  safeResponse : Option Value
  errorCode : Option Str
  terminalAuditRecordId : Int
  auditAnchorRequired : Bool

/-- A row of `oxibelt_admin_mutations`. -/
structure LedgerRow (Value : Type) where
  (storeNamespace requestId fingerprint principal signerId action resource : Str)
  (expectedPreviousRevision newRevision contentDigest : Str)
  (clusterId membershipRevision : Option Str)
  rolloutMode : StoreRolloutMode
  state : MutationState
  httpStatus : Option Nat
  safeResponse : Option Value
  errorCode : Option Str
  auditRecordId : Int
  terminalAuditRecordId : Option Int
  terminalAuditConfirmed : Bool
  (issuedAt expiresAt : Int)
  deriving DecidableEq

inductive ClaimOutcome (Value : Type) where
  | claimed (record : LedgerRow Value)
  | replay (record : LedgerRow Value)
  | inProgress (record : LedgerRow Value)
  | requestConflict
  | expired
  | revisionConflict (actualRevision : Option Str)
  | revisionBusy (requestId : Str)
  | targetConflict

structure Tables (Value : Type) where
  revisions : List RevisionRow
  mutations : List (LedgerRow Value)

variable {Value : Type} (validateSafeResponse : Value → Result Unit)

def TerminalMutation.validate (terminal : TerminalMutation Value) : Result Unit := do
  ensure terminal.state.isTerminal "terminal mutation state required"
  ensure (100 ≤ terminal.httpStatus && terminal.httpStatus ≤ 599) "http_status must be between 100 and 599"
  ensure (0 < terminal.terminalAuditRecordId) "terminal_audit_record_id must be positive"
  terminal.errorCode.forM fun errorCode => validateIdentifier "error_code" errorCode 128
  terminal.safeResponse.forM validateSafeResponse

namespace LedgerRow

variable (row : LedgerRow Value)

def key : Str × Str := (row.storeNamespace, row.requestId)

def resourceKey : Str × Str := (row.storeNamespace, row.resource)

def terminalResponseReady : Bool := row.state.isTerminal && row.terminalAuditConfirmed

def classifyExistingClaim (claim : MutationClaim) : ClaimOutcome Value :=
  if row.fingerprint != claim.fingerprint || row.principal != claim.principal then .requestConflict
  else if row.terminalResponseReady then .replay row
  else .inProgress row

end LedgerRow

def RevisionRow.key (row : RevisionRow) : Str × Str := (row.storeNamespace, row.resource)

/-- `select_mutation`. -/
def Tables.select (t : Tables Value) (storeNamespace requestId : Str) : Option (LedgerRow Value) :=
  Table.select LedgerRow.key t.mutations (storeNamespace, requestId)

/-- An `UPDATE` of the mutation with a key. -/
def Tables.update (t : Tables Value) (storeNamespace requestId : Str) (change : LedgerRow Value → LedgerRow Value) :
    Tables Value :=
  { t with mutations := Table.update LedgerRow.key t.mutations (storeNamespace, requestId) change }

/-- An `UPDATE` of the revision with a key that has to affect one row. -/
def updateOne (rows : List RevisionRow) (k : Str × Str) (guarded : RevisionRow → Bool)
    (change : RevisionRow → RevisionRow) (message : String) : Result (List RevisionRow) := do
  ensure (rows.countP (fun row => row.key == k && guarded row) == 1) message
  return rows.map fun row => if row.key == k && guarded row then change row else row

/-! ## Transactions -/

def MutationClaim.row (claim : MutationClaim) (storeNamespace : Str) (mode : StoreRolloutMode) : LedgerRow Value :=
  { storeNamespace
    requestId := claim.requestId
    fingerprint := claim.fingerprint
    principal := claim.principal
    signerId := claim.signerId
    action := claim.action
    resource := claim.resource
    expectedPreviousRevision := claim.expectedPreviousRevision
    newRevision := claim.newRevision
    contentDigest := claim.contentDigest
    clusterId := claim.clusterId
    membershipRevision := claim.membershipRevision
    rolloutMode := mode
    state := .claimed
    httpStatus := none
    safeResponse := none
    errorCode := none
    auditRecordId := claim.auditRecordId
    terminalAuditRecordId := none
    terminalAuditConfirmed := false
    issuedAt := claim.issuedAt
    expiresAt := claim.expiresAt }

variable (revisions : List RevisionRow) (current : LedgerRow Value) (t : Tables Value)
  (storeNamespace requestId : Str)

def reserveRevision (record : LedgerRow Value) : Result (List RevisionRow) :=
  updateOne revisions record.resourceKey
    (fun row => row.committedRevision == record.expectedPreviousRevision && row.pendingRequestId == none)
    (fun row => { row with
      pendingRequestId := some record.requestId
      pendingRevision := some record.newRevision })
    "mutation revision reservation was lost"

def advanceRevision : Result (List RevisionRow) :=
  updateOne revisions current.resourceKey
    (fun row => row.committedRevision == current.expectedPreviousRevision &&
      row.pendingRequestId == some current.requestId && row.pendingRevision == some current.newRevision)
    (fun row => { row with
      committedRevision := current.newRevision
      contentDigest := current.contentDigest
      membershipRevision := current.membershipRevision.or row.membershipRevision
      pendingRequestId := none
      pendingRevision := none })
    "logical revision commit conflict"

def releaseRevisionReservation : Result (List RevisionRow) :=
  updateOne revisions current.resourceKey (fun row => row.pendingRequestId == some current.requestId)
    (fun row => { row with pendingRequestId := none, pendingRevision := none })
    "logical revision reservation conflict"

/-- `claim_tx_with_mode`.  Times are in microseconds. -/
def claimTxWithMode (now : Int) (t : Tables Value) (storeNamespace : Str) (mode : StoreRolloutMode)
    (claim : MutationClaim) : Result (ClaimOutcome Value × Tables Value) := do
  claim.validate
  ensure (isSha256Digest claim.contentDigest && claim.membershipRevision.all isSha256Digest)
    "mutation claim digests must be canonical SHA-256"
  match t.select storeNamespace claim.requestId with
  | some record => return (record.classifyExistingClaim claim, t)
  | none =>
    if !(claim.issuedAt ≤ now + 1000000 * claim.allowedClockSkewSeconds && now < claim.expiresAt) then
      return (.expired, t)
    else
      match Table.select RevisionRow.key t.revisions (storeNamespace, claim.resource) with
      | none => return (.revisionConflict none, t)
      | some revision =>
        if revision.committedRevision != claim.expectedPreviousRevision then
          return (.revisionConflict (some revision.committedRevision), t)
        else if revision.clusterId != claim.clusterId || revision.membershipRevision != claim.membershipRevision then
          return (.targetConflict, t)
        else
          match revision.pendingRequestId with
          | some requestId => return (.revisionBusy requestId, t)
          | none => do
            -- the checks and the unique index of the table
            ensure (claim.issuedAt < claim.expiresAt) "new row violates check constraint"
            ensure (!t.mutations.any fun row => row.storeNamespace == storeNamespace &&
                row.resource == claim.resource && row.newRevision == claim.newRevision)
              "duplicate key value violates unique constraint"
            let record := claim.row storeNamespace mode
            let revisions ← reserveRevision t.revisions record
            return (.claimed record, ⟨revisions, t.mutations ++ [record]⟩)

def settleRevision (state : MutationState) : Result (List RevisionRow) :=
  if state == .committed then advanceRevision revisions current
  else if !state.blocksResource then releaseRevisionReservation revisions current
  else return revisions

def LedgerRow.finished (row : LedgerRow Value) (terminal : TerminalMutation Value) : LedgerRow Value :=
  { row with
    state := terminal.state
    httpStatus := some terminal.httpStatus
    safeResponse := terminal.safeResponse
    errorCode := terminal.errorCode
    terminalAuditRecordId := some terminal.terminalAuditRecordId
    terminalAuditConfirmed := !terminal.auditAnchorRequired }

/-- `finish_tx_inner`. -/
def finishTxInner [DecidableEq Value] (t : Tables Value) (storeNamespace requestId : Str)
    (terminal : TerminalMutation Value) (clusterAuthorized : Bool) : Result (LedgerRow Value × Tables Value) := do
  terminal.validate validateSafeResponse
  let current ← context (t.select storeNamespace requestId) "mutation record not found"
  ensure ((clusterAuthorized && current.rolloutMode == .adminCluster) ||
    (!clusterAuthorized && current.rolloutMode == .singleInstance))
    "mutation finalization does not match the durable rollout mode"
  if current.state.isTerminal then do
    ensure (current.state == terminal.state) "terminal mutation result conflicts"
    ensure (current.httpStatus == some terminal.httpStatus && current.safeResponse == terminal.safeResponse &&
      current.errorCode == terminal.errorCode &&
      current.terminalAuditRecordId == some terminal.terminalAuditRecordId)
      "terminal mutation payload conflicts"
    return (current, t)
  else do
    ensure (current.state.mayTransitionTo terminal.state) "invalid mutation terminal transition"
    let revisions ← settleRevision t.revisions current terminal.state
    return (current.finished terminal,
      { t with revisions }.update storeNamespace requestId (·.finished terminal))

/-- `initialize_revision`, for a row without a reservation. -/
def initializeRevision (row : RevisionRow) : Result (Tables Value) := do
  validateIdentifier "resource" row.resource 256
  validateIdentifier "revision" row.committedRevision 256
  validateIdentifier "content_digest" row.contentDigest 256
  ensure (isSha256Digest row.contentDigest) "content_digest must be canonical SHA-256"
  row.clusterId.forM fun value => validateIdentifier "cluster_id" value 256
  row.membershipRevision.forM fun value => do
    validateIdentifier "membership_revision" value 256
    ensure (isSha256Digest value) "membership_revision must be canonical SHA-256"
  ensure (row.clusterId.isSome == row.membershipRevision.isSome)
    "cluster_id and membership_revision must be provided together"
  match Table.select RevisionRow.key t.revisions row.key with
  | none => return { t with revisions := t.revisions ++ [row] }
  | some existing => do
    ensure (existing.committedRevision == row.committedRevision && existing.contentDigest == row.contentDigest &&
      existing.clusterId == row.clusterId && existing.membershipRevision == row.membershipRevision)
      "configured runtime does not match the durable mutation head"
    return t

/-- `transition_tx`. -/
def transitionTx (next : MutationState) : Result (Tables Value) := do
  let current ← context (t.select storeNamespace requestId) "mutation record not found"
  ensure (current.rolloutMode == .singleInstance) "cluster mutation transitions require a coordinator fence"
  ensure (current.state.mayTransitionTo next) "invalid mutation state transition"
  ensure (!next.isTerminal) "use finish_tx for terminal transitions"
  return t.update storeNamespace requestId fun row => { row with state := next }

/-- What a coordinator that holds the lease does to the state with the plan for a directive. -/
def planTx (record : MutationRecord) (directive : RolloutDirective) : Result (Tables Value) := do
  let current ← context (t.select storeNamespace requestId) "coordinator authority was fenced"
  ensure (current.rolloutMode == .adminCluster) "coordinator authority was fenced"
  ensure (current.state == record.state) "coordinator mutation state changed"
  match planned record directive with
  | some (some next, _) => do
    ensure (record.state.mayTransitionTo next) "invalid mutation plan transition"
    return t.update storeNamespace requestId fun row => { row with state := next }
  | _ => return t

/-- `confirm_terminal_audit`. -/
def confirmTerminalAudit (terminalAuditRecordId : Int) : Result (Tables Value) := do
  validateIdentifier "request_id" requestId 256
  ensure (0 < terminalAuditRecordId) "terminal_audit_record_id must be positive"
  let current ← context (t.select storeNamespace requestId)
    "terminal Admin mutation changed before audit anchor confirmation"
  ensure (current.terminalAuditRecordId == some terminalAuditRecordId && current.state.isTerminal)
    "terminal Admin mutation changed before audit anchor confirmation"
  return t.update storeNamespace requestId fun row => { row with terminalAuditConfirmed := true }

def cutoverMembership (storeNamespace clusterId targetEpochDigest : Str) : Tables Value :=
  { t with revisions := t.revisions.map fun row =>
      if row.storeNamespace == storeNamespace && row.clusterId == some clusterId then
        { row with membershipRevision := some targetEpochDigest }
      else row }

/-- `delete_expired_terminal_records`.  The rows that are past their retention and that no activation needs are a
parameter. -/
def deleteExpiredTerminalRecords (storeNamespace : Str) (expired : LedgerRow Value → Bool) : Tables Value :=
  { t with mutations := t.mutations.filter fun row =>
      !(row.storeNamespace == storeNamespace && expired row &&
        (row.state == .committed || row.state == .failed || row.state == .rolledBack) &&
        row.terminalAuditConfirmed &&
        !t.revisions.any fun revision => revision.key == row.resourceKey &&
          revision.committedRevision == row.newRevision && revision.contentDigest == row.contentDigest) }

/-! ## Histories -/

inductive Transaction (Value : Type) where
  | initializeRevision (row : RevisionRow)
  | claim (now : Int) (storeNamespace : Str) (mode : StoreRolloutMode) (claim : MutationClaim)
  | finish (storeNamespace requestId : Str) (terminal : TerminalMutation Value) (clusterAuthorized : Bool)
  | transition (storeNamespace requestId : Str) (next : MutationState)
  | plan (storeNamespace requestId : Str) (record : MutationRecord) (directive : RolloutDirective)
  | confirmTerminalAudit (storeNamespace requestId : Str) (terminalAuditRecordId : Int)
  | cutoverMembership (storeNamespace clusterId targetEpochDigest : Str)
  | deleteExpired (storeNamespace : Str) (expired : LedgerRow Value → Bool)

def execute [DecidableEq Value] (t : Tables Value) : Transaction Value → Result (Tables Value)
  | .initializeRevision row =>
    initializeRevision t { row with pendingRequestId := none, pendingRevision := none }
  | .claim now storeNamespace mode claim => (·.2) <$> claimTxWithMode now t storeNamespace mode claim
  | .finish storeNamespace requestId terminal clusterAuthorized =>
    (·.2) <$> finishTxInner validateSafeResponse t storeNamespace requestId terminal clusterAuthorized
  | .transition storeNamespace requestId next => transitionTx t storeNamespace requestId next
  | .plan storeNamespace requestId record directive => planTx t storeNamespace requestId record directive
  | .confirmTerminalAudit storeNamespace requestId terminalAuditRecordId =>
    confirmTerminalAudit t storeNamespace requestId terminalAuditRecordId
  | .cutoverMembership storeNamespace clusterId targetEpochDigest =>
    .ok (cutoverMembership t storeNamespace clusterId targetEpochDigest)
  | .deleteExpired storeNamespace expired => .ok (deleteExpiredTerminalRecords t storeNamespace expired)

def newlyCommitted (before later : Tables Value) : List (LedgerRow Value) :=
  later.mutations.filter fun row =>
    row.state == .committed && !(before.select row.storeNamespace row.requestId).any (·.state == .committed)

/-- The tables, with the mutations as they were committed. -/
structure History (Value : Type) where
  tables : Tables Value
  commits : List (LedgerRow Value)

/-- A transaction that fails is rolled back. -/
def History.step [DecidableEq Value] (h : History Value) (transaction : Transaction Value) : History Value :=
  match execute validateSafeResponse h.tables transaction with
  | .ok tables => ⟨tables, h.commits ++ newlyCommitted h.tables tables⟩
  | .error _ => h

def history [DecidableEq Value] (transactions : List (Transaction Value)) : History Value :=
  Transition.run (History.step validateSafeResponse) ⟨⟨[], []⟩, []⟩ transactions

/-! ## What a transaction can write -/

variable {row other : LedgerRow Value}

namespace LedgerRow

/-- What is never changed in a row. -/
def identity (row : LedgerRow Value) : (Str × Str) × Str × Str × Str :=
  (row.key, row.resource, row.expectedPreviousRevision, row.newRevision)

/-- Unfinished, or finished in a way that blocks the resource. -/
def active (row : LedgerRow Value) : Bool := !row.state.isTerminal || row.state.blocksResource

theorem key_eq_of_identity (h : row.identity = other.identity) : row.key = other.key := congrArg (·.1) h

theorem resourceKey_eq_of_identity (h : row.identity = other.identity) : row.resourceKey = other.resourceKey :=
  Prod.ext (congrArg (·.1.1) h) (congrArg (·.2.1) h)

end LedgerRow

open LedgerRow

structure Tables.Keyed (t : Tables Value) : Prop where
  revisions : Table.Keyed RevisionRow.key t.revisions
  mutations : Table.Keyed LedgerRow.key t.mutations

/-- The ledger as a reader of it sees it change. -/
inductive Change (t : Tables Value) : Tables Value → Prop
  | same : Change t t
  /-- A resource appears. -/
  | opened (revision : RevisionRow) (hnew : ∀ row ∈ t.revisions, row.key ≠ revision.key) :
    Change t { t with revisions := t.revisions ++ [revision] }
  /-- A mutation is entered and reserves its resource, which was free. -/
  | claimed (row : LedgerRow Value) (old new : RevisionRow) (hnew : ∀ other ∈ t.mutations, other.key ≠ row.key)
    (hstate : row.state = .claimed) (hold : old ∈ t.revisions) (hkey : old.key = row.resourceKey)
    (hfree : old.pendingRequestId = none) (hsame : new.key = old.key)
    (hcommitted : new.committedRevision = old.committedRevision)
    (hpending : new.pendingRequestId = some row.requestId) :
    Change t ⟨Table.replace RevisionRow.key t.revisions new, t.mutations ++ [row]⟩
  /-- A mutation commits the revision it expects to follow. -/
  | committed (row done : LedgerRow Value) (old new : RevisionRow) (hrow : row ∈ t.mutations)
    (hopen : row.state ≠ .committed) (hdone : done.state = .committed) (hidentity : done.identity = row.identity)
    (hold : old ∈ t.revisions) (hkey : old.key = row.resourceKey)
    (hpending : old.pendingRequestId = some row.requestId)
    (hexpected : old.committedRevision = row.expectedPreviousRevision) (hsame : new.key = old.key)
    (hcommitted : new.committedRevision = row.newRevision) :
    Change t ⟨Table.replace RevisionRow.key t.revisions new, Table.replace LedgerRow.key t.mutations done⟩
  /-- A mutation gives up and releases its resource. -/
  | released (row done : LedgerRow Value) (old new : RevisionRow) (hrow : row ∈ t.mutations)
    (hactive : done.active = false) (hdone : done.state ≠ .committed) (hidentity : done.identity = row.identity)
    (hold : old ∈ t.revisions) (hkey : old.key = row.resourceKey)
    (hpending : old.pendingRequestId = some row.requestId) (hsame : new.key = old.key)
    (hcommitted : new.committedRevision = old.committedRevision) :
    Change t ⟨Table.replace RevisionRow.key t.revisions new, Table.replace LedgerRow.key t.mutations done⟩
  /-- A mutation goes on, without a word on its resource. -/
  | restated (row done : LedgerRow Value) (hrow : row ∈ t.mutations) (hidentity : done.identity = row.identity)
    (hactive : done.active = true → row.active = true)
    (hcommitted : done.state = .committed → row.state = .committed) :
    Change t { t with mutations := Table.replace LedgerRow.key t.mutations done }
  /-- The membership of resources changes. -/
  | regrouped (f : RevisionRow → RevisionRow) (hkey : ∀ row, (f row).key = row.key)
    (hcommitted : ∀ row, (f row).committedRevision = row.committedRevision)
    (hpending : ∀ row, (f row).pendingRequestId = row.pendingRequestId) :
    Change t { t with revisions := t.revisions.map f }
  /-- Mutations are forgotten. -/
  | deleted (kept : LedgerRow Value → Bool) : Change t { t with mutations := t.mutations.filter kept }

variable {storeNamespace : Str}

section Inversion

variable {validateSafeResponse} {t t' : Tables Value}

theorem updateOne_eq_ok {rows rows' : List RevisionRow} {k : Str × Str} {guarded : RevisionRow → Bool}
    {change : RevisionRow → RevisionRow} {message : String} (hk : Table.Keyed RevisionRow.key rows)
    (h : updateOne rows k guarded change message = .ok rows') (hc : ∀ row, (change row).key = row.key) :
    ∃ old ∈ rows, old.key = k ∧ guarded old = true ∧ rows' = replace RevisionRow.key rows (change old) := by
  obtain ⟨hcn, hrw⟩ := ensure_bind_eq_ok.1 h
  cases hrw
  have hs : ∀ {row : RevisionRow}, (row.key == k && guarded row) = true → row.key = k ∧ guarded row = true := by
    intro row hr
    rw [Bool.and_eq_true] at hr
    exact ⟨eq_of_beq hr.1, hr.2⟩
  have hp : 0 < rows.countP fun row => row.key == k && guarded row := by
    rw [eq_of_beq hcn]
    exact Nat.one_pos
  obtain ⟨old, ho, hb⟩ := List.countP_pos_iff.1 hp
  refine ⟨old, ho, (hs hb).1, (hs hb).2, ?_⟩
  refine hk.map_ite_eq ho hb (fun row hr => ?_) (hc old)
  rw [(hs hr).1, (hs hb).1]

variable {requestId : Str}

theorem update_eq (hk : Table.Keyed key t.mutations) (h : t.select storeNamespace requestId = some row)
    {change : LedgerRow Value → LedgerRow Value} (hc : (change row).key = row.key) :
    t.update storeNamespace requestId change =
      { t with mutations := replace key t.mutations (change row) } := by
  obtain ⟨hr, hky⟩ := mem_of_select h
  rw [Tables.update, ← hky, hk.update_eq hr hc]

theorem claimTxWithMode_change (hk : t.Keyed) {now : Int} {mode : StoreRolloutMode} {claim : MutationClaim}
    {outcome : ClaimOutcome Value} (h : claimTxWithMode now t storeNamespace mode claim = .ok (outcome, t')) :
    Change t t' := by
  obtain ⟨-, -, h⟩ := bind_eq_ok.1 h
  obtain ⟨-, h⟩ := ensure_bind_eq_ok.1 h
  split at h
  · cases h
    exact .same
  next hn =>
  split at h
  · cases h
    exact .same
  split at h
  · cases h
    exact .same
  next revision hr =>
  split at h
  · cases h
    exact .same
  split at h
  · cases h
    exact .same
  split at h
  · cases h
    exact .same
  obtain ⟨-, h⟩ := ensure_bind_eq_ok.1 h
  obtain ⟨-, h⟩ := ensure_bind_eq_ok.1 h
  obtain ⟨revisions, hu, h⟩ := bind_eq_ok.1 h
  cases h
  obtain ⟨old, ho, hky, hg, rfl⟩ := updateOne_eq_ok hk.revisions hu fun _ => rfl
  rw [Bool.and_eq_true] at hg
  exact .claimed (claim.row storeNamespace mode) old _ (select_eq_none.1 hn) rfl ho hky (eq_of_beq hg.2) rfl rfl rfl

variable {next : MutationState}

theorem LedgerRow.active_of_mayTransitionTo (h : row.state.mayTransitionTo next = true) : row.active = true := by
  rw [active]
  cases hs : row.state <;> first | rfl | rw [hs] at h; cases next <;> cases h

theorem finishTxInner_change [DecidableEq Value] (hk : t.Keyed) {terminal : TerminalMutation Value}
    {clusterAuthorized : Bool} {record : LedgerRow Value}
    (h : finishTxInner validateSafeResponse t storeNamespace requestId terminal clusterAuthorized = .ok (record, t')) :
    Change t t' := by
  obtain ⟨_, hv, h⟩ := bind_eq_ok.1 h
  obtain ⟨ht, -⟩ := ensure_bind_eq_ok.1 hv
  obtain ⟨current, hcr, h⟩ := bind_eq_ok.1 h
  rw [context_eq_ok] at hcr
  obtain ⟨-, h⟩ := ensure_bind_eq_ok.1 h
  split at h
  · obtain ⟨-, h⟩ := ensure_bind_eq_ok.1 h
    obtain ⟨-, h⟩ := ensure_bind_eq_ok.1 h
    obtain ⟨-, rfl⟩ := Prod.mk.inj (Except.ok.inj h)
    exact .same
  next hop =>
  obtain ⟨hm, h⟩ := ensure_bind_eq_ok.1 h
  obtain ⟨revisions, hs, h⟩ := bind_eq_ok.1 h
  obtain ⟨-, rfl⟩ := Prod.mk.inj (Except.ok.inj h)
  have hr := (mem_of_select hcr).1
  rw [update_eq (t := { t with revisions }) hk.mutations hcr rfl]
  unfold settleRevision at hs
  split at hs
  · next hc =>
    obtain ⟨old, ho, hky, hg, rfl⟩ := updateOne_eq_ok hk.revisions hs fun _ => rfl
    simp only [Bool.and_eq_true, beq_iff_eq] at hg
    refine .committed current (current.finished terminal) old _ hr (fun hst => ?_) (eq_of_beq hc) rfl
      ho hky hg.1.2 hg.1.1 rfl rfl
    rw [hst] at hop
    exact hop rfl
  next hc =>
  have hst : terminal.state ≠ .committed := fun hst => hc (beq_iff_eq.2 hst)
  split at hs
  · next hb =>
    obtain ⟨old, ho, hky, hg, rfl⟩ := updateOne_eq_ok hk.revisions hs fun _ => rfl
    refine .released current (current.finished terminal) old _ hr ?_ hst rfl ho hky (eq_of_beq hg) rfl rfl
    simp only [active, finished, ht]
    simpa using hb
  · cases hs
    exact .restated current (current.finished terminal) hr rfl (fun _ => active_of_mayTransitionTo hm) (absurd · hst)

theorem initializeRevision_change {row : RevisionRow} (h : initializeRevision t row = .ok t') : Change t t' := by
  unfold initializeRevision at h
  obtain ⟨-, -, h⟩ := bind_eq_ok.1 h
  obtain ⟨-, -, h⟩ := bind_eq_ok.1 h
  obtain ⟨-, -, h⟩ := bind_eq_ok.1 h
  obtain ⟨-, h⟩ := ensure_bind_eq_ok.1 h
  obtain ⟨-, -, h⟩ := bind_eq_ok.1 h
  obtain ⟨-, -, h⟩ := bind_eq_ok.1 h
  obtain ⟨-, h⟩ := ensure_bind_eq_ok.1 h
  split at h
  · next hn =>
    cases h
    exact .opened row (select_eq_none.1 hn)
  obtain ⟨-, h⟩ := ensure_bind_eq_ok.1 h
  cases h
  exact .same

/-- A change of the state of a mutation that had not ended, to one that has not either. -/
theorem Change.transition (hk : t.Keyed) {current : LedgerRow Value}
    (hc : t.select storeNamespace requestId = some current) (hm : current.state.mayTransitionTo next = true)
    (hn : next.isTerminal = false) :
    Change t (t.update storeNamespace requestId fun row => { row with state := next }) := by
  rw [update_eq hk.mutations hc rfl]
  refine .restated current _ (mem_of_select hc).1 rfl
    (fun _ => active_of_mayTransitionTo hm) fun (hs : next = .committed) => ?_
  rw [hs] at hn
  cases hn

theorem transitionTx_change (hk : t.Keyed) (h : transitionTx t storeNamespace requestId next = .ok t') :
    Change t t' := by
  obtain ⟨current, hc, h⟩ := bind_eq_ok.1 h
  obtain ⟨-, h⟩ := ensure_bind_eq_ok.1 h
  obtain ⟨hm, h⟩ := ensure_bind_eq_ok.1 h
  obtain ⟨hn, h⟩ := ensure_bind_eq_ok.1 h
  cases h
  exact .transition hk (context_eq_ok.1 hc) hm (by simpa using hn)

theorem planned_not_isTerminal {record : MutationRecord} {directive : RolloutDirective}
    {rest : Option Str × List Str × TargetState} (h : planned record directive = some (some next, rest)) :
    next.isTerminal = false := by
  cases directive <;> simp only [planned] at h <;> grind [MutationState.isTerminal]

theorem planTx_change (hk : t.Keyed) {record : MutationRecord} {directive : RolloutDirective}
    (h : planTx t storeNamespace requestId record directive = .ok t') :
    Change t t' := by
  obtain ⟨current, hc, h⟩ := bind_eq_ok.1 h
  obtain ⟨-, h⟩ := ensure_bind_eq_ok.1 h
  obtain ⟨hs, h⟩ := ensure_bind_eq_ok.1 h
  split at h
  · next next rest hp =>
    obtain ⟨hm, h⟩ := ensure_bind_eq_ok.1 h
    cases h
    rw [← eq_of_beq hs] at hm
    exact .transition hk (context_eq_ok.1 hc) hm (planned_not_isTerminal hp)
  · cases h
    exact .same

theorem confirmTerminalAudit_change (hk : t.Keyed) {terminalAuditRecordId : Int}
    (h : confirmTerminalAudit t storeNamespace requestId terminalAuditRecordId = .ok t') : Change t t' := by
  obtain ⟨-, -, h⟩ := bind_eq_ok.1 h
  obtain ⟨-, h⟩ := ensure_bind_eq_ok.1 h
  obtain ⟨current, hc, h⟩ := bind_eq_ok.1 h
  obtain ⟨-, h⟩ := ensure_bind_eq_ok.1 h
  cases h
  rw [context_eq_ok] at hc
  rw [update_eq hk.mutations hc rfl]
  exact .restated current _ (mem_of_select hc).1 rfl id id

/-- **What a transaction writes is one of the changes.** -/
theorem execute_change [DecidableEq Value] (hk : t.Keyed) {transaction : Transaction Value}
    (h : execute validateSafeResponse t transaction = .ok t') : Change t t' := by
  have hs : ∀ {α : Type} {x : Result (α × Tables Value)}, (·.2) <$> x = .ok t' → ∃ a, x = .ok (a, t') := by
    intro α x hx
    cases x with
    | ok r => cases hx; exact ⟨r.1, rfl⟩
    | error e => cases hx
  cases transaction with
  | initializeRevision row => exact initializeRevision_change h
  | claim now storeNamespace mode claim =>
    obtain ⟨outcome, hc⟩ := hs h
    exact claimTxWithMode_change hk hc
  | finish storeNamespace requestId terminal clusterAuthorized =>
    obtain ⟨record, hf⟩ := hs h
    exact finishTxInner_change hk hf
  | transition storeNamespace requestId next => exact transitionTx_change hk h
  | plan storeNamespace requestId record directive => exact planTx_change hk h
  | confirmTerminalAudit storeNamespace requestId terminalAuditRecordId => exact confirmTerminalAudit_change hk h
  | cutoverMembership storeNamespace clusterId targetEpochDigest =>
    cases h
    refine .regrouped _ (fun row => ?_) (fun row => ?_) fun row => ?_
    all_goals split <;> rfl
  | deleteExpired storeNamespace expired =>
    cases h
    exact .deleted _

end Inversion

/-! ## The invariant -/

def Holds (row : LedgerRow Value) : Prop :=
  ∃ revision ∈ revisions, revision.key = row.resourceKey ∧ revision.pendingRequestId = some row.requestId

def commitsOf (commits : List (LedgerRow Value)) (k : Str × Str) : List (LedgerRow Value) :=
  commits.filter fun commit => commit.resourceKey = k

/-- Each commit of a resource follows the one before it, and the last one is the head of the resource. -/
structure Heads (revisions : List RevisionRow) (commits : List (LedgerRow Value)) : Prop where
  located : ∀ commit ∈ commits, ∃ revision ∈ revisions, revision.key = commit.resourceKey
  chained : ∀ k, (commitsOf commits k).IsChain fun earlier later =>
    later.expectedPreviousRevision = earlier.newRevision
  head : ∀ revision ∈ revisions, ∀ commit ∈ (commitsOf commits revision.key).getLast?,
    commit.newRevision = revision.committedRevision

structure Serialized (h : History Value) : Prop where
  keyed : h.tables.Keyed
  reserved : ∀ row ∈ h.tables.mutations, row.active = true → Holds h.tables.revisions row
  logged : ∀ row ∈ h.tables.mutations, row.state = .committed → ∃ commit ∈ h.commits, commit.identity = row.identity
  heads : Heads h.tables.revisions h.commits

variable {h : History Value}

section Invariant

variable {t t' : Tables Value} {revisions : List RevisionRow} {commits : List (LedgerRow Value)}
  {old new : RevisionRow}

theorem Change.keyed (h : Change t t') (hk : t.Keyed) : t'.Keyed := by
  cases h with
  | same => exact hk
  | opened revision hn => exact ⟨hk.revisions.concat hn, hk.mutations⟩
  | claimed row old new hn => exact ⟨hk.revisions.replace, hk.mutations.concat hn⟩
  | committed | released => exact ⟨hk.revisions.replace, hk.mutations.replace⟩
  | restated => exact ⟨hk.revisions, hk.mutations.replace⟩
  | regrouped f hky => exact ⟨hk.revisions.map hky, hk.mutations⟩
  | deleted => exact ⟨hk.revisions, hk.mutations.sublist (filter_sublist.map _)⟩

variable {done : LedgerRow Value}

theorem Holds.of_identity (h : Holds revisions row) (hi : done.identity = row.identity) : Holds revisions done := by
  obtain ⟨revision, hr, hk, hp⟩ := h
  refine ⟨revision, hr, hk.trans (resourceKey_eq_of_identity hi).symm, hp.trans ?_⟩
  rw [show row.requestId = done.requestId from congrArg (·.1.2) hi.symm]

theorem Holds.replace (h : Holds revisions row) (hk : Table.Keyed RevisionRow.key revisions) (ho : old ∈ revisions)
    (hs : new.key = old.key) (hot : old.key = row.resourceKey → old.pendingRequestId ≠ some row.requestId) :
    Holds (replace RevisionRow.key revisions new) row := by
  obtain ⟨revision, hr, hky, hp⟩ := h
  refine ⟨revision, (mem_replace ho hs.symm).2 (.inr ⟨hr, fun heq => ?_⟩), hky, hp⟩
  have : revision = old := hk.eq_of_key ho hr (heq.trans hs)
  subst this
  exact hot hky hp

theorem key_eq_of_pending (hk : old.key = row.resourceKey) (hp : old.pendingRequestId = some row.requestId)
    (hk' : old.key = other.resourceKey) (hp' : old.pendingRequestId = some other.requestId) : other.key = row.key :=
  Prod.ext (congrArg (·.1) (hk'.symm.trans hk) :) (Option.some.inj (hp'.symm.trans hp))

theorem Change.reserved (h : Change t t') (hky : t.Keyed)
    (hrs : ∀ row ∈ t.mutations, row.active = true → Holds t.revisions row) :
    ∀ row ∈ t'.mutations, row.active = true → Holds t'.revisions row := by
  -- the end of a mutation takes its own reservation only
  have he : ∀ {row done : LedgerRow Value} {old new : RevisionRow}, row ∈ t.mutations →
      done.active = false → done.identity = row.identity → old ∈ t.revisions → old.key = row.resourceKey →
      old.pendingRequestId = some row.requestId → new.key = old.key →
      ∀ other ∈ replace key t.mutations done, other.active = true →
        Holds (replace RevisionRow.key t.revisions new) other := by
    intro row done old new hrw hd hi ho hk hp hs other hot ha
    have hks := key_eq_of_identity hi
    obtain rfl | ⟨hm, hne⟩ := (mem_replace hrw hks.symm).1 hot
    · rw [hd] at ha
      cases ha
    · refine (hrs other hm ha).replace hky.revisions ho hs fun hk' hp' => hne ?_
      rw [key_eq_of_pending hk hp hk' hp', hks]
  cases h with
  | same => exact hrs
  | opened revision hn =>
    intro row hrw ha
    obtain ⟨r, hr, hh⟩ := hrs row hrw ha
    exact ⟨r, mem_append_left _ hr, hh⟩
  | claimed row old new hn hst ho hk hf hs hc hp =>
    intro other hot ha
    obtain hm | hm := mem_append.1 hot
    · refine (hrs other hm ha).replace hky.revisions ho hs fun _ => ?_
      rw [hf]
      exact nofun
    · cases mem_singleton.1 hm
      exact ⟨new, (mem_replace ho hs.symm).2 (.inl rfl), hs.trans hk, hp⟩
  | committed row done old new hrw hop hd hi ho hk hp hex hs =>
    refine he hrw ?_ hi ho hk hp hs
    rw [active, hd]
    rfl
  | released row done old new hrw ha hd hi ho hk hp hs =>
    exact he hrw ha hi ho hk hp hs
  | restated row done hrw hi ha =>
    intro other hot hoh
    obtain rfl | ⟨hm, -⟩ := (mem_replace hrw (key_eq_of_identity hi).symm).1 hot
    · exact (hrs row hrw (ha hoh)).of_identity hi
    · exact hrs other hm hoh
  | regrouped f hk hc hp =>
    intro row hrw ha
    obtain ⟨r, hr, hrw, hrq⟩ := hrs row hrw ha
    exact ⟨f r, mem_map_of_mem hr, (hk r).trans hrw, (hp r).trans hrq⟩
  | deleted kept => exact fun row hrw => hrs row (mem_of_mem_filter hrw)

/-- Revisions that keep their keys and heads, next to new ones. -/
theorem Heads.of_kept {revisions' : List RevisionRow} (h : Heads revisions commits)
    (hkp : ∀ revision ∈ revisions, ∃ later ∈ revisions', later.key = revision.key)
    (hf : ∀ later ∈ revisions', (∃ revision ∈ revisions, revision.key = later.key ∧
      revision.committedRevision = later.committedRevision) ∨ ∀ revision ∈ revisions, revision.key ≠ later.key) :
    Heads revisions' commits where
  located commit hc := by
    obtain ⟨revision, hr, hk⟩ := h.located commit hc
    obtain ⟨later, hl, hs⟩ := hkp revision hr
    exact ⟨later, hl, hs.trans hk⟩
  chained := h.chained
  head later hl commit hc := by
    obtain ⟨revision, hr, hk, hcm⟩ | hn := hf later hl
    · rw [← hk] at hc
      exact (h.head revision hr commit hc).trans hcm
    obtain ⟨hm, hk⟩ := mem_filter.1 (mem_of_getLast? hc)
    obtain ⟨revision, hr, hs⟩ := h.located commit hm
    exact absurd (hs.trans (of_decide_eq_true hk)) (hn revision hr)

theorem Heads.replace (h : Heads revisions commits) (ho : old ∈ revisions) (hs : new.key = old.key)
    (hc : new.committedRevision = old.committedRevision) :
    Heads (replace RevisionRow.key revisions new) commits := by
  refine h.of_kept (fun revision hr => ?_) fun later hl => .inl ?_
  · exact exists_key_replace ho hs.symm hr
  obtain rfl | ⟨hm, -⟩ := (mem_replace ho hs.symm).1 hl
  · exact ⟨old, ho, hs.symm, hc.symm⟩
  · exact ⟨later, hm, rfl, rfl⟩

theorem commitsOf_concat (commits : List (LedgerRow Value)) (done : LedgerRow Value) (k : Str × Str) :
    commitsOf (commits ++ [done]) k = commitsOf commits k ++ if done.resourceKey = k then [done] else [] := by
  rw [commitsOf, filter_append, filter_singleton, commitsOf, Bool.cond_decide]

theorem Heads.commit (h : Heads revisions commits) (ho : old ∈ revisions) (hky : old.key = done.resourceKey)
    (he : old.committedRevision = done.expectedPreviousRevision) (hs : new.key = old.key)
    (hcm : new.committedRevision = done.newRevision) :
    Heads (Table.replace RevisionRow.key revisions new) (commits ++ [done]) where
  located commit hc := by
    obtain hm | hm := mem_append.1 hc
    · obtain ⟨revision, hr, hrw⟩ := h.located commit hm
      obtain ⟨later, hl, hkp⟩ := exists_key_replace ho hs.symm hr
      exact ⟨later, hl, hkp.trans hrw⟩
    · cases mem_singleton.1 hm
      exact ⟨new, (mem_replace ho hs.symm).2 (.inl rfl), hs.trans hky⟩
  chained k := by
    rw [commitsOf_concat]
    split
    · next hk =>
      refine List.isChain_append.2 ⟨h.chained k, .singleton _, fun last hls next hn => ?_⟩
      cases hn
      rw [← hk, ← hky] at hls
      rw [h.head old ho last hls, he]
    · rw [append_nil]
      exact h.chained k
  head later hl commit hc := by
    rw [commitsOf_concat] at hc
    obtain rfl | ⟨hm, hne⟩ := (mem_replace ho hs.symm).1 hl
    · rw [if_pos (hky.symm.trans hs.symm), getLast?_concat] at hc
      cases hc
      exact hcm.symm
    · rw [if_neg fun heq => hne (heq.symm.trans (hky.symm.trans hs.symm)), append_nil] at hc
      exact h.head later hm commit hc

/-! ## Commits of a transaction -/

theorem Tables.Keyed.select_eq (hk : t.Keyed) (ho : other ∈ t.mutations) (h : other.key = row.key) :
    t.select row.storeNamespace row.requestId = some other :=
  (congrArg (Table.select key t.mutations) h.symm).trans (hk.mutations.select_eq ho)

theorem newlyCommitted_replace (hk : t.Keyed) (hr : row ∈ t.mutations) (hop : row.state ≠ .committed)
    (hd : done.state = .committed) (hky : done.key = row.key) :
    newlyCommitted t ⟨revisions, replace key t.mutations done⟩ = [done] := by
  refine hk.mutations.replace.filter_eq_singleton ((mem_replace hr hky.symm).2 (.inl rfl)) ?_ ?_
  · rw [hk.select_eq hr hky.symm, Option.any_some, hd]
    simpa using hop
  intro other ho hn
  obtain rfl | ⟨hm, -⟩ := (mem_replace hr hky.symm).1 ho
  · rfl
  rw [Bool.and_eq_true, hk.select_eq hm rfl, Option.any_some] at hn
  rw [hn.1] at hn
  cases hn.2

theorem Change.heads (h : Change t t') (hky : t.Keyed) (hh : Heads t.revisions commits) :
    Heads t'.revisions (commits ++ newlyCommitted t t') := by
  -- where no row becomes committed, the commits stay
  have hn : (∀ row ∈ t'.mutations, row.state = .committed → ∃ old ∈ t.mutations, old.key = row.key ∧
      old.state = .committed) → Heads t'.revisions commits → Heads t'.revisions (commits ++ newlyCommitted t t') := by
    intro hol hsy
    have hnil : newlyCommitted t t' = [] := by
      refine filter_eq_nil_iff.2 fun row hr hn => ?_
      rw [Bool.and_eq_true] at hn
      obtain ⟨old, ho, hk, hc⟩ := hol row hr (eq_of_beq hn.1)
      rw [hky.select_eq ho hk, Option.any_some, hc] at hn
      cases hn.2
    rwa [hnil, append_nil]
  cases h with
  | same => exact hn (fun row hr hc => ⟨row, hr, rfl, hc⟩) hh
  | opened revision hnw =>
    refine hn (fun row hr hc => ⟨row, hr, rfl, hc⟩) (hh.of_kept ?_ ?_)
    · exact fun row hr => ⟨row, mem_append_left _ hr, rfl⟩
    intro later hl
    obtain hm | hm := mem_append.1 hl
    · exact .inl ⟨later, hm, rfl, rfl⟩
    · cases mem_singleton.1 hm
      exact .inr hnw
  | claimed row old new hnw hst hol hk hf hs hc hp =>
    refine hn (fun other ho ho' => ?_) (hh.replace hol hs hc)
    obtain hm | hm := mem_append.1 ho
    · exact ⟨other, hm, rfl, ho'⟩
    cases mem_singleton.1 hm
    rw [hst] at ho'
    cases ho'
  | committed row done old new hr hop hd hi hol hk hp he hs hc =>
    rw [newlyCommitted_replace hky hr hop hd (key_eq_of_identity hi)]
    refine hh.commit hol (hk.trans (resourceKey_eq_of_identity hi).symm) (he.trans ?_) hs (hc.trans ?_)
    · exact congrArg (·.2.2.1) hi.symm
    · exact congrArg (·.2.2.2) hi.symm
  | released row done old new hr ha hd hi hol hk hp hs hc =>
    refine hn (fun other ho ho' => ?_) (hh.replace hol hs hc)
    obtain rfl | ⟨hm, -⟩ := (Table.mem_replace hr (key_eq_of_identity hi).symm).1 ho
    · exact absurd ho' hd
    · exact ⟨other, hm, rfl, ho'⟩
  | restated row done hr hi ha hc =>
    refine hn (fun other ho ho' => ?_) hh
    have hk := key_eq_of_identity hi
    obtain rfl | ⟨hm, -⟩ := (Table.mem_replace hr hk.symm).1 ho
    · exact ⟨row, hr, hk.symm, hc ho'⟩
    · exact ⟨other, hm, rfl, ho'⟩
  | regrouped f hk hc =>
    refine hn (fun row hr hc => ⟨row, hr, rfl, hc⟩) (hh.of_kept ?_ ?_)
    · exact fun row hr => ⟨f row, mem_map_of_mem hr, hk row⟩
    intro later hl
    obtain ⟨row, hr, rfl⟩ := mem_map.1 hl
    exact .inl ⟨row, hr, (hk row).symm, (hc row).symm⟩
  | deleted kept =>
    exact hn (fun row hr hc => ⟨row, mem_of_mem_filter hr, rfl, hc⟩) hh

theorem Change.origin (h : Change t t') : ∀ row ∈ t'.mutations,
    (∀ old ∈ t.mutations, old.key ≠ row.key) ∨ ∃ old ∈ t.mutations, old.identity = row.identity := by
  have hrp : ∀ {row done : LedgerRow Value}, row ∈ t.mutations → done.identity = row.identity →
      ∀ other ∈ replace key t.mutations done, ∃ old ∈ t.mutations, old.identity = other.identity := by
    intro row done hr hi other ho
    obtain rfl | ⟨hm, -⟩ := (mem_replace hr (key_eq_of_identity hi).symm).1 ho
    · exact ⟨row, hr, hi.symm⟩
    · exact ⟨other, hm, rfl⟩
  intro row hr
  cases h with
  | same | opened | regrouped => exact .inr ⟨row, hr, rfl⟩
  | claimed new old revision hn =>
    obtain hm | hm := mem_append.1 hr
    · exact .inr ⟨row, hm, rfl⟩
    · cases mem_singleton.1 hm
      exact .inl hn
  | committed _ _ _ _ hc _ _ hi | released _ _ _ _ hc _ _ hi | restated _ _ hc hi =>
    exact .inr (hrp hc hi row hr)
  | deleted kept => exact .inr ⟨row, mem_of_mem_filter hr, rfl⟩

theorem Change.logged (h : Change t t') (hk : t.Keyed)
    (hl : ∀ row ∈ t.mutations, row.state = .committed → ∃ commit ∈ commits, commit.identity = row.identity) :
    ∀ row ∈ t'.mutations, row.state = .committed →
      ∃ commit ∈ commits ++ newlyCommitted t t', commit.identity = row.identity := by
  intro row hr hc
  -- a row that was not committed before is a commit of this transaction
  have hn : (t.select row.storeNamespace row.requestId).any (·.state == .committed) = false →
      ∃ commit ∈ commits ++ newlyCommitted t t', commit.identity = row.identity := by
    intro hb
    refine ⟨row, mem_append_right _ (mem_filter.2 ⟨hr, ?_⟩), rfl⟩
    rw [hb, hc]
    rfl
  obtain hnw | ⟨old, ho, hi⟩ := h.origin row hr
  · apply hn
    have hs : t.select row.storeNamespace row.requestId = none := select_eq_none.2 hnw
    rw [hs]
    rfl
  by_cases hst : old.state = .committed
  · obtain ⟨commit, hcm, hsm⟩ := hl old ho hst
    exact ⟨commit, mem_append_left _ hcm, hsm.trans hi⟩
  apply hn
  rw [hk.select_eq ho (key_eq_of_identity hi), Option.any_some]
  exact beq_eq_false_iff_ne.2 hst

/-- **A change keeps the ledger serialized.** -/
theorem Serialized.change (hs : Serialized h) (hc : Change h.tables t') :
    Serialized ⟨t', h.commits ++ newlyCommitted h.tables t'⟩ where
  keyed := hc.keyed hs.keyed
  reserved := hc.reserved hs.keyed hs.reserved
  logged := hc.logged hs.keyed hs.logged
  heads := hc.heads hs.keyed hs.heads

theorem Serialized.step [DecidableEq Value] (hs : Serialized h) (transaction : Transaction Value) :
    Serialized (h.step validateSafeResponse transaction) := by
  unfold History.step
  split
  · next tables he => exact hs.change (execute_change hs.keyed he)
  · exact hs

theorem history_serialized [DecidableEq Value] (transactions : List (Transaction Value)) :
    Serialized (history validateSafeResponse transactions) := by
  have hn : Serialized (⟨⟨[], []⟩, []⟩ : History Value) := ⟨⟨nodup_nil, nodup_nil⟩, forall_mem_nil _, forall_mem_nil _,
      ⟨forall_mem_nil _, fun _ => .nil, forall_mem_nil _⟩⟩
  exact Transition.run_keeps (fun h transaction hs => hs.step validateSafeResponse transaction) hn transactions

end Invariant

/-! ## Claims of known requests -/

/-- The checks that a claim passes before the tables are looked at. -/
def MutationClaim.WellFormed (claim : MutationClaim) : Prop :=
  claim.validate = .ok () ∧ isSha256Digest claim.contentDigest = true ∧
    claim.membershipRevision.all isSha256Digest = true

def Tables.unsettled (storeNamespace resource : Str) : List (LedgerRow Value) :=
  t.mutations.filter fun row => row.resourceKey = (storeNamespace, resource) && row.active

theorem Serialized.unsettled_le_one (hs : Serialized h) (storeNamespace resource : Str) :
    (h.tables.unsettled storeNamespace resource).length ≤ 1 := by
  refine hs.keyed.mutations.length_filter_le_one fun row hrw other ho hc hc' => ?_
  rw [Bool.and_eq_true, decide_eq_true_eq] at hc hc'
  obtain ⟨revision, hr, hk, hp⟩ := hs.reserved row hrw hc.2
  obtain ⟨revision', hr', hk', hp'⟩ := hs.reserved other ho hc'.2
  -- one revision serves both, and names one request
  obtain rfl : revision' = revision := hs.keyed.revisions.eq_of_key hr hr'
    (hk'.trans (hc'.1.trans (hc.1.symm.trans hk.symm)))
  exact key_eq_of_pending hk hp hk' hp'

/-- **The ledger serializes the mutations of a resource.**  In every history that starts with empty tables, a resource
has at most one mutation that is unfinished or blocks it; the commits of a resource form a chain of revisions, and hold
every mutation that is committed; a request has one mutation, and a claim for a request that has one is a replay, in
progress or a conflict, and writes nothing. -/
theorem ledger_serializes [DecidableEq Value] (transactions : List (Transaction Value)) : (∀ storeNamespace resource,
      ((history validateSafeResponse transactions).tables.unsettled storeNamespace resource).length ≤ 1) ∧
    (∀ storeNamespace resource,
      (commitsOf (history validateSafeResponse transactions).commits (storeNamespace, resource)).IsChain
        fun earlier later => later.expectedPreviousRevision = earlier.newRevision) ∧
    (∀ row ∈ (history validateSafeResponse transactions).tables.mutations, row.state = .committed →
      ∃ commit ∈ (history validateSafeResponse transactions).commits, commit.identity = row.identity) ∧
    ((history validateSafeResponse transactions).tables.mutations.map LedgerRow.key).Nodup ∧
    ∀ (now : Int) (storeNamespace : Str) (mode : StoreRolloutMode) (claim : MutationClaim) (record : LedgerRow Value),
      claim.WellFormed →
      (history validateSafeResponse transactions).tables.select storeNamespace claim.requestId = some record →
      ∃ outcome, claimTxWithMode now (history validateSafeResponse transactions).tables storeNamespace mode claim =
          .ok (outcome, (history validateSafeResponse transactions).tables) ∧
        (outcome = .replay record ∨ outcome = .inProgress record ∨ outcome = .requestConflict) := by
  have hs := history_serialized validateSafeResponse transactions
  refine ⟨hs.unsettled_le_one, fun _ _ => hs.heads.chained _, hs.logged, hs.keyed.mutations, ?_⟩
  intro now storeNamespace mode claim record hc hr
  refine ⟨record.classifyExistingClaim claim, ?_, ?_⟩
  · rw [claimTxWithMode, hc.1, hc.2.1, hc.2.2]
    simp only [hr]
    rfl
  unfold LedgerRow.classifyExistingClaim
  split
  · exact .inr (.inr rfl)
  split
  · exact .inl rfl
  · exact .inr (.inl rfl)

/-- **No lost update.**  In every history, a resource with a commit has one head, with the revision of the last
commit. -/
theorem head_latest [DecidableEq Value] (transactions : List (Transaction Value)) :
    let h := history validateSafeResponse transactions
    ∀ commit ∈ h.commits, ∃ revision ∈ h.tables.revisions, revision.key = commit.resourceKey ∧
      (∀ other ∈ h.tables.revisions, other.key = commit.resourceKey → other = revision) ∧
      (commitsOf h.commits commit.resourceKey).getLast?.map LedgerRow.newRevision =
        some revision.committedRevision := by
  intro h commit hc
  have hs : Serialized h := history_serialized validateSafeResponse transactions
  obtain ⟨revision, hr, hk⟩ := hs.heads.located commit hc
  refine ⟨revision, hr, hk, fun other ho hk' => hs.keyed.revisions.eq_of_key hr ho (hk'.trans hk.symm), ?_⟩
  have hne : commitsOf h.commits commit.resourceKey ≠ [] := ne_nil_of_mem (mem_filter.2 ⟨hc, by simp⟩)
  have hl := getLast?_eq_some_getLast hne
  rw [hl, Option.map_some, hs.heads.head revision hr _ (by rw [hk]; exact hl)]

end MutationLedger
