import OxiBelt.Admin.RolloutStore

/-!
# Fenced heartbeats (`admin_mutation/rollout_store_fencing.rs`)

A process proves with each heartbeat that it is the current boot of its instance.  One transaction reads the
membership head, the heartbeat row and the history of boots; a new boot takes the next epoch of the instance once the
lease of its predecessor is over.

The transaction is atomic: it locks the heartbeat row, and where there is none yet the keys of the boot history let one
of two first boots through.  Its clock is the start of the transaction, so the readings of a run are in no order.

`heartbeats_fenced` is about any run of heartbeats of any number of processes, with leases and membership heads changed
by others in between.
-/

namespace Rollout

open RustStd List

/-! ## Tables -/

structure InstanceKey where
  (storeNamespace clusterId instanceId : Str)
  deriving DecidableEq

/-- A row of `oxibelt_admin_instance_heartbeats`. -/
structure HeartbeatRow where
  key : InstanceKey
  bootId : Str
  instanceEpoch : Nat
  (buildVersion capabilityVersion artifactKeyFingerprint membershipRevision : Str)
  assignedRevision : Option Str
  (appliedRevision appliedDigest : Str)
  ready : Bool
  leaseExpiresAt : Nat
  deriving DecidableEq

/-- A row of `oxibelt_admin_instance_boot_history`. -/
structure BootRow where
  key : InstanceKey
  bootId : Str
  instanceEpoch : Nat
  retiredAt : Option Nat
  deriving DecidableEq

/-- A row of `oxibelt_admin_membership_heads`, with the active epoch that it refers to. -/
structure MembershipHead where
  (storeNamespace clusterId : Str)
  (activeEpochDigest artifactKeyFingerprint : Option Str)
  members : List Str
  deriving DecidableEq

structure HeartbeatTables where
  heads : List MembershipHead
  heartbeats : List HeartbeatRow
  history : List BootRow
  deriving DecidableEq

/-- What a `MutationStore` is configured with. -/
structure StoreConfig where
  storeNamespace : Str
  adminCluster : Bool
  deriving DecidableEq

structure HeartbeatUpdate where
  (clusterId instanceId bootId buildVersion capabilityVersion artifactKeyFingerprint : Str)
  membershipRevision : Str
  assignedRevision : Option Str
  (appliedRevision appliedDigest : Str)
  ready : Bool
  leaseSeconds : Int
  deriving DecidableEq

namespace HeartbeatUpdate

def validate (update : HeartbeatUpdate) : Result Unit := do
  [("cluster_id", update.clusterId), ("instance_id", update.instanceId), ("boot_id", update.bootId),
    ("build_version", update.buildVersion), ("capability_version", update.capabilityVersion),
    ("artifact_key_fingerprint", update.artifactKeyFingerprint),
    ("membership_revision", update.membershipRevision), ("applied_revision", update.appliedRevision),
    ("applied_digest", update.appliedDigest)].forM fun (name, value) => validateIdentifier name value 256
  update.assignedRevision.forM fun value => validateIdentifier "assigned_revision" value 256
  ensure (1 ≤ update.leaseSeconds && update.leaseSeconds ≤ 300) "heartbeat lease must be between 1 and 300 seconds"
  ensure (isSha256Digest update.appliedDigest) "heartbeat applied digest must be canonical SHA-256"
  ensure (isSha256Digest update.membershipRevision && isSha256Digest update.artifactKeyFingerprint)
    "heartbeat membership and artifact-key fingerprints must be canonical SHA-256"
  ensure (!update.ready || update.assignedRevision.all (· == update.appliedRevision))
    "ready heartbeat must have applied its assigned revision"

def key (store : StoreConfig) (update : HeartbeatUpdate) : InstanceKey :=
  ⟨store.storeNamespace, update.clusterId, update.instanceId⟩

end HeartbeatUpdate

/-! ## The transaction -/

/-- The greatest value of a `bigint`. -/
def maxBigint : Nat := 2 ^ 63 - 1

variable (history : List BootRow) (key : InstanceKey)

/-- `COALESCE(max(instance_epoch), 0)` over the boots of an instance. -/
def lastEpoch : Nat :=
  ((history.filter (·.key == key)).map (·.instanceEpoch)).foldl max 0

/-- The new epoch, and the history with the new boot.  The last check stands for the keys of the table. -/
def allocateEpoch (bootId : Str) : Result (Nat × List BootRow) := do
  ensure (!history.any fun row => row.key == key && row.bootId == bootId)
    "retired Admin cluster boot_id cannot be reused"
  let epoch := lastEpoch history key + 1
  ensure (epoch ≤ maxBigint) "bigint out of range"
  ensure (!history.any fun row => row.key == key && (row.bootId == bootId || row.instanceEpoch == epoch))
    "duplicate key value violates unique constraint"
  return (epoch, history ++ [⟨key, bootId, epoch, none⟩])

def retireBoot (bootId : Str) (now : Nat) : List BootRow :=
  history.map fun row =>
    if row.key == key && row.bootId == bootId then { row with retiredAt := some (row.retiredAt.getD now) } else row

/-- The active epoch of a staged membership, and the checks of the heartbeat against it. -/
def checkMembership (head : Option MembershipHead) (update : HeartbeatUpdate) : Result (Option Str) := do
  let stagedActiveEpoch := head.bind (·.activeEpochDigest)
  match head, stagedActiveEpoch with
  | some head, some activeEpoch => do
    ensure (update.membershipRevision == activeEpoch) "member heartbeat targets a superseded membership epoch"
    ensure (head.members.contains update.instanceId) "member heartbeat identity is outside the active membership epoch"
    ensure (head.artifactKeyFingerprint.all (update.artifactKeyFingerprint == ·))
      "member heartbeat artifact key differs from the active membership epoch"
    return stagedActiveEpoch
  | _, _ => return stagedActiveEpoch

def heartbeatEpoch (t : HeartbeatTables) (key : InstanceKey) (now : Nat) (stagedActiveEpoch : Option Str)
    (update : HeartbeatUpdate) : Result (Nat × List BootRow) :=
  match t.heartbeats.find? (·.key == key) with
  | some row =>
    if row.bootId == update.bootId then do
      let sameBuild := row.buildVersion == update.buildVersion
      let sameCapability := row.capabilityVersion == update.capabilityVersion
      let sameKey := row.artifactKeyFingerprint == update.artifactKeyFingerprint
      let sameMembership := row.membershipRevision == update.membershipRevision
      ensure (sameBuild && sameCapability && sameKey && sameMembership ||
        !(now < row.leaseExpiresAt) && sameBuild && sameCapability &&
          stagedActiveEpoch == some update.membershipRevision)
        "member boot identity changed outside an exact membership cutover"
      return (row.instanceEpoch, t.history)
    else do
      ensure (!(now < row.leaseExpiresAt)) "duplicate Admin cluster instance_id has a live boot"
      allocateEpoch (retireBoot t.history key row.bootId now) key update.bootId
  | none => allocateEpoch t.history key update.bootId

/-- The `INSERT … ON CONFLICT … DO UPDATE … WHERE` of the heartbeat row; `none` if no row is affected. -/
def upsertHeartbeat (rows : List HeartbeatRow) (now : Nat) (new : HeartbeatRow) : Option (List HeartbeatRow) :=
  match rows.find? (·.key == new.key) with
  | none => some (rows ++ [new])
  | some row =>
    if (row.bootId == new.bootId && row.instanceEpoch == new.instanceEpoch) || row.leaseExpiresAt ≤ now then
      some (rows.map fun row => if row.key == new.key then new else row)
    else none

/-- `heartbeat_fenced`.  Times are in microseconds. -/
def heartbeatFenced (store : StoreConfig) (now : Nat) (t : HeartbeatTables) (update : HeartbeatUpdate) :
    Result (MemberFence × HeartbeatTables) := do
  update.validate
  ensure store.adminCluster "fenced heartbeat requires an admin_cluster mutation store"
  let key := update.key store
  let head := t.heads.find? fun head =>
    head.storeNamespace == store.storeNamespace && head.clusterId == update.clusterId
  let stagedActiveEpoch ← checkMembership head update
  let (instanceEpoch, history) ← heartbeatEpoch t key now stagedActiveEpoch update
  let row : HeartbeatRow :=
    { key, bootId := update.bootId, instanceEpoch
      buildVersion := update.buildVersion
      capabilityVersion := update.capabilityVersion
      artifactKeyFingerprint := update.artifactKeyFingerprint
      membershipRevision := update.membershipRevision
      assignedRevision := update.assignedRevision
      appliedRevision := update.appliedRevision
      appliedDigest := update.appliedDigest
      ready := update.ready
      leaseExpiresAt := now + 1000000 * update.leaseSeconds.toNat }
  let heartbeats ← context (upsertHeartbeat t.heartbeats now row) "member heartbeat was fenced"
  return (⟨update.clusterId, update.membershipRevision, update.instanceId, update.bootId, instanceEpoch⟩,
    { t with heartbeats, history })

/-! ## Runs -/

inductive HeartbeatStep where
  | heartbeat (store : StoreConfig) (now : Nat) (update : HeartbeatUpdate)
  /-- The lease of an instance is ended by others: `release_member_fence`, the cutover of a membership. -/
  | lease (key : InstanceKey) (ready : Bool) (leaseExpiresAt : Nat)
  | membership (heads : List MembershipHead)

structure AcceptedBoot where
  key : InstanceKey
  bootId : Str
  instanceEpoch : Nat
  deriving DecidableEq

def heartbeatStep (t : HeartbeatTables) : HeartbeatStep → Option AcceptedBoot × HeartbeatTables
  | .heartbeat store now update =>
    match heartbeatFenced store now t update with
    | .ok (fence, t') => (some ⟨update.key store, fence.bootId, fence.instanceEpoch⟩, t')
    | .error _ => (none, t)
  | .lease key ready leaseExpiresAt =>
    (none, { t with
      heartbeats := t.heartbeats.map fun row => if row.key == key then { row with ready, leaseExpiresAt } else row })
  | .membership heads => (none, { t with heads })

def acceptedBoots : HeartbeatTables → List HeartbeatStep → List AcceptedBoot
  | _, [] => []
  | t, step :: steps => (heartbeatStep t step).1.toList ++ acceptedBoots (heartbeatStep t step).2 steps

/-! ## What a heartbeat does to the boots -/

def HeartbeatRow.boot (row : HeartbeatRow) : AcceptedBoot := ⟨row.key, row.bootId, row.instanceEpoch⟩

def BootRow.boot (row : BootRow) : AcceptedBoot := ⟨row.key, row.bootId, row.instanceEpoch⟩

def allocations : List AcceptedBoot := history.map BootRow.boot

theorem allocations_retireBoot (bootId : Str) (now : Nat) :
    allocations (retireBoot history key bootId now) = allocations history := by
  rw [allocations, allocations, retireBoot, map_map]
  refine map_congr_left fun row _ => ?_
  simp only [Function.comp_apply]
  split <;> rfl

theorem le_foldl_max (epochs : List Nat) (start : Nat) :
    start ≤ epochs.foldl max start ∧ ∀ epoch ∈ epochs, epoch ≤ epochs.foldl max start := by
  induction epochs generalizing start with
  | nil => exact ⟨le_rfl, nofun⟩
  | cons epoch epochs ih =>
    obtain ⟨hs, he⟩ := ih (max start epoch)
    refine ⟨(le_max_left _ _).trans hs, forall_mem_cons.2 ⟨(le_max_right _ _).trans hs, he⟩⟩

variable {history : List BootRow}

theorem le_lastEpoch {boot : AcceptedBoot} (h : boot ∈ allocations history) :
    boot.instanceEpoch ≤ lastEpoch history boot.key := by
  obtain ⟨row, hr, rfl⟩ := mem_map.1 h
  refine (le_foldl_max _ 0).2 _ (mem_map_of_mem (mem_filter.2 ⟨hr, ?_⟩))
  simp [BootRow.boot]

/-- A boot that the history does not know, with an epoch above all others. -/
def IsNew (boots : List AcceptedBoot) (boot : AcceptedBoot) : Prop :=
  ∀ known ∈ boots, known.key = boot.key → known.bootId ≠ boot.bootId ∧ known.instanceEpoch < boot.instanceEpoch

theorem allocateEpoch_spec {history' : List BootRow} {key : InstanceKey} {bootId : Str} {epoch : Nat}
    (h : allocateEpoch history key bootId = .ok (epoch, history')) :
    IsNew (allocations history) ⟨key, bootId, epoch⟩ ∧
      allocations history' = allocations history ++ [⟨key, bootId, epoch⟩] := by
  obtain ⟨hu, h⟩ := ensure_bind_eq_ok.1 h
  obtain ⟨-, h⟩ := ensure_bind_eq_ok.1 h
  obtain ⟨-, h⟩ := ensure_bind_eq_ok.1 h
  cases h
  refine ⟨?_, by simp [allocations, BootRow.boot]⟩
  rintro known hk rfl
  refine ⟨?_, Nat.lt_succ_of_le (le_lastEpoch hk)⟩
  obtain ⟨row, hr, rfl⟩ := mem_map.1 hk
  simp only [Bool.not_eq_true', any_eq_false, Bool.and_eq_true, beq_iff_eq, not_and] at hu
  exact hu row hr rfl

variable {t : HeartbeatTables} {update : HeartbeatUpdate} {now : Nat}

theorem heartbeatEpoch_spec {key : InstanceKey} {stagedActiveEpoch : Option Str} {epoch : Nat}
    (h : heartbeatEpoch t key now stagedActiveEpoch update = .ok (epoch, history)) :
    ((∃ row ∈ t.heartbeats, row.boot = ⟨key, update.bootId, epoch⟩) ∧ allocations history = allocations t.history) ∨
      (IsNew (allocations t.history) ⟨key, update.bootId, epoch⟩ ∧
        allocations history = allocations t.history ++ [⟨key, update.bootId, epoch⟩]) := by
  unfold heartbeatEpoch at h
  split at h
  · next row hr =>
    have hk : row.key = key := by simpa using find?_some hr
    split at h
    · next hb =>
      obtain ⟨-, h⟩ := ensure_bind_eq_ok.1 h
      cases h
      refine .inl ⟨⟨row, mem_of_find?_eq_some hr, ?_⟩, rfl⟩
      rw [HeartbeatRow.boot, hk, beq_iff_eq.1 hb]
    · obtain ⟨-, h⟩ := ensure_bind_eq_ok.1 h
      have hs := allocateEpoch_spec h
      rw [allocations_retireBoot] at hs
      exact .inr hs
  · exact .inr (allocateEpoch_spec h)

theorem upsertHeartbeat_spec {rows rows' : List HeartbeatRow} {new : HeartbeatRow}
    (h : upsertHeartbeat rows now new = some rows') : ∀ row ∈ rows', (row ∈ rows ∧ row.key ≠ new.key) ∨ row = new := by
  intro row hr
  unfold upsertHeartbeat at h
  split at h
  · next hn =>
    cases h
    rcases mem_append.1 hr with hr | hr
    · have := find?_eq_none.1 hn row hr
      exact .inl ⟨hr, by simpa using this⟩
    · exact .inr (mem_singleton.1 hr)
  split at h
  · cases h
    obtain ⟨old, ho, rfl⟩ := mem_map.1 hr
    split
    · exact .inr rfl
    · next hk => exact .inl ⟨ho, by simpa using hk⟩
  · contradiction

variable {t' : HeartbeatTables}

/-- The boot of an accepted heartbeat is the one of the heartbeat row, or a new one; it is then in the row. -/
theorem heartbeatFenced_spec {store : StoreConfig} {fence : MemberFence}
    (h : heartbeatFenced store now t update = .ok (fence, t')) :
    let boot : AcceptedBoot := ⟨update.key store, fence.bootId, fence.instanceEpoch⟩
    (((∃ row ∈ t.heartbeats, row.boot = boot) ∧ allocations t'.history = allocations t.history) ∨
      (IsNew (allocations t.history) boot ∧ allocations t'.history = allocations t.history ++ [boot])) ∧
      ∀ row ∈ t'.heartbeats, (row ∈ t.heartbeats ∧ row.key ≠ boot.key) ∨ row.boot = boot := by
  obtain ⟨-, -, h⟩ := bind_eq_ok.1 h
  obtain ⟨-, h⟩ := ensure_bind_eq_ok.1 h
  obtain ⟨stagedActiveEpoch, -, h⟩ := bind_eq_ok.1 h
  obtain ⟨⟨epoch, history⟩, he, h⟩ := bind_eq_ok.1 h
  obtain ⟨rows, hr, h⟩ := bind_eq_ok.1 h
  cases h
  refine ⟨heartbeatEpoch_spec he, fun row hrw => ?_⟩
  exact (upsertHeartbeat_spec (context_eq_ok.1 hr) row hrw).imp_right fun hn => by rw [hn]; rfl

/-! ## Runs keep the boots in order -/

/-- Heartbeats of one instance: the same boot with the same epoch, or a later boot with a greater epoch. -/
def BootOrder (earlier later : AcceptedBoot) : Prop :=
  earlier.key = later.key →
    earlier = later ∨ (earlier.bootId ≠ later.bootId ∧ earlier.instanceEpoch < later.instanceEpoch)

structure Issued (t : HeartbeatTables) (accepted : List AcceptedBoot) : Prop where
  known : ∀ boot ∈ accepted, boot ∈ allocations t.history
  latest : ∀ row ∈ t.heartbeats, row.boot ∈ allocations t.history ∧
    ∀ boot ∈ allocations t.history, BootOrder boot row.boot

variable {accepted : List AcceptedBoot}

theorem Issued.heartbeat (hi : Issued t accepted) {store : StoreConfig} {fence : MemberFence}
    (h : heartbeatFenced store now t update = .ok (fence, t')) :
    let boot : AcceptedBoot := ⟨update.key store, fence.bootId, fence.instanceEpoch⟩
    (∀ earlier ∈ accepted, BootOrder earlier boot) ∧ Issued t' (accepted ++ [boot]) := by
  obtain ⟨hb, hrw⟩ := heartbeatFenced_spec h
  generalize (⟨update.key store, fence.bootId, fence.instanceEpoch⟩ : AcceptedBoot) = boot at hb hrw ⊢
  have hin : boot ∈ allocations t'.history := by
    rcases hb with ⟨⟨row, hr, rfl⟩, hh⟩ | ⟨-, hh⟩
    · rw [hh]
      exact (hi.latest row hr).1
    · simp [hh]
  have hk : ∀ known, known ∈ allocations t'.history ↔ known ∈ allocations t.history ∨ known = boot := by
    rcases hb with ⟨-, hh⟩ | ⟨-, hh⟩
    · rw [hh] at hin ⊢
      exact fun known => (or_iff_left_of_imp fun heq => heq ▸ hin).symm
    · simp [hh]
  have ho : ∀ known ∈ allocations t'.history, BootOrder known boot := by
    intro known hm
    rcases (hk known).1 hm with hm | rfl
    · rcases hb with ⟨⟨row, hr, rfl⟩, -⟩ | ⟨hn, -⟩
      · exact (hi.latest row hr).2 known hm
      · exact fun hky => .inr (hn known hm hky)
    · exact fun _ => .inl rfl
  have he : ∀ earlier ∈ accepted, earlier ∈ allocations t'.history :=
    fun earlier hm => (hk earlier).2 (.inl (hi.known earlier hm))
  refine ⟨fun earlier hm => ho earlier (he earlier hm), ⟨?_, ?_⟩⟩
  · exact forall_mem_append.2 ⟨he, by simpa using hin⟩
  intro row hr
  rcases hrw row hr with ⟨hol, hky⟩ | heq
  · obtain ⟨hm, hl⟩ := hi.latest row hol
    refine ⟨(hk _).2 (.inl hm), fun known hm => ?_⟩
    rcases (hk known).1 hm with hm | rfl
    · exact hl known hm
    · exact fun heq => absurd heq.symm hky
  · rw [heq]
    exact ⟨hin, ho⟩

/-- Other changes leave the boots as they are. -/
theorem Issued.congr (hi : Issued t accepted) (hh : t'.history = t.history)
    (hr : t'.heartbeats.map HeartbeatRow.boot = t.heartbeats.map HeartbeatRow.boot) :
    Issued t' accepted := by
  refine ⟨by rw [hh]; exact hi.known, fun row hrw => ?_⟩
  have hm : row.boot ∈ t.heartbeats.map HeartbeatRow.boot := by
    rw [← hr]
    exact mem_map_of_mem hrw
  obtain ⟨old, ho, heq⟩ := mem_map.1 hm
  rw [← heq, hh]
  exact hi.latest old ho

theorem heartbeatStep_issued (hi : Issued t accepted) (step : HeartbeatStep) :
    (∀ earlier ∈ accepted, ∀ boot ∈ (heartbeatStep t step).1, BootOrder earlier boot) ∧
      Issued (heartbeatStep t step).2 (accepted ++ (heartbeatStep t step).1.toList) := by
  cases step with
  | heartbeat store now update =>
    cases h : heartbeatFenced store now t update with
    | error e => simpa [heartbeatStep, h] using hi
    | ok result =>
      obtain ⟨fence, t'⟩ := result
      obtain ⟨ho, hn⟩ := hi.heartbeat h
      simp only [heartbeatStep, h, Option.mem_def, Option.some.injEq, Option.toList_some]
      exact ⟨fun earlier he boot hb => hb ▸ ho earlier he, hn⟩
  | lease key ready leaseExpiresAt =>
    refine ⟨nofun, ?_⟩
    simp only [heartbeatStep, Option.toList_none, append_nil]
    refine hi.congr rfl ?_
    rw [map_map]
    refine map_congr_left fun row _ => ?_
    simp only [Function.comp_apply]
    split <;> rfl
  | membership heads =>
    refine ⟨nofun, ?_⟩
    simp only [heartbeatStep, Option.toList_none, append_nil]
    exact hi.congr rfl rfl

theorem acceptedBoots_order (hi : Issued t accepted) (ho : accepted.Pairwise BootOrder) (steps : List HeartbeatStep) :
    (accepted ++ acceptedBoots t steps).Pairwise BootOrder := by
  induction steps generalizing t accepted with
  | nil => simpa [acceptedBoots] using ho
  | cons step steps ih =>
    obtain ⟨hs, hn⟩ := heartbeatStep_issued hi step
    rw [acceptedBoots, ← append_assoc]
    refine ih hn (pairwise_append.2 ⟨ho, ?_, ?_⟩)
    · cases (heartbeatStep t step).1 <;> simp
    · intro earlier he boot hb
      exact hs earlier he boot (by simpa using hb)

/-- The tables of a new store; membership heads are set up by others. -/
def HeartbeatTables.fresh (heads : List MembershipHead) : HeartbeatTables := ⟨heads, [], []⟩

/-- Two accepted heartbeats of one instance have the same epoch if they come from one boot, and else the later one has
the greater epoch; a boot that another one has followed is never accepted again. -/
theorem heartbeats_fenced (heads : List MembershipHead) (steps : List HeartbeatStep) :
    (acceptedBoots (.fresh heads) steps).Pairwise (fun earlier later => earlier.key = later.key →
        (earlier.bootId = later.bootId → earlier.instanceEpoch = later.instanceEpoch) ∧
          (earlier.bootId ≠ later.bootId → earlier.instanceEpoch < later.instanceEpoch)) ∧
      ∀ before old between new after, acceptedBoots (.fresh heads) steps = before ++ old :: between ++ new :: after →
        new.key = old.key → new.bootId ≠ old.bootId →
        ∀ later ∈ after, later.key = old.key → later.bootId ≠ old.bootId := by
  have hi : Issued (.fresh heads) [] := ⟨forall_mem_nil _, forall_mem_nil _⟩
  have ho := acceptedBoots_order hi List.Pairwise.nil steps
  rw [nil_append] at ho
  refine ⟨ho.imp fun h hk => ?_, ?_⟩
  · rcases h hk with rfl | ⟨hb, he⟩
    · exact ⟨fun _ => rfl, fun hne => absurd rfl hne⟩
    · exact ⟨fun heq => absurd heq hb, fun _ => he⟩
  intro before old between new after hs hn hb later hl hk heq
  rw [hs, append_assoc, cons_append] at ho
  obtain ⟨hol, hr⟩ := pairwise_cons.1 (pairwise_append.1 ho).2.1
  have hf := (pairwise_cons.1 (pairwise_append.1 hr).2.1).1 later hl (hn.trans hk.symm)
  have hfr := hol new (by simp) hn.symm
  have ha := hol later (by simp [hl]) hk.symm
  -- The epochs would rise from the old boot to the new one and from there to the old one.
  rcases ha with ha | ⟨hne, -⟩
  · rcases hfr with rfl | ⟨-, hup⟩
    · exact hb rfl
    rcases hf with rfl | ⟨-, hup'⟩
    · exact hb heq
    · rw [← ha] at hup'
      omega
  · exact hne heq.symm

end Rollout
