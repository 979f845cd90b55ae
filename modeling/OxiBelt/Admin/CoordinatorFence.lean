import OxiBelt.Admin.RolloutStore
import OxiBelt.Lib.Transition

/-!
# Coordinator fences (`admin_mutation/rollout_store_fencing.rs`, `rollout_store_recovery.rs`)

A coordinator acquires a fence, loads and decides, and submits a plan or a terminal state under the fence at some later
time; meanwhile its lease may have ended and other coordinators may have acquired fences.  A run is any sequence of
such transactions, of processes that hold any fences.  Whether the lease is live is a matter of the clock of each
transaction, so the environment may say so in any way; it may also change everything else but the coordinator.

`coordinator_fenced`: epochs only rise, an epoch belongs to one boot, and a fence with an old epoch does nothing.
-/

namespace Rollout

open RustStd List

inductive FenceStep where
  | acquire (member : MemberFence) (exact : ExactMembership)
  | plan (fence : CoordinatorFence) (plan : RolloutTransitionPlan)
  | finish (fence : CoordinatorFence) (terminal : MutationState)
  /-- What members, other transactions and the clock do. -/
  | environment (db : Database)

/-- The fence that a transaction acquires, and the tables after it; a transaction that fails is rolled back. -/
def fenceStep (rank : Str → Str → Nat) (db : Database) : FenceStep → Option CoordinatorFence × Database
  | .acquire member exact =>
    match acquireCoordinatorFence db member exact with
    | .ok result => result
    | .error _ => (none, db)
  | .plan fence plan => (none, (applyTransitionPlan rank db fence plan).toOption.getD db)
  | .finish fence terminal => (none, (guardedClusterFinish db fence terminal).toOption.getD db)
  | .environment db' =>
    (none, { db' with
      mutation :=
        { db'.mutation with
          coordinator := db.mutation.coordinator
          coordinatorEpoch := db.mutation.coordinatorEpoch } })

def afterFences (rank : Str → Str → Nat) (db : Database) (steps : List FenceStep) : Database :=
  Transition.run (fun db step => (fenceStep rank db step).2) db steps

def acquiredFences (rank : Str → Str → Nat) : Database → List FenceStep → List CoordinatorFence
  | _, [] => []
  | db, step :: steps => (fenceStep rank db step).1.toList ++ acquiredFences rank (fenceStep rank db step).2 steps

/-! ## One transaction -/

variable {rank : Str → Str → Nat} {db db' : Database}

/-- The coordinator and its epoch, as a transaction leaves them. -/
inductive CoordinatorChange (db db' : Database) : Option CoordinatorFence → Prop where
  | kept (hcoordinator : db'.mutation.coordinator = db.mutation.coordinator ∨ db'.mutation.coordinator = none)
      (hepoch : db'.mutation.coordinatorEpoch = db.mutation.coordinatorEpoch) : CoordinatorChange db db' none
  | renewed (fence : CoordinatorFence) (holder : MemberFence) (hholder : db.mutation.coordinator = some holder)
      (hsame : holder.sameBoot fence.member = true) (hcoordinator : db'.mutation.coordinator = some fence.member)
      (hfence : fence.coordinatorEpoch = db.mutation.coordinatorEpoch)
      (hepoch : db'.mutation.coordinatorEpoch = fence.coordinatorEpoch) : CoordinatorChange db db' (some fence)
  | acquired (fence : CoordinatorFence) (hcoordinator : db'.mutation.coordinator = some fence.member)
      (hfence : fence.coordinatorEpoch = db.mutation.coordinatorEpoch + 1)
      (hepoch : db'.mutation.coordinatorEpoch = fence.coordinatorEpoch) : CoordinatorChange db db' (some fence)

theorem acquireCoordinatorFence_change {member : MemberFence} {exact : ExactMembership}
    {result : Option CoordinatorFence × Database} (h : acquireCoordinatorFence db member exact = .ok result) :
    CoordinatorChange db result.2 result.1 := by
  unfold acquireCoordinatorFence at h
  obtain ⟨-, h⟩ := ensure_bind_eq_ok.1 h
  obtain ⟨_, -, h⟩ := bind_eq_ok.1 h
  obtain ⟨-, h⟩ := ensure_bind_eq_ok.1 h
  obtain ⟨-, h⟩ := ensure_bind_eq_ok.1 h
  obtain ⟨-, h⟩ := ensure_bind_eq_ok.1 h
  obtain ⟨_, -, h⟩ := bind_eq_ok.1 h
  dsimp only at h
  split at h
  · cases h
    exact .kept (.inl rfl) rfl
  cases h
  split
  · next hr =>
    rw [Bool.and_eq_true] at hr
    obtain ⟨holder, hh, hs⟩ := (Option.any_eq_true _ _).1 hr.1
    exact .renewed _ holder hh hs rfl rfl rfl
  · exact .acquired _ rfl rfl rfl

variable {fence : CoordinatorFence} {fences : List CoordinatorFence}

theorem applyTargetPlan_mutation {plan : TargetPlan} (h : applyTargetPlan fence db plan = .ok db') :
    db'.mutation = db.mutation := by
  unfold applyTargetPlan at h
  obtain ⟨_, -, h⟩ := bind_eq_ok.1 h
  obtain ⟨-, h⟩ := ensure_bind_eq_ok.1 h
  obtain ⟨-, h⟩ := ensure_bind_eq_ok.1 h
  cases h
  rfl

theorem applyTargetPlans_mutation {plans : List TargetPlan} (h : plans.foldlM (applyTargetPlan fence) db = .ok db') :
    db'.mutation = db.mutation := by
  induction plans generalizing db with
  | nil =>
    cases h
    rfl
  | cons plan plans ih =>
    rw [foldlM_cons, bind_eq_ok] at h
    obtain ⟨middle, hm, h⟩ := h
    exact (ih h).trans (applyTargetPlan_mutation hm)

theorem lockCoordinator_epoch {expectedState : Option MutationState} {exact : Bool}
    (h : lockCoordinator db fence expectedState exact = .ok ()) :
    db.mutation.coordinatorEpoch = fence.coordinatorEpoch := by
  have hh : (db.mutation.coordinator.any (·.sameBoot fence.member) &&
      db.mutation.coordinatorEpoch == fence.coordinatorEpoch && db.mutation.coordinatorLive) = true := by
    unfold lockCoordinator at h
    dsimp only at h
    split at h
    · obtain ⟨_, -, h⟩ := bind_eq_ok.1 h
      exact (ensure_bind_eq_ok.1 h).1
    · exact (ensure_bind_eq_ok.1 h).1
  simp only [Bool.and_eq_true, beq_iff_eq] at hh
  exact hh.1.2

theorem applyTransitionPlan_epoch {plan : RolloutTransitionPlan}
    (h : applyTransitionPlan rank db fence plan = .ok db') :
    db.mutation.coordinatorEpoch = fence.coordinatorEpoch ∧ CoordinatorChange db db' none := by
  unfold applyTransitionPlan at h
  obtain ⟨_, hl, h⟩ := bind_eq_ok.1 h
  obtain ⟨-, h⟩ := ensure_bind_eq_ok.1 h
  obtain ⟨-, h⟩ := ensure_bind_eq_ok.1 h
  obtain ⟨middle, hmd, h⟩ := bind_eq_ok.1 h
  have hm := applyTargetPlans_mutation hmd
  refine ⟨lockCoordinator_epoch hl, ?_⟩
  split at h
  · cases h
    exact .kept (.inl (congrArg (·.coordinator) hm)) (congrArg (·.coordinatorEpoch) hm)
  obtain ⟨-, h⟩ := ensure_bind_eq_ok.1 h
  cases h
  exact .kept (.inl (congrArg (·.coordinator) hm)) (congrArg (·.coordinatorEpoch) hm)

theorem guardedClusterFinish_epoch {terminal : MutationState} (h : guardedClusterFinish db fence terminal = .ok db') :
    db.mutation.coordinatorEpoch = fence.coordinatorEpoch ∧ CoordinatorChange db db' none := by
  unfold guardedClusterFinish at h
  obtain ⟨_, hl, h⟩ := bind_eq_ok.1 h
  obtain ⟨_, -, h⟩ := bind_eq_ok.1 h
  obtain ⟨-, h⟩ := ensure_bind_eq_ok.1 h
  obtain ⟨-, h⟩ := ensure_bind_eq_ok.1 h
  cases h
  exact ⟨lockCoordinator_epoch hl, .kept (.inr rfl) rfl⟩

theorem fenceStep_change (rank : Str → Str → Nat) (db : Database) (step : FenceStep) :
    CoordinatorChange db (fenceStep rank db step).2 (fenceStep rank db step).1 := by
  cases step with
  | acquire member exact =>
    cases h : acquireCoordinatorFence db member exact with
    | error e => simpa [fenceStep, h] using CoordinatorChange.kept (.inl rfl) rfl
    | ok result => simpa [fenceStep, h] using acquireCoordinatorFence_change h
  | plan fence plan =>
    cases h : applyTransitionPlan rank db fence plan with
    | error e => simpa [fenceStep, h, Except.toOption] using CoordinatorChange.kept (.inl rfl) rfl
    | ok db' => simpa [fenceStep, h, Except.toOption] using (applyTransitionPlan_epoch h).2
  | finish fence terminal =>
    cases h : guardedClusterFinish db fence terminal with
    | error e => simpa [fenceStep, h, Except.toOption] using CoordinatorChange.kept (.inl rfl) rfl
    | ok db' => simpa [fenceStep, h, Except.toOption] using (guardedClusterFinish_epoch h).2
  | environment db' => exact .kept (.inl rfl) rfl

/-- A transaction under a fence with another epoch does nothing. -/
theorem fenceStep_fenced (h : db.mutation.coordinatorEpoch ≠ fence.coordinatorEpoch) :
    (∀ plan, (fenceStep rank db (.plan fence plan)).2 = db) ∧
      ∀ terminal, (fenceStep rank db (.finish fence terminal)).2 = db := by
  constructor
  · intro plan
    cases hp : applyTransitionPlan rank db fence plan with
    | error e => simp [fenceStep, hp, Except.toOption]
    | ok db' => exact absurd (applyTransitionPlan_epoch hp).1 h
  · intro terminal
    cases hf : guardedClusterFinish db fence terminal with
    | error e => simp [fenceStep, hf, Except.toOption]
    | ok db' => exact absurd (guardedClusterFinish_epoch hf).1 h

/-! ## Runs -/

/-- Fences in the order in which they were acquired: epochs do not fall, and one epoch belongs to one boot. -/
def FenceOrder (earlier later : CoordinatorFence) : Prop :=
  earlier.coordinatorEpoch ≤ later.coordinatorEpoch ∧
    (earlier.coordinatorEpoch = later.coordinatorEpoch → earlier.member.sameBoot later.member = true)

/-- The mutation row shows the last of the fences that were acquired. -/
structure Holds (db : Database) (fences : List CoordinatorFence) : Prop where
  epoch : ∀ fence ∈ fences, fence.coordinatorEpoch ≤ db.mutation.coordinatorEpoch
  holder : ∀ holder, db.mutation.coordinator = some holder → ∀ fence ∈ fences,
    fence.coordinatorEpoch = db.mutation.coordinatorEpoch → fence.member.sameBoot holder = true

theorem MemberFence.sameBoot_trans {a b c : MemberFence} (hab : a.sameBoot b = true) (hbc : b.sameBoot c = true) :
    a.sameBoot c = true := by
  simp only [sameBoot, Bool.and_eq_true, beq_iff_eq] at hab hbc ⊢
  exact ⟨⟨hab.1.1.trans hbc.1.1, hab.1.2.trans hbc.1.2⟩, hab.2.trans hbc.2⟩

theorem holds_nil (db : Database) : Holds db [] := ⟨forall_mem_nil _, fun _ _ => forall_mem_nil _⟩

theorem holds_last (ho : ∀ earlier ∈ fences, FenceOrder earlier fence)
    (hc : db.mutation.coordinator = some fence.member) (hep : db.mutation.coordinatorEpoch = fence.coordinatorEpoch) :
    Holds db (fences ++ [fence]) := by
  refine ⟨fun earlier he => ?_, fun holder hh earlier he heq => ?_⟩
  · rcases mem_append.1 he with he | he
    · exact (ho earlier he).1.trans hep.ge
    · rw [mem_singleton.1 he, hep]
  cases hc.symm.trans hh
  rcases mem_append.1 he with he | he
  · exact (ho earlier he).2 (heq.trans hep)
  · rw [mem_singleton.1 he]
    simp [MemberFence.sameBoot]

theorem Holds.step (hh : Holds db fences) {new : Option CoordinatorFence} (h : CoordinatorChange db db' new) :
    db.mutation.coordinatorEpoch ≤ db'.mutation.coordinatorEpoch ∧
      (∀ earlier ∈ fences, ∀ fence ∈ new, FenceOrder earlier fence) ∧ Holds db' (fences ++ new.toList) := by
  cases h with
  | kept hc hep =>
    refine ⟨hep.ge, nofun, ?_⟩
    rw [Option.toList_none, append_nil]
    refine ⟨fun fence hf => (hh.epoch fence hf).trans hep.ge, fun holder hhl => ?_⟩
    rcases hc with hs | hnn
    · rw [hep]
      exact hh.holder holder (hs ▸ hhl)
    · rw [hnn] at hhl
      contradiction
  | renewed fence holder hhl hs hc hf hep =>
    have ho : ∀ earlier ∈ fences, FenceOrder earlier fence := by
      intro earlier he
      refine ⟨(hh.epoch earlier he).trans hf.ge, fun heq => ?_⟩
      exact MemberFence.sameBoot_trans (hh.holder holder hhl earlier he (heq.trans hf)) hs
    exact ⟨by omega, fun earlier he _ hn => Option.mem_some.1 hn ▸ ho earlier he, holds_last ho hc hep⟩
  | acquired fence hc hf hep =>
    have ho : ∀ earlier ∈ fences, FenceOrder earlier fence := by
      intro earlier he
      have hle := hh.epoch earlier he
      exact ⟨by omega, fun heq => by omega⟩
    exact ⟨by omega, fun earlier he _ hn => Option.mem_some.1 hn ▸ ho earlier he, holds_last ho hc hep⟩

/-- A run keeps the order of the fences, and the row shows the last one. -/
theorem acquiredFences_order (rank : Str → Str → Nat) (hh : Holds db fences) (ho : fences.Pairwise FenceOrder)
    (steps : List FenceStep) :
    (fences ++ acquiredFences rank db steps).Pairwise FenceOrder ∧
      Holds (afterFences rank db steps) (fences ++ acquiredFences rank db steps) := by
  induction steps generalizing db fences with
  | nil =>
    rw [acquiredFences, append_nil]
    exact ⟨ho, hh⟩
  | cons step steps ih =>
    obtain ⟨-, hs, hn⟩ := hh.step (fenceStep_change rank db step)
    rw [acquiredFences, ← append_assoc]
    refine ih hn (pairwise_append.2 ⟨ho, ?_, ?_⟩)
    · cases (fenceStep rank db step).1 <;> simp
    · intro earlier he fence hf
      exact hs earlier he fence (by simpa using hf)

theorem afterFences_epoch (db : Database) (steps : List FenceStep) :
    db.mutation.coordinatorEpoch ≤ (afterFences rank db steps).mutation.coordinatorEpoch := by
  induction steps generalizing db with
  | nil => exact le_rfl
  | cons step steps ih =>
    have hs := (holds_nil db).step (fenceStep_change rank db step)
    exact hs.1.trans (ih _)

/-- The epoch of a mutation never falls; fences come with rising epochs, and those of one epoch belong to one instance,
boot and instance epoch; under a fence that a later one has superseded, neither a plan nor a terminal state changes
anything. -/
theorem coordinator_fenced (rank : Str → Str → Nat) (db : Database) (steps : List FenceStep) :
    (∀ later, (afterFences rank db steps).mutation.coordinatorEpoch ≤
        (afterFences rank db (steps ++ later)).mutation.coordinatorEpoch) ∧
      (acquiredFences rank db steps).Pairwise (fun earlier later =>
        earlier.coordinatorEpoch ≤ later.coordinatorEpoch ∧
          (earlier.coordinatorEpoch = later.coordinatorEpoch →
            earlier.member.instanceId = later.member.instanceId ∧ earlier.member.bootId = later.member.bootId ∧
              earlier.member.instanceEpoch = later.member.instanceEpoch)) ∧
      ∀ fence, (∃ newer ∈ acquiredFences rank db steps, fence.coordinatorEpoch < newer.coordinatorEpoch) →
        (∀ plan, (fenceStep rank (afterFences rank db steps) (.plan fence plan)).2 = afterFences rank db steps) ∧
          ∀ terminal,
            (fenceStep rank (afterFences rank db steps) (.finish fence terminal)).2 = afterFences rank db steps := by
  obtain ⟨ho, hh⟩ := acquiredFences_order rank (holds_nil db) .nil steps
  rw [nil_append] at ho hh
  refine ⟨fun later => ?_, ho.imp fun {earlier later} h => ?_, ?_⟩
  · rw [afterFences, afterFences, Transition.run, Transition.run, foldl_append]
    exact afterFences_epoch _ later
  · refine ⟨h.1, fun heq => ?_⟩
    have hs := h.2 heq
    simp only [MemberFence.sameBoot, Bool.and_eq_true, beq_iff_eq] at hs
    exact ⟨hs.1.1, hs.1.2, hs.2⟩
  · rintro fence ⟨newer, hn, hlt⟩
    have hle := hh.epoch newer hn
    exact fenceStep_fenced (by omega)

def pairMember (instanceId : String) : MemberFence := ⟨"c", "m", instanceId.toList, "boot", 1⟩

def pairMembership : ExactMembership :=
  ⟨"c", "m", "1", "1", "k", "d", [pairMember "a", pairMember "b"]⟩

/-- A claimed mutation of two members that show its baseline. -/
def pairTables : Database where
  mutation := ⟨⟨"r", "route", "1", "2", "e", "c", "m", .claimed⟩,
    0, true, none, none, 0, false⟩
  targets := pairMembership.members.map fun member =>
    ⟨member.instanceId, .pending, 0, 0, none, none, none, none, none, none, none, none, none, none⟩
  heartbeats := pairMembership.members.map (⟨·, "1", "1", "k", true, true⟩)
  heads := pairMembership.members.map fun member =>
    ⟨member.instanceId, "route", member.bootId, 1, none, "1", "d", true⟩
  checkpoints := []
  revision := ⟨"1", "d"⟩

def pairFence (instanceId : String) (coordinatorEpoch : Nat) : CoordinatorFence :=
  ⟨pairMember instanceId, pairMembership, coordinatorEpoch, 0⟩

/-- One member acquires the fence and its lease ends; the other acquires the next.  Under the first fence nothing can be
finished any more, under the second the mutation can. -/
theorem coordinator_fenced_superseded :
    let steps := [.acquire (pairMember "a") pairMembership, .environment pairTables,
      .acquire (pairMember "b") pairMembership]
    let after := afterFences (fun _ _ => 0) pairTables steps
    let finished fence := (fenceStep (fun _ _ => 0) after (.finish fence .failed)).2
    acquiredFences (fun _ _ => 0) pairTables steps = [pairFence "a" 1, pairFence "b" 2] ∧
      finished (pairFence "a" 1) = after ∧ (finished (pairFence "b" 2)).mutation.record.state = .failed :=
  ⟨rfl,
    ((coordinator_fenced _ _ _).2.2 (pairFence "a" 1) ⟨pairFence "b" 2, .tail _ (.head _), by decide⟩).2 .failed, rfl⟩

end Rollout
