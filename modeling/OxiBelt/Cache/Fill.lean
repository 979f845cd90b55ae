import OxiBelt.Lib.Transition

/-!
# Cache fills (`cache/fill.rs`)

The first request for a key leads its fill and holds a guard; requests that come while the fill is in flight are handed
a waiter.  Dropping the guard takes the fill out of the table (`finish`) and then notifies the wait futures that exist
by then.

A waiter makes its future only in `wait`, after `begin` has let go of the shard's lock.  `waiter_forgotten` is the run
in which the guard is dropped in between; `waiters_notified` says that nothing else goes wrong.

A shard whose lock was poisoned is emptied by the next caller while guards of its keys may live (`recover`).
`one_leader`: no run gives a key two fills at a time unless it empties the key's shard, and no fence outlives its fill.
-/

namespace Cache.Fill

open Transition List
open Function (update update_apply)

variable {K : Type} [DecidableEq K]

/-- The shards of a `CacheFillCoordinator`, as maps by key.  A `Notify` is known by its number. -/
structure Coordinator (K : Type) where
  inflight : K → Option Nat
  fenced : K → Bool
  suppressedUntil : K → Option Nat

inductive Decision
  | leader (notify : Nat)
  | follower (notify : Nat)
  | suppressed
  deriving DecidableEq

namespace Coordinator

variable (c : Coordinator K)

/-- `begin`; `notify` is the number of a new `Notify`.  Suppressions that have ended, which the source prunes
first, decide nothing. -/
def start (key : K) (now notify : Nat) : Decision × Coordinator K :=
  if c.fenced key then (.suppressed, c)
  else if (c.suppressedUntil key).any (now < ·) then (.suppressed, c)
  else
    match c.inflight key with
    | some notify => (.follower notify, c)
    | none => (.leader notify, { c with inflight := update c.inflight key (some notify) })

def suppress (key : K) (deadline : Nat) : Coordinator K :=
  { c with suppressedUntil := update c.suppressedUntil key (some deadline) }

/-- `fence_query_target`; `hasTarget` says which keys have the target. -/
def fenceQueryTarget (hasTarget : K → Bool) : Coordinator K :=
  { c with fenced := fun key => c.fenced key || (c.inflight key).isSome && hasTarget key }

/-- `finish` by the guard of a `Notify`: another fill's entry stays. -/
def finish (key : K) (notify : Nat) : Coordinator K :=
  if c.inflight key = some notify then
    { c with inflight := update c.inflight key none, fenced := update c.fenced key false }
  else c

/-- What `shard_guard` makes of a poisoned shard: an empty one. -/
def recover (inShard : K → Bool) : Coordinator K where
  inflight key := if inShard key then none else c.inflight key
  fenced key := !inShard key && c.fenced key
  suppressedUntil key := if inShard key then none else c.suppressedUntil key

end Coordinator

inductive Guard
  | held
  | finished
  | dropped
  deriving DecidableEq

/-- A follower: its `wait` has not been called, or its future waits, or has been woken. -/
inductive Wait
  | handed
  | listening
  | notified
  deriving DecidableEq

structure World (K : Type) where
  coordinator : Coordinator K
  /-- The guards by their `Notify`, with their keys, in the order of their making. -/
  guards : List (K × Guard)
  waiters : List (Nat × Wait)

inductive Event (K : Type)
  | start (key : K) (now : Nat)
  | suppress (key : K) (deadline : Nat)
  | fence (hasTarget : K → Bool)
  | wait (follower : Nat)
  | finish (notify : Nat)
  | notifyWaiters (notify : Nat)
  | recover (inShard : K → Bool)

def Wait.listen : Wait → Wait
  | .handed => .listening
  | wait => wait

/-- `notify_waiters`: the futures that exist are woken. -/
def wake (notify : Nat) (waiter : Nat × Wait) : Nat × Wait :=
  if waiter = (notify, .listening) then (notify, .notified) else waiter

variable (w : World K)

/-- Before it empties a shard, `shard_guard` notifies the fills that it has in flight. -/
def World.wakeShard (inShard : K → Bool) (waiter : Nat × Wait) : Nat × Wait :=
  match w.guards[waiter.1]? with
  | some (key, _) =>
    if inShard key ∧ w.coordinator.inflight key = some waiter.1 then wake waiter.1 waiter else waiter
  | none => waiter

def step : Event K → World K
  | .start key now =>
    match w.coordinator.start key now w.guards.length with
    | (.leader _, c) => { w with coordinator := c, guards := w.guards ++ [(key, .held)] }
    | (.follower notify, c) => { w with coordinator := c, waiters := w.waiters ++ [(notify, .handed)] }
    | (.suppressed, c) => { w with coordinator := c }
  | .suppress key deadline => { w with coordinator := w.coordinator.suppress key deadline }
  | .fence hasTarget => { w with coordinator := w.coordinator.fenceQueryTarget hasTarget }
  | .wait follower => { w with waiters := w.waiters.modify follower (·.map id Wait.listen) }
  | .finish notify =>
    match w.guards[notify]? with
    | some (key, .held) =>
      { w with coordinator := w.coordinator.finish key notify, guards := w.guards.set notify (key, .finished) }
    | _ => w
  | .notifyWaiters notify =>
    match w.guards[notify]? with
    | some (key, .finished) =>
      { w with guards := w.guards.set notify (key, .dropped), waiters := w.waiters.map (wake notify) }
    | _ => w
  | .recover inShard =>
    { w with coordinator := w.coordinator.recover inShard, waiters := w.waiters.map (w.wakeShard inShard) }

def initial : World K := ⟨⟨fun _ => none, fun _ => false, fun _ => none⟩, [], []⟩

def World.Dropped (notify : Nat) : Prop := ∃ key, w.guards[notify]? = some (key, .dropped)

/-- A guard notifies when every follower handed its waiter waits. -/
def AllListen : Event K → Prop
  | .notifyWaiters notify => (notify, Wait.handed) ∉ w.waiters
  | _ => True

/-- The fills in flight are of held guards, and only they are fenced. -/
structure Tracked (w : World K) : Prop where
  held : ∀ key notify, w.coordinator.inflight key = some notify → w.guards[notify]? = some (key, .held)
  fenced : ∀ key, w.coordinator.fenced key = true → (w.coordinator.inflight key).isSome

theorem step_tracked {w : World K} (h : Tracked w) (e : Event K) : Tracked (step w e) := by
  obtain ⟨hh, hf⟩ := h
  cases e with
  | start key now =>
    simp only [step, Coordinator.start]
    split_ifs
    · exact ⟨hh, hf⟩
    · exact ⟨hh, hf⟩
    · cases hi : w.coordinator.inflight key with
      | some notify => exact ⟨hh, hf⟩
      | none => constructor <;> grind [update_apply]
  | suppress | wait => exact ⟨hh, hf⟩
  | fence hasTarget => exact ⟨hh, by grind [step, Coordinator.fenceQueryTarget]⟩
  | finish notify =>
    simp only [step]
    split
    · next key hg =>
      rw [Coordinator.finish]
      -- a guard of before a recovery leaves the entry of the one that replaced it
      split_ifs <;> constructor <;> grind [update_apply]
    · exact ⟨hh, hf⟩
  | notifyWaiters notify =>
    simp only [step]
    split
    · exact ⟨by grind, hf⟩
    · exact ⟨hh, hf⟩
  | recover inShard => constructor <;> grind [step, Coordinator.recover]

theorem run_tracked (events : List (Event K)) : Tracked (run step initial events) :=
  run_keeps (I := Tracked) (fun _ e h => step_tracked h e) ⟨by simp [initial], by simp [initial]⟩ events

omit [DecidableEq K] in
theorem wakeShard_cases (inShard : K → Bool) (waiter : Nat × Wait) :
    w.wakeShard inShard waiter = waiter ∨ w.wakeShard inShard waiter = (waiter.1, .notified) := by
  unfold World.wakeShard wake
  grind

/-- The followers of a dropped guard are notified. -/
structure Inv (w : World K) : Prop extends Tracked w where
  woken : ∀ waiter ∈ w.waiters, ∃ fill, w.guards[waiter.1]? = some fill ∧ (fill.2 = .dropped → waiter.2 = .notified)

theorem step_inv {w : World K} {e : Event K} (h : Inv w) (he : AllListen w e) : Inv (step w e) := by
  refine ⟨step_tracked h.toTracked e, ?_⟩
  obtain ⟨⟨hh, -⟩, hw⟩ := h
  cases e with
  | start key now =>
    simp only [step, Coordinator.start]
    split_ifs
    · exact hw
    · exact hw
    · cases hi : w.coordinator.inflight key with
      | some notify =>
        refine forall_mem_append.2 ⟨hw, ?_⟩
        simp [hh key notify hi]
      | none =>
        intro waiter hm
        obtain ⟨fill, hf, hd⟩ := hw waiter hm
        exact ⟨fill, by grind, hd⟩
  | suppress | fence => exact hw
  | wait follower =>
    intro waiter hm
    obtain ⟨i, hi⟩ := mem_iff_getElem?.1 hm
    simp only [step, getElem?_modify, Option.map_eq_map, Option.map_eq_some_iff] at hi
    obtain ⟨⟨notify, wait⟩, hi, rfl⟩ := hi
    obtain ⟨fill, hf, hd⟩ := hw _ (mem_of_getElem? hi)
    refine ⟨fill, by split <;> exact hf, fun h => ?_⟩
    obtain rfl := hd h
    split <;> rfl
  | finish notify =>
    simp only [step]
    split
    · intro waiter hm
      obtain ⟨fill, hf, hd⟩ := hw waiter hm
      grind
    · exact hw
  | notifyWaiters notify =>
    simp only [step]
    split
    · refine forall_mem_map.2 fun waiter hm => ?_
      obtain ⟨fill, hf, hd⟩ := hw waiter hm
      simp only [AllListen] at he
      obtain ⟨notify', wait⟩ := waiter
      cases wait <;> grind [wake]
    · exact hw
  | recover inShard =>
    refine forall_mem_map.2 fun waiter hm => ?_
    obtain ⟨fill, hf, hd⟩ := hw waiter hm
    obtain hs | hs := wakeShard_cases w inShard waiter <;> rw [hs]
    · exact ⟨fill, hf, hd⟩
    · exact ⟨fill, hf, fun _ => rfl⟩

/-- If every follower calls `wait` before its guard notifies, none is left waiting for a dropped guard. -/
theorem waiters_notified {events : List (Event K)} (h : Along step AllListen initial events) :
    ∀ waiter ∈ (run step initial events).waiters,
      (run step initial events).Dropped waiter.1 → waiter.2 = .notified := by
  rintro waiter hm ⟨key, hd⟩
  have hinv := run_invariant (fun _ _ => step_inv) ⟨run_tracked [], by simp [initial]⟩ h
  obtain ⟨fill, hf, hw⟩ := hinv.woken waiter hm
  cases hd.symm.trans hf
  exact hw rfl

/-- A follower that waits, the drop of the guard, and the end of the wait. -/
theorem waiters_notified_listening :
    let events : List (Event Unit) := [.start () 0, .start () 0, .wait 0, .finish 0, .notifyWaiters 0]
    (run step initial events).waiters = [(0, .notified)] ∧ ∀ waiter ∈ (run step initial events).waiters,
      (run step initial events).Dropped waiter.1 → waiter.2 = .notified :=
  ⟨rfl, waiters_notified ⟨trivial, trivial, trivial, trivial,
    by simp [AllListen, step, initial, Coordinator.start, Wait.listen], trivial⟩⟩

/-- The guard is dropped before the follower waits: its future is never woken. -/
theorem waiter_forgotten :
    let world := run step initial [Event.start () 0, .start () 0, .finish 0, .notifyWaiters 0, .wait 0]
    world.guards[0]? = some ((), .dropped) ∧ world.waiters = [(0, .listening)] :=
  ⟨rfl, rfl⟩

/-- The step empties the key's shard. -/
def Event.Recovers (key : K) : Event K → Prop
  | .recover inShard => inShard key = true
  | _ => False

/-- Every held guard of the key has its fill in flight. -/
def Listed (key : K) (w : World K) : Prop :=
  ∀ notify, w.guards[notify]? = some (key, .held) → w.coordinator.inflight key = some notify

theorem step_listed {key : K} {w : World K} {e : Event K} (h : Listed key w) (he : ¬ e.Recovers key) :
    Listed key (step w e) := by
  unfold Listed at *
  cases e with
  | start key' now =>
    simp only [step, Coordinator.start]
    split_ifs
    · exact h
    · exact h
    · cases hk : w.coordinator.inflight key' with
      | some notify => exact h
      | none => grind [update_apply]
  | suppress | fence | wait => exact h
  | finish notify =>
    simp only [step]
    split
    · next key' hg =>
      rw [Coordinator.finish]
      split_ifs <;> grind [update_apply]
    · exact h
  | notifyWaiters notify =>
    simp only [step]
    split
    · grind
    · exact h
  | recover inShard => grind [step, Coordinator.recover, Event.Recovers]

/-- **One fill at a time.**  After any run a follower is handed the `Notify` of a held guard of its key, and a fence
lasts no longer than the fill that it fences.  If the run has not emptied the key's shard, the key has at most one
held guard and `begin` makes a leader only where there is none. -/
theorem one_leader (events : List (Event K)) (key : K) (now : Nat) :
    let w := run step initial events
    let decision := (w.coordinator.start key now w.guards.length).1
    let Holds notify := w.guards[notify]? = some (key, .held)
    (∀ notify, decision = .follower notify → Holds notify) ∧
      (w.coordinator.fenced key = true → ∃ i, Holds i) ∧
      (Along step (fun _ e => ¬ e.Recovers key) initial events →
        (∀ i j, Holds i → Holds j → i = j) ∧ ∀ i notify, decision = .leader notify → ¬ Holds i) := by
  intro w decision Holds
  have ht : Tracked w := run_tracked events
  refine ⟨fun notify hd => ht.held key notify ?_, fun hf => ?_, fun hr => ?_⟩
  · grind [Coordinator.start]
  · obtain ⟨i, hi⟩ := Option.isSome_iff_exists.1 (ht.fenced key hf)
    exact ⟨i, ht.held key i hi⟩
  · have hl : Listed key w := run_invariant (fun _ _ => step_listed) (by simp [Listed, initial]) hr
    refine ⟨fun i j hi hj => Option.some.inj ((hl i hi).symm.trans (hl j hj)), fun i notify hd hi => ?_⟩
    have := hl i hi
    grind [Coordinator.start]

/-- Two fills, and the shard of one of them is emptied: that key gets a second leader, the other key keeps its one. -/
theorem one_leader_poisoned :
    let events : List (Event Bool) := [.start true 0, .start false 0, .recover id, .start true 1, .finish 0]
    let w := run step initial events
    w.guards = [(true, .finished), (false, .held), (true, .held)] ∧ w.coordinator.inflight true = some 2 ∧
      ∀ (i notify : Nat), (w.coordinator.start false 1 w.guards.length).1 = .leader notify →
        ¬ w.guards[i]? = some (false, Guard.held) :=
  ⟨rfl, rfl, ((one_leader _ false 1).2.2 (by simp [Along, Event.Recovers])).2⟩

end Cache.Fill
