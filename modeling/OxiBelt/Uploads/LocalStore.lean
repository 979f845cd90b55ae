import OxiBelt.Lib.Transition

/-!
# The journal of the local upload store (`oxibelt-upload-storage`, `local.rs`)

Every operation checks that the store is healthy, and then takes the lock for one or more sections, each of which may
commit a new state: `commit_locked` writes it to the journal and mirrors it in memory.  When the journal was renamed
into place but not synced, its publication is uncertain and the store is poisoned.

The check is made once and outside of the lock.  `poisoned_store_changes` is the run in which an operation that has
passed it commits after the poisoning; `poisoned_store_keeps` says that only such operations do.
-/

namespace UploadStorage

open Transition List

variable {σ : Type}

/-- How far the file operations of `persist_state` come. -/
structure Attempt where
  /-- The journal is within its bound, and the temporary file was written and synced. -/
  written : Bool
  (renamed directoriesSynced : Bool)
  deriving DecidableEq

inductive Publication
  | ok
  | failed
  | uncertain
  deriving DecidableEq

def persistState (attempt : Attempt) : Publication :=
  if attempt.written && attempt.renamed then if attempt.directoriesSynced then .ok else .uncertain else .failed

/-- A `LocalStore`: the state in memory, the state that the journal holds, and the poison flag. -/
structure Store (σ : Type) where
  (state journal : σ)
  poisoned : Bool
  deriving DecidableEq

/-- `commit_locked`, and whether it ends without an error. -/
def Store.commitLocked (store : Store σ) (next : σ) (attempt : Attempt) : Bool × Store σ :=
  match persistState attempt with
  | .ok => (true, { store with state := next, journal := next })
  | .uncertain => (false, { state := next, journal := next, poisoned := true })
  | .failed => (false, store)

/-- What an operation does under one lock: `none` if it commits nothing, as an error or a pure read does. -/
abbrev Body (σ : Type) := σ → Option σ

/-- An operation that has been called, or has passed `ensure_healthy` and has these sections before it. -/
inductive Operation (σ : Type)
  | called (sections : List (Body σ))
  | passed (sections : List (Body σ))

structure World (σ : Type) where
  store : Store σ
  operations : List (Operation σ)

inductive Event (σ : Type)
  | call (sections : List (Body σ))
  | ensureHealthy (operation : Nat)
  | lock (operation : Nat) (attempt : Attempt)

/-- One step of an operation.  An error of the check or of a commit ends it. -/
def step (w : World σ) : Event σ → World σ
  | .call sections => { w with operations := w.operations ++ [.called sections] }
  | .ensureHealthy i =>
    match w.operations[i]? with
    | some (.called sections) =>
      { w with operations := w.operations.set i (.passed (if w.store.poisoned then [] else sections)) }
    | _ => w
  | .lock i attempt =>
    match w.operations[i]? with
    | some (.passed (body :: sections)) =>
      match body w.store.state with
      | none => { w with operations := w.operations.set i (.passed sections) }
      | some next =>
        let (ok, store) := w.store.commitLocked next attempt
        { store, operations := w.operations.set i (.passed (if ok then sections else [])) }
    | _ => w

/-- No operation is between its check and its last section. -/
def World.Quiet (w : World σ) : Prop := ∀ sections, .passed sections ∈ w.operations → sections = []

theorem step_quiet {w : World σ} {e : Event σ} (hp : w.store.poisoned = true) (hq : w.Quiet) :
    (step w e).store = w.store ∧ (step w e).Quiet := by
  cases e with
  | call sections => exact ⟨rfl, fun s hs => hq s (by simpa [step] using hs)⟩
  | ensureHealthy i =>
    simp only [step, hp, if_true]
    split
    · refine ⟨rfl, fun s hs => ?_⟩
      obtain h | h := mem_or_eq_of_mem_set hs
      · exact hq s h
      · cases h
        rfl
    · exact ⟨rfl, hq⟩
  | lock i attempt =>
    simp only [step]
    split
    · next body sections h => cases hq _ (mem_of_getElem? h)
    · exact ⟨rfl, hq⟩

/-- If no operation was past its check when the store was poisoned, nothing changes the journal or the state. -/
theorem poisoned_store_keeps {w : World σ} (hp : w.store.poisoned = true) (hq : w.Quiet) (events : List (Event σ)) :
    (run step w events).store = w.store := by
  refine (run_keeps (I := fun v : World σ => v.store = w.store ∧ v.Quiet) ?_ ⟨rfl, hq⟩ events).1
  rintro v e ⟨hs, hv⟩
  obtain ⟨h, hv⟩ := step_quiet (e := e) (hs ▸ hp) hv
  exact ⟨h.trans hs, hv⟩

/-- Two operations that count in the state; the first one's publication is uncertain. -/
def countedTwice (checks : List (Event Nat)) : World Nat :=
  let body : Body Nat := fun n => some (n + 1)
  run step ⟨⟨0, 0, false⟩, []⟩ ([.call [body], .call [body]] ++ checks ++ [.lock 0 ⟨true, true, false⟩])

theorem poisoned_store_keeps_counted :
    (run step (countedTwice [.ensureHealthy 0]) [.ensureHealthy 1, .lock 1 ⟨true, true, true⟩]).store = ⟨1, 1, true⟩ :=
  poisoned_store_keeps rfl (fun s hs => by simp_all [countedTwice, step, Store.commitLocked, persistState]) _

/-- The second one has passed its check, and commits to the poisoned store. -/
theorem poisoned_store_changes :
    let w := countedTwice [.ensureHealthy 0, .ensureHealthy 1]
    w.store = ⟨1, 1, true⟩ ∧ (step w (.lock 1 ⟨true, true, true⟩)).store = ⟨2, 2, true⟩ :=
  ⟨rfl, rfl⟩

end UploadStorage
