import OxiBelt.Lib.Bytes
import OxiBelt.Lib.Ledger
import OxiBelt.RustStd.Result
import Mathlib.Data.List.Sort

/-!
# One directory of regular files, and the calls on it

A directory maps file names to contents.  A call either fails and changes nothing or takes effect at
once; `runCalls` makes a list of calls up to the first that fails.  Names sort as `OsStr` does, and
numbers padded to one width (`{:0w}`) sort as the numbers do.
-/

namespace RustStd

open ByteString List

abbrev Directory := AList fun _ : Str => Bytes

/-- The calls that the modelled code makes on names inside one directory. -/
inductive FsCall where
  /-- `OpenOptions::create_new`. -/
  | createNew (name : Str)
  /-- `OpenOptions::create`: an existing file is kept as it is. -/
  | create (name : Str)
  | writeAll (name : Str) (data : Bytes)
  | syncFile (name : Str)
  | rename (old new : Str)
  | removeFile (name : Str)
  | syncDirectory
  deriving DecidableEq

def alreadyExists : Str := "File exists (os error 17)"

def notFound : Str := "No such file or directory (os error 2)"

/-- The effect of a call.  A name with a separator leads outside of the directory's own entries. -/
def FsCall.apply (dir : Directory) : FsCall → Result Directory
  | createNew name =>
    if '/' ∈ name then .error notFound
    else if (dir.lookup name).isSome then .error alreadyExists
    else .ok (dir.insert name [])
  | create name =>
    if '/' ∈ name then .error notFound
    else if (dir.lookup name).isSome then .ok dir
    else .ok (dir.insert name [])
  | writeAll name data =>
    match dir.lookup name with
    | some content => .ok (dir.insert name (content ++ data))
    | none => .error notFound
  | syncFile _ => .ok dir
  | rename old new =>
    match dir.lookup old with
    | some content => .ok ((dir.erase old).insert new content)
    | none => .error notFound
  | removeFile name =>
    if (dir.lookup name).isSome then .ok (dir.erase name) else .error notFound
  | syncDirectory => .ok dir

/-- Calls made one after another, each with the context its error is given, up to the first that
fails: the directory then, and the error.  `os` is what the operating system refuses beyond the
directory's own state, such as a write to a full disk. -/
def runCalls (os : FsCall → Option Str) :
    Directory → List (FsCall × Option Str) → Directory × Option Str
  | dir, [] => (dir, none)
  | dir, (call, context) :: calls =>
    match os call with
    | some error => (dir, some (context.getD error))
    | none =>
      match call.apply dir with
      | .ok dir => runCalls os dir calls
      | .error error => (dir, some (context.getD error))

def noFault : FsCall → Option Str := fun _ => none

def completed (os : FsCall → Option Str) : Directory → List (FsCall × Option Str) → List FsCall
  | _, [] => []
  | dir, (call, _) :: calls =>
    match os call with
    | some _ => []
    | none =>
      match call.apply dir with
      | .ok dir => call :: completed os dir calls
      | .error _ => []

/-- All of the calls take effect and leave the directory `dir'`. -/
def Completes (dir : Directory) (calls : List (FsCall × Option Str)) (dir' : Directory) : Prop :=
  runCalls noFault dir calls = (dir', none) ∧ completed noFault dir calls = calls.map (·.1)

theorem Completes.nil (dir : Directory) : Completes dir [] dir := ⟨rfl, rfl⟩

theorem Completes.cons {dir mid dir' : Directory} {call : FsCall} {context : Option Str}
    {calls : List (FsCall × Option Str)} (hc : call.apply dir = .ok mid)
    (h : Completes mid calls dir') : Completes dir ((call, context) :: calls) dir' := by
  constructor
  · simp only [runCalls, noFault, hc]
    exact h.1
  · simp only [completed, noFault, hc, map_cons, cons.injEq, true_and]
    exact h.2

variable {dir : Directory}

theorem Completes.append {mid dir' : Directory} {calls rest : List (FsCall × Option Str)} (h : Completes dir calls mid)
    (hrs : Completes mid rest dir') :
    Completes dir (calls ++ rest) dir' := by
  induction calls generalizing dir with
  | nil =>
    cases (Prod.mk.inj h.1).1
    exact hrs
  | cons call calls ih =>
    obtain ⟨call, context⟩ := call
    obtain ⟨hr, hd⟩ := h
    cases hc : call.apply dir with
    | error error => simp [runCalls, noFault, hc] at hr
    | ok next =>
      simp only [runCalls, noFault, hc] at hr
      simp only [completed, noFault, hc, map_cons, cons.injEq, true_and] at hd
      exact Completes.cons hc (ih ⟨hr, hd⟩)

theorem Completes.syncDirectory (context : Option Str) (k : Nat) :
    Completes dir ([(FsCall.syncDirectory, context)].take k) dir := by
  cases k with
  | zero => exact .nil dir
  | succ k => exact .cons rfl (by simpa using Completes.nil dir)

/-! ## Replacing a file through a temporary one -/

/-- Write to a new temporary file, sync it, rename it to its final name, sync the directory. -/
def replaceCalls (temporary final : Str) (data : Bytes)
    (create write sync rename syncDir : Option Str) : List (FsCall × Option Str) :=
  [(.createNew temporary, create), (.writeAll temporary data, write), (.syncFile temporary, sync),
    (.rename temporary final, rename), (.syncDirectory, syncDir)]

/-- **All or nothing.**  Whenever the calls are cut, the final name shows its old content before the
rename and the new content from then on; no other name but the temporary one changes. -/
theorem replaceCalls_completes {temporary final : Str} (hnm : '/' ∉ temporary) (hnw : dir.lookup temporary = none)
    (hne : temporary ≠ final) (data : Bytes) (create write sync rename syncDir : Option Str) (k : Nat) :
    ∃ dir', Completes dir
        ((replaceCalls temporary final data create write sync rename syncDir).take k) dir' ∧
      (∀ name, name ≠ temporary → dir'.lookup name =
        if 4 ≤ k ∧ name = final then some data else dir.lookup name) ∧
      (k = 0 ∨ 4 ≤ k → dir'.lookup temporary = none) := by
  have hc : (FsCall.createNew temporary).apply dir = .ok (dir.insert temporary []) := by
    simp [FsCall.apply, hnm, hnw]
  have hw : (FsCall.writeAll temporary data).apply (dir.insert temporary []) =
      .ok ((dir.insert temporary []).insert temporary data) := by
    simp [FsCall.apply]
  have hr : (FsCall.rename temporary final).apply ((dir.insert temporary []).insert temporary data) =
      .ok ((((dir.insert temporary []).insert temporary data).erase temporary).insert final data) := by
    simp [FsCall.apply]
  -- one case for each number of calls made; from the fifth on nothing changes
  match k with
  | 0 => exact ⟨dir, .nil dir, fun name _ => by simp, fun _ => hnw⟩
  | 1 =>
    refine ⟨_, .cons hc (.nil _), fun name hn => ?_, by omega⟩
    simp [hn]
  | 2 =>
    refine ⟨_, .cons hc (.cons hw (.nil _)), fun name hn => ?_, by omega⟩
    simp [hn]
  | 3 =>
    refine ⟨_, .cons hc (.cons hw (.cons rfl (.nil _))), fun name hn => ?_, by omega⟩
    simp [hn]
  | k + 4 =>
    refine ⟨_, .cons hc (.cons hw (.cons rfl (.cons hr (.syncDirectory _ k)))), ?_, ?_⟩
    · intro name hn
      rw [Ledger.lookup_insert_apply]
      simp [hn]
    intro _
    rw [Ledger.lookup_insert_apply, if_neg hne]
    simp

theorem removeCalls_completes {names : List Str} (hnd : names.Nodup)
    (ht : ∀ name ∈ names, (dir.lookup name).isSome = true) :
    ∃ dir', Completes dir (names.map fun name => (FsCall.removeFile name, none)) dir' ∧
      ∀ name, dir'.lookup name = if name ∈ names then none else dir.lookup name := by
  induction names generalizing dir with
  | nil => exact ⟨dir, .nil dir, fun name => by simp⟩
  | cons first names ih =>
    obtain ⟨hf, hnm⟩ := forall_mem_cons.1 ht
    obtain ⟨hnt, hnd⟩ := nodup_cons.1 hnd
    have hr : ∀ name ∈ names, ((dir.erase first).lookup name).isSome = true := by
      intro name hn
      have hne : name ≠ first := fun h => hnt (h ▸ hn)
      rw [Ledger.lookup_erase_apply, if_neg hne]
      exact hnm name hn
    obtain ⟨dir', hd, hl⟩ := ih hnd hr
    refine ⟨dir', .cons (by simp [FsCall.apply, hf]) hd, fun name => ?_⟩
    rw [hl, Ledger.lookup_erase_apply]
    by_cases hn : name = first
    · simp [hn]
    · simp [hn]

/-! ## Sorted names -/

variable {t s : Str}

theorem strLe_cons {a b : Char} : strLe (a :: s) (b :: t) = true ↔ a.toNat < b.toNat ∨ a = b ∧ strLe s t = true := by
  simp [strLe]

/-- Names compare as lists of characters. -/
theorem strLe_iff : strLe s t = true ↔ s.le t := by
  induction s generalizing t with
  | nil => exact iff_of_true rfl (List.nil_le t)
  | cons a s ih =>
    cases t with
    | nil => simp [strLe]
    | cons b t =>
      rw [strLe_cons, ih]
      exact (List.cons_le_cons_iff (a := a)).symm

/-- `Vec::sort` of file names. -/
def sortNames (names : List Str) : List Str := names.insertionSort fun a b => strLe a b = true

instance : Std.Total fun a b : Str => strLe a b = true :=
  ⟨fun a b => by rw [strLe_iff, strLe_iff]; exact List.le_total a b⟩

instance : IsTrans Str fun a b : Str => strLe a b = true := ⟨fun _ _ _ => by simp only [strLe_iff]; exact List.le_trans⟩

/-- Names in strictly increasing order are what sorting any listing of them gives. -/
theorem sortNames_eq {names sorted : List Str} (hn : names.Nodup) (hs : sorted.Nodup)
    (hm : ∀ name, name ∈ names ↔ name ∈ sorted)
    (hle : sorted.Pairwise fun a b => strLe a b = true) : sortNames names = sorted := by
  have hp : names.Perm sorted := (perm_ext_iff_of_nodup hn hs).2 hm
  have hp' : (sortNames names).Perm sorted := (perm_insertionSort _ names).trans hp
  have hpr : (sortNames names).Pairwise fun a b => strLe a b = true := pairwise_insertionSort _ names
  exact hp'.eq_of_pairwise (fun _ _ _ _ h h' => List.le_antisymm (strLe_iff.1 h) (strLe_iff.1 h')) hpr hle

/-! ## Numbers of one width -/

/-- `{:0w}` of a number of at most `w` digits. -/
def paddedDecimal : Nat → Nat → Str
  | 0, _ => []
  | w + 1, n => paddedDecimal w (n / 10) ++ [Nat.digitChar (n % 10)]

theorem digitChar_lt {a b : Nat} (hab : a < b) (hb : b < 10) : (Nat.digitChar a).toNat < (Nat.digitChar b).toNat := by
  have ha : ∀ b : Fin 10, ∀ a : Fin 10, a < b → (Nat.digitChar a).toNat < (Nat.digitChar b).toNat := by decide
  exact ha ⟨b, hb⟩ ⟨a, by omega⟩ hab

/-- A smaller number sorts first, whatever follows the digits. -/
theorem paddedDecimal_lt {w a b : Nat} (hab : a < b) (hb : b < 10 ^ w) (x y : Str) :
    strLe (paddedDecimal w a ++ x) (paddedDecimal w b ++ y) = true ∧
      paddedDecimal w a ++ x ≠ paddedDecimal w b ++ y := by
  induction w generalizing a b x y with
  | zero => omega
  | succ w ih =>
    rw [paddedDecimal, paddedDecimal, append_assoc, append_assoc]
    have hb' : b / 10 < 10 ^ w := by omega
    by_cases hh : a / 10 < b / 10
    · exact ih hh hb' _ _
    -- the leading digits agree, so the last ones decide
    have heq : a / 10 = b / 10 := by omega
    have hl : a % 10 < b % 10 := by omega
    have hd := digitChar_lt hl (by omega)
    rw [heq]
    constructor
    · induction paddedDecimal w (b / 10) with
      | nil => exact strLe_cons.2 (.inl hd)
      | cons d ds ih => exact strLe_cons.2 (.inr ⟨rfl, ih⟩)
    intro h
    have h := (cons.inj (append_cancel_left h)).1
    rw [h] at hd
    omega

end RustStd
