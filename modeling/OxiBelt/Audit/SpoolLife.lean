import OxiBelt.Audit.SpoolFiles

/-!
# The life of an audit spool

A spool directory lives through openings, appends, acknowledgements and crashes.  A crash stops the
action at hand after some of its calls.  What must survive is said by the `History`: the events whose
file got its final name, and those of them not yet removed.

`Consistent` is the invariant: the directory tells the history, and the writer stands at the end of
the chain.  Each operation is described by what its calls show when they are cut
(`openCalls_completes`, `appendCalls_completes`, `acknowledgeCalls_completes`).
-/

namespace Audit

open RustStd ByteString List FsCall

/-! ## The life of a spool directory -/

section Life

/-- What must survive: the events whose file got its final name, and those of them not yet removed. -/
structure History (Body : Type) where
  renamed : List (AdminAuditEvent Body)
  live : List (AdminAuditEvent Body)

structure System (Body : Type) where
  running : Option SpoolState
  dir : Directory
  history : History Body

inductive Action (Body : Type) where
  | append (event : AdminAuditEvent Body) (capacity : AppendCapacity)
  | acknowledge (path : Path)
  | release
  | openAgain (fresh : ByteArr 16)

/-- An action runs to its end, or the process dies after that many of its calls. -/
structure Step (Body : Type) where
  action : Action Body
  crash : Option Nat

variable {Body P : Type} (inner : SpoolInner Body P)

def System.empty : System Body where
  running := none
  dir := ∅
  history := { renamed := [], live := [] }

variable (sys : System Body) (action : Action Body)

/-- The calls that an action makes in this state when nothing stops it.  Without a writer only opening
does anything, and a second writer does not get the lock. -/
def System.calls : List (FsCall × Option Str) :=
  match action, sys.running with
  | .append event capacity, some state =>
    match decideAppend inner state event capacity with
    | .commit plan => appendCalls inner plan
    | .refused _ _ => []
  | .acknowledge path, some state =>
    match decideAcknowledge inner state sys.dir path with
    | .ok _ => acknowledgeCalls inner path
    | .error _ => []
  | .openAgain _, none => openCalls inner sys.dir
  | _, _ => []

/-- The history once some calls of an action have taken effect. -/
def System.historyAfter (done : List FsCall) : History Body :=
  match action, sys.running with
  | .append event capacity, some state =>
    match decideAppend inner state event capacity with
    | .commit plan =>
      if FsCall.rename plan.temporaryName plan.finalName ∈ done then
        { renamed := sys.history.renamed ++ [plan.event], live := sys.history.live ++ [plan.event] }
      else sys.history
    | .refused _ _ => sys.history
  | .acknowledge path, some _ =>
    if FsCall.removeFile path.name ∈ done then
      { sys.history with live := sys.history.live.filter fun event => recordName event != path.name }
    else sys.history
  | _, _ => sys.history

def System.perform : Option SpoolState × Directory :=
  match action, sys.running with
  | .append event capacity, some state =>
    let (_, state, dir) := appendWithCapacity inner noFault state sys.dir event capacity
    (some state, dir)
  | .acknowledge path, some state =>
    let (_, state, dir) := acknowledge inner noFault state sys.dir path
    (some state, dir)
  | .release, some state => (some (releaseTerminalReservation inner state), sys.dir)
  | .openAgain fresh, none =>
    match openSpool inner noFault sys.dir fresh with
    | (.ok state, dir) => (some state, dir)
    | (.error _, dir) => (none, dir)
  | _, running => (running, sys.dir)

def System.step (s : Step Body) : System Body :=
  match s.crash with
  | none =>
    let (running, dir) := sys.perform inner s.action
    { running, dir
      history := sys.historyAfter inner s.action
        (completed noFault sys.dir (sys.calls inner s.action)) }
  | some k =>
    let calls := (sys.calls inner s.action).take k
    { running := none
      dir := (runCalls noFault sys.dir calls).1
      history := sys.historyAfter inner s.action (completed noFault sys.dir calls) }

/-- The envelope continues the chain after the last of the events; without any, it starts one. -/
def Continues (events : List (AdminAuditEvent Body)) (envelope : IntegrityEnvelope) : Prop :=
  match events.getLast? with
  | none => envelope.sequence = 0 ∧ envelope.previousHash = hexEncode genesisHash.val
  | some event => ∃ previous, event.integrity = some previous ∧
      envelope.chainId = previous.chainId ∧
      envelope.sequence.toNat = previous.sequence.toNat + 1 ∧
      envelope.previousHash = previous.eventHash

/-- Opening the directory works, finds the live events and goes on after the last renamed one. -/
def Recovers : Prop :=
  ∀ fresh, ∃ state dir, openSpool inner noFault sys.dir fresh = (.ok state, dir) ∧
    (recordPaths dir >>= List.mapM (readAndVerifyRecord inner dir)) = .ok sys.history.live ∧
    state.events = sys.history.live.length ∧
    ∀ payload envelope chain,
      state.chain.seal inner.crypto inner.canonicalJsonBytes payload = .ok (envelope, chain) →
      Continues sys.history.renamed envelope

/-- The process dies in an append, after the rename of the event and before that of the head. -/
def CutBetweenRenames (s : Step Body) : Prop :=
  ∃ k event capacity state plan, s.crash = some k ∧ s.action = .append event capacity ∧
    sys.running = some state ∧ decideAppend inner state event capacity = .commit plan ∧
    FsCall.rename plan.temporaryName plan.finalName ∈
      completed noFault sys.dir ((sys.calls inner s.action).take k) ∧
    FsCall.rename temporaryHead headFile ∉
      completed noFault sys.dir ((sys.calls inner s.action).take k)

end Life

/-! ## The invariant -/

section Invariant

variable {Body P : Type} (inner : SpoolInner Body P)

def headOf (history : History Body) (chain : IntegrityChain) : Option ChainHead :=
  if history.renamed = [] then none else some chain.head

/-- The directory tells the whole history: the live events lie between two places of one chain, the
head is the second of them, and it is where the last renamed event led. -/
structure Shows (dir : Directory) (history : History Body) (start stop : IntegrityChain) : Prop where
  own : OwnChain inner start
  run : SealedRun inner start history.live stop
  files : visible dir = image inner ((headOf history stop).map inner.codec.encodeHead) history.live
  lock : ∀ content, dir.lookup lockFile = some content → content = []
  fresh : history.renamed = [] →
    history.live = [] ∧ stop.nextSequence = 0 ∧ stop.previousHash = genesisHash
  last : ∀ event, history.renamed.getLast? = some event → ∃ chain, Sealed inner chain event stop

/-- The writer stands at the end of the chain, its cursor before the oldest live event. -/
structure Follows (state : SpoolState) (dir : Directory) (history : History Body)
    (start stop : IntegrityChain) : Prop where
  chain : state.chain = stop
  cursor : state.replayCursor = start.cursor
  sound : state.poisoned = false
  count : state.events = history.live.length
  temporary : ∀ name, isTemporary name = true → dir.lookup name = none

def Consistent (sys : System Body) : Prop :=
  ∃ start stop, Shows inner sys.dir sys.history start stop ∧
    ∀ state, sys.running = some state → Follows state sys.dir sys.history start stop

variable {inner}

variable {start stop chain : IntegrityChain} {dir dir' : Directory} {events : List (AdminAuditEvent Body)}
  {event : AdminAuditEvent Body} {state : SpoolState} {plan : AppendPlan Body} {head : Option Bytes}

theorem SealedRun.own (h : SealedRun inner start events stop) (ho : OwnChain inner start) : OwnChain inner stop := by
  induction h with
  | nil chain => exact ho
  | cons head tail ih => exact ih (head.own ho)

theorem OwnChain.restore_head (h : OwnChain inner chain) :
    IntegrityChain.restore chain.chainId chain.nextSequence (hexEncode chain.previousHash.val)
      inner.hmacKey = .ok chain := by
  refine bind_eq_ok.2 ⟨(), h.id, bind_eq_ok.2 ⟨_, decodeHex_hexEncode _ _, ?_⟩⟩
  rw [← h.key]
  rfl

theorem ownChain_new (fresh : ByteArr 16) : OwnChain inner (IntegrityChain.new inner.hmacKey fresh) :=
  ⟨bind_eq_ok.2 ⟨fresh, decodeHex_hexEncode fresh _, rfl⟩, rfl⟩

/-! ### Opening -/

def LockEmpty (dir : Directory) : Prop := ∀ content, dir.lookup lockFile = some content → content = []

def Swept (dir : Directory) : Prop := ∀ name, isTemporary name = true → dir.lookup name = none

theorem lockFile_lookup_create (hl : LockEmpty dir) (h : (create lockFile).apply dir = .ok dir') :
    (∀ name, name ≠ lockFile → dir'.lookup name = dir.lookup name) ∧ LockEmpty dir' := by
  have hs : '/' ∉ lockFile := by decide
  rw [apply, if_neg hs] at h
  split at h
  · cases h
    exact ⟨fun _ _ => rfl, hl⟩
  cases h
  refine ⟨fun name hn => by rw [Ledger.lookup_insert_apply, if_neg hn], fun content hc => ?_⟩
  rw [Ledger.lookup_insert_apply, if_pos rfl] at hc
  exact (Option.some.inj hc).symm

theorem create_lockFile_ok (dir : Directory) : ∃ dir', (create lockFile).apply dir = .ok dir' := by
  have hs : '/' ∉ lockFile := by decide
  rw [apply, if_neg hs]
  split
  · exact ⟨_, rfl⟩
  · exact ⟨_, rfl⟩

theorem visible_congr (h : ∀ name, isTemporary name = false → name ≠ lockFile → dir'.lookup name = dir.lookup name) :
    visible dir' = visible dir := by
  funext name
  by_cases ht : isTemporary name = true
  · simp [visible, ht]
  by_cases hl : name = lockFile
  · simp [visible, hl]
  · have ht : isTemporary name = false := by simpa using ht
    rw [visible_of_entry hl ht, visible_of_entry hl ht, h name ht hl]

/-- However many calls of opening are made, the events and the head stay as they are; once all are
made, no temporary file is left. -/
theorem openCalls_completes {dir : Directory} (hl : LockEmpty dir) (k : Nat) :
    ∃ dir', Completes dir ((openCalls inner dir).take k) dir' ∧ visible dir' = visible dir ∧ LockEmpty dir' ∧
      ((openCalls inner dir).length ≤ k → Swept dir') := by
  cases k with
  | zero => exact ⟨dir, .nil dir, rfl, hl, by simp [openCalls]⟩
  | succ k =>
    obtain ⟨locked, hcr⟩ := create_lockFile_ok dir
    obtain ⟨hs, hl'⟩ := lockFile_lookup_create hl hcr
    have hne : ∀ name, isTemporary name = true → name ≠ lockFile := by
      rintro name ht rfl
      exact absurd ht (by decide)
    have hth : ∀ name ∈ (dir.keys.filter isTemporary).take k, (locked.lookup name).isSome = true := by
      intro name hn
      obtain ⟨hk, ht⟩ := mem_filter.1 (mem_of_mem_take hn)
      rw [hs name (hne name ht), AList.lookup_isSome, AList.mem_keys]
      exact hk
    obtain ⟨dir', hd, hlk⟩ := removeCalls_completes ((dir.keys_nodup.filter isTemporary).sublist (take_sublist k _)) hth
    have hnt : ∀ name, isTemporary name = false → name ∉ (dir.keys.filter isTemporary).take k := by
      intro name ht hn
      have := (mem_filter.1 (mem_of_mem_take hn)).2
      rw [ht] at this
      contradiction
    refine ⟨dir', ?_, ?_, ?_, ?_⟩
    · rw [openCalls, cons_append, take_succ_cons, take_append, ← map_take]
      exact .cons hcr (hd.append (.syncDirectory _ _))
    · refine visible_congr fun name ht hn => ?_
      rw [hlk, if_neg (hnt name ht), hs name hn]
    · intro content hc
      rw [hlk, if_neg (hnt lockFile (by decide))] at hc
      exact hl' content hc
    intro hln name ht
    have ha : (dir.keys.filter isTemporary).take k = dir.keys.filter isTemporary := by
      apply take_of_length_le
      simp only [openCalls, length_append, length_cons, length_map, length_nil] at hln
      omega
    rw [hlk, ha]
    split
    · rfl
    next hno =>
    rw [hs name (hne name ht), AList.lookup_eq_none, AList.mem_keys]
    intro hk
    exact hno (mem_filter.2 ⟨hk, ht⟩)

/-- The head of a consistent directory passes the cross-check. -/
theorem matchesHead_of_lastMeets {last : Option (Str × UInt64 × Str)} (h : LastMeets last chain) :
    matchesHead last chain.head = .ok () := by
  cases last with
  | none => rfl
  | some x =>
    obtain ⟨chainId, sequence, eventHash⟩ := x
    obtain ⟨hid, hs, hh⟩ := h _ _ _ rfl
    refine ensure_bind_eq_ok.2 ⟨by simp [hid, IntegrityChain.head], ?_⟩
    refine ensure_bind_eq_ok.2 ⟨by simp [hs, IntegrityChain.head], ?_⟩
    rw [hh, IntegrityChain.head, ensure, if_pos (beq_self_eq_true _)]

/-- The cursor that recovery starts from stands before the oldest live event. -/
theorem SealedRun.first_cursor (h : SealedRun inner start events stop) :
    (if events = [] then none else some start.cursor).getD stop.cursor = start.cursor := by
  cases h with
  | nil chain => rfl
  | cons head tail => rfl

variable {history : History Body}

section

variable (h : Shows inner dir history start stop)
include h

theorem recoverState_shows (fresh : ByteArr 16) :
    ∃ start' stop' bytes, Shows inner dir history start' stop' ∧
      recoverState inner dir fresh = .ok (stop', start'.cursor, bytes, history.live.length) := by
  obtain ⟨scan, hf, -, hls, hr⟩ := recoverState_image h.run h.own h.files fresh
  by_cases hn : history.renamed = []
  · -- no event was ever renamed: there is no head, and a new chain begins
    obtain ⟨hl, -, -⟩ := h.fresh hn
    have hh : ∀ chain, headOf history chain = none := fun chain => if_pos hn
    refine ⟨IntegrityChain.new inner.hmacKey fresh, IntegrityChain.new inner.hmacKey fresh, scan.bytes,
      ⟨ownChain_new fresh, ?_, ?_, h.lock, fun _ => ⟨hl, rfl, rfl⟩, ?_⟩, ?_⟩
    · rw [hl]
      exact .nil _
    · rw [h.files, hh, hh]
    · intro event he
      rw [hn] at he
      cases he
    · rw [hr, hh, hf, hl]
      rfl
  · have hh : headOf history stop = some stop.head := if_neg hn
    refine ⟨start, stop, scan.bytes, h, ?_⟩
    rw [hr, hh, hf]
    refine bind_eq_ok.2 ⟨stop, ?_, ?_⟩
    · exact bind_eq_ok.2 ⟨(), matchesHead_of_lastMeets hls, (h.run.own h.own).restore_head⟩
    · rw [h.run.first_cursor]
      rfl

theorem Shows.of_visible (hv : visible dir' = visible dir)
    (hl : LockEmpty dir') : Shows inner dir' history start stop :=
  ⟨h.own, h.run, hv.trans h.files, hl, h.fresh, h.last⟩

/-- **Opening a consistent directory** succeeds and leaves a consistent writer. -/
theorem openSpool_shows (fresh : ByteArr 16) :
    ∃ state dir' start' stop', openSpool inner noFault dir fresh = (.ok state, dir') ∧
      Shows inner dir' history start' stop' ∧ Follows state dir' history start' stop' := by
  obtain ⟨dir', hd, hv, hl, ht⟩ := @openCalls_completes Body P inner dir h.lock (openCalls inner dir).length
  rw [List.take_length] at hd
  obtain ⟨start', stop', bytes, hs, hr⟩ := recoverState_shows (h.of_visible hv hl) fresh
  let state : SpoolState := {
    chain := stop'
    replayCursor := start'.cursor
    bytes
    events := history.live.length
    reservedBytes := 0
    reservedEvents := 0
    poisoned := false }
  refine ⟨state, dir', start', stop', ?_, hs, ⟨rfl, rfl, rfl, rfl, ht le_rfl⟩⟩
  rw [openSpool, hd.1]
  simp only [hr, state]

end

/-! ### What a consistent directory gives back -/

theorem mapM_readAndVerifyRecord (ho : OwnChain inner start) (hr : SealedRun inner start events stop)
    (hf : ∀ event ∈ events, dir.lookup (recordName event) = some (inner.codec.encodeEvent event)) :
    (events.map recordName).mapM (readAndVerifyRecord inner dir) = .ok events := by
  induction hr with
  | nil chain => rfl
  | cons head tail ih =>
    obtain ⟨hfl, hf⟩ := forall_mem_cons.1 hf
    rw [map_cons, mapM_cons, readAndVerifyRecord_sealed ho head hfl, ih (head.own ho) hf]
    rfl

theorem Shows.continues (h : Shows inner dir history start stop) {payload : P} {envelope : IntegrityEnvelope}
    (hs : stop.seal inner.crypto inner.canonicalJsonBytes payload = .ok (envelope, chain)) :
    Continues history.renamed envelope := by
  obtain ⟨-, hid, hsq, hp, -⟩ := seal_eq_ok hs
  unfold Continues
  split
  · next hn =>
    obtain ⟨-, hz, hg⟩ := h.fresh (List.getLast?_eq_none_iff.1 hn)
    exact ⟨hsq.trans hz, by rw [hp, hg]⟩
  next event hsm =>
  obtain ⟨before, previous, he, hs'⟩ := h.last event hsm
  obtain ⟨-, hid', hsq', -, hnx, hh, hsa, -⟩ := seal_eq_ok hs'
  refine ⟨previous, he, by rw [hid, hsa, hid'], ?_, by rw [hp, hh]⟩
  rw [hsq, hsq', checkedSucc_toNat hnx]

theorem Consistent.recovers {sys : System Body} (h : Consistent inner sys) : Recovers inner sys := by
  intro fresh
  obtain ⟨start, stop, hs, -⟩ := h
  obtain ⟨state, dir', start', stop', ho, hs', hf⟩ := openSpool_shows hs fresh
  refine ⟨state, dir', ho, ?_, hf.count, ?_⟩
  · rw [recordPaths_image hs'.run hs'.files]
    exact mapM_readAndVerifyRecord hs'.own hs'.run (files_of_image hs'.run hs'.files)
  intro payload envelope chain hsl
  rw [hf.chain] at hsl
  exact hs'.continues hsl

theorem verifyReplayCursor_first {mid : IntegrityChain} (h : Sealed inner start event mid) :
    verifyReplayCursor start.cursor event = .ok () := by
  obtain ⟨envelope, he, hs⟩ := h
  obtain ⟨-, hid, hsq, hp, -⟩ := seal_eq_ok hs
  refine bind_eq_ok.2 ⟨envelope, context_eq_ok.2 he, ?_⟩
  simp [ensure, IntegrityChain.cursor, hid, hsq, hp]

/-- **Replay order.**  The next entry is the oldest live event. -/
theorem nextEntry_oldest (h : Shows inner dir history start stop) (hf : Follows state dir history start stop) :
    nextEntry inner state dir = .ok (history.live.head?.map fun event =>
      ({ parent := inner.config.directory, name := recordName event }, event)) := by
  refine bind_eq_ok.2 ⟨_, recordPaths_image h.run h.files, ensure_bind_eq_ok.2 ⟨?_, ?_⟩⟩
  · rw [length_map, hf.count, beq_self_eq_true]
  have hr := h.run
  have hfl := files_of_image h.run h.files
  revert hr hfl
  cases history.live with
  | nil =>
    intro _ _
    rfl
  | cons event rest =>
    intro hr hfl
    cases hr with
    | cons head tail =>
      have hrd := readAndVerifyRecord_sealed h.own head (hfl event mem_cons_self)
      refine bind_eq_ok.2 ⟨event, hrd, bind_eq_ok.2 ⟨(), ?_, rfl⟩⟩
      rw [hf.cursor]
      exact verifyReplayCursor_first head

/-! ### Appending -/

theorem putBack_own (ho : OwnChain inner state.chain) (chain : IntegrityChain) (error : Str) :
    putBack inner state chain error = (error, state) := by
  rw [putBack, restoreChain, ho.restore_head]

/-- What an append that goes ahead has been given. -/
theorem decideAppend_commit {capacity : AppendCapacity} (h : decideAppend inner state event capacity = .commit plan) :
    Sealed inner state.chain plan.event plan.chain ∧ plan.finalName = recordName plan.event ∧
      plan.encoded = inner.codec.encodeEvent plan.event := by
  unfold decideAppend at h
  split at h
  · contradiction
  split at h
  · contradiction
  dsimp only at h
  split at h
  · contradiction
  next envelope chain hs =>
  split at h
  · contradiction
  split at h
  · cases h
    refine ⟨⟨envelope, rfl, ?_⟩, rfl, rfl⟩
    rw [inner.codec.unsigned_integrity] at hs
    rwa [inner.codec.unsigned_integrity event (some envelope)]
  · contradiction

theorem decideAppend_refused {state' : SpoolState} {capacity : AppendCapacity} {error : Str}
    (ho : OwnChain inner state.chain) (h : decideAppend inner state event capacity = .refused error state') :
    state' = state := by
  unfold decideAppend at h
  split at h
  · cases h
    rfl
  split at h
  · cases h
    rfl
  dsimp only at h
  split at h
  · cases h
    rfl
  split at h
  · rw [refuse, putBack_own ho] at h
    cases h
    rfl
  split at h
  · contradiction
  rw [refuse, putBack_own ho] at h
  cases h
  rfl

theorem image_concat (hnd : ((events ++ [event]).map recordName).Nodup) (name : Str) :
    image inner head (events ++ [event]) name =
      if name = recordName event then some (inner.codec.encodeEvent event)
      else image inner head events name := by
  by_cases hn : name = recordName event
  · subst hn
    rw [if_pos rfl, image_recordName hnd (by simp)]
  rw [if_neg hn, image, image]
  have hl : ([event].find? fun other => recordName other == name) = none := by
    simp [Ne.symm hn]
  rw [find?_append, hl, Option.or_none]

theorem image_tail (hnd : ((event :: events).map recordName).Nodup) (name : Str) : image inner head events name =
      if name = recordName event then none else image inner head (event :: events) name := by
  by_cases hn : name = recordName event
  · subst hn
    rw [if_pos rfl, image_record (recordName_entry event), Option.map_eq_none_iff, find?_eq_none]
    intro other ho
    rw [map_cons, nodup_cons] at hnd
    rw [beq_iff_eq]
    exact fun h => hnd.1 (h ▸ mem_map_of_mem ho)
  · rw [if_neg hn, image, image, find?_cons_of_neg (by simpa using Ne.symm hn)]

theorem isTemporary_temporaryName (eventId : Str) : isTemporary (temporaryName eventId) = true :=
  List.isPrefixOf_iff_prefix.2 (prefix_append _ _)

/-- However an append is cut, the event shows from its rename on, and the head from its own. -/
def Appended (inner : SpoolInner Body P) (plan : AppendPlan Body) (k : Nat) (dir dir' : Directory) : Prop :=
  ∀ name, isTemporary name = false → dir'.lookup name =
    if 9 ≤ k ∧ name = headFile then some (inner.codec.encodeHead plan.chain.head)
    else if 4 ≤ k ∧ name = plan.finalName then some plan.encoded else dir.lookup name

theorem Appended.lockEmpty {k : Nat} (h : Appended inner plan k dir dir') (hl : LockEmpty dir) : LockEmpty dir' := by
  intro content hc
  have hne : lockFile ≠ plan.finalName := (isRecordEntry_iff.1 (isRecordEntry_finalName _ _)).2.1.symm
  rw [h lockFile (by decide), if_neg (fun hh => absurd hh.2 (by decide)), if_neg (fun hh => hne hh.2)] at hc
  exact hl content hc

theorem appendCalls_completes {dir : Directory} {plan : AppendPlan Body} (hs : '/' ∉ plan.event.eventId)
    (htm : Swept dir) (k : Nat) :
    ∃ dir', Completes dir ((appendCalls inner plan).take k) dir' ∧ Appended inner plan k dir dir' ∧
      (9 ≤ k → Swept dir') := by
  have ht : isTemporary plan.temporaryName = true := isTemporary_temporaryName _
  have hf : isTemporary plan.finalName = false := (isRecordEntry_iff.1 (isRecordEntry_finalName _ _)).2.2
  have hnm : '/' ∉ plan.temporaryName := by
    simp [AppendPlan.temporaryName, temporaryName, temporaryStart, hs]
  have hne : plan.temporaryName ≠ plan.finalName := fun h => by simp [h, hf] at ht
  obtain ⟨mid, hm, hl, hg⟩ := replaceCalls_completes hnm (htm _ ht) hne
    plan.encoded (createContext inner plan.temporaryName)
    (some "failed to write Admin audit spool event")
    (some "failed to fsync Admin audit spool event")
    (some "failed to commit Admin audit spool event")
    (some "failed to fsync Admin audit spool directory") k
  have ha : (appendCalls inner plan).take k = _ := take_append
  have hnt : ∀ name, isTemporary name = false → name ≠ plan.temporaryName := fun name hn h => by simp [h, ht] at hn
  rw [ha]
  by_cases hk : 4 ≤ k
  · -- the event is in place, and the temporary name is free again
    have hfr : Swept mid := by
      intro name hn
      by_cases heq : name = plan.temporaryName
      · rw [heq]
        exact hg (.inr hk)
      · have hnf : name ≠ plan.finalName := fun h => by simp [h, hf] at hn
        rw [hl name heq, if_neg (fun h => hnf h.2), htm name hn]
    have hne' : temporaryHead ≠ headFile := by decide
    obtain ⟨dir', hd', hl', hg'⟩ := replaceCalls_completes (by decide) (hfr temporaryHead (by decide)) hne'
      (inner.codec.encodeHead plan.chain.head) (createContext inner temporaryHead) none none none none (k - 5)
    refine ⟨dir', hm.append hd', ?_, ?_⟩
    · intro name hn
      have h1 : name ≠ temporaryHead := fun h => by rw [h] at hn; exact absurd hn (by decide)
      have hk' : 4 ≤ k - 5 ↔ 9 ≤ k := by omega
      rw [hl' name h1, hl name (hnt name hn)]
      simp only [hk']
    intro hk9 name hn
    by_cases heq : name = temporaryHead
    · rw [heq]
      exact hg' (.inr (by omega))
    · have hnh : name ≠ headFile := fun h => by rw [h] at hn; exact absurd hn (by decide)
      rw [hl' name heq, if_neg (fun h => hnh h.2), hfr name hn]
  · refine ⟨mid, ?_, ?_, fun h => absurd h (by omega)⟩
    · have hz : k - 5 = 0 := by omega
      exact hm.append (by simp [hz, Completes.nil])
    · intro name hn
      have hk9 : ¬ 9 ≤ k := by omega
      simp [hl name (hnt name hn), hk, hk9]

/-- An id that is no file name stops the append at its first call. -/
theorem appendCalls_slash (hs : '/' ∈ plan.event.eventId) (k : Nat) :
    (runCalls noFault dir ((appendCalls inner plan).take k)).1 = dir ∧
      completed noFault dir ((appendCalls inner plan).take k) = [] := by
  have hn : '/' ∈ plan.temporaryName := mem_append_right _ hs
  cases k with
  | zero => exact ⟨rfl, rfl⟩
  | succ k => simp [appendCalls, runCalls, completed, noFault, apply, hn]

theorem rename_mem_appendCalls {plan : AppendPlan Body} (k : Nat) :
    rename plan.temporaryName plan.finalName ∈ ((appendCalls inner plan).take k).map (·.1) ↔
      4 ≤ k := by
  match k with
  | 0 | 1 | 2 | 3 => simp [appendCalls]
  | k + 4 => simp [appendCalls]

theorem renameHead_mem_appendCalls {plan : AppendPlan Body} (k : Nat) :
    rename temporaryHead headFile ∈ ((appendCalls inner plan).take k).map (·.1) ↔ 9 ≤ k := by
  have hf : headFile ≠ plan.finalName := (isRecordEntry_iff.1 (isRecordEntry_finalName _ _)).1.symm
  match k with
  | 0 | 1 | 2 | 3 | 4 | 5 | 6 | 7 | 8 => simp [appendCalls, headCalls, hf]
  | k + 9 => simp [appendCalls, headCalls]

/-- The names an append has given their content so far, over the files that were there. -/
theorem visible_appended {k : Nat} (hd : visible dir = image inner head events)
    (hn : ((events ++ [plan.event]).map recordName).Nodup) (hnm : plan.finalName = recordName plan.event)
    (hen : plan.encoded = inner.codec.encodeEvent plan.event)
    (hl : Appended inner plan k dir dir') (hk : 4 ≤ k) :
    visible dir' =
      image inner (if 9 ≤ k then some (inner.codec.encodeHead plan.chain.head) else head)
        (events ++ [plan.event]) := by
  funext name
  by_cases hh : name = headFile
  · subst hh
    have hne : headFile ≠ plan.finalName := (isRecordEntry_iff.1 (isRecordEntry_finalName _ _)).1.symm
    have ho : dir.lookup headFile = head := by rw [← visible_headFile, hd, image_headFile]
    rw [visible_headFile, image_headFile, hl headFile (by decide), ho]
    simp [hne]
  have hr : ∀ head', image inner head' (events ++ [plan.event]) name =
      image inner head (events ++ [plan.event]) name := fun head' => by simp [image, hh]
  rw [hr, image_concat hn, ← hnm, ← hen, ← hd]
  by_cases he : isRecordEntry name = true
  · have ht := (isRecordEntry_iff.1 he).2.2
    rw [visible_record he, visible_record he, hl name ht]
    simp [hh, hk]
  -- the lock and temporary names are not shown on either side
  have hf : name ≠ plan.finalName := by
    rintro rfl
    exact he (isRecordEntry_finalName _ _)
  have hhd : (isTemporary name || name == lockFile) = true := by
    by_contra hs
    simp only [Bool.or_eq_true, beq_iff_eq, not_or, Bool.not_eq_true] at hs
    exact he (isRecordEntry_iff.2 ⟨hh, hs.2, hs.1⟩)
  simp [visible, hhd, hf]

abbrev History.push (history : History Body) (event : AdminAuditEvent Body) : History Body where
  renamed := history.renamed ++ [event]
  live := history.live ++ [event]

theorem Shows.appended (h : Shows inner dir history start stop) (hs : Sealed inner stop plan.event plan.chain)
    (hv : visible dir' = image inner (some (inner.codec.encodeHead plan.chain.head)) (history.live ++ [plan.event]))
    (hl : LockEmpty dir') : Shows inner dir' (history.push plan.event) start plan.chain := by
  refine ⟨h.own, h.run.concat hs, ?_, hl, fun hn => ?_, fun event he => ?_⟩
  · rw [hv]
    simp [headOf]
  · simp at hn
  rw [getLast?_concat] at he
  cases he
  exact ⟨stop, hs⟩

/-! ### Acknowledging -/

/-- Only the oldest live event can be acknowledged. -/
theorem decideAcknowledge_ok (h : Shows inner dir history start stop) (hf : Follows state dir history start stop)
    {path : Path} {envelope : IntegrityEnvelope} {size : Nat}
    (ha : decideAcknowledge inner state dir path = .ok (envelope, size)) :
    ∃ event rest, history.live = event :: rest ∧ path.name = recordName event ∧
      event.integrity = some envelope := by
  obtain ⟨-, ha⟩ := ensure_bind_eq_ok.1 ha
  obtain ⟨event, hr, ha⟩ := bind_eq_ok.1 ha
  obtain ⟨_, hcr, ha⟩ := bind_eq_ok.1 ha
  obtain ⟨envelope', he, ha⟩ := bind_eq_ok.1 ha
  obtain ⟨_, -, ha⟩ := bind_eq_ok.1 ha
  cases ha
  have he := context_eq_ok.1 he
  obtain ⟨content, hc, hr⟩ := bind_eq_ok.1 hr
  obtain ⟨decoded, hd, hr⟩ := bind_eq_ok.1 hr
  obtain ⟨_, -, hr⟩ := bind_eq_ok.1 hr
  obtain ⟨_, -, hr⟩ := bind_eq_ok.1 hr
  obtain ⟨_, -, hr⟩ := bind_eq_ok.1 hr
  cases hr
  have hc := context_eq_ok.1 hc
  have hd := context_eq_ok.1 hd
  -- the file is no temporary one, not the lock and not the head
  have hen : isRecordEntry path.name = true := by
    refine isRecordEntry_iff.2 ⟨?_, ?_, ?_⟩
    · intro hh
      rw [hh, ← visible_headFile, h.files, image_headFile] at hc
      obtain ⟨head, -, rfl⟩ := Option.map_eq_some_iff.1 hc
      rw [inner.codec.decodeEvent_head] at hd
      contradiction
    · intro hl
      rw [hl] at hc
      rw [h.lock content hc, inner.codec.decodeEvent_empty] at hd
      contradiction
    · by_contra ht
      rw [hf.temporary path.name (by simpa using ht)] at hc
      contradiction
  rw [← visible_record hen, h.files, image_record hen] at hc
  obtain ⟨found, hfn, rfl⟩ := Option.map_eq_some_iff.1 hc
  rw [inner.codec.decode_encode_event] at hd
  cases hd
  have hm := mem_of_find?_eq_some hfn
  have hn : recordName event = path.name := by simpa using find?_some hfn
  -- the cursor stands before the first live event, so it is that one
  obtain ⟨_, he', hcr⟩ := bind_eq_ok.1 hcr
  cases he.symm.trans (context_eq_ok.1 he')
  have hs : envelope.sequence = start.nextSequence := by
    unfold ensure at hcr
    split at hcr
    · next hal =>
      rw [hf.cursor] at hal
      simp only [Bool.and_eq_true, beq_iff_eq] at hal
      exact hal.1.2
    · contradiction
  have hrn := h.run
  revert hm hrn
  cases history.live with
  | nil =>
    intro hm
    cases hm
  | cons first rest =>
    intro hm hrn
    rcases mem_cons.1 hm with rfl | hm
    · exact ⟨event, rest, rfl, hn.symm, he⟩
    exfalso
    cases hrn with
    | cons head tail =>
      obtain ⟨before, after, ⟨envelope', he', hsl⟩, hle⟩ := tail.later hm
      cases he.symm.trans he'
      obtain ⟨-, -, hs', -⟩ := seal_eq_ok hsl
      have hnx := head.next
      rw [← hs', hs] at hle
      omega

theorem acknowledgeCalls_completes {dir : Directory} {path : Path}
    (ht : (dir.lookup path.name).isSome = true) (k : Nat) :
    ∃ dir', Completes dir ((acknowledgeCalls inner path).take k) dir' ∧
      ∀ name, dir'.lookup name = if 1 ≤ k ∧ name = path.name then none else dir.lookup name := by
  have hr : (removeFile path.name).apply dir = .ok (dir.erase path.name) := by
    simp [apply, ht]
  rcases k with - | - | k
  · exact ⟨dir, .nil dir, fun name => by simp⟩
  · exact ⟨_, .cons hr (.nil _), fun name => by simp [Ledger.lookup_erase_apply]⟩
  · refine ⟨_, .cons hr (.cons rfl (by simpa using Completes.nil _)), fun name => ?_⟩
    simp [Ledger.lookup_erase_apply]

theorem remove_mem_acknowledgeCalls {path : Path} (k : Nat) :
    removeFile path.name ∈ ((acknowledgeCalls inner path).take k).map (·.1) ↔ 1 ≤ k := by
  match k with
  | 0 => simp
  | k + 1 => simp [acknowledgeCalls]

/-- Once its file is gone, the oldest event is no longer live. -/
theorem Shows.acknowledged {mid : IntegrityChain} (h : Shows inner dir history start stop)
    {rest : List (AdminAuditEvent Body)} (hl : history.live = event :: rest) (hm : Sealed inner start event mid)
    (ht : SealedRun inner mid rest stop)
    (hlk : ∀ name, dir'.lookup name = if name = recordName event then none else dir.lookup name) :
    Shows inner dir' { history with live := rest } mid stop := by
  have hn := h.run.nodup
  rw [hl] at hn
  refine ⟨hm.own h.own, ht, ?_, fun content hc => ?_, fun hnn => ?_, h.last⟩
  · funext name
    show visible dir' name = image inner ((headOf history stop).map inner.codec.encodeHead) rest name
    rw [image_tail hn, ← hl, ← h.files, visible, visible, hlk]
    by_cases hh : (isTemporary name || name == lockFile) = true
    · simp [hh]
    · simp [hh]
  · refine h.lock content ?_
    rw [hlk] at hc
    split at hc
    · contradiction
    · exact hc
  · obtain ⟨hnl, -⟩ := h.fresh hnn
    rw [hl] at hnl
    contradiction

end Invariant

end Audit
