import OxiBelt.Audit.SpoolLife
import OxiBelt.Lib.Layout
import OxiBelt.Lib.Transition

/-!
# Crash recovery of the audit spool

* `step_consistent`: every step keeps directory, history and writer together, but a crash between the
  two renames of an append.
* `recoverState_ahead`: after that crash one more event has its name than the head knows, and opening
  fails.
* `step_recovers_iff`: so reopening works after every other step, and only then.
-/

namespace Audit

open RustStd ByteString Transition List Audit.System

section Steps

variable {Body P : Type} {inner : SpoolInner Body P}

variable {history : History Body} {dir : Directory} {state : SpoolState} {event : AdminAuditEvent Body}
  {start stop : IntegrityChain} {capacity : AppendCapacity} {plan : AppendPlan Body} {sys : System Body}

/-- An append that is not cut between its renames: either the event did not get its name, or the head
followed it. -/
theorem append_shows (h : Shows inner dir history start stop) (hf : Follows state dir history start stop)
    (hs : Sealed inner stop plan.event plan.chain) (hnm : plan.finalName = recordName plan.event)
    (he : plan.encoded = inner.codec.encodeEvent plan.event) (hsl : '/' ∉ plan.event.eventId) (k : Nat) :
    ∃ dir', Completes dir ((appendCalls inner plan).take k) dir' ∧
      (k < 4 → Shows inner dir' history start stop) ∧
      (9 ≤ k → Shows inner dir' (history.push plan.event) start plan.chain ∧ Swept dir') := by
  obtain ⟨dir', hd, hl, ht⟩ := @appendCalls_completes Body P inner dir plan hsl hf.temporary k
  have hlc := hl.lockEmpty h.lock
  refine ⟨dir', hd, fun hk4 => ?_, fun hk9 => ⟨?_, ht hk9⟩⟩
  · refine h.of_visible (visible_congr fun name hn _ => ?_) hlc
    rw [hl name hn, if_neg (by omega), if_neg (by omega)]
  refine h.appended hs ?_ hlc
  have hv := visible_appended h.files (h.run.concat hs).nodup hnm he hl (by omega)
  rwa [if_pos hk9] at hv

/-- The name of the next event's file is still free. -/
theorem Shows.finalName_free {stop' : IntegrityChain} (h : Shows inner dir history start stop)
    (hs : Sealed inner stop event stop') : dir.lookup (recordName event) = none := by
  have hn := (h.run.concat hs).nodup
  rw [map_append, nodup_append] at hn
  have he := recordName_entry event
  rw [← visible_record he, h.files, image_record he, Option.map_eq_none_iff, find?_eq_none]
  intro other ho
  rw [beq_iff_eq]
  intro heq
  exact hn.2.2 _ (mem_map_of_mem ho) _ (by simp) heq

theorem Follows.ownChain (hf : Follows state dir history start stop) (h : Shows inner dir history start stop) :
    OwnChain inner state.chain := by
  rw [hf.chain]
  exact h.run.own h.own

/-- An append of an event whose id is no file name changes nothing. -/
theorem appendWithCapacity_slash (h : Shows inner dir history start stop) (hf : Follows state dir history start stop)
    (hp : decideAppend inner state event capacity = .commit plan) (hsl : '/' ∈ plan.event.eventId) :
    (appendWithCapacity inner noFault state dir event capacity).2 = (state, dir) := by
  obtain ⟨hs, hn, -⟩ := decideAppend_commit hp
  rw [hf.chain] at hs
  have hfr : dir.lookup plan.finalName = none := by
    rw [hn]
    exact h.finalName_free hs
  have ht : dir.lookup plan.temporaryName = none := hf.temporary _ (isTemporary_temporaryName _)
  have hin : '/' ∈ plan.temporaryName := mem_append_right _ hsl
  obtain ⟨error, hrn⟩ : ∃ error, runCalls noFault dir (appendCalls inner plan) = (dir, some error) := by
    refine ⟨(createContext inner plan.temporaryName).getD notFound, ?_⟩
    simp [appendCalls, runCalls, noFault, FsCall.apply, hin]
  have hr : (runCalls noFault dir [(FsCall.removeFile plan.temporaryName, none)]).1 = dir := by
    simp [runCalls, noFault, FsCall.apply, ht]
  simp only [appendWithCapacity, hp, hrn, hr, hfr, Option.isSome_none, Bool.false_eq_true,
    if_false, putBack_own (hf.ownChain h)]

theorem SealedRun.position {events : List (AdminAuditEvent Body)} (h : SealedRun inner start events stop) :
    stop.nextSequence.toNat = start.nextSequence.toNat + events.length := by
  induction h with
  | nil chain => rfl
  | cons head tail ih =>
    have hn := head.next
    rw [length_cons]
    omega

theorem recordAppend_follows {dir' : Directory} (h : Shows inner dir history start stop)
    (hf : Follows state dir history start stop) (hs : Sealed inner stop plan.event plan.chain)
    (capacity : AppendCapacity) (ht : Swept dir') :
    Follows (recordAppend inner state plan capacity) dir' (history.push plan.event) start plan.chain := by
  -- the counter does not saturate: every live event has its own sequence number
  have hc : saturatingAdd state.events 1 = (history.live ++ [plan.event]).length := by
    have hp := (h.run.concat hs).position
    have hlt := plan.chain.nextSequence.toNat_lt
    rw [saturatingAdd, hf.count]
    rw [length_append, length_singleton] at hp ⊢
    omega
  cases capacity with
  | ordinary | reserveTerminal | consumeReservation => exact ⟨rfl, hf.cursor, hf.sound, hc, ht⟩

theorem consistent_some : Consistent inner ⟨some state, dir, history⟩ ↔
    ∃ start stop, Shows inner dir history start stop ∧ Follows state dir history start stop := by
  simp only [Consistent, Option.some.injEq, forall_eq']

theorem consistent_none : Consistent inner ⟨none, dir, history⟩ ↔ ∃ start stop, Shows inner dir history start stop := by
  simp only [Consistent, reduceCtorEq, false_imp_iff, implies_true, and_true]

/-- A step that makes no call and leaves the writer where it was, or kills it. -/
theorem Consistent.of_same {sys' : System Body} (h : Consistent inner sys) (hd : sys'.dir = sys.dir)
    (hh : sys'.history = sys.history) (hr : sys'.running = sys.running ∨ sys'.running = none) :
    Consistent inner sys' := by
  obtain ⟨start, stop, hsh, hf⟩ := h
  refine ⟨start, stop, by rwa [hd, hh], fun state hs => ?_⟩
  rw [hd, hh]
  rcases hr with hsm | hn
  · exact hf state (hsm ▸ hs)
  · rw [hn] at hs
    contradiction

/-- An action that makes no call, or whose first call fails. -/
theorem step_idle (h : Consistent inner sys) {action : Action Body} (crash : Option Nat)
    (hp : sys.perform inner action = (sys.running, sys.dir)) (hh : sys.historyAfter inner action [] = sys.history)
    (hc : ∀ k, (runCalls noFault sys.dir ((sys.calls inner action).take k)).1 = sys.dir ∧
      completed noFault sys.dir ((sys.calls inner action).take k) = []) :
    Consistent inner (sys.step inner ⟨action, crash⟩) := by
  cases crash with
  | none =>
    have ha := (hc (sys.calls inner action).length).2
    rw [List.take_length] at ha
    refine h.of_same ?_ ?_ (.inl ?_)
    · simp only [step, hp]
    · simp only [step, ha, hh]
    · simp only [step, hp]
  | some k =>
    obtain ⟨hd, hn⟩ := hc k
    refine h.of_same hd ?_ (.inr rfl)
    simp only [step, hn, hh]

theorem step_append_commit (h : Consistent inner ⟨some state, dir, history⟩) (crash : Option Nat)
    (hp : decideAppend inner state event capacity = .commit plan) (hss : '/' ∉ plan.event.eventId)
    (hct : ¬ CutBetweenRenames inner ⟨some state, dir, history⟩ ⟨.append event capacity, crash⟩) :
    Consistent inner (step inner ⟨some state, dir, history⟩ ⟨.append event capacity, crash⟩) := by
  obtain ⟨start, stop, hsh, hf⟩ := consistent_some.1 h
  obtain ⟨hsl, hn, he⟩ := decideAppend_commit hp
  rw [hf.chain] at hsl
  have hc : calls inner ⟨some state, dir, history⟩ (.append event capacity) = appendCalls inner plan := by
    simp only [calls, hp]
  have ha : ∀ done, historyAfter inner ⟨some state, dir, history⟩ (.append event capacity) done =
      if FsCall.rename plan.temporaryName plan.finalName ∈ done then history.push plan.event else history := by
    intro done
    simp only [historyAfter, hp]
  cases crash with
  | none =>
    have hln : (appendCalls inner plan).length ≤ 10 := le_refl 10
    obtain ⟨dir', hd, -, hl⟩ := append_shows hsh hf hsl hn he hss 10
    have hm := (@rename_mem_appendCalls Body P inner plan 10).2 (by omega)
    rw [take_of_length_le hln] at hd hm
    obtain ⟨hsh', ht⟩ := hl (by omega)
    simp only [step, perform, appendWithCapacity, hp, hd.1, hc, ha, hd.2, hm, if_true]
    exact consistent_some.2 ⟨start, plan.chain, hsh', recordAppend_follows hsh hf hsl capacity ht⟩
  | some k =>
    obtain ⟨dir', hd, her, hl⟩ := append_shows hsh hf hsl hn he hss k
    have hm := @rename_mem_appendCalls Body P inner plan k
    have hm' := @renameHead_mem_appendCalls Body P inner plan k
    rw [← hd.2] at hm hm'
    by_cases hk : 4 ≤ k
    · -- the event has its name: then so has the head, or this is the excluded crash
      have hk9 : 9 ≤ k := by
        by_contra hk9
        refine hct ⟨k, event, capacity, state, plan, rfl, rfl, rfl, hp, ?_, ?_⟩
        · rw [hc]
          exact hm.2 hk
        · rw [hc]
          exact mt hm'.1 hk9
      simp only [step, hc, ha, hd.1, hm.2 hk, if_true]
      exact consistent_none.2 ⟨start, plan.chain, (hl hk9).1⟩
    · simp only [step, hc, ha, hd.1, mt hm.1 hk, if_false]
      exact consistent_none.2 ⟨start, stop, her (by omega)⟩

theorem step_append_consistent (h : Consistent inner ⟨some state, dir, history⟩) (event : AdminAuditEvent Body)
    (capacity : AppendCapacity) (crash : Option Nat)
    (hc : ¬ CutBetweenRenames inner ⟨some state, dir, history⟩ ⟨.append event capacity, crash⟩) :
    Consistent inner (step inner ⟨some state, dir, history⟩ ⟨.append event capacity, crash⟩) := by
  obtain ⟨start, stop, hsh, hf⟩ := consistent_some.1 h
  cases hp : decideAppend inner state event capacity with
  | refused error state' =>
    have hsm := decideAppend_refused (hf.ownChain hsh) hp
    refine step_idle h crash ?_ ?_ fun k => ?_
    · simp only [perform, appendWithCapacity, hp, hsm]
    · simp only [historyAfter, hp]
    · simp only [calls, hp, take_nil, runCalls, completed, and_self]
  | commit plan =>
    by_cases hs : '/' ∈ plan.event.eventId
    · refine step_idle h crash ?_ ?_ fun k => ?_
      · simp only [perform, appendWithCapacity_slash hsh hf hp hs]
      · simp [historyAfter, hp]
      · simp only [calls, hp]
        exact appendCalls_slash hs k
    · exact step_append_commit h crash hp hs hc

theorem step_acknowledge_consistent (h : Consistent inner ⟨some state, dir, history⟩) (path : Path)
    (crash : Option Nat) :
    Consistent inner (step inner ⟨some state, dir, history⟩ ⟨.acknowledge path, crash⟩) := by
  obtain ⟨start, stop, hs, hf⟩ := consistent_some.1 h
  cases ha : decideAcknowledge inner state dir path with
  | error error =>
    refine step_idle h crash ?_ rfl fun k => ?_
    · simp only [perform, acknowledge, ha]
    · simp only [calls, ha, take_nil, runCalls, completed, and_self]
  | ok answer =>
    obtain ⟨envelope, size⟩ := answer
    obtain ⟨event, rest, hl, hn, he⟩ := decideAcknowledge_ok hs hf ha
    have hl : history.live = event :: rest := hl
    have hrn := hs.run
    have hnd := hs.run.nodup
    have hfs := files_of_image hs.run hs.files
    simp only [hl] at hrn hnd hfs
    cases hrn with
    | @cons _ mid _ _ _ hmd htl =>
      have ht : (dir.lookup path.name).isSome = true := by
        rw [hn, hfs event mem_cons_self]
        rfl
      have hc : calls inner ⟨some state, dir, history⟩ (.acknowledge path) = acknowledgeCalls inner path := by
        simp only [calls, ha]
      have hfl : history.live.filter (fun other => recordName other != path.name) = rest := by
        rw [hl, hn, filter_cons_of_neg (by simp), filter_eq_self]
        rw [map_cons, nodup_cons] at hnd
        exact fun other ho => bne_iff_ne.2 fun heq => hnd.1 (heq ▸ mem_map_of_mem ho)
      have hs' : ∀ k dir', 1 ≤ k → (∀ name, dir'.lookup name =
          if 1 ≤ k ∧ name = path.name then none else dir.lookup name) →
          Shows inner dir' { history with live := rest } mid stop := by
        intro k dir' hk hlk
        refine hs.acknowledged hl hmd htl fun name => ?_
        rw [hlk, hn]
        simp only [hk, true_and]
      cases crash with
      | none =>
        have hln : (acknowledgeCalls inner path).length ≤ 2 := le_refl 2
        obtain ⟨dir', hd, hlk⟩ := @acknowledgeCalls_completes Body P inner dir path ht 2
        have hm := (@remove_mem_acknowledgeCalls Body P inner path 2).2 (by omega)
        rw [take_of_length_le hln] at hd hm
        obtain ⟨envelope', he', hsl⟩ := id hmd
        cases he.symm.trans he'
        obtain ⟨-, -, hsq, -, hnx, hh, hid, -⟩ := seal_eq_ok hsl
        rw [← hsq] at hnx
        simp only [step, perform, acknowledge, ha, hc, historyAfter, hd.1, hd.2, hnx, hm, if_true, hfl]
        refine consistent_some.2 ⟨mid, stop, hs' 2 dir' (by omega) hlk, hf.chain, ?_, hf.sound, ?_, fun name htm => ?_⟩
        · simp only [hf.cursor, IntegrityChain.cursor, hh, hid]
        · have hcn := hf.count
          rw [hl, length_cons] at hcn
          show state.events - 1 = rest.length
          omega
        · rw [hlk, hf.temporary name htm]
          split <;> rfl
      | some k =>
        obtain ⟨dir', hd, hlk⟩ := @acknowledgeCalls_completes Body P inner dir path ht k
        have hm := @remove_mem_acknowledgeCalls Body P inner path k
        rw [← hd.2] at hm
        by_cases hk : 1 ≤ k
        · simp only [step, hc, historyAfter, hd.1, hm.2 hk, if_true, hfl]
          exact consistent_none.2 ⟨mid, stop, hs' k dir' hk hlk⟩
        have hz : k = 0 := by omega
        subst hz
        refine h.of_same rfl ?_ (.inr rfl)
        simp [step, historyAfter, completed]

theorem step_open_consistent (h : Consistent inner ⟨none, dir, history⟩) (fresh : ByteArr 16) (crash : Option Nat) :
    Consistent inner (step inner ⟨none, dir, history⟩ ⟨.openAgain fresh, crash⟩) := by
  obtain ⟨start, stop, hs⟩ := consistent_none.1 h
  cases crash with
  | none =>
    obtain ⟨state, dir', start', stop', ho, hs', hf⟩ := openSpool_shows hs fresh
    simp only [step, perform, ho]
    exact consistent_some.2 ⟨start', stop', hs', hf⟩
  | some k =>
    obtain ⟨dir', hd, hv, hl, -⟩ := @openCalls_completes Body P inner dir hs.lock k
    simp only [step, calls, hd.1]
    exact consistent_none.2 ⟨start, stop, hs.of_visible hv hl⟩

/-- **Step lemma.**  Every step but a crash between the two renames of an append keeps directory,
history and writer together. -/
theorem step_consistent (h : Consistent inner sys) {s : Step Body} (hc : ¬ CutBetweenRenames inner sys s) :
    Consistent inner (sys.step inner s) := by
  obtain ⟨running, dir, history⟩ := sys
  obtain ⟨action, crash⟩ := s
  cases running with
  | some state =>
    cases action with
    | append event capacity => exact step_append_consistent h event capacity crash hc
    | acknowledge path => exact step_acknowledge_consistent h path crash
    | release =>
      cases crash with
      | none =>
        obtain ⟨start, stop, hs, hf⟩ := consistent_some.1 h
        exact consistent_some.2 ⟨start, stop, hs, hf.chain, hf.cursor, hf.sound, hf.count, hf.temporary⟩
      | some k => exact h.of_same (by simp [step, calls, runCalls]) rfl (.inr rfl)
    | openAgain fresh => exact step_idle h crash rfl rfl fun k => by simp [calls, runCalls, completed]
  | none =>
    cases action with
    | openAgain fresh => exact step_open_consistent h fresh crash
    | _ => exact step_idle h crash rfl rfl fun k => by simp [calls, runCalls, completed]

theorem empty_consistent : Consistent inner empty := by
  let chain := IntegrityChain.new inner.hmacKey (zeros 16)
  refine ⟨chain, chain, ⟨ownChain_new _, .nil _, ?_, ?_, fun _ => ⟨rfl, rfl, rfl⟩, ?_⟩, ?_⟩
  · funext name
    by_cases hh : name = headFile <;> simp [visible, image, empty, headOf, hh]
  · intro content hc
    simp [empty] at hc
  · intro event he
    cases he
  · intro state hs
    cases hs

/-! ## The crash between the renames -/

/-- **An event without its head.**  If one more event than the head knows has its final name, opening
fails. -/
theorem recoverState_ahead {stop' : IntegrityChain} (ho : OwnChain inner start)
    (hrn : SealedRun inner start (history.live ++ [event]) stop') (hs : Sealed inner stop event stop')
    (hd : visible dir = image inner ((headOf history stop).map inner.codec.encodeHead) (history.live ++ [event]))
    (fresh : ByteArr 16) : ∀ recovered, recoverState inner dir fresh ≠ .ok recovered := by
  intro recovered hok
  obtain ⟨scan, -, hsm, hl, hr⟩ := recoverState_image hrn ho hd fresh
  rw [hr] at hok
  obtain ⟨chain, hc, -⟩ := bind_eq_ok.1 hok
  obtain ⟨⟨chainId, sequence, eventHash⟩, hx⟩ := Option.isSome_iff_exists.1
    (hsm.trans (by simp) : scan.last.isSome = true)
  obtain ⟨-, hsq, -⟩ := hl _ _ _ hx
  unfold headOf at hc
  split at hc
  · -- the first event of the chain: there is no head yet
    simp [recoverChain] at hc
  -- the head still names the sequence number that the event has taken
  obtain ⟨_, hm, -⟩ := bind_eq_ok.1 hc
  rw [hx] at hm
  obtain ⟨-, hm⟩ := ensure_bind_eq_ok.1 hm
  obtain ⟨ht, -⟩ := ensure_bind_eq_ok.1 hm
  rw [beq_iff_eq, hsq] at ht
  have hn := hs.next
  rw [ht] at hn
  simp [IntegrityChain.head] at hn

theorem cut_not_recovers (h : Consistent inner sys) {s : Step Body} (hct : CutBetweenRenames inner sys s) :
    ¬ Recovers inner (sys.step inner s) := by
  obtain ⟨k, event, capacity, state, plan, hcr, ha, hst, hp, hr, hhd⟩ := hct
  obtain ⟨action, crash⟩ := s
  obtain ⟨running, dir, history⟩ := sys
  simp only at hcr ha hst
  subst hcr ha hst
  obtain ⟨start, stop, hs, hf⟩ := consistent_some.1 h
  obtain ⟨hsl, hn, he⟩ := decideAppend_commit hp
  rw [hf.chain] at hsl
  have hcl : calls inner ⟨some state, dir, history⟩ (.append event capacity) = appendCalls inner plan := by
    simp only [calls, hp]
  rw [hcl] at hr hhd
  have hss : '/' ∉ plan.event.eventId := by
    intro hss
    rw [(appendCalls_slash hss k).2] at hr
    cases hr
  obtain ⟨dir', hd, hl, -⟩ := @appendCalls_completes Body P inner dir plan hss hf.temporary k
  rw [hd.2, rename_mem_appendCalls] at hr
  rw [hd.2, renameHead_mem_appendCalls] at hhd
  have hru := hs.run.concat hsl
  have hv := visible_appended hs.files hru.nodup hn he hl hr
  rw [if_neg hhd] at hv
  intro hrv
  obtain ⟨opened, dir'', ho, -⟩ := hrv (zeros 16)
  simp only [step, hcl, hd.1] at ho
  -- opening removes temporary files only, so it finds the event and the old head
  obtain ⟨swept, hsw, hv', -⟩ :=
    @openCalls_completes Body P inner dir' (hl.lockEmpty hs.lock) (openCalls inner dir').length
  rw [List.take_length] at hsw
  rw [openSpool, hsw.1] at ho
  have hfl := recoverState_ahead hs.own hru hsl (hv'.trans hv) (zeros 16)
  cases hrc : recoverState inner swept (zeros 16) with
  | ok recovered => exact hfl recovered hrc
  | error error =>
    simp only [hrc, Prod.mk.injEq, reduceCtorEq, false_and] at ho

end Steps

/-- **Crash recovery.**  After any life of a spool directory without a crash between the two renames of
an append, one more step leaves a directory that reopens, with exactly the renamed events that were
not removed and with the chain where they left it, if and only if that step is no such crash either. -/
theorem step_recovers_iff {Body P : Type} (inner : SpoolInner Body P) (past : List (Step Body))
    (hpast : Along (System.step inner) (fun sys s => ¬ CutBetweenRenames inner sys s) System.empty past)
    (s : Step Body) :
    Recovers inner ((run (System.step inner) System.empty past).step inner s) ↔
      ¬ CutBetweenRenames inner (run (System.step inner) System.empty past) s := by
  have hc : Consistent inner (run (step inner) empty past) :=
    run_invariant (I := Consistent inner) (fun _ _ h hct => step_consistent h hct) empty_consistent hpast
  constructor
  · intro hr hct
    exact cut_not_recovers hc hct hr
  · intro hct
    exact (step_consistent hc hct).recovers

/-! ## A small instance -/

/-- Every part of an event written one after the other. -/
def strLayout : Layout Str :=
  .list (.number 3 Char.toNat Char.ofNat fun c => ⟨by
    have hvalid : c.toNat.isValidChar := c.valid
    rw [Nat.isValidChar] at hvalid
    omega, Char.ofNat_toNat c⟩)

def sequenceLayout : Layout UInt64 :=
  .number 8 UInt64.toNat UInt64.ofNat fun n => ⟨by
    have := n.toNat_lt
    norm_num
    exact this, UInt64.ofNat_toNat⟩

def algorithmLayout : Layout IntegrityAlgorithm :=
  .number 1 (fun algorithm => (algorithmByte algorithm).toNat)
    (fun n => if n = 1 then .sha256 else .hmacSha256) fun algorithm => by cases algorithm <;> decide

def envelopeLayout : Layout IntegrityEnvelope :=
  .embed (.pair algorithmLayout (.pair strLayout (.pair sequenceLayout (.pair strLayout
      (.pair strLayout (.pair (.option strLayout) (.option strLayout)))))))
    (fun e => (e.algorithm, e.chainId, e.sequence, e.previousHash, e.eventHash, e.keyId, e.tag))
    (fun (algorithm, chainId, sequence, previousHash, eventHash, keyId, tag) =>
      { algorithm, chainId, sequence, previousHash, eventHash, keyId, tag }) fun _ => rfl

def eventLayout : Layout (AdminAuditEvent Unit) :=
  .embed (.pair strLayout (.pair strLayout (.option envelopeLayout)))
    (fun e => (e.eventId, e.timestamp, e.integrity))
    (fun (eventId, timestamp, integrity) => { eventId, timestamp, body := (), integrity }) fun _ => rfl

def headLayout : Layout ChainHead :=
  .embed (.pair strLayout (.pair sequenceLayout strLayout))
    (fun h => (h.chainId, h.nextSequence, h.previousHash))
    (fun (chainId, nextSequence, previousHash) => { chainId, nextSequence, previousHash }) fun _ => rfl

/-- Events and heads behind a byte that tells them apart. -/
def plainCodec : SpoolCodec Unit Bytes where
  unsignedEventValue event := strLayout.put event.eventId ++ strLayout.put event.timestamp
  encodeEvent event := 1 :: eventLayout.put event
  decodeEvent
    | 1 :: bytes => eventLayout.decode bytes
    | _ => none
  encodeHead head := 2 :: headLayout.put head
  decodeHead
    | 2 :: bytes => headLayout.decode bytes
    | _ => none
  unsigned_integrity _ _ := rfl
  decode_encode_event := eventLayout.decode_put
  decode_encode_head := headLayout.decode_put
  decodeEvent_head _ := rfl
  decodeEvent_empty := rfl

def plainEvent : AdminAuditEvent Unit where
  eventId := "0a"
  timestamp := "2026-01-01T00:00:00.000Z"
  body := ()
  integrity := none

def plainSpool : SpoolInner Unit Bytes where
  config := {
    directory := "/var/spool/audit"
    maxBytes := 65536
    maxEvents := 4
    maxEventBytes := 4096 }
  hmacKey := none
  crypto := tableCrypto
    [((eventHashInput (hexEncode (zeros 16).val) 0 genesisHash .sha256 none
        (plainCodec.unsignedEventValue plainEvent)).toOption.getD [],
      0x9b7d25db3bedf17501e5e42fb0e2ef0bd029a1de94ca16d498accfbd487f3c9e)] []
  canonicalJsonBytes := .ok
  codec := plainCodec

def plainPath : Path where
  parent := "/var/spool/audit"
  name := "00000000000000000000-0a.audit"

/-- One event is spooled, and the process dies once its file is removed. -/
theorem step_recovers_acknowledged : Recovers plainSpool ((run (System.step plainSpool) System.empty
      [⟨.openAgain (zeros 16), none⟩, ⟨.append plainEvent .ordinary, none⟩]).step plainSpool
        ⟨.acknowledge plainPath, some 1⟩) := by
  have hc : ∀ sys action, ¬ CutBetweenRenames plainSpool sys ⟨action, none⟩ := by
    rintro sys action ⟨_, _, _, _, _, hcr, -⟩
    cases hcr
  refine (step_recovers_iff plainSpool _ ?_ _).2 ?_
  · exact ⟨hc _ _, hc _ _, trivial⟩
  rintro ⟨_, _, _, _, _, -, ha, -⟩
  cases ha

/-- The first append dies right after the rename of its event: the event is on disk without a head, and
the spool does not open again. -/
theorem first_append_unrecoverable : ¬ Recovers plainSpool (run (System.step plainSpool) System.empty
      [⟨.openAgain (zeros 16), none⟩, ⟨.append plainEvent .ordinary, some 4⟩]) := by
  intro h
  obtain ⟨state, dir, ho, -⟩ := h (zeros 16)
  have hf : (openSpool plainSpool noFault (run (step plainSpool) empty
      [⟨.openAgain (zeros 16), none⟩, ⟨.append plainEvent .ordinary, some 4⟩]).dir
        (zeros 16)).1.toOption.isSome = false := by decide +kernel
  rw [ho] at hf
  simp [Except.toOption] at hf

end Audit
