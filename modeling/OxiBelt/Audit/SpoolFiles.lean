import OxiBelt.Audit.Spool

/-!
# What a directory of sealed events is to recovery

* `SealedRun`: events that were sealed one after another; their files sort in that order.
* `image`: the directory with a head and the files of some events; `visible` is what a directory
  shows beside the lock and temporary files.
* `recoverState_image`: on the files of a run of sealed events, recovery comes down to the head.
-/

namespace Audit

open RustStd ByteString List

section Sealed

variable {Body P : Type} (inner : SpoolInner Body P)

/-- What `seal` puts in the envelope, and where the chain stands then. -/
theorem seal_eq_ok {c : Crypto} {canonicalJsonBytes : P → Result Bytes} {chain chain' : IntegrityChain}
    {payload : P} {envelope : IntegrityEnvelope}
    (h : chain.seal c canonicalJsonBytes payload = .ok (envelope, chain')) :
    validateChainId chain.chainId = .ok () ∧ envelope.chainId = chain.chainId ∧
      envelope.sequence = chain.nextSequence ∧
      envelope.previousHash = hexEncode chain.previousHash.val ∧
      checkedSucc chain.nextSequence = some chain'.nextSequence ∧
      envelope.eventHash = hexEncode chain'.previousHash.val ∧
      chain'.chainId = chain.chainId ∧ chain'.hmacKey = chain.hmacKey := by
  obtain ⟨next, hn, h⟩ := bind_eq_ok.1 h
  obtain ⟨canonical, -, h⟩ := bind_eq_ok.1 h
  obtain ⟨eventHash, hh, h⟩ := bind_eq_ok.1 h
  obtain ⟨input, hi, -⟩ := bind_eq_ok.1 hh
  obtain ⟨_, hid, -⟩ := bind_eq_ok.1 hi
  cases h
  exact ⟨hid, rfl, rfl, rfl, context_eq_ok.1 hn, rfl, rfl, rfl⟩

/-- The chain belongs to this spool: its id is well formed and it uses the configured key. -/
structure OwnChain (chain : IntegrityChain) : Prop where
  id : validateChainId chain.chainId = .ok ()
  key : chain.hmacKey = inner.hmacKey

def Sealed (chain : IntegrityChain) (event : AdminAuditEvent Body) (chain' : IntegrityChain) : Prop :=
  ∃ envelope, event.integrity = some envelope ∧
    chain.seal inner.crypto inner.canonicalJsonBytes (inner.codec.unsignedEventValue event) =
      .ok (envelope, chain')

/-- The events were sealed one after another, from one place of the chain to another. -/
inductive SealedRun : IntegrityChain → List (AdminAuditEvent Body) → IntegrityChain → Prop where
  | nil (chain : IntegrityChain) : SealedRun chain [] chain
  | cons {chain mid chain' : IntegrityChain} {event : AdminAuditEvent Body}
      {events : List (AdminAuditEvent Body)} (head : Sealed inner chain event mid)
      (tail : SealedRun mid events chain') : SealedRun chain (event :: events) chain'

def recordName (event : AdminAuditEvent Body) : Str :=
  finalName ((event.integrity.map (·.sequence)).getD 0) event.eventId

variable {inner}

variable {chain chain' : IntegrityChain} {event : AdminAuditEvent Body} {events : List (AdminAuditEvent Body)}

theorem Sealed.own (h : Sealed inner chain event chain') (ho : OwnChain inner chain) : OwnChain inner chain' := by
  obtain ⟨envelope, -, hs⟩ := h
  obtain ⟨hid, -, -, -, -, -, hid', hk⟩ := seal_eq_ok hs
  exact ⟨hid'.symm ▸ hid, hk.trans ho.key⟩

theorem Sealed.next (h : Sealed inner chain event chain') :
    chain'.nextSequence.toNat = chain.nextSequence.toNat + 1 := by
  obtain ⟨envelope, -, hs⟩ := h
  obtain ⟨-, -, -, -, hn, -⟩ := seal_eq_ok hs
  exact checkedSucc_toNat hn

theorem Sealed.recordName_eq (h : Sealed inner chain event chain') :
    recordName event = finalName chain.nextSequence event.eventId := by
  obtain ⟨envelope, he, hs⟩ := h
  obtain ⟨-, -, hsq, -⟩ := seal_eq_ok hs
  rw [recordName, he, Option.map_some, Option.getD_some, hsq]

theorem SealedRun.concat {mid : IntegrityChain} (h : SealedRun inner chain events mid)
    (hl : Sealed inner mid event chain') : SealedRun inner chain (events ++ [event]) chain' := by
  induction h with
  | nil chain => exact .cons hl (.nil chain')
  | cons head tail ih => exact .cons head (ih hl)

theorem SealedRun.later (h : SealedRun inner chain events chain') (hm : event ∈ events) :
    ∃ start stop : IntegrityChain, Sealed inner start event stop ∧
      chain.nextSequence.toNat ≤ start.nextSequence.toNat := by
  induction h with
  | nil chain => cases hm
  | cons head tail ih =>
    rcases mem_cons.1 hm with rfl | hm
    · exact ⟨_, _, head, le_refl _⟩
    obtain ⟨start, stop, hs, hle⟩ := ih hm
    have := head.next
    exact ⟨start, stop, hs, by omega⟩

/-- The files of a run are named in increasing order. -/
theorem SealedRun.pairwise (h : SealedRun inner chain events chain') :
    (events.map recordName).Pairwise fun a b => strLe a b = true ∧ a ≠ b := by
  induction h with
  | nil chain => exact List.Pairwise.nil
  | cons head tail ih =>
    refine pairwise_cons.2 ⟨?_, ih⟩
    intro name hn
    obtain ⟨event, he, rfl⟩ := mem_map.1 hn
    obtain ⟨start, stop, hs, hle⟩ := tail.later he
    have hnx := head.next
    rw [head.recordName_eq, hs.recordName_eq, finalName, finalName]
    exact paddedDecimal_lt (by omega) (lt_trans (UInt64.toNat_lt _) (by norm_num)) _ _

theorem SealedRun.nodup (h : SealedRun inner chain events chain') : (events.map recordName).Nodup :=
  h.pairwise.imp fun hab => hab.2

end Sealed

/-! ## What a directory shows -/

section Image

variable {Body P : Type} (inner : SpoolInner Body P)

/-- The directory without the lock and without temporary files. -/
def visible (dir : Directory) (name : Str) : Option Bytes :=
  if isTemporary name || name == lockFile then none else dir.lookup name

/-- The directory that holds a head and the files of some events. -/
def image (head : Option Bytes) (events : List (AdminAuditEvent Body)) (name : Str) : Option Bytes :=
  if name = headFile then head
  else (events.find? fun event => recordName event == name).map inner.codec.encodeEvent

theorem paddedDecimal_succ (w n : Nat) : ∃ d rest, paddedDecimal (w + 1) n = d :: rest ∧ isAsciiDigit d = true := by
  have hdg : ∀ n : Fin 10, isAsciiDigit (Nat.digitChar n) = true := by decide
  induction w generalizing n with
  | zero => exact ⟨_, [], rfl, hdg ⟨n % 10, by omega⟩⟩
  | succ w ih =>
    obtain ⟨d, rest, heq, hd⟩ := ih (n / 10)
    exact ⟨d, _, by rw [paddedDecimal, heq, cons_append], hd⟩

/-- The name of an event's file starts with a digit, so it is no other file's. -/
theorem isRecordEntry_finalName (sequence : UInt64) (eventId : Str) :
    isRecordEntry (finalName sequence eventId) = true := by
  obtain ⟨d, rest, heq, hd⟩ := paddedDecimal_succ 19 sequence.toNat
  have hdt : '.' ≠ d := fun h => absurd (h.symm ▸ hd) (by decide)
  have hc : 'c' ≠ d := fun h => absurd (h.symm ▸ hd) (by decide)
  have hn : finalName sequence eventId = d :: (rest ++ '-' :: (eventId ++ '.' :: recordExtension)) := by
    rw [finalName, heq, cons_append]
  have hh : (finalName sequence eventId == headFile) = false := by
    rw [hn, beq_eq_false_iff_ne]
    exact fun h => hc (List.cons.inj h).1.symm
  have hl : (finalName sequence eventId == lockFile) = false := by
    rw [hn, beq_eq_false_iff_ne]
    exact fun h => hdt (List.cons.inj h).1.symm
  have ht : isTemporary (finalName sequence eventId) = false := by
    rw [hn, isTemporary, Bool.eq_false_iff]
    intro h
    exact hdt (cons_prefix_cons.1 (List.isPrefixOf_iff_prefix.1 h)).1
  rw [isRecordEntry, hh, hl, ht]
  rfl

theorem isRecordEntry_iff {name : Str} : isRecordEntry name = true ↔
    name ≠ headFile ∧ name ≠ lockFile ∧ isTemporary name = false := by
  simp [isRecordEntry, and_assoc]

theorem extension_finalName (sequence : UInt64) (eventId : Str) :
    extension (finalName sequence eventId) = some recordExtension := by
  obtain ⟨d, rest, heq, -⟩ := paddedDecimal_succ 19 sequence.toNat
  have hn : finalName sequence eventId = (d :: (rest ++ '-' :: eventId)) ++ '.' :: recordExtension := by
    simp [finalName, heq]
  simp [extension, rsplitOnce, hn, splitOnce, recordExtension]

variable {inner}

variable {chain chain' : IntegrityChain} {event : AdminAuditEvent Body} {events : List (AdminAuditEvent Body)}
  {dir : Directory} {name : Str} {head : Option Bytes}

theorem visible_of_entry (hl : name ≠ lockFile)
    (ht : isTemporary name = false) : visible dir name = dir.lookup name := by
  simp [visible, hl, ht]

theorem visible_headFile (dir : Directory) : visible dir headFile = dir.lookup headFile :=
  visible_of_entry (by decide) (by decide)

theorem visible_record (h : isRecordEntry name = true) : visible dir name = dir.lookup name := by
  obtain ⟨-, hl, ht⟩ := isRecordEntry_iff.1 h
  exact visible_of_entry hl ht

theorem recordName_entry (event : AdminAuditEvent Body) : isRecordEntry (recordName event) = true :=
  isRecordEntry_finalName _ _

theorem image_headFile (head : Option Bytes) (events : List (AdminAuditEvent Body)) :
    image inner head events headFile = head := if_pos rfl

theorem image_record (h : isRecordEntry name = true) : image inner head events name =
      (events.find? fun event => recordName event == name).map inner.codec.encodeEvent :=
  if_neg (isRecordEntry_iff.1 h).1

theorem image_recordName (hn : (events.map recordName).Nodup) (hm : event ∈ events) :
    image inner head events (recordName event) = some (inner.codec.encodeEvent event) := by
  rw [image_record (recordName_entry event)]
  have hf : (events.find? fun other => recordName other == recordName event) = some event := by
    induction events with
    | nil => cases hm
    | cons first events ih =>
      rw [map_cons, nodup_cons] at hn
      rcases mem_cons.1 hm with rfl | hm
      · exact find?_cons_of_pos (beq_self_eq_true (recordName event))
      have hne : recordName first ≠ recordName event := by
        intro heq
        exact hn.1 (heq ▸ mem_map_of_mem hm)
      rw [find?_cons_of_neg (by rwa [beq_iff_eq])]
      exact ih hn.2 hm
  rw [hf, Option.map_some]

theorem recordPaths_image (hr : SealedRun inner chain events chain') (hd : visible dir = image inner head events) :
    recordPaths dir = .ok (events.map recordName) := by
  have hm : ∀ name, name ∈ dir.keys.filter isRecordEntry ↔ name ∈ events.map recordName := by
    intro name
    rw [mem_filter, ← AList.mem_keys, ← AList.lookup_isSome]
    constructor
    · rintro ⟨hs, he⟩
      rw [← visible_record he, hd, image_record he, Option.isSome_map, find?_isSome] at hs
      obtain ⟨event, hev, hn⟩ := hs
      exact mem_map.2 ⟨event, hev, by simpa using hn⟩
    intro h
    obtain ⟨event, hev, rfl⟩ := mem_map.1 h
    have he := recordName_entry event
    rw [← visible_record he, hd, image_recordName hr.nodup hev]
    exact ⟨rfl, he⟩
  have hsr : sortNames (dir.keys.filter isRecordEntry) = events.map recordName :=
    sortNames_eq (dir.keys_nodup.filter _) hr.nodup hm (hr.pairwise.imp fun h => h.1)
  rw [recordPaths, ← hsr]
  refine ensure_bind_eq_ok.2 ⟨all_eq_true.2 fun name hn => ?_, rfl⟩
  obtain ⟨event, -, rfl⟩ := mem_map.1 ((hm name).1 hn)
  rw [beq_iff_eq]
  exact extension_finalName _ _

/-! ## What opening makes of it -/

theorem readAndVerifyRecord_sealed (ho : OwnChain inner chain) (hs : Sealed inner chain event chain')
    (hf : dir.lookup name = some (inner.codec.encodeEvent event)) :
    readAndVerifyRecord inner dir name = .ok event := by
  obtain ⟨envelope, he, hs⟩ := hs
  obtain ⟨hid, hc, hsq, hp, -⟩ := seal_eq_ok hs
  refine bind_eq_ok.2 ⟨_, context_eq_ok.2 hf, bind_eq_ok.2 ⟨event, ?_, ?_⟩⟩
  · exact context_eq_ok.2 (inner.codec.decode_encode_event event)
  refine bind_eq_ok.2 ⟨envelope, context_eq_ok.2 he, bind_eq_ok.2 ⟨chain.verifier, ?_, ?_⟩⟩
  · -- the envelope names the place of the chain it was sealed at
    rw [hc, hsq, hp, ← ho.key]
    exact bind_eq_ok.2 ⟨(), hid, bind_eq_ok.2 ⟨_, decodeHex_hexEncode _ _, rfl⟩⟩
  · exact bind_eq_ok.2 ⟨_, seal_verifies _ _ hs, rfl⟩

/-- The last envelope read, if any, stands right before the chain's place. -/
def LastMeets (last : Option (Str × UInt64 × Str)) (chain : IntegrityChain) : Prop :=
  ∀ chainId sequence eventHash, last = some (chainId, sequence, eventHash) →
    chainId = chain.chainId ∧ saturatingSucc sequence = chain.nextSequence ∧
      eventHash = hexEncode chain.previousHash.val

theorem followsLast_sealed {last : Option (Str × UInt64 × Str)}
    {envelope : IntegrityEnvelope} (hl : LastMeets last chain) (hid : envelope.chainId = chain.chainId)
    (hs : envelope.sequence = chain.nextSequence)
    (hp : envelope.previousHash = hexEncode chain.previousHash.val) :
    followsLast last envelope = .ok () := by
  cases last with
  | none => rfl
  | some x =>
    obtain ⟨chainId, sequence, eventHash⟩ := x
    obtain ⟨h1, h2, h3⟩ := hl _ _ _ rfl
    refine ensure_bind_eq_ok.2 ⟨?_, ensure_bind_eq_ok.2 ⟨?_, ?_⟩⟩
    · rw [beq_iff_eq, hid, h1]
    · rw [beq_iff_eq, hs, h2]
    · rw [hp, h3, ensure, if_pos (beq_self_eq_true _)]

/-- One round: a sealed event is read, follows the one before and becomes the last one. -/
theorem scanRecord_sealed {scan : RecoveryScan} (ho : OwnChain inner chain)
    (hs : Sealed inner chain event chain') (hl : LastMeets scan.last chain)
    (hf : dir.lookup (recordName event) = some (inner.codec.encodeEvent event)) :
    ∃ scan', scanRecord inner dir scan (recordName event) = .ok scan' ∧
      scan'.first = some (scan.first.getD chain.cursor) ∧ scan'.last.isSome = true ∧
      LastMeets scan'.last chain' := by
  have hr := readAndVerifyRecord_sealed ho hs hf
  obtain ⟨envelope, he, hs⟩ := hs
  obtain ⟨-, hid, hsq, hp, hn, hh, hid', -⟩ := seal_eq_ok hs
  refine ⟨_, bind_eq_ok.2 ⟨_, context_eq_ok.2 hf, bind_eq_ok.2 ⟨event, hr, bind_eq_ok.2 ⟨envelope, context_eq_ok.2 he,
      bind_eq_ok.2 ⟨(), followsLast_sealed hl hid hsq hp, rfl⟩⟩⟩⟩, ?_, rfl, ?_⟩
  · simp only [hid, hsq, hp, IntegrityChain.cursor]
  rintro chainId sequence eventHash h
  cases h
  refine ⟨hid.trans hid'.symm, ?_, hh⟩
  rw [hsq, saturatingSucc, hn, Option.getD_some]

section

variable (hr : SealedRun inner chain events chain')
include hr

/-- The loop over the files of a run of sealed events. -/
theorem scan_sealedRun (ho : OwnChain inner chain)
    (hf : ∀ event ∈ events, dir.lookup (recordName event) = some (inner.codec.encodeEvent event))
    {scan : RecoveryScan} (hl : LastMeets scan.last chain) :
    ∃ scan', Chain.accept (scanRecord inner dir) scan (events.map recordName) = .ok scan' ∧
      scan'.first = (if events = [] then scan.first else some (scan.first.getD chain.cursor)) ∧
      scan'.last.isSome = (scan.last.isSome || !events.isEmpty) ∧ LastMeets scan'.last chain' := by
  induction hr generalizing scan with
  | nil chain => exact ⟨scan, rfl, by simp, by simp, hl⟩
  | @cons chain mid chain' event events head tail ih =>
    obtain ⟨hfl, hf⟩ := forall_mem_cons.1 hf
    obtain ⟨scan₁, hsc, hfr, hs, hlast₁⟩ := scanRecord_sealed ho head hl hfl
    obtain ⟨scan', ha, hfr', hs', hl'⟩ := ih (head.own ho) hf hlast₁
    refine ⟨scan', Chain.accept_cons_eq_ok.2 ⟨scan₁, hsc, ha⟩, ?_, ?_, hl'⟩
    · rw [hfr', hfr]
      by_cases hn : events = []
      · simp [hn]
      · simp [hn]
    · simp [hs', hs]

theorem files_of_image (hd : visible dir = image inner head events) :
    ∀ event ∈ events, dir.lookup (recordName event) = some (inner.codec.encodeEvent event) := by
  intro event he
  rw [← visible_record (recordName_entry event), hd, image_recordName hr.nodup he]

/-- **Recovery.**  On the files of a run of sealed events, recovery comes down to the head: it must be
the end of the run, and may be missing only without events. -/
theorem recoverState_image {head : Option ChainHead} (ho : OwnChain inner chain)
    (hd : visible dir = image inner (head.map inner.codec.encodeHead) events) (fresh : ByteArr 16) :
    ∃ scan : RecoveryScan, scan.first = (if events = [] then none else some chain.cursor) ∧
      scan.last.isSome = !events.isEmpty ∧ LastMeets scan.last chain' ∧
      recoverState inner dir fresh = (do
        let chain ← recoverChain inner fresh head (events.map recordName) scan.last
        return (chain, scan.first.getD chain.cursor, scan.bytes, events.length)) := by
  have hs : LastMeets (RecoveryScan.last { bytes := 0, first := none, last := none }) chain := by
    intro _ _ _ h
    cases h
  obtain ⟨scan, ha, hf, hsm, hl⟩ := scan_sealedRun hr ho (files_of_image hr hd) hs
  have hh : readHead inner dir = .ok head := by
    have hlk : dir.lookup headFile = head.map inner.codec.encodeHead := by
      rw [← visible_headFile, hd, image_headFile]
    rw [readHead, hlk]
    cases head with
    | none => rfl
    | some head => simp [inner.codec.decode_encode_head]
  refine ⟨scan, hf, by simpa using hsm, hl, ?_⟩
  rw [recoverState, hh, recordPaths_image hr hd]
  simp only [bind, Except.bind, ha, length_map]

end

end Image

end Audit
