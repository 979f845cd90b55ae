import OxiBelt.SniForward.InitialAccounting

/-!
# When a ClientHello is complete

The segments of an entry stand for a partial function from positions to bytes.  Frames that agree with a message fill it
in, in any order and any number of times; a frame that does not agree with it is a conflict.  From that follows when a
connection is answered, over runs in which other connections come in between (`reassembles`).
-/

namespace SniForward

open RustStd ByteString Sparse List World

variable {Key : Type}

/-! ## Frames one after another -/

def knownWith (content : Nat → Option UInt8) (frames : List CryptoFrame) : Nat → Option UInt8 :=
  frames.foldl (fun content frame => overlay frame content) content

/-- Every frame agrees with what is known when it comes. -/
def Agreeing : (Nat → Option UInt8) → List CryptoFrame → Prop
  | _, [] => True
  | content, frame :: frames => Agrees frame content ∧ Agreeing (overlay frame content) frames

variable {content : Nat → Option UInt8} {message : Bytes} {key : Key} {i : Nat}

theorem knownWith_eq_some {frames : List CryptoFrame} (h : Agreeing content frames) {a : UInt8} :
    knownWith content frames i = some a ↔ content i = some a ∨ ∃ frame ∈ frames, frame.get? i = some a := by
  induction frames generalizing content with
  | nil => simp [knownWith]
  | cons frame frames ih =>
    obtain ⟨ha, hr⟩ := h
    rw [exists_mem_cons_iff]
    refine (ih hr).trans ?_
    rw [overlay_eq_some ha]
    tauto

theorem agreeing_append {before after : List CryptoFrame} :
    Agreeing content (before ++ after) ↔ Agreeing content before ∧ Agreeing (knownWith content before) after := by
  induction before generalizing content with
  | nil => simp [Agreeing, knownWith]
  | cons frame before ih =>
    rw [cons_append, Agreeing, Agreeing, ih, and_assoc]
    rfl

theorem agreeing_of_message {frames : List CryptoFrame} (hc : ∀ i a, content i = some a → message[i]? = some a)
    (hfr : ∀ frame ∈ frames, ∀ i a, frame.get? i = some a → message[i]? = some a) : Agreeing content frames := by
  induction frames generalizing content with
  | nil => trivial
  | cons frame frames ih =>
    obtain ⟨hf, hr⟩ := forall_mem_cons.1 hfr
    have hag : Agrees frame content := by
      intro i a b ha hb
      exact Option.some.inj ((hf i a ha).symm.trans (hc i b hb))
    refine ⟨hag, ih (fun i a h => ?_) hr⟩
    rcases (overlay_eq_some hag).1 h with h | h
    · exact hf i a h
    · exact hc i a h

/-! ## What datagrams carry -/

variable (datagrams : List (InspectedInitial Key))

def Carried (i : Nat) (byte : UInt8) : Prop :=
  ∃ initial ∈ datagrams, ∃ frame ∈ initial.frames, frame.get? i = some byte

def Covers (message : Bytes) : Prop :=
  ∀ i < message.length, ∃ byte, Carried datagrams i byte

def Fits (message : Bytes) : Prop :=
  ∀ i byte, Carried datagrams i byte → message[i]? = some byte

theorem carried_append {datagrams : List (InspectedInitial Key)} {initial : InspectedInitial Key} {byte : UInt8} :
    Carried (datagrams ++ [initial]) i byte ↔
      Carried datagrams i byte ∨ ∃ frame ∈ initial.frames, frame.get? i = some byte := by
  unfold Carried
  simp only [mem_append, mem_singleton, or_and_right, exists_or, exists_eq_left]

/-! ## The frames of a datagram -/

/-- What the frames of a datagram come to: all agree and are known then, one does not agree, or a limit is reached. -/
inductive FramesOutcome [DecidableEq Key] (initial : InspectedInitial Key) (firstSeen : Nat)
    (content : Nat → Option UInt8) (frames : List CryptoFrame) :
    Except (ReassemblyReject × PendingState Key) (PendingState Key × Bool) → Prop
  | known {next entry} (hentry : next.1.entries.lookup initial.key = some entry)
      (hknown : entry.crypto.get? = knownWith content frames) (hseen : entry.firstSeen = firstSeen)
      (hagreeing : Agreeing content frames) : FramesOutcome initial firstSeen content frames (.ok next)
  | conflict {state} (hnot : ¬Agreeing content frames) :
      FramesOutcome initial firstSeen content frames (.error (.overlapConflict, state))
  | limit {state} : FramesOutcome initial firstSeen content frames (.error (.limit, state))

variable [DecidableEq Key] {limits : InitialReassemblyLimits} {initial : InspectedInitial Key}
  {state : PendingState Key} {entry : PendingInitial} {content : Nat → Option UInt8} {contributed : Bool}

theorem FramesOutcome.cons {frame : CryptoFrame} {frames : List CryptoFrame} {firstSeen : Nat}
    {outcome : Except (ReassemblyReject × PendingState Key) (PendingState Key × Bool)} (hag : Agrees frame content)
    (h : FramesOutcome initial firstSeen (overlay frame content) frames outcome) :
    FramesOutcome initial firstSeen content (frame :: frames) outcome := by
  cases h with
  | known he hk hs ha => exact .known he hk hs ⟨hag, ha⟩
  | conflict hn => exact .conflict fun hal => hn hal.2
  | limit => exact .limit

theorem overlay_empty (content : Nat → Option UInt8) {frame : CryptoFrame} (he : frame.data = []) :
    overlay frame content = content ∧ Agrees frame content := by
  have hn : ∀ i, frame.get? i = none := by
    intro i
    rw [← Option.not_isSome_iff_eq_none, Run.isSome_get?, Run.stop, he, length_nil]
    omega
  constructor
  · funext i
    rw [overlay, hn i]
    rfl
  intro i a b ha
  rw [hn i] at ha
  cases ha

theorem ingestFrames_outcome (limits : InitialReassemblyLimits) (contributed : Bool) (frames : List CryptoFrame)
    (he : state.entries.lookup initial.key = some entry) :
    FramesOutcome initial entry.firstSeen entry.crypto.get? frames
      (frames.foldlM (ingestFrame limits initial) (state, contributed)) := by
  induction frames generalizing state entry contributed with
  | nil => exact .known he rfl rfl trivial
  | cons frame frames ih =>
    rw [foldlM_cons]
    have hc := entry.crypto.compare_agrees frame 0
    have hs := ingestFrame_step limits contributed frame he
    generalize ingestFrame limits initial (state, contributed) frame = outcome at hs
    cases hs with
    | empty hem =>
      obtain ⟨hsm, ha⟩ := overlay_empty entry.crypto.get? hem
      refine .cons ha ?_
      rw [hsm]
      exact ih contributed he
    | known ha hcv =>
      have ha' := hc.1 ha
      refine .cons ha' ?_
      rw [Segments.overlay_of_covered ha' hcv]
      exact ih contributed he
    | limit => exact .limit
    | conflict hcn =>
      refine .conflict fun hal => ?_
      rw [hc.2 hal.1] at hcn
      exact Bool.noConfusion hcn
    | merged hd ha =>
      have ha' := hc.1 ha
      refine .cons ha' ?_
      rw [← Segments.get?_insert hd ha']
      show FramesOutcome initial (entry.absorb frame hd (!contributed) initial.datagram).firstSeen
        (entry.absorb frame hd (!contributed) initial.datagram).crypto.get? _ _
      exact ih true (AList.lookup_insert _)

/-! ## The message -/

structure IsClientHello (message : Bytes) : Prop where
  header : 4 ≤ message.length
  type : message.head? = some 0x01
  length : declaredLength message = message.length

theorem IsClientHello.of_prefix {received : Bytes} (hm : IsClientHello message) (h : received <+: message)
    (hl : 4 ≤ received.length) : received.head? = some 0x01 ∧ declaredLength received = message.length := by
  obtain ⟨rest, rfl⟩ := h
  have hd : (received ++ rest).drop 1 = received.drop 1 ++ rest := drop_append_of_le_length (by omega)
  constructor
  · rw [← hm.type, head?_append_of_ne_nil _ (length_pos_iff.1 (by omega))]
  · rw [← hm.length, declaredLength, declaredLength, hd, take_append_of_le_length (by rw [length_drop]; omega)]

/-- Where a settled entry stands: the message is not known from its start to its end, or it is. -/
theorem contiguous_message (hc : ∀ i a, entry.crypto.get? i = some a → message[i]? = some a) :
    contiguous entry.crypto.runs = message.take (contiguous entry.crypto.runs).length ∧
      ((contiguous entry.crypto.runs).length < message.length ∨
        contiguous entry.crypto.runs = message ∧ ∀ i < message.length, entry.crypto.get? i ≠ none) := by
  have hk := fun i => @contiguous_spec _ _ i _ entry.crypto.separated entry.crypto.shows
  generalize contiguous entry.crypto.runs = received at hk
  have hg : ∀ i < received.length, received[i]? = message[i]? := by
    intro i hi
    obtain ⟨a, ha⟩ : ∃ a, received[i]? = some a := ⟨_, getElem?_eq_getElem hi⟩
    rw [ha]
    exact (hc i a ((hk i hi.le).trans ha)).symm
  have ht : received = message.take received.length := by
    apply ext_getElem?
    intro i
    rw [getElem?_take]
    split
    · next hlt => exact hg i hlt
    · next hge => exact getElem?_eq_none (Nat.le_of_not_lt hge)
  refine ⟨ht, ?_⟩
  by_cases hlt : received.length < message.length
  · exact .inl hlt
  have hal : received = message := by
    rw [ht]
    exact take_of_length_le (Nat.le_of_not_lt hlt)
  refine .inr ⟨hal, fun i hi => ?_⟩
  rw [hk i (by rw [hal]; exact hi.le), hal, getElem?_eq_getElem hi]
  exact Option.some_ne_none _

/-- The part behind the frames, for a message: a limit, or the message if all of it is known. -/
theorem settle_message (limits : InitialReassemblyLimits) (atCapacity : Bool) (hm : IsClientHello message)
    (he : state.entries.lookup initial.key = some entry)
    (hc : ∀ i a, entry.crypto.get? i = some a → message[i]? = some a) :
    (settle limits initial state atCapacity).2 = .rejected .limit ∨
      (∃ i < message.length, entry.crypto.get? i = none) ∧
        settle limits initial state atCapacity = pendingOrCapacity initial state atCapacity ∨
      (∀ i < message.length, entry.crypto.get? i ≠ none) ∧
        (settle limits initial state atCapacity).2 = .assembled message entry := by
  obtain ⟨ht, hcs⟩ := contiguous_message hc
  have hn := (contiguous_spec entry.crypto.separated entry.crypto.shows le_rfl).trans (getElem?_length _)
  unfold settle
  simp only [he]
  generalize contiguous entry.crypto.runs = received at ht hcs hn
  have ho : received.length < message.length → ∃ i < message.length, entry.crypto.get? i = none :=
    fun hlt => ⟨received.length, hlt, hn⟩
  have hln := hm.header
  by_cases hs : received.length < 4
  · rw [if_pos hs]
    exact .inr (.inl ⟨ho (by omega), rfl⟩)
  -- the header is there, and it is that of the message
  obtain ⟨hh, hd⟩ := hm.of_prefix (ht ▸ take_prefix _ _) (not_lt.1 hs)
  rw [if_neg hs, hh, if_neg (by decide), hd]
  by_cases hl : limits.clientHelloMaxBytes < message.length
  · rw [if_pos hl]
    exact .inl rfl
  rw [if_neg hl]
  rcases hcs with hlt | ⟨rfl, ha⟩
  · rw [if_pos hlt]
    exact .inr (.inl ⟨ho hlt, rfl⟩)
  rw [if_neg (Nat.lt_irrefl _)]
  refine .inr (.inr ⟨ha, ?_⟩)
  rw [List.take_length]

/-! ## What a call leaves alone -/

section Others

variable {key : Key}

theorem lookup_removeEntry (state : PendingState Key) (key key' : Key) :
    (state.removeEntry key').entries.lookup key = if key = key' then none else state.entries.lookup key := by
  unfold PendingState.removeEntry
  split
  · next hn =>
    split
    · next heq => rw [heq, hn]
    · rfl
  · exact Ledger.lookup_erase_apply key

variable {now : Nat}

theorem mem_expiredKeys : key ∈ state.expiredKeys limits now ↔
    ∃ entry, state.entries.lookup key = some entry ∧ limits.timeout ≤ now - entry.firstSeen := by
  unfold PendingState.expiredKeys
  rw [mem_filterMap]
  constructor
  · rintro ⟨⟨key', entry⟩, hm, h⟩
    split at h
    · next ho =>
      cases h
      exact ⟨entry, AList.mem_lookup_iff.2 hm, ho⟩
    · cases h
  · rintro ⟨entry, hl, ho⟩
    exact ⟨⟨key, entry⟩, AList.mem_lookup_iff.1 hl, if_pos ho⟩

theorem lookup_expire (h : key ∉ state.expiredKeys limits now) :
    (state.expire limits now).entries.lookup key = state.entries.lookup key := by
  unfold PendingState.expire
  generalize state.expiredKeys limits now = keys at h
  induction keys generalizing state with
  | nil => rfl
  | cons first keys ih =>
    obtain ⟨hne, hk⟩ := not_or.1 (mt mem_cons.2 h)
    rw [foldl_cons, ih hk, lookup_removeEntry, if_neg hne]

/-- The state that frames lead to, whether they are refused or not. -/
def stateOf : Except (ReassemblyReject × PendingState Key) (PendingState Key × Bool) → PendingState Key
  | .ok (state, _) => state
  | .error (_, state) => state

theorem lookup_ingestFrame (limits : InitialReassemblyLimits) (state : PendingState Key) (contributed : Bool)
    (hne : key ≠ initial.key) (frame : CryptoFrame) :
    (stateOf (ingestFrame limits initial (state, contributed) frame)).entries.lookup key =
      state.entries.lookup key := by
  have hr : (state.removeEntry initial.key).entries.lookup key = state.entries.lookup key := by
    rw [lookup_removeEntry, if_neg hne]
  cases he : state.entries.lookup initial.key with
  | none =>
    unfold ingestFrame
    simp only [he]
    split
    · rfl
    split
    · exact hr
    split
    · exact hr
    · rfl
  | some entry =>
    have hs := ingestFrame_step limits contributed frame he
    generalize ingestFrame limits initial (state, contributed) frame = outcome at hs
    cases hs with
    | empty => rfl
    | known => rfl
    | limit | conflict => exact hr
    | merged => exact AList.lookup_insert_ne hne

theorem lookup_ingestFrames (limits : InitialReassemblyLimits) (state : PendingState Key) (contributed : Bool)
    (hne : key ≠ initial.key) (frames : List CryptoFrame) :
    (stateOf (frames.foldlM (ingestFrame limits initial) (state, contributed))).entries.lookup key =
      state.entries.lookup key := by
  induction frames generalizing state contributed with
  | nil => rfl
  | cons frame frames ih =>
    have hf := lookup_ingestFrame limits state contributed hne frame
    rw [foldlM_cons]
    generalize ingestFrame limits initial (state, contributed) frame = outcome at hf
    cases outcome with
    | error refused => exact hf
    | ok next => exact (ih next.1 next.2).trans hf

theorem lookup_settle {atCapacity : Bool} (hne : key ≠ initial.key) :
    (settle limits initial state atCapacity).1.entries.lookup key = state.entries.lookup key := by
  have hr : (state.removeEntry initial.key).entries.lookup key = state.entries.lookup key := by
    rw [lookup_removeEntry, if_neg hne]
  have hp : (pendingOrCapacity initial state atCapacity).1.entries.lookup key = state.entries.lookup key := by
    cases atCapacity with
    | true => exact hr
    | false => rfl
  unfold settle
  split
  · rfl
  simp only
  split
  · exact hp
  split
  · exact hr
  split
  · exact hr
  split
  · exact hp
  · exact AList.lookup_erase_ne hne

theorem lookup_ingest (hne : key ≠ initial.key) (hl : key ∉ state.expiredKeys limits now) :
    (ingest limits initial state now).1.entries.lookup key = state.entries.lookup key := by
  rw [← lookup_expire hl]
  unfold ingest
  split
  · rfl
  generalize state.expire limits now = state'
  have hen : (withEntry initial state' now).entries.lookup key = state'.entries.lookup key := by
    unfold withEntry
    split
    · rfl
    · exact AList.lookup_insert_ne hne
  unfold ingestLive
  split
  · rw [lookup_removeEntry, if_neg hne]
  have hf := lookup_ingestFrames limits (withEntry initial state' now) false hne initial.frames
  rw [hen] at hf
  unfold ingestFrames
  generalize initial.frames.foldlM (ingestFrame limits initial) _ = outcome at hf
  cases outcome with
  | error refused => exact hf
  | ok next => exact (lookup_settle hne).trans hf

end Others

/-! ## Calls for one connection -/

def ReassemblyResult.limited : ReassemblyResult → Bool
  | .rejected .expired => true
  | .rejected .capacity => true
  | .rejected .limit => true
  | _ => false

/-- What is known of the connection is what its datagrams carried, and it does not expire before a time. -/
def Follows (start : Nat) (key : Key) (received : List (InspectedInitial Key)) (state : PendingState Key) : Prop :=
  state.entries.lookup key = none ∧ received = [] ∨
    ∃ entry, state.entries.lookup key = some entry ∧ start ≤ entry.firstSeen ∧
      ∀ i byte, entry.crypto.get? i = some byte ↔ Carried received i byte

variable {start now : Nat} {received : List (InspectedInitial Key)} {message : Bytes}

theorem Follows.live (h : Follows start key received state) (hs : start ≤ now) (hnw : now < start + limits.timeout) :
    key ∉ state.expiredKeys limits now := by
  intro hm
  obtain ⟨entry, he, ho⟩ := mem_expiredKeys.1 hm
  rcases h with ⟨hn, -⟩ | ⟨entry', he', hsn, -⟩
  · rw [hn] at he
    cases he
  · cases he.symm.trans he'
    omega

theorem Follows.withEntry (h : Follows start initial.key received state) (hs : start ≤ now) :
    ∃ entry, (withEntry initial state now).entries.lookup initial.key = some entry ∧ start ≤ entry.firstSeen ∧
      ∀ i byte, entry.crypto.get? i = some byte ↔ Carried received i byte := by
  unfold SniForward.withEntry
  rcases h with ⟨hn, rfl⟩ | ⟨entry, he, hf⟩
  · rw [hn, if_neg (by decide)]
    refine ⟨_, AList.lookup_insert _, hs, fun i byte => ⟨fun hb => ?_, fun hc => ?_⟩⟩
    · cases hb
    · obtain ⟨other, ho, -⟩ := hc
      exact absurd ho not_mem_nil
  · rw [he, Option.isSome_some, if_pos rfl]
    exact ⟨entry, he, hf⟩

/-- A datagram of a connection that has not expired: a limit is reached, a frame does not agree, or the frames are known
when the entry is settled. -/
theorem ingest_frames (limits : InitialReassemblyLimits) (hl : initial.key ∉ state.expiredKeys limits now)
    (he : (withEntry initial (state.expire limits now) now).entries.lookup initial.key = some entry) :
    (answer initial (ingest limits initial state now).2).limited = true ∨
      ¬Agreeing entry.crypto.get? initial.frames ∧ (ingest limits initial state now).2 = .rejected .overlapConflict ∨
      Agreeing entry.crypto.get? initial.frames ∧ ∃ next entry' atCapacity,
        ingest limits initial state now = settle limits initial next atCapacity ∧
          next.entries.lookup initial.key = some entry' ∧
          entry'.crypto.get? = knownWith entry.crypto.get? initial.frames ∧ entry'.firstSeen = entry.firstSeen := by
  unfold ingest
  rw [if_neg hl]
  unfold ingestLive
  split
  · exact .inl rfl
  have ho := ingestFrames_outcome limits false initial.frames he
  unfold ingestFrames
  generalize initial.frames.foldlM (ingestFrame limits initial) _ = outcome at ho
  cases ho with
  | known he' hk hs ha => exact .inr (.inr ⟨ha, _, _, _, rfl, he', hk, hs⟩)
  | conflict hn => exact .inr (.inl ⟨hn, rfl⟩)
  | limit => exact .inl rfl

/-- A datagram whose frames agree with the message: a limit is reached, or the call is answered by whether all of the
message is there. -/
theorem ingest_message (limits : InitialReassemblyLimits) (hms : IsClientHello message)
    (h : Follows start initial.key received state) (hft : Fits (received ++ [initial]) message) (hst : start ≤
      now) (hlv : now < start + limits.timeout) :
    (answer initial (ingest limits initial state now).2).limited = true ∨
      ¬Covers (received ++ [initial]) message ∧ (ingest limits initial state now).2 = .pending ∧
        Follows start initial.key (received ++ [initial]) (ingest limits initial state now).1 ∨
      Covers (received ++ [initial]) message ∧
        ∃ entry, (ingest limits initial state now).2 = .assembled message entry := by
  have hk := h.live hst hlv
  have hfl : Follows start initial.key received (state.expire limits now) := by
    unfold Follows
    rw [lookup_expire hk]
    exact h
  obtain ⟨entry, he, hs, hc⟩ := hfl.withEntry hst
  -- all frames agree with what is known, since both are of the message
  have hcn : ∀ i byte, entry.crypto.get? i = some byte → message[i]? = some byte := fun i byte hb =>
    hft i byte (carried_append.2 (.inl ((hc i byte).1 hb)))
  have ha := agreeing_of_message hcn fun frame hfm i byte hb =>
    hft i byte (carried_append.2 (.inr ⟨frame, hfm, hb⟩))
  rcases ingest_frames limits hk he with hl | ⟨hn, -⟩ | ⟨-, next, entry', atCapacity, hin, he', hkn, hs'⟩
  · exact .inl hl
  · exact absurd ha hn
  have hc' : ∀ i byte, entry'.crypto.get? i = some byte ↔ Carried (received ++ [initial]) i byte := by
    intro i byte
    rw [hkn, knownWith_eq_some ha, carried_append, hc]
  rw [hin]
  rcases settle_message limits atCapacity hms he' fun i byte hb => hft i byte ((hc' i byte).1 hb)
    with hl | ⟨⟨i, hi, hm⟩, hp⟩ | ⟨hal, ham⟩
  · rw [hl]
    exact .inl rfl
  · rw [hp]
    cases atCapacity with
    | true => exact .inl rfl
    | false =>
      refine .inr (.inl ⟨fun hcv => ?_, rfl, .inr ⟨entry', he', hs'.symm ▸ hs, hc'⟩⟩)
      obtain ⟨byte, hb⟩ := hcv i hi
      rw [(hc' i byte).2 hb] at hm
      cases hm
  · refine .inr (.inr ⟨fun i hi => ?_, entry', ham⟩)
    obtain ⟨byte, hb⟩ := Option.ne_none_iff_exists'.1 (hal i hi)
    exact ⟨byte, (hc' i byte).1 hb⟩

/-- A frame that does not agree with what is retained, or with a frame before it: a limit is reached, or the call is
answered by a conflict. -/
theorem ingest_conflict (limits : InitialReassemblyLimits) (now : Nat) {before after : List CryptoFrame}
    {frame : CryptoFrame} {byte other : UInt8} (hfr : initial.frames = before ++ frame :: after)
    (hr : (∃ entry, state.entries.lookup initial.key = some entry ∧ entry.crypto.get? i = some byte) ∨
      ∃ earlier ∈ before, earlier.get? i = some byte)
    (hfm : frame.get? i = some other) (hne : other ≠ byte) :
    (answer initial (ingest limits initial state now).2).limited = true ∨
      (ingest limits initial state now).2 = .rejected .overlapConflict := by
  by_cases hl : initial.key ∈ state.expiredKeys limits now
  · unfold ingest
    rw [if_pos hl]
    exact .inl rfl
  rw [← lookup_expire hl] at hr
  obtain ⟨entry, hen, hk⟩ : ∃ entry,
      (withEntry initial (state.expire limits now) now).entries.lookup initial.key = some entry ∧
      ∀ old, (state.expire limits now).entries.lookup initial.key = some old → entry = old := by
    unfold withEntry
    cases hl : (state.expire limits now).entries.lookup initial.key with
    | none => exact ⟨_, AList.lookup_insert _, fun old ho => by cases ho⟩
    | some old => exact ⟨old, hl, fun old' => Option.some.inj⟩
  -- the frame would have to agree with the byte that is known when it comes
  have hn : ¬Agreeing entry.crypto.get? initial.frames := by
    rw [hfr, agreeing_append]
    rintro ⟨hb, hag, -⟩
    refine hne (hag i other byte hfm ((knownWith_eq_some hb).2 ?_))
    rcases hr with ⟨old, ho, hby⟩ | her
    · exact .inl (hk old ho ▸ hby)
    · exact .inr her
  rcases ingest_frames limits hl hen with hlm | ⟨-, hc⟩ | ⟨ha, -⟩
  · exact .inl hlm
  · exact .inr hc
  · exact absurd ha hn

/-! ## Runs -/

/-- When a call is made, if it looks at the clock. -/
def Call.time : Call Key → Option Nat
  | .ingest _ now => some now
  | .expire now => some now
  | _ => none

def datagramsOf (key : Key) (calls : List (Call Key)) : List (InspectedInitial Key) :=
  calls.filterMap fun
    | .ingest initial _ => if initial.key = key then some initial else none
    | _ => none

/-- Calls in which the datagrams of a connection carry a message and reach no limit.  Other connections come in between;
the pending entries are not cleared, and all happens within the timeout. -/
structure Transfer (limits : InitialReassemblyLimits) (world : World Key) (key : Key) (message : Bytes) (start : Nat)
    (calls : List (Call Key)) : Prop where
  kept : Call.clearPending ∉ calls
  times : ∀ call ∈ calls, ∀ now, call.time = some now → start ≤ now ∧ now < start + limits.timeout
  fits : Fits (datagramsOf key calls) message
  unlimited : ∀ before initial now after, calls = before ++ .ingest initial now :: after → initial.key = key →
    ((world.run limits before).result limits initial now).limited = false

theorem World.step_ingest_state (world : World Key) (initial : InspectedInitial Key) (now : Nat) :
    (world.step limits (.ingest initial now)).state = (SniForward.ingest limits initial world.state now).1 := by
  unfold step
  simp only
  split
  · next h => rw [h]
  · next h => rw [h]

theorem datagramsOf_append (key : Key) (calls calls' : List (Call Key)) :
    datagramsOf key (calls ++ calls') = datagramsOf key calls ++ datagramsOf key calls' := filterMap_append

theorem datagramsOf_ingest (initial : InspectedInitial Key) (now : Nat) (calls : List (Call Key)) :
    datagramsOf initial.key (calls ++ [.ingest initial now]) = datagramsOf initial.key calls ++ [initial] := by
  rw [datagramsOf_append]
  exact congrArg _ (filterMap_cons_some (if_pos rfl))

variable {world : World Key} {calls : List (Call Key)} {call : Call Key}

theorem Carried.before {byte : UInt8} (h : Carried (datagramsOf key calls) i byte) :
    Carried (datagramsOf key (calls ++ [call])) i byte := by
  obtain ⟨initial, hi, hf⟩ := h
  exact ⟨initial, datagramsOf_append key .. ▸ mem_append_left _ hi, hf⟩

theorem Transfer.before (h : Transfer limits world key message start (calls ++ [call])) :
    Transfer limits world key message start calls where
  kept hm := h.kept (mem_append_left _ hm)
  times _ hc := h.times _ (mem_append_left _ hc)
  fits i byte hb := h.fits i byte hb.before
  unlimited before initial now after hs :=
    h.unlimited before initial now (after ++ [call]) (by rw [hs, append_assoc]; rfl)

theorem Follows.other (h : Follows start key received world.state)
    (hk : call ≠ .clearPending) (ht : ∀ now, call.time = some now → start ≤ now ∧ now < start + limits.timeout)
    (ho : ∀ initial now, call = .ingest initial now → initial.key ≠ key) :
    Follows start key received (world.step limits call).state := by
  have hsm : (world.step limits call).state.entries.lookup key = world.state.entries.lookup key := by
    cases call with
    | ingest initial now =>
      obtain ⟨hs, hl⟩ := ht now rfl
      rw [step_ingest_state]
      exact lookup_ingest (ho initial now rfl).symm (h.live hs hl)
    | expire now =>
      obtain ⟨hs, hl⟩ := ht now rfl
      exact lookup_expire (h.live hs hl)
    | clearPending => exact absurd rfl hk
    | dropReplay index =>
      unfold step
      simp only
      split
      · rfl
      · rfl
  unfold Follows
  rw [hsm]
  exact h

/-- As long as a part of the message is missing, all that came of it is known. -/
theorem run_follows (hm : IsClientHello message) (hn : world.state.entries.lookup key = none)
    (ht : Transfer limits world key message start calls) (ho : ¬Covers (datagramsOf key calls) message) :
    Follows start key (datagramsOf key calls) (world.run limits calls).state := by
  induction calls using List.reverseRecOn with
  | nil => exact .inl ⟨hn, rfl⟩
  | append_singleton calls call ih =>
    have hf := ih ht.before fun hc => ho fun i hi => (hc i hi).imp fun _ => Carried.before
    have htm := ht.times call (mem_append_right _ (mem_singleton_self _))
    have hr : world.run limits (calls ++ [call]) = (world.run limits calls).step limits call := foldl_concat ..
    rw [hr]
    by_cases how : ∃ initial now, call = .ingest initial now ∧ initial.key = key
    · obtain ⟨initial, now, rfl, rfl⟩ := how
      obtain ⟨hst, hlv⟩ := htm now rfl
      have hft := ht.fits
      rw [datagramsOf_ingest] at hft ho ⊢
      rcases ingest_message limits hm hf hft hst hlv with hl | ⟨-, -, hfl⟩ | ⟨hc, -⟩
      · exact absurd ((ht.unlimited calls initial now [] rfl rfl).symm.trans hl) (by decide)
      · rw [step_ingest_state]
        exact hfl
      · exact absurd hc ho
    · have hot : ∀ initial now, call = .ingest initial now → initial.key ≠ key :=
        fun initial now hca hky => how ⟨initial, now, hca, hky⟩
      have hsk : datagramsOf key [call] = [] := by
        refine filterMap_cons_none ?_
        cases call with
        | ingest initial now => exact if_neg (hot initial now rfl)
        | expire | clearPending | dropReplay => rfl
      rw [datagramsOf_append, hsk, append_nil]
      exact hf.other (fun he => ht.kept (he ▸ mem_append_right _ (mem_singleton_self _))) htm hot

/-- Reassembly of a message in frames of any order, with duplicates and overlaps, in any datagrams of its connection:
the connection is answered at the first datagram after which all bytes of the message have come, by the name that the
message has.  A frame that disagrees with a retained byte, or with a frame before it, is a conflict. -/
theorem reassembles (limits : InitialReassemblyLimits) (history : List (Call Key)) :
    (∀ (key : Key) (message : Bytes) (start : Nat) (calls : List (Call Key)) (last : InspectedInitial Key) (now : Nat),
      IsClientHello message → last.key = key →
      (World.run limits World.empty history).state.entries.lookup key = none →
      Transfer limits (World.run limits World.empty history) key message start (calls ++ [.ingest last now]) →
      ¬Covers (datagramsOf key calls) message →
      (¬Covers (datagramsOf key calls ++ [last]) message →
        ((World.run limits World.empty history).run limits calls).result limits last now = .pending) ∧
      (Covers (datagramsOf key calls ++ [last]) message →
        (∀ sni, rawClientHelloSni message = .ok sni →
          ∃ batch, ((World.run limits World.empty history).run limits calls).result limits last now =
            .completed ⟨sni, last.clientScid, batch⟩) ∧
        ∀ error, rawClientHelloSni message = .error error →
          ((World.run limits World.empty history).run limits calls).result limits last now =
            .rejected .parseFailure)) ∧
    ∀ (initial : InspectedInitial Key) (now : Nat) (before after : List CryptoFrame) (frame : CryptoFrame) (i : Nat)
      (byte other : UInt8),
      initial.frames = before ++ frame :: after →
      ((∃ entry, (World.run limits World.empty history).state.entries.lookup initial.key = some entry ∧
          entry.crypto.get? i = some byte) ∨
        ∃ earlier ∈ before, earlier.get? i = some byte) →
      frame.get? i = some other → other ≠ byte →
      ((World.run limits World.empty history).result limits initial now).limited = false →
      (World.run limits World.empty history).result limits initial now = .rejected .overlapConflict := by
  generalize run limits empty history = world
  constructor
  · rintro key message start calls last now hms rfl hfs ht ho
    have hf := ht.fits
    rw [datagramsOf_ingest] at hf
    have hfl := run_follows hms hfs ht.before ho
    obtain ⟨hst, hlv⟩ := ht.times _ (mem_append_right _ (mem_singleton_self _)) now rfl
    have hu := ht.unlimited calls last now [] rfl rfl
    rcases ingest_message limits hms hfl hf hst hlv with
      hl | ⟨hm, hp, -⟩ | ⟨hc, entry, ha⟩
    · exact absurd (hu.symm.trans hl) (by decide)
    · refine ⟨fun _ => ?_, fun hc => absurd hc hm⟩
      rw [result, hp]
      rfl
    refine ⟨fun hm => absurd hc hm, fun _ => ⟨fun sni hsn => ⟨.of entry, ?_⟩, fun error he => ?_⟩⟩
    · rw [result, ha]
      simp only [answer, hsn]
    · rw [result, ha]
      simp only [answer, he]
  · intro initial now before after frame i byte other hfr hr hfm hne hu
    rcases ingest_conflict limits now hfr hr hfm hne with hl | hcn
    · exact absurd (hu.symm.trans hl) (by decide)
    · rw [result, hcn]
      rfl

def plainHello : Bytes := [1, 0, 0, 41, 3, 3] ++ List.replicate 32 0 ++ [0, 0, 2, 0x13, 1, 1, 0]

def plainLimits : InitialReassemblyLimits := ⟨1, 4, 4, 100, 1000, 10, 64⟩

/-- The message in two datagrams, the end of it first and ten bytes twice; and a frame that disagrees with the one
before it. -/
theorem reassembles_plainHello : (∃ batch, ((World.run plainLimits World.empty []).run plainLimits
        [.ingest ⟨1, [7], [⟨20, plainHello.drop 20⟩], [9, 9]⟩ 0]).result plainLimits
          ⟨1, [7], [⟨0, plainHello.take 30⟩], [9]⟩ 3 = .completed ⟨none, [7], batch⟩) ∧
      (World.run plainLimits World.empty []).result plainLimits ⟨1, [7], [⟨0, [1, 2]⟩, ⟨1, [3]⟩], [9]⟩ 0 =
        .rejected .overlapConflict := by
  obtain ⟨hcm, hcn⟩ := @reassembles Nat _ plainLimits []
  refine ⟨
    ((hcm 1 plainHello 0 _ _ 3 ⟨by decide, by decide, by decide⟩ rfl rfl ⟨by simp, ?_, ?_, ?_⟩ ?_).2 ?_).1 none rfl,
    hcn ⟨1, [7], [⟨0, [1, 2]⟩, ⟨1, [3]⟩], [9]⟩ 0 [⟨0, [1, 2]⟩] [] ⟨1, [3]⟩ 1 2 3 rfl
      (.inr ⟨_, mem_singleton_self _, rfl⟩) rfl (by decide) rfl⟩
  · intro call hca now htm
    simp only [cons_append, nil_append, mem_cons, not_mem_nil, or_false] at hca
    obtain rfl | rfl := hca
    all_goals
      cases htm
      decide
  · rintro i byte ⟨initial, hin, frame, hf, hb⟩
    change initial ∈ [_, _] at hin
    simp only [mem_cons, not_mem_nil, or_false] at hin
    obtain rfl | rfl := hin
    · rw [mem_singleton.1 hf] at hb
      have hr := (Run.range_of_get? hb).1
      rw [Run.get?, if_pos hr, getElem?_drop] at hb
      rwa [Nat.add_sub_cancel' hr] at hb
    · rw [mem_singleton.1 hf, Run.get?, if_pos (Nat.zero_le i), Nat.sub_zero, getElem?_take] at hb
      split at hb
      · exact hb
      · cases hb
  · intro before initial now after hcl _
    rcases before with _ | ⟨first, _ | ⟨second, before⟩⟩
    · cases hcl
      rfl
    · cases hcl
      rfl
    · have hl := congrArg List.length hcl
      simp at hl
  · intro hc
    obtain ⟨byte, initial, hin, frame, hf, hb⟩ := hc 0 (by decide)
    change initial ∈ [_] at hin
    rw [mem_singleton.1 hin] at hf
    rw [mem_singleton.1 hf] at hb
    exact absurd (Run.range_of_get? hb).1 (by decide)
  · intro i hi
    have hs : ∀ frame : CryptoFrame, frame.offset ≤ i → i < frame.stop → ∃ byte, frame.get? i = some byte :=
      fun _ ho hs => Option.isSome_iff_exists.1 (Run.isSome_get?.2 ⟨ho, hs⟩)
    by_cases hfr : i < 30
    · obtain ⟨byte, hb⟩ := hs ⟨0, plainHello.take 30⟩ (Nat.zero_le i) hfr
      exact ⟨byte, carried_append.2 (.inr ⟨_, mem_singleton_self _, hb⟩)⟩
    · obtain ⟨byte, hb⟩ := hs ⟨20, plainHello.drop 20⟩ (by show 20 ≤ i; omega) hi
      exact ⟨byte, carried_append.2 (.inl ⟨_, mem_singleton_self _, _, mem_singleton_self _, hb⟩)⟩

end SniForward
