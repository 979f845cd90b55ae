import OxiBelt.Server.Http1Framing
import OxiBelt.Lib.Search

/-!
# What the framing guard makes of a stream that it sees whole

`ideal` reads the rest of a stream from a state of the guard in one go.  Every poll hands on a part of
it and leaves the rest as it was, however the stream is cut, if the destination has room for what the
chunk decoder takes:

* `turn_spec`: one round of the loop.
* `pollRead_spec`: the loop.  It fails only where the decoder later finds fault with bytes that follow
  some already handed on.
-/

namespace Http1

open RustStd ByteString Feed List

/-! ## The buffer -/

variable (buffer : ReadBuffer)

theorem ReadBuffer.available_extend (bytes : Bytes) : (buffer.extend bytes).available = buffer.available ++ bytes :=
  drop_append_of_le_length buffer.bounded

theorem ReadBuffer.available_empty : ReadBuffer.empty.available = [] := rfl

theorem ReadBuffer.consumeInto_bytes (room limit : Nat) :
    (buffer.consumeInto room limit).1 = buffer.available.take (min room limit) := by
  show buffer.available.take (min (min buffer.available.length room) limit) = _
  rw [Nat.min_assoc, Nat.min_comm, ← take_eq_take_min]

/-- The compaction of the buffer does not show. -/
theorem ReadBuffer.consumeInto_available (room limit : Nat) :
    (buffer.consumeInto room limit).2.available = buffer.available.drop (min room limit) := by
  have hd : buffer.available.drop (min room limit) =
      buffer.buffered.drop (buffer.offset + min (min buffer.available.length room) limit) := by
    rw [Nat.min_assoc, ReadBuffer.available, drop_drop]
    by_cases hle : min room limit ≤ (buffer.buffered.drop buffer.offset).length
    · rw [Nat.min_eq_right hle]
    have ha : (buffer.buffered.drop buffer.offset).length ≤ min room limit := by omega
    rw [Nat.min_eq_left ha, drop_of_length_le, drop_of_length_le]
    · rw [length_drop]
      omega
    · rw [length_drop] at ha
      omega
  rw [hd]
  simp only [consumeInto]
  split
  · next he => rw [available_empty, drop_of_length_le (by omega)]
  split
  · rfl
  · rfl

/-! ## The end of a head -/

variable {decoder : ChunkDecoder} {length : Nat} {stream bytes : Bytes}

theorem headLength_eq_some :
    headLength stream = some length ↔ ∃ place, Search.find headEndMark stream = some place ∧ place + 4 = length := by
  induction stream generalizing length with
  | nil => simp [headLength, Search.find, headEndMark]
  | cons byte rest ih =>
    rw [headLength, Search.find]
    split
    · simp
    · simp only [Option.map_eq_some_iff, ih]
      grind

theorem headLength_bounds (h : headLength stream = some length) : 4 ≤ length ∧ length ≤ stream.length := by
  obtain ⟨place, hf, rfl⟩ := headLength_eq_some.1 h
  exact ⟨Nat.le_add_left _ _, Search.find_le_length hf⟩

/-- A head that is complete stays the same when more arrives. -/
theorem headLength_append (h : headLength stream = some length) (more : Bytes) :
    headLength (stream ++ more) = some length := by
  obtain ⟨place, hf, hl⟩ := headLength_eq_some.1 h
  exact headLength_eq_some.2 ⟨place, Search.find_append hf more, hl⟩

/-- A head that is not complete yet ends beyond what has arrived. -/
theorem headLength_append_none {more : Bytes} (h : headLength stream = none)
    (hm : headLength (stream ++ more) = some length) : stream.length < length := by
  obtain ⟨place, hf, rfl⟩ := headLength_eq_some.1 hm
  refine Search.find_append_of_none ?_ hf
  rw [Option.eq_none_iff_forall_ne_some]
  intro place hp
  cases h.symm.trans (headLength_eq_some.2 ⟨place, hp, rfl⟩)

/-! ## The whole stream at once -/

inductive Verdict where
  | stillOpen
  | cleanEnd
  | rejectedWith (rejection : Rejection)
  deriving DecidableEq

/-- What came out of a connection: the bytes handed on, those fed to chunk decoders, the verdict. -/
structure Outcome where
  delivered : Bytes
  fed : Bytes
  verdict : Verdict
  deriving DecidableEq

variable (outcome : Outcome)

def Outcome.after (delivered fed : Bytes) : Outcome where
  delivered := delivered ++ outcome.delivered
  fed := fed ++ outcome.fed
  verdict := outcome.verdict

@[simp] theorem Outcome.after_nil : outcome.after [] [] = outcome := rfl

theorem Outcome.after_after (d f d' f' : Bytes) :
    (outcome.after d f).after d' f' = outcome.after (d' ++ d) (f' ++ f) := by
  simp [after]

def endOf (closed : Bool) : Verdict := if closed then .cleanEnd else .stillOpen

def ReadState.rank : ReadState → Nat
  | .validatedHead _ _ => 2
  | .fixedBody _ => 1
  | _ => 0

theorem AfterHead.rank_lt (next : AfterHead) : next.state.rank < 2 := by
  cases next <;> simp [AfterHead.state, ReadState.rank]

theorem consume_pos (decoder : ChunkDecoder) {input : Bytes} (h : input ≠ []) : 0 < (decoder.consume input).1 :=
  feed_consumed_pos decoder h

theorem drop_lex (stream : Bytes) (taken : Nat) {rank rank' : Nat} (h : rank < rank') :
    Prod.Lex (· < ·) (· < ·) ((stream.drop taken).length, rank) (stream.length, rank') := by
  obtain hd | hd := Nat.lt_or_eq_of_le (length_drop ▸ Nat.sub_le stream.length taken)
  · exact .left _ _ hd
  · rw [hd]
    exact .right _ h

/-- What the guard makes of the rest of a stream from a state, seeing it whole. -/
def ideal (maxHeaderBytes : Nat) (closed : Bool) (state : ReadState) (stream : Bytes) : Outcome :=
  match state with
  | .head =>
    match _h : headLength stream with
    | some length =>
      if maxHeaderBytes < length then ⟨[], [], .rejectedWith .headerTooLarge⟩
      else
        match afterHead maxHeaderBytes (stream.take length) with
        | none => ⟨[], [], .rejectedWith .badRequest⟩
        | some next =>
          (ideal maxHeaderBytes closed next.state (stream.drop length)).after (stream.take length) []
    | none =>
      if maxHeaderBytes ≤ stream.length then ⟨[], [], .rejectedWith .headerTooLarge⟩
      else if closed && !stream.isEmpty then ⟨[], [], .rejectedWith .badRequest⟩
      else ⟨[], [], endOf closed⟩
  | .validatedHead remaining next =>
    (ideal maxHeaderBytes closed next.state (stream.drop remaining)).after (stream.take remaining) []
  | .fixedBody remaining =>
    if remaining ≤ stream.length then
      (ideal maxHeaderBytes closed .head (stream.drop remaining)).after (stream.take remaining) []
    else ⟨stream, [], endOf closed⟩
  | .chunkedBody decoder =>
    match _h : decoder.consume stream with
    | (consumed, .inl .invalid) => ⟨[], stream.take consumed, .rejectedWith .badRequest⟩
    | (consumed, .inl .complete) =>
      (ideal maxHeaderBytes closed .head (stream.drop consumed)).after (stream.take consumed)
        (stream.take consumed)
    | (_, .inr _) => ⟨stream, stream, endOf closed⟩
  | .awaitingTunnelResponse _ => ⟨[], [], .stillOpen⟩
  | .passthrough => ⟨stream, [], endOf closed⟩
  | .terminalConnectRejection => ⟨[], [], .cleanEnd⟩
  | .rejecting rejection _ => ⟨[], [], .rejectedWith rejection⟩
  | .rejected (some rejection) => ⟨[], [], .rejectedWith rejection⟩
  | .rejected none => ⟨[], [], .cleanEnd⟩
termination_by (stream.length, state.rank)
decreasing_by
  · have hbounds := headLength_bounds _h
    refine Prod.Lex.left _ _ ?_
    rw [length_drop]
    omega
  · exact drop_lex stream remaining next.rank_lt
  · exact drop_lex stream remaining Nat.zero_lt_one
  · have hne : stream ≠ [] := by
      rintro rfl
      cases _h
    have hpos := consume_pos decoder hne
    rw [_h] at hpos
    have hlen := length_pos_of_ne_nil hne
    refine Prod.Lex.left _ _ ?_
    rw [length_drop]
    omega

section Ideal

variable {maxHeaderBytes : Nat} {closed : Bool} {stream : Bytes}

theorem ideal_fixedBody (remaining : Nat) : ideal maxHeaderBytes closed (.fixedBody remaining) stream =
      if remaining ≤ stream.length then
        (ideal maxHeaderBytes closed .head (stream.drop remaining)).after (stream.take remaining) []
      else ⟨stream, [], endOf closed⟩ := by
  conv_lhs => rw [ideal]

theorem ideal_fixedBody_part {k : Nat} (hk : k ≤ stream.length) (remaining : Nat) :
    ideal maxHeaderBytes closed (.fixedBody (k + remaining)) stream =
      (ideal maxHeaderBytes closed (.fixedBody remaining) (stream.drop k)).after (stream.take k) [] := by
  rw [ideal_fixedBody, ideal_fixedBody, length_drop]
  by_cases h : k + remaining ≤ stream.length
  · have h' : remaining ≤ stream.length - k := by omega
    rw [if_pos h, if_pos h', Outcome.after_after, drop_drop, take_add]
    rfl
  have h' : ¬ remaining ≤ stream.length - k := by omega
  rw [if_neg h, if_neg h']
  simp [Outcome.after]

theorem ideal_fixedBody_zero :
    ideal maxHeaderBytes closed (.fixedBody 0) stream = ideal maxHeaderBytes closed .head stream := by
  rw [ideal_fixedBody, if_pos (Nat.zero_le _)]
  rfl

/-- A decoder that waits after the bytes at hand goes on with the rest, as long as it does not find
fault with that. -/
theorem ideal_chunked_part {decoder' : ChunkDecoder} {rest : Bytes} (h : (decoder.consume bytes).2 = .inr decoder')
    (hv : (decoder'.consume rest).2 ≠ .inl .invalid) :
    ideal maxHeaderBytes closed (.chunkedBody decoder) (bytes ++ rest) =
      (ideal maxHeaderBytes closed (.chunkedBody decoder') rest).after bytes bytes := by
  have ha : decoder.consume (bytes ++ rest) = (bytes.length + (decoder'.consume rest).1, (decoder'.consume rest).2) :=
    feed_append_waiting h rest
  rcases hr : decoder'.consume rest with ⟨consumed, stop | decoder''⟩
  · cases stop with
    | invalid => exact absurd (congrArg Prod.snd hr) hv
    | complete =>
      rw [ideal, ideal, ha, hr]
      simp only [Outcome.after_after, drop_append, take_append, drop_of_length_le (Nat.le_add_right _ _),
        take_of_length_le (Nat.le_add_right _ _), nil_append, Nat.add_sub_cancel_left]
  · rw [ideal, ideal, ha, hr]
    rfl

end Ideal

/-! ## One round of the loop -/

section Turn

/-- A head that is being handed on lies in the buffer. -/
structure Guard.Sound (guard : Guard) : Prop where
  limit : 1 ≤ guard.maxHeaderBytes
  head : ∀ remaining next, guard.state = .validatedHead remaining next →
    0 < remaining ∧ remaining ≤ guard.available.length

def Guard.ideal (guard : Guard) (closed : Bool) (rest : Bytes) : Outcome :=
  Http1.ideal guard.maxHeaderBytes closed guard.state (guard.available ++ rest)

/-- The rounds that a state needs to return, beside those that read from the socket. -/
def ReadState.need : ReadState → Nat
  | .fixedBody _ => 3
  | .head => 2
  | .chunkedBody _ => 2
  | _ => 1

def verdictOf (state : ReadState) (poll : Poll) : Verdict :=
  match state with
  | .rejecting rejection _ => .rejectedWith rejection
  | .rejected (some rejection) => .rejectedWith rejection
  | _ =>
    match poll with
    | .pending => .stillOpen
    | .ready _ => .cleanEnd

variable {guard guard' : Guard} {room writable : Nat} {bytes : Bytes}

theorem Guard.ideal_rejecting (guard : Guard) (rejection : Rejection) (closed : Bool) (rest : Bytes) :
    (guard.beginRejection rejection).ideal closed rest = ⟨[], [], .rejectedWith rejection⟩ := by
  simp only [Guard.ideal, Guard.beginRejection, Http1.ideal]

theorem Guard.sound_rejecting (h : guard.Sound) (rejection : Rejection) : (guard.beginRejection rejection).Sound :=
  ⟨h.limit, fun _ _ hs => by cases hs⟩

/-- A round that goes round again stays with the same ideal, and is nearer to returning. -/
structure Leads (guard guard' : Guard) : Prop where
  limit : guard'.maxHeaderBytes = guard.maxHeaderBytes
  sound : guard'.Sound
  nearer : guard'.state.need < guard.state.need
  steady : ∀ decoder, guard'.state ≠ .chunkedBody decoder
  ideal : ∀ closed rest, guard.ideal closed rest = (guard'.ideal closed rest).after [] (fedBytes guard)

theorem leads_rejection (h : guard.Sound) {rejection : Rejection} (hn : 1 < guard.state.need)
    (hi : ∀ closed rest, guard.ideal closed rest =
      ⟨[], fedBytes guard, .rejectedWith rejection⟩) : Leads guard (guard.beginRejection rejection) := by
  refine ⟨rfl, guard.sound_rejecting h rejection, hn, fun _ hc => (by cases hc), fun closed rest => ?_⟩
  rw [hi, Guard.ideal_rejecting]
  simp [Outcome.after]

/-- A round that returns hands on a part of the ideal, unless the chunk decoder will find fault with
what comes after that part. -/
structure Hands (guard guard' : Guard) (bytes : Bytes) : Prop where
  limit : guard'.maxHeaderBytes = guard.maxHeaderBytes
  sound : guard'.Sound
  ideal : ∀ closed rest,
    (∀ decoder decoder', guard.state = .chunkedBody decoder → guard'.state = .chunkedBody decoder' →
      (decoder'.consume (guard'.available ++ rest)).2 ≠ .inl .invalid) →
    guard.ideal closed rest = (guard'.ideal closed rest).after bytes (fedBytes guard)
  moves : ∀ decoder, guard.state = .chunkedBody decoder → bytes ≠ []
  quiet : bytes = [] → ∀ closed rest,
    guard'.ideal closed rest = ⟨[], [], verdictOf guard'.state (.ready [])⟩

structure Waits (guard : Guard) : Prop where
  fed : fedBytes guard = []
  need : 1 < guard.state.need
  chunk : ∀ decoder, guard.state = .chunkedBody decoder → guard.available = []
  verdict : ∀ poll, verdictOf guard.state poll = verdictOf .head poll
  ideal : ∀ closed, guard.ideal closed [] =
    if closed && !guard.available.isEmpty then ⟨[], [], .rejectedWith .badRequest⟩
    else ⟨[], [], endOf closed⟩

/-- A round that returns without a byte and stays with the same ideal. -/
structure Holds (guard guard' : Guard) : Prop where
  limit : guard'.maxHeaderBytes = guard.maxHeaderBytes
  sound : guard'.Sound
  fed : fedBytes guard = []
  ideal : ∀ closed rest, guard.ideal closed rest = guard'.ideal closed rest
  quiet : ∀ closed rest, guard'.ideal closed rest = ⟨[], [], verdictOf guard'.state .pending⟩

def TurnSpec (guard : Guard) (room : Nat) : Turn → Prop
  | .ready bytes guard' => guard.Sound → 0 < room →
      (∀ decoder, guard.state = .chunkedBody decoder →
        (decoder.consume guard.available).2 ≠ .inl .invalid → (decoder.consume guard.available).1 ≤ room) →
      Hands guard guard' bytes
  | .pending guard' => guard.Sound → Holds guard guard'
  | .again guard' => guard.Sound → Leads guard guard'
  | .fill guard' => guard' = guard ∧ Waits guard
  | .readThrough guard' => guard' = guard ∧ guard.state = .passthrough ∧ guard.available = []

theorem turnHead_spec (hs : guard.state = .head) : TurnSpec guard room (turnHead guard) := by
  have hn : 1 < guard.state.need := by
    rw [hs]
    decide
  have hf : fedBytes guard = [] := by simp only [fedBytes, hs]
  unfold turnHead
  split
  · next length hln =>
    have hb := headLength_bounds hln
    have htk : ∀ rest, (guard.available ++ rest).take length = guard.available.take length :=
      fun rest => take_append_of_le_length hb.2
    split
    · next hl =>
      refine fun h => leads_rejection h hn fun closed rest => ?_
      rw [Guard.ideal, hs, hf, ideal, headLength_append hln]
      exact if_pos hl
    next hl =>
    split
    · next ha =>
      refine fun h => leads_rejection h hn fun closed rest => ?_
      rw [Guard.ideal, hs, hf, ideal, headLength_append hln]
      dsimp only
      rw [if_neg hl, htk, ha]
    next next ha =>
    refine fun h => ⟨rfl, ⟨h.limit, ?_⟩, hn, fun _ hc => (by cases hc), fun closed rest => ?_⟩
    · rintro remaining next' hv
      cases hv
      exact ⟨by omega, hb.2⟩
    rw [Guard.ideal, hs, hf, ideal, headLength_append hln]
    dsimp only
    rw [if_neg hl, htk, ha]
    show _ = (Http1.ideal _ _ (.validatedHead length next) (guard.available ++ rest)).after [] []
    rw [ideal, htk]
    rfl
  next hnn =>
  split
  · next hl =>
    refine fun h => leads_rejection h hn fun closed rest => ?_
    rw [Guard.ideal, hs, hf]
    cases hr : headLength (guard.available ++ rest) with
    | some length =>
      -- the head ends beyond the bytes at hand, and they are too many already
      have hby := headLength_append_none hnn hr
      rw [ideal, hr]
      exact if_pos (by omega)
    | none =>
      rw [ideal, hr]
      exact if_pos (by rw [length_append]; omega)
  next hsh =>
  refine ⟨rfl, hf, hn, fun _ hc => by simp [hs] at hc, fun poll => by rw [hs], fun closed => ?_⟩
  rw [Guard.ideal, hs, append_nil, ideal, hnn]
  exact if_neg hsh

/-- Part of the bytes at hand is taken, and the rest of the stream shifts. -/
theorem available_after {k limit : Nat} (hk : min (min room limit) buffer.available.length = k) (rest : Bytes) :
    (buffer.consumeInto room limit).1 = (buffer.available ++ rest).take k ∧
      (buffer.consumeInto room limit).2.available ++ rest = (buffer.available ++ rest).drop k ∧
      (buffer.consumeInto room limit).1.length = k := by
  have hle : k ≤ buffer.available.length := hk ▸ Nat.min_le_right _ _
  rw [ReadBuffer.consumeInto_bytes, ReadBuffer.consumeInto_available, take_append_of_le_length hle,
    drop_append_of_le_length hle, length_take, hk]
  refine ⟨by rw [take_eq_take_min, hk], ?_, rfl⟩
  by_cases h : min room limit ≤ buffer.available.length
  · rw [← hk, Nat.min_eq_left h]
  · have hm : k = buffer.available.length := by omega
    rw [hm, drop_length, drop_of_length_le (by omega)]

/-- A round that hands on the first `k` bytes at hand. -/
theorem hands_part (h : guard.Sound) {k limit : Nat} {state : ReadState}
    (hk : min (min room limit) guard.available.length = k) (hp : 0 < k)
    (hs : ∀ remaining next, state = .validatedHead remaining next →
      0 < remaining ∧ remaining ≤ guard.available.length - k)
    (hi : ∀ closed rest, (∀ decoder decoder', guard.state = .chunkedBody decoder → state = .chunkedBody decoder' →
        (decoder'.consume ((guard.available ++ rest).drop k)).2 ≠ .inl .invalid) →
      guard.ideal closed rest = (Http1.ideal guard.maxHeaderBytes closed state ((guard.available ++ rest).drop k)).after
        ((guard.available ++ rest).take k) (fedBytes guard)) :
    Hands guard { guard with buffer := (guard.buffer.consumeInto room limit).2, state }
      (guard.buffer.consumeInto room limit).1 := by
  have hne : (guard.buffer.consumeInto room limit).1 ≠ [] := by
    refine ne_nil_of_length_pos ?_
    rwa [(available_after guard.buffer hk []).2.2]
  refine ⟨rfl, ⟨h.limit, fun remaining next hst => ?_⟩, fun closed rest hv => ?_, fun _ _ => hne,
    fun hn => absurd hn hne⟩
  · have hd := congrArg List.length (available_after guard.buffer hk []).2.1
    rw [append_nil, append_nil, length_drop] at hd
    rw [Guard.available, hd]
    exact hs remaining next hst
  · obtain ⟨htk, hd, -⟩ := available_after guard.buffer hk rest
    rw [Guard.available, hd] at hv
    rw [hi closed rest hv]
    simp only [Guard.ideal, Guard.available, hd, htk]

/-- A round that hands on bytes of known length: `more r` is the state with `r` bytes to go, `after` the one behind
them. -/
theorem hands_limited (more : Nat → ReadState) {remaining : Nat} {after : ReadState} (h : guard.Sound) (hr : 0 < room)
    (hs : guard.state = more remaining) (hf : fedBytes guard = []) (hp : 0 < remaining) (hne : guard.available ≠ [])
    (ha : ∀ r next, after ≠ .validatedHead r next)
    (hm : ∀ r r' next, more r = .validatedHead r' next → r' = r ∧ remaining ≤ guard.available.length)
    (hz : ∀ closed stream,
      Http1.ideal guard.maxHeaderBytes closed (more 0) stream = Http1.ideal guard.maxHeaderBytes closed after stream)
    (hi : ∀ closed stream k r, k ≤ stream.length → Http1.ideal guard.maxHeaderBytes closed (more (k + r)) stream =
      (Http1.ideal guard.maxHeaderBytes closed (more r) (stream.drop k)).after (stream.take k) []) :
    Hands guard
      { guard with
        buffer := (guard.buffer.consumeInto room remaining).2
        state := if remaining - (guard.buffer.consumeInto room remaining).1.length = 0 then after
          else more (remaining - (guard.buffer.consumeInto room remaining).1.length) }
      (guard.buffer.consumeInto room remaining).1 := by
  have hl : 0 < guard.available.length := length_pos_of_ne_nil hne
  generalize hk : min (min room remaining) guard.available.length = k
  rw [(available_after guard.buffer hk []).2.2]
  refine hands_part h hk (by omega) (fun r next hst => ?_) fun closed rest _ => ?_
  · split at hst
    · exact absurd hst (ha r next)
    obtain ⟨rfl, hle⟩ := hm _ r next hst
    omega
  have hsp : remaining = k + (remaining - k) := by omega
  rw [Guard.ideal, hs, hf]
  nth_rewrite 1 [hsp]
  rw [hi closed _ k _ (by rw [length_append]; omega)]
  split
  · next h0 => rw [h0, hz]
  · rfl

theorem turnFixed_spec {remaining : Nat} (hs : guard.state = .fixedBody remaining) :
    TurnSpec guard room (turnFixed guard room remaining) := by
  have hf : fedBytes guard = [] := by simp only [fedBytes, hs]
  have hn : 2 < guard.state.need := by
    rw [hs]
    exact Nat.lt_succ_self 2
  unfold turnFixed
  split
  · next hz =>
    refine fun h => ⟨rfl, ⟨h.limit, fun _ _ hv => by cases hv⟩, hn, fun _ hc => (by cases hc), fun closed rest => ?_⟩
    rw [hf, Outcome.after_nil, Guard.ideal, hs, hz, ideal_fixedBody_zero]
    rfl
  next hp =>
  split
  · next hem =>
    refine ⟨rfl, hf, Nat.lt_of_succ_lt hn, fun _ hc => by simp [hs] at hc, fun poll => by rw [hs]; rfl,
      fun closed => ?_⟩
    have hl : ¬ remaining ≤ ([] : Bytes).length := by
      rw [length_nil]
      omega
    rw [Guard.ideal, hs, hem, append_nil, ideal_fixedBody, if_neg hl]
    simp
  · next hne =>
    exact fun h hr _ => hands_limited .fixedBody h hr hs hf (Nat.pos_of_ne_zero hp) hne (by simp) (by simp)
      (fun _ _ => ideal_fixedBody_zero) fun _ _ _ r hk => ideal_fixedBody_part hk r

theorem turnChunked_spec (hs : guard.state = .chunkedBody decoder) :
    TurnSpec guard room (turnChunked guard room decoder) := by
  have hn : 1 < guard.state.need := by
    rw [hs]
    exact Nat.lt_succ_self 1
  have hf : fedBytes guard = guard.available.take (decoder.consume guard.available).1 := by
    simp only [fedBytes, hs]
  unfold turnChunked
  split
  · next hem =>
    refine ⟨rfl, by simp [hf, hem], hn, fun _ _ => hem, fun poll => by rw [hs]; rfl, fun closed => ?_⟩
    rw [Guard.ideal, hs, hem, append_nil, ideal]
    simp [ChunkDecoder.consume, feed]
  next hne =>
  have hle : (decoder.consume guard.available).1 ≤ guard.buffer.available.length :=
    feed_consumed_le decoder guard.available
  have hp := consume_pos decoder hne
  -- what stopped the decoder stops it whatever comes after
  have hsm : ∀ {stop}, (decoder.consume guard.available).2 = .inl stop → ∀ rest,
      decoder.consume (guard.available ++ rest) = decoder.consume guard.available := feed_append_stopped
  have htk : ∀ rest, (guard.available ++ rest).take _ = guard.available.take _ :=
    fun rest => take_append_of_le_length hle
  split
  · next hi =>
    refine fun h => leads_rejection h hn fun closed rest => ?_
    have hst : (decoder.consume guard.available).2 = .inl .invalid := by rw [hi]
    rw [Guard.ideal, hs, ideal, hsm hst, hf, ← htk rest, hi]
  · next consumed hc =>
    intro h _ hft
    have hst : (decoder.consume guard.available).2 = .inl .complete := by rw [hc]
    have hr' := hft decoder hs (by rw [hst]; simp)
    rw [hc] at hle hp hr' hf htk
    refine @hands_part _ _ h _ consumed _ ?_ hp (fun _ _ hv => by cases hv) fun closed rest _ => ?_
    · rw [Nat.min_eq_right hr']
      exact Nat.min_eq_left hle
    · rw [Guard.ideal, hs, hf, ← htk rest]
      conv_lhs => rw [ideal, hsm hst, hc]
  · next consumed decoder' hw =>
    intro h _ hft
    have hwt : (decoder.consume guard.available).2 = .inr decoder' := by rw [hw]
    have hr' := hft decoder hs (by rw [hwt]; simp)
    have ha : (decoder.consume guard.available).1 = guard.available.length := feed_waiting hwt
    rw [hw] at ha hr' hf hp
    have ha : consumed = guard.available.length := ha
    refine @hands_part _ _ h _ consumed _ ?_ hp (fun _ _ hv => by cases hv) fun closed rest hvl => ?_
    · rw [Nat.min_eq_right hr']
      exact Nat.min_eq_left ha.le
    · have hvl := hvl decoder decoder' hs rfl
      rw [ha, drop_left] at hvl
      rw [Guard.ideal, hs, ideal_chunked_part hwt hvl, hf, ha, drop_left, take_left, take_length]

/-- **One round.** -/
theorem turn_spec (guard : Guard) (room writable : Nat) : TurnSpec guard room (turn guard room writable) := by
  unfold turn
  split
  · next rejection offset hs =>
    have hf : fedBytes guard = [] := by simp only [fedBytes, hs]
    have hi : ∀ closed rest, guard.ideal closed rest = ⟨[], [], .rejectedWith rejection⟩ := fun _ _ => by
      simp only [Guard.ideal, hs, Http1.ideal]
    unfold pollRejection
    dsimp only
    split
    · refine fun h _ _ => ⟨rfl, ⟨h.limit, fun _ _ hv => by cases hv⟩, fun closed rest _ => ?_,
        fun _ hc => by simp [hs] at hc, fun _ closed rest => ?_⟩
      · rw [hi, hf]
        simp only [Guard.ideal, Http1.ideal]
        rfl
      · simp only [Guard.ideal, Http1.ideal, verdictOf]
    · refine fun h => ⟨rfl, ⟨h.limit, fun _ _ hv => by cases hv⟩, hf, fun closed rest => ?_, fun closed rest => ?_⟩
      · rw [hi]
        simp only [Guard.ideal, Http1.ideal]
      · simp only [Guard.ideal, Http1.ideal, verdictOf]
  · next answer hs =>
    refine fun h _ _ => ⟨rfl, h, fun closed rest _ => ?_, fun _ hc => by simp [hs] at hc, fun _ closed rest => ?_⟩
    · simp [fedBytes, hs]
    · cases answer <;> simp only [Guard.ideal, hs, Http1.ideal, verdictOf]
  · next hs =>
    refine fun h _ _ => ⟨rfl, h, fun closed rest _ => ?_, fun _ hc => by simp [hs] at hc, fun _ closed rest => ?_⟩
    · simp [fedBytes, hs]
    · simp only [Guard.ideal, hs, Http1.ideal, verdictOf]
  · next kind hs =>
    refine fun h => ⟨rfl, h, by simp only [fedBytes, hs], fun _ _ => rfl, fun closed rest => ?_⟩
    simp only [Guard.ideal, hs, Http1.ideal, verdictOf]
  · next hs =>
    split
    · next hn => exact ⟨rfl, hs, hn⟩
    next hne =>
    have hl : 0 < guard.available.length := length_pos_of_ne_nil hne
    intro h hr _
    refine hands_part h rfl (by omega) (fun _ _ hv => by simp [hs] at hv) fun closed rest _ => ?_
    simp [Guard.ideal, hs, Http1.ideal, fedBytes, Outcome.after]
  · next remaining next hs =>
    intro h hr _
    obtain ⟨hp, hle⟩ := h.head remaining next hs
    refine hands_limited (.validatedHead · next) h hr hs (by simp only [fedBytes, hs]) hp
      (ne_nil_of_length_pos (by omega)) (by cases next <;> simp [AfterHead.state]) ?_ (fun _ _ => ?_)
      fun _ _ k r _ => ?_
    · rintro r r' next' hv
      cases hv
      exact ⟨rfl, hle⟩
    · rw [ideal]
      rfl
    · rw [ideal, ideal, Outcome.after_after, drop_drop, take_add]
      rfl
  · next remaining hs => exact turnFixed_spec hs
  · next decoder hs => exact turnChunked_spec hs
  · next hs => exact turnHead_spec hs

end Turn

/-! ## The loop -/

section Loop

/-- The bytes that a poll gives to the chunk decoder: those at hand, or the next read. -/
def feedOf (guard : Guard) (socket : Socket) : Option (ChunkDecoder × Bytes) :=
  match guard.state with
  | .chunkedBody decoder =>
    if guard.available ≠ [] then some (decoder, guard.available)
    else socket.segments.head?.map fun segment => (decoder, segment.val)
  | _ => none

/-- The destination has room for everything that the decoder takes. -/
def Fits (guard : Guard) (socket : Socket) (room : Nat) : Prop :=
  ∀ decoder input, feedOf guard socket = some (decoder, input) →
    (decoder.consume input).2 ≠ .inl .invalid → (decoder.consume input).1 ≤ room

variable {guard : Guard} {socket : Socket} {room writable : Nat}

/-- Either there are bytes at hand, or the first read of the socket is taken. -/
theorem feedOf_eq_some {input : Bytes} (h : feedOf guard socket = some (decoder, input)) :
    guard.state = .chunkedBody decoder ∧ (guard.available ≠ [] ∧ input = guard.available ∨
      guard.available = [] ∧ ∃ segment segments, socket.segments = segment :: segments ∧ input = segment.val) := by
  unfold feedOf at h
  split at h
  · next hs =>
    split at h
    · next hne =>
      cases h
      exact ⟨hs, .inl ⟨hne, rfl⟩⟩
    next hn =>
    obtain ⟨segment, hh, heq⟩ := Option.map_eq_some_iff.1 h
    obtain ⟨segments, hsg⟩ := head?_eq_some_iff.1 hh
    cases heq
    exact ⟨hs, .inr ⟨by simpa using hn, segment, segments, hsg, rfl⟩⟩
  · cases h

theorem fits_of_not_chunked (h : ∀ decoder, guard.state ≠ .chunkedBody decoder) : Fits guard socket room := by
  exact fun decoder input hf => absurd (feedOf_eq_some hf).1 (h decoder)

structure PollSpec (guard : Guard) (socket : Socket) (polled : Polled) : Prop where
  limit : polled.guard.maxHeaderBytes = guard.maxHeaderBytes
  sound : polled.guard.Sound
  closed : polled.socket.closed = socket.closed
  ideal : ∀ closed future, (socket.closed = true → future = [] ∧ closed = true) →
    (∀ decoder decoder', guard.state = .chunkedBody decoder →
      polled.guard.state = .chunkedBody decoder' → polled.poll.bytes ≠ [] →
      (decoder'.consume (polled.guard.available ++ (polled.socket.unread ++ future))).2 ≠
        .inl .invalid) →
    guard.ideal closed (socket.unread ++ future) =
      (polled.guard.ideal closed (polled.socket.unread ++ future)).after polled.poll.bytes polled.fed
  quiet : polled.poll.bytes = [] →
    polled.guard.ideal socket.closed polled.socket.unread =
      ⟨[], [], verdictOf polled.guard.state polled.poll⟩

theorem readInto_spec (socket : Socket) {room : Nat} (hr : 0 < room) :
    socket.unread = (socket.readInto room).1.bytes ++ (socket.readInto room).2.unread ∧
      (socket.readInto room).2.closed = socket.closed ∧
      ((socket.readInto room).1.bytes = [] → (socket.readInto room).2.unread = [] ∧
        verdictOf .passthrough (socket.readInto room).1 = endOf socket.closed) := by
  unfold Socket.readInto
  split
  · next hn =>
    cases hcl : socket.closed <;> simp [Socket.unread, hn, Poll.bytes, verdictOf, endOf]
  next segment segments hc =>
  have hne := segment.property
  split
  · simp [Socket.unread, hc, Poll.bytes, hne]
  refine ⟨?_, rfl, fun hn => ?_⟩
  · simp only [Socket.unread, hc, flatMap_cons, Poll.bytes]
    rw [← append_assoc, take_append_drop]
  have hz := congrArg List.length hn
  have hl := length_pos_of_ne_nil hne
  simp only [Poll.bytes, length_take, length_nil] at hz
  omega

theorem Guard.ideal_extend (guard : Guard) (bytes : Bytes) (closed : Bool) (rest : Bytes) :
    Guard.ideal { guard with buffer := guard.buffer.extend bytes } closed rest =
      guard.ideal closed (bytes ++ rest) := by
  simp only [Guard.ideal, Guard.available, ReadBuffer.available_extend, append_assoc]

theorem Guard.available_extend (h : guard.available = []) (bytes : Bytes) :
    Guard.available { guard with buffer := guard.buffer.extend bytes } = bytes := by
  simp only [Guard.available, ReadBuffer.available_extend] at h ⊢
  rw [h, nil_append]

theorem Guard.sound_extend (h : guard.Sound) (bytes : Bytes) :
    Guard.Sound { guard with buffer := guard.buffer.extend bytes } := by
  refine ⟨h.limit, fun remaining next hs => ?_⟩
  obtain ⟨hp, hle⟩ := h.head remaining next hs
  refine ⟨hp, ?_⟩
  simp only [Guard.available, ReadBuffer.available_extend, length_append] at hle ⊢
  omega

variable {rounds : Nat} {guard' : Guard} {segment : { bytes : Bytes // bytes ≠ [] }}
  {segments : List { bytes : Bytes // bytes ≠ [] }}

theorem fits_extend (h : Fits guard socket room) (hsg : socket.segments = segment :: segments)
    (hn : ∀ decoder, guard.state = .chunkedBody decoder → guard.available = []) :
    Fits { guard with buffer := guard.buffer.extend segment.val } { socket with segments } room := by
  intro decoder input hf
  obtain ⟨hs, hi⟩ := feedOf_eq_some hf
  have hs : guard.state = .chunkedBody decoder := hs
  have hn := hn decoder hs
  rw [Guard.available_extend hn] at hi
  obtain ⟨-, rfl⟩ | ⟨he, -⟩ := hi
  · exact h decoder segment.val (by simp [feedOf, hs, hn, hsg])
  · exact absurd he segment.property

/-! ### The loop round by round -/

theorem turn_fill (h : turn guard room writable = .fill guard') : guard' = guard ∧ Waits guard := by
  have hsp := turn_spec guard room writable
  rwa [h] at hsp

theorem pollLoop_fill (h : turn guard room writable = .fill guard) (hs : socket.segments = segment :: segments) :
    pollLoop room writable (rounds + 1) guard socket =
      pollLoop room writable rounds { guard with buffer := guard.buffer.extend segment.val }
        { socket with segments } := by
  simp only [pollLoop, h, (turn_fill h).2.fed, hs, nil_append]

/-- A round that finds nothing to read. -/
theorem pollLoop_drained (h : turn guard room writable = .fill guard) (hs : socket.segments = []) :
    pollLoop room writable (rounds + 1) guard socket =
      if !socket.closed then { poll := .pending, guard, socket, fed := [] }
      else if guard.available = [] then { poll := .ready [], guard, socket, fed := [] }
      else pollLoop room writable rounds (guard.beginRejection .badRequest) socket := by
  simp only [pollLoop, h, (turn_fill h).2.fed, hs, nil_append]

theorem spec_ready (h : guard.Sound) (hr : 0 < room) (hf : Fits guard socket room)
    (ht : turn guard room writable = .ready bytes guard') :
    PollSpec guard socket { poll := .ready bytes, guard := guard', socket, fed := fedBytes guard } := by
  have hh : Hands guard guard' bytes := by
    have hsp := turn_spec guard room writable
    rw [ht] at hsp
    refine hsp h hr fun decoder hs hv => ?_
    by_cases hne : guard.available = []
    · rw [hne]
      exact Nat.zero_le room
    · exact hf decoder _ (by simp [feedOf, hs, hne]) hv
  refine ⟨hh.limit, hh.sound, rfl, fun closed future _ hv => ?_, fun hn => ?_⟩
  · refine hh.ideal closed _ fun decoder decoder' hs hs' => ?_
    exact hv decoder decoder' hs hs' (hh.moves decoder hs)
  have hn : bytes = [] := hn
  rw [hn]
  exact hh.quiet hn _ _

theorem spec_again {polled : Polled} (hl : Leads guard guard') (hs : PollSpec guard' socket polled) :
    PollSpec guard socket { polled with fed := fedBytes guard ++ polled.fed } := by
  refine ⟨hs.limit.trans hl.limit, hs.sound, hs.closed, ?_, hs.quiet⟩
  intro closed future hc _
  have hr := hs.ideal closed future hc (fun decoder _ hst _ _ => absurd hst (hl.steady decoder))
  rw [hl.ideal, hr, Outcome.after_after]
  rfl

theorem spec_readThrough (h : guard.Sound) (hr : 0 < room) (hs : guard.state = .passthrough)
    (hn : guard.available = []) :
    PollSpec guard socket
      { poll := (socket.readInto room).1, guard, socket := (socket.readInto room).2,
        fed := fedBytes guard } := by
  obtain ⟨hsp, hc, hq⟩ := readInto_spec socket hr
  have hf : fedBytes guard = [] := by simp only [fedBytes, hs]
  refine ⟨rfl, h, hc, fun closed future _ _ => ?_, fun hb => ?_⟩
  · simp only [Guard.ideal, hs, hn, Http1.ideal, hf, nil_append]
    rw [hsp]
    simp [Outcome.after]
  · obtain ⟨hu, hv⟩ := hq hb
    simp only [Guard.ideal, hs, hn, Http1.ideal, hu, append_nil, hv]

/-- Nothing to read: the poll ends, or a head that is not complete is rejected. -/
theorem spec_drained (h : guard.Sound) (ht : turn guard room writable = .fill guard) (hs : socket.segments = [])
    (hr : PollSpec (guard.beginRejection .badRequest) socket
      (pollLoop room writable rounds (guard.beginRejection .badRequest) socket)) :
    PollSpec guard socket (pollLoop room writable (rounds + 1) guard socket) := by
  rw [pollLoop_drained ht hs]
  have hw := (turn_fill ht).2
  have hu : socket.unread = [] := by simp only [Socket.unread, hs, flatMap_nil]
  by_cases ho : socket.closed = false
  · rw [if_pos (by rw [ho]; rfl)]
    refine ⟨rfl, h, rfl, fun closed future _ _ => rfl, fun _ => ?_⟩
    rw [hu, hw.ideal, hw.verdict, ho]
    rfl
  have hc : socket.closed = true := by simpa using ho
  rw [if_neg (by rw [hc]; decide)]
  by_cases hn : guard.available = []
  · rw [if_pos hn]
    refine ⟨rfl, h, rfl, fun closed future _ _ => rfl, fun _ => ?_⟩
    rw [hu, hw.ideal, hw.verdict, hn, hc]
    rfl
  -- the stream ends inside a head
  rw [if_neg hn]
  refine ⟨hr.limit, hr.sound, hr.closed, fun closed future hf _ => ?_, hr.quiet⟩
  obtain ⟨rfl, rfl⟩ := hf hc
  have hrs := hr.ideal true [] (fun _ => ⟨rfl, rfl⟩) (fun _ _ hst => by cases hst)
  rw [← hrs, Guard.ideal_rejecting, hu, append_nil, hw.ideal]
  simp [hn]

theorem need_pos (state : ReadState) : 0 < state.need := by
  cases state <;> exact Nat.succ_pos _

/-- **The loop.**  With enough rounds a poll hands on a part of the ideal. -/
theorem pollLoop_spec (h : guard.Sound) (hrm : 0 < room) (hf : Fits guard socket room)
    (hr : socket.segments.length + guard.state.need ≤ rounds) :
    PollSpec guard socket (pollLoop room writable rounds guard socket) := by
  induction rounds generalizing guard socket with
  | zero =>
    have := need_pos guard.state
    omega
  | succ rounds ih =>
    have hsp := turn_spec guard room writable
    cases ht : turn guard room writable with
    | ready bytes guard' =>
      simp only [pollLoop, ht, append_nil]
      exact spec_ready h hrm hf ht
    | pending guard' =>
      rw [ht] at hsp
      obtain ⟨hlm, hsn, hfd, hi, hq⟩ := hsp h
      simp only [pollLoop, ht, hfd, append_nil]
      exact ⟨hlm, hsn, rfl, fun closed future _ _ => hi _ _, fun _ => hq _ _⟩
    | again guard' =>
      rw [ht] at hsp
      have hl : Leads guard guard' := hsp h
      have hnr := hl.nearer
      simp only [pollLoop, ht]
      exact spec_again hl (ih hl.sound (fits_of_not_chunked hl.steady) (by omega))
    | readThrough guard' =>
      rw [ht] at hsp
      obtain ⟨heq, hst, hn⟩ := hsp
      simp only [pollLoop, ht, heq, append_nil]
      exact spec_readThrough h hrm hst hn
    | fill guard' =>
      obtain ⟨rfl, hw⟩ := turn_fill ht
      cases hs : socket.segments with
      | cons segment segments =>
        rw [pollLoop_fill ht hs]
        rw [hs, length_cons] at hr
        have hu : socket.unread = segment.val ++ Socket.unread { socket with segments } := by
          simp only [Socket.unread, hs, flatMap_cons]
        have hsp := ih (Guard.sound_extend h segment.val) (fits_extend hf hs hw.chunk) (by dsimp only; omega)
        refine ⟨hsp.limit, hsp.sound, hsp.closed, fun closed future hc hv => ?_, hsp.quiet⟩
        rw [hu, append_assoc, ← Guard.ideal_extend]
        exact hsp.ideal closed future hc hv
      | nil =>
        have hnd := hw.need
        rw [hs, length_nil] at hr
        refine spec_drained h ht hs (ih (Guard.sound_rejecting h .badRequest)
            (fits_of_not_chunked fun decoder hst => by cases hst) ?_)
        rw [hs]
        show 0 + 1 ≤ rounds
        omega

/-- The rounds that `poll_read` is given suffice. -/
theorem pollRead_spec (h : guard.Sound) (hr : 0 < room) (hf : Fits guard socket room) :
    PollSpec guard socket (pollRead guard socket room writable) := by
  refine pollLoop_spec h hr hf ?_
  have hn : guard.state.need ≤ 4 := by
    cases guard.state <;> simp [ReadState.need]
  omega

end Loop

end Http1
