import OxiBelt.WebTransport.Agreement

/-!
# Reading a capsule

When two ends agree, reading the next capsule of the peer succeeds and they agree afterwards
(`receive_agrees`), with one exception: a STOP_SENDING for a stream that this end has already reaped.
-/

namespace WebTransport

open ByteString (Bytes)
open Capsule List State Function

variable {x y : State} {xp yp : List Capsule}

variable {id code : Nat} {capsule : Capsule} {stream : StreamState} {y₂ : State}

/-- Two ends in agreement, of which `y` is about to read. -/
structure Meets (x : State) (xp : List Capsule) (y : State) (yp : List Capsule) : Prop where
  sender : Balanced x
  reader : Balanced y
  toReader : Link x xp y yp
  fromReader : Link y yp x xp
  roles : x.options.role = y.options.role.other

/-- An end in agreement has not been closed, and looks at what it reads. -/
theorem Balanced.looks (hy : Balanced y) {α : Type} (closed read : α) :
    (if y.finish || y.remoteClose.isSome then closed else read) = read := by
  simp [hy.finish, hy.remoteClose]

/-- **The first step of a capsule**: the stream that it names is there, or is opened. -/
theorem peerStream_agrees (h : Meets x xp y yp) (ho : x.wasOpened id = true) (hsl : y.slot id ≠ none) :
    ∃ opened y₁ stream, y.peerStream id = .ok opened y₁ ∧ Admits y y₁ ∧
      y₁.streams.lookup id = some stream ∧ Meets x xp y₁ yp := by
  have hl : x.options.role.opened id = !y.options.role.opened id := by rw [h.roles, Role.other_opened]
  have hc : y.streams.lookup id = none →
      y.options.role.opened id = false ∧ id / 4 + 1 ≤ y.receiveMaxStreams (isUni id) := by
    intro hn
    have hnw : y.wasOpened id = false := by
      cases h : y.wasOpened id with
      | false => rfl
      | true => simp [slot, hn, h] at hsl
    cases hs : y.options.role.opened id with
    | true =>
      -- The peer has only seen streams of this end that were opened.
      have hp := h.fromReader.opened (isUni id)
      simp only [wasOpened, hl, hs, Bool.not_true, Bool.false_eq_true, if_false, if_true,
        decide_eq_true_eq, decide_eq_false_iff_not] at ho hnw
      omega
    | false =>
      refine ⟨rfl, ?_⟩
      have hle := (h.toReader.maxStreams (isUni id)).le
      have how := h.sender.ownOpened_le (isUni id)
      simp only [wasOpened, hl, hs, Bool.not_false, if_true, decide_eq_true_eq] at ho
      omega
  obtain ⟨opened, y₁, hok, ha, hsm, hp⟩ := peerStream_admits h.reader hsl hc
  obtain ⟨stream, hst⟩ := Option.isSome_iff_exists.1 hsm
  refine ⟨opened, y₁, stream, hok, ha, hst, h.sender, ha.balanced, h.toReader.quiet_receiver ha.quiet ?_,
    h.fromReader.quiet_sender ha.quiet, ha.quiet.options ▸ h.roles⟩
  intro kind
  rcases hp kind with heq | ⟨hs, rfl, heq⟩
  · rw [heq]
    exact h.toReader.opened kind
  · simp only [wasOpened, hl, hs, Bool.not_false, if_true, decide_eq_true_eq] at ho
    omega

/-! ## Stream data -/

theorem storeInput_length (stream : StreamState) (data : Bytes) :
    (storeInput stream data).input.flatten.length + (storeInput stream data).inputStaging.length =
      stream.input.flatten.length + stream.inputStaging.length + data.length := by
  unfold storeInput
  by_cases hf : quantum < stream.inputStaging.length + data.length
  · simp only [hf, if_true]
    split
    · simp
      omega
    · simp
  simp only [hf, if_false]
  split
  · simp
    omega
  · simp
    omega

theorem storeInput_eq (stream : StreamState) (data : Bytes) :
    storeInput stream data = { stream with
      input := (storeInput stream data).input
      inputStaging := (storeInput stream data).inputStaging } := by
  unfold storeInput
  simp only
  generalize (if quantum < stream.inputStaging.length + data.length then data else _) = staging
  by_cases hf : staging.length = quantum
  · simp only [hf, if_true]
  · simp only [hf, if_false]

theorem finStream_eq (stream : StreamState) (fin : Bool) :
    finStream stream fin = { stream with
      receiveFin := stream.receiveFin || fin
      grantPending := stream.grantPending && !fin } := by
  cases fin <;> simp [finStream]

structure Received (stream stream' : StreamState) (length : Nat) (fin : Bool) : Prop where
  eq : stream' = { stream with
    input := stream'.input
    inputStaging := stream'.inputStaging
    inputBytes := stream'.inputBytes
    received := stream.received + length
    consumed := stream'.consumed
    receiveFin := stream.receiveFin || fin
    grantPending := stream'.grantPending }
  inputBytes : stream'.inputBytes = stream'.input.flatten.length + stream'.inputStaging.length
  received : stream'.inputBytes + stream'.consumed = stream.received + length
  consumed : stream.consumed ≤ stream'.consumed

/-- **Data within the credit is taken**, in each of the three cases of the source. -/
theorem streamReceived_ok {id : Nat} {data : Bytes} {fin : Bool} {stream : StreamState}
    (hst : y.streams.lookup id = some stream)
    (hr : RecvBalanced y.options.limits.maxStreamBufferBytes stream)
    (hd : stream.receiveDone = false) (hlm : stream.received + data.length ≤ stream.receiveMax)
    (hss : y.received + data.length ≤ y.receiveMaxData) :
    ∃ stream' consumed pending, Received stream stream' data.length fin ∧
      y.streamReceived id data fin = reap { y.putStream id stream' with
        received := y.received + data.length
        consumed
        receiveGrantPending := pending } id := by
  have hrm := hr.room
  have hrc := hr.received
  unfold streamReceived
  simp only [hst, hd, Bool.false_eq_true, if_false]
  rw [if_neg (by omega), if_neg (by omega)]
  by_cases hs : stream.stopSent = true
  · -- The application has stopped the stream: what arrives counts as consumed.
    rw [if_pos hs, finStream_eq]
    refine ⟨_, _, _, ?_, rfl⟩
    refine ⟨rfl, hr.inputBytes, ?_, Nat.le_add_right _ _⟩
    show stream.inputBytes + (stream.consumed + data.length) = stream.received + data.length
    omega
  rw [if_neg hs]
  by_cases he : data.isEmpty = true
  · have hl : data.length = 0 := by simpa using he
    rw [if_pos he, finStream_eq]
    refine ⟨_, _, _, ?_, rfl⟩
    refine ⟨rfl, hr.inputBytes, ?_, Nat.le_refl _⟩
    show stream.inputBytes + stream.consumed = stream.received + data.length
    omega
  rw [if_neg he, if_neg (by omega), finStream_eq, storeInput_eq]
  have hl := storeInput_length { stream with
    received := stream.received + data.length, inputBytes := stream.inputBytes + data.length } data
  generalize (storeInput _ data).input = input at hl ⊢
  generalize (storeInput _ data).inputStaging = staging at hl ⊢
  refine ⟨_, _, _, ?_, rfl⟩
  refine ⟨rfl, ?_, ?_, Nat.le_refl _⟩
  · show stream.inputBytes + data.length = input.flatten.length + staging.length
    rw [hl, hr.inputBytes]
  · show stream.inputBytes + data.length + stream.consumed = stream.received + data.length
    omega

namespace Received

variable {stream stream' : StreamState} {length : Nat} {fin : Bool}

theorem balanced (h : Received stream stream' length fin) {options : SessionOptions}
    {pending : Option PendingStreamOutput} (hb : StreamBalanced options pending id stream)
    (hl : stream.received + length ≤ stream.receiveMax) : StreamBalanced options pending id stream' := by
  have hr := hb.recv.room
  have hc := h.consumed
  rw [h.eq]
  exact
    { hb with
      send := { hb.send with }
      recv := ⟨h.inputBytes, h.received, hl, by
        show stream.receiveMax ≤ stream'.consumed + _
        omega⟩
      sendOnly := fun hu hlc => by simp [hb.sendOnly hu hlc] }

theorem inbound (h : Received stream stream' length fin) (hd : stream.receiveDone = false) :
    inboundOf (some stream') =
      if fin then .closed else .receiving (stream.received + length) stream.receiveMax := by
  have hd' : stream'.receiveDone = fin := by
    simp only [StreamState.receiveDone, Bool.or_eq_false_iff] at hd
    rw [h.eq]
    simp [StreamState.receiveDone, hd.1, hd.2]
  rw [inboundOf, hd', h.eq]

end Received

/-! ## What reading leaves behind -/

/-- The reader `y` has become `y'`, and both ends agree on what is left in flight. -/
structure Reads (x : State) (xp : List Capsule) (y y' : State) (yp : List Capsule) : Prop where
  balanced : Balanced y'
  toReader : Link x xp y' yp
  fromReader : Link y' yp x xp
  options : y'.options = y.options
  controls : y'.controls = y.controls
  pendingOutput : y'.pendingOutput = y.pendingOutput

theorem Reads.of_keeps {y₁ : State} (h : Reads x xp y y₁ yp) (hk : Keeps y₁ y₂) : Reads x xp y y₂ yp where
  balanced := hk.balanced
  toReader := h.toReader.keeps_receiver hk
  fromReader := h.fromReader.quiet_sender hk.quiet
  options := hk.quiet.options.trans h.options
  controls := hk.quiet.controls.trans h.controls
  pendingOutput := hk.pendingOutput.trans h.pendingOutput

theorem Reads.of_admits {y₁ : State} (ha : Admits y y₁) (h : Reads x xp y₁ y₂ yp) : Reads x xp y y₂ yp :=
  { h with
    options := h.options.trans ha.quiet.options
    controls := h.controls.trans ha.quiet.controls
    pendingOutput := h.pendingOutput.trans ha.pendingOutput }

/-- Agreement after the capsule has been dropped from what says something to the reader's sender half. -/
theorem Link.drop_data (h : Link x xp y (capsule :: yp)) (hc : ∀ id, capsule.creditFor id = none)
    (hd : capsule.dataLimit = none) (hs : ∀ kind, capsule.streamsLimit kind = none) : Link x xp y yp :=
  h.credit_pipe (fun id => (filterMap_cons_none (hc id)).symm)
    (filterMap_cons_none hd).symm (fun kind => (filterMap_cons_none (hs kind)).symm)

theorem Link.drop_credit (h : Link x (capsule :: xp) y yp) (hd : ∀ id, capsule.dataFor id = none)
    (hs : capsule.size = 0) : Link x xp y yp :=
  h.data_pipe (fun id => (filterMap_cons_none (hd id)).symm)
    (by rw [map_cons, sum_cons, hs, Nat.zero_add])
    (fun capsule hm => h.proper capsule (mem_cons_of_mem _ hm))

/-- A capsule on the data of one stream, after that stream has been found: `stream` becomes `stream'`. -/
theorem reads_data {message : DataMessage} {stream' : StreamState} {consumed : Nat} {receiveGrantPending : Bool}
    (h : Meets x (capsule :: xp) y yp) (hm : capsule.dataFor id = some message)
    (hst : y.streams.lookup id = some stream)
    (hbl : StreamBalanced y.options (y.pendingFor id) id stream')
    (hi : (inboundOf (some stream)).absorb message = some (inboundOf (some stream')))
    (ho : outboundOf (some stream') = outboundOf (some stream)) (hc : creditOf (some stream') = creditOf (some stream))
    (hg : grantOf (some stream') = grantOf (some stream)) (hb : stream'.outputBytes = stream.outputBytes) :
    Reads x xp y (write { y with received := y.received + capsule.size } id stream' y.sent y.queuedSend
      consumed y.pendingOutput y.readyStreams receiveGrantPending) yp := by
  obtain ⟨-, hcr, hd, hsr⟩ := only_data hm
  have hbs : Balanced { y with received := y.received + capsule.size } := { h.reader with }
  refine ⟨?_, h.toReader.read_data hm hst hi hg, ?_, rfl, rfl, rfl⟩
  · exact hbs.touch hst (fun _ _ => rfl) hbl (by rw [hb]) (by rw [hb]) h.reader.sent_le
  · exact (h.fromReader.drop_data hcr hd hsr).write_sender hst (by rw [hb]) ho hc

/-- A capsule with data of a stream finds that stream, and its receiving half open. -/
theorem peerStream_receiving {message : DataMessage} (h : Meets x (capsule :: xp) y yp)
    (ho : x.wasOpened id = true) (hm : capsule.dataFor id = some message) :
    ∃ opened y₁ stream next, y.peerStream id = .ok opened y₁ ∧ Admits y y₁ ∧
      y₁.streams.lookup id = some stream ∧ Meets x (capsule :: xp) y₁ yp ∧ stream.receiveDone = false ∧
      (Inbound.receiving stream.received stream.receiveMax).absorb message = some next := by
  have hsl : y.slot id ≠ none := by
    intro hnn
    have hd := h.toReader.data id
    rw [filterMap_cons, hm, hnn] at hd
    exact absurd hd.of_closed.1 (by simp)
  obtain ⟨opened, y₁, stream, hok, ha, hs, h₁⟩ := peerStream_agrees h ho hsl
  have hd := h₁.toReader.data id
  rw [filterMap_cons, hm, slot_of_lookup hs] at hd
  obtain ⟨next, hn, -⟩ := Carries.cons_iff.1 hd
  cases hdn : stream.receiveDone with
  | true => simp [inboundOf, hdn, Inbound.absorb] at hn
  | false =>
    rw [inboundOf_receiving hdn] at hn
    exact ⟨opened, y₁, stream, next, hok, ha, hs, h₁, hdn, hn⟩

theorem read_stream {data : Bytes} {fin : Bool} (h : Meets x (.stream id data fin :: xp) y yp)
    (hrm : ∀ kind, y.receiveMaxStreams kind < 2 ^ 60) :
    ∃ y', y.receive (.stream id data fin) = .ok () y' ∧ Reads x xp y y' yp := by
  have hm : dataFor id (.stream id data fin) = some (.data data.length fin) := if_pos rfl
  obtain ⟨opened, y₁, stream, next, hok, ha, hs, h₁, hdn, hn⟩ :=
    peerStream_receiving h (h.toReader.proper _ mem_cons_self) hm
  have hb := h₁.reader.stream id stream hs
  -- The word in flight says that there is room for the data.
  have hl : stream.received + data.length ≤ stream.receiveMax := by
    simp only [Inbound.absorb] at hn
    split at hn
    · contradiction
    · omega
  have hss : y₁.received + data.length ≤ y₁.receiveMaxData := by
    have ht := h₁.toReader.total
    have hmx := h₁.toReader.maxData.le
    have hsn := h.sender.sent_le
    simp only [map_cons, sum_cons, size] at ht
    omega
  obtain ⟨stream', consumed, pending, hr, hrs⟩ :=
    @streamReceived_ok y₁ id data fin stream hs hb.recv hdn hl hss
  have hrd : Reads x xp y₁ { y₁.putStream id stream' with
      received := y₁.received + data.length
      consumed
      receiveGrantPending := pending } yp := by
    refine reads_data h₁ hm hs (hr.balanced hb hl) ?_ ?_ ?_ ?_ ?_
    · rw [inboundOf_receiving hdn, Inbound.absorb, if_neg (by omega), hr.inbound hdn]
    -- Everything but the receiving half is as before.
    all_goals exact hr.eq ▸ rfl
  obtain ⟨y', hrp, hk⟩ := reap_keeps hrd.balanced (by
    show ∀ kind, y₁.receiveMaxStreams kind < 2 ^ 60
    rwa [ha.receiveMaxStreams]) id
  refine ⟨y', ?_, (hrd.of_keeps hk).of_admits ha⟩
  rw [receive, h.reader.looks]
  simp only [hok, Outcome.ok_andThen]
  rw [hrs, hrp]

theorem codeFrom_eq (h : code < 2 ^ 32) : ∃ value, codeFrom code = some value :=
  ⟨UInt32.ofNat code, if_pos h⟩

theorem read_reset {total : Nat} (h : Meets x (.resetStream id code total :: xp) y yp)
    (hrm : ∀ kind, y.receiveMaxStreams kind < 2 ^ 60) :
    ∃ y', y.receive (.resetStream id code total) = .ok () y' ∧ Reads x xp y y' yp := by
  have hm : dataFor id (.resetStream id code total) = some (.reset total) := if_pos rfl
  obtain ⟨ho, hc⟩ : Capsule.Proper x (.resetStream id code total) := h.toReader.proper _ mem_cons_self
  obtain ⟨opened, y₁, stream, next, hok, ha, hs, h₁, hdn, hn⟩ := peerStream_receiving h ho hm
  obtain ⟨value, hv⟩ := codeFrom_eq hc
  have hb := ha.balanced.stream id stream hs
  obtain ⟨ht, -⟩ := Option.ite_none_right_eq_some.1 hn
  have hr : Reads x xp y₁
      (y₁.putStream id { stream with receiveReset := some value, grantPending := false }) yp := by
    refine reads_data h₁ hm hs
      ⟨{ hb.send with }, { hb.recv with }, hb.sendOnly, hb.receiveOnly⟩ ?_ rfl rfl rfl rfl
    rw [inboundOf_receiving hdn, Inbound.absorb, if_pos ht]
    simp [inboundOf, StreamState.receiveDone]
  obtain ⟨y', hrp, hk⟩ := reap_keeps hr.balanced (by
    show ∀ kind, y₁.receiveMaxStreams kind < 2 ^ 60
    rwa [ha.receiveMaxStreams]) id
  refine ⟨y', ?_, (hr.of_keeps hk).of_admits ha⟩
  rw [receive, h.reader.looks]
  simp only [hok, Outcome.ok_andThen]
  rw [resetReceived, hv]
  simp only [hs]
  rw [if_neg (by simp [hdn, ht])]
  exact hrp

/-! ## Credit for streams -/

/-- A capsule on the credit of one stream, after that stream has been found. -/
theorem reads_credit {message : CreditMessage} {stream' : StreamState} {sent queuedSend : Nat}
    (h : Meets x (capsule :: xp) y yp) (hm : capsule.creditFor id = some message)
    (hdr : y.receiveOnly id = false) (hst : y.streams.lookup id = some stream)
    (hq : queuedSend + stream.outputBytes = y.queuedSend + stream'.outputBytes)
    (hsn : sent + stream.outputBytes = y.sent + stream'.outputBytes) (hmx : sent ≤ y.sendMaxData)
    (hb : StreamBalanced y.options (y.pendingFor id) id stream')
    (hc : (creditOf (some stream)).absorb message = some (creditOf (some stream')))
    (hi : inboundOf (some stream') = inboundOf (some stream))
    (ho : outboundOf (some stream') = outboundOf (some stream)) (hg : grantOf (some stream') = grantOf (some stream)) :
    Reads x xp y (y.write id stream' sent queuedSend y.consumed y.pendingOutput y.readyStreams y.receiveGrantPending)
      yp := by
  obtain ⟨-, hdt, hsz, -, -⟩ := only_credit hm
  refine ⟨?_, (h.toReader.drop_credit hdt hsz).write_receiver hst hi hg,
    h.fromReader.read_credit hm hdr hst hc ho hsn, rfl, rfl, rfl⟩
  exact h.reader.touch hst (fun _ _ => rfl) hb hq (Nat.le_of_eq hsn.symm) hmx

/-- A word on the credit of a stream finds that the reader sends on it, and has not been stopped. -/
theorem Link.credit_arrives {message : CreditMessage} (h : Link y yp x (capsule :: xp))
    (hm : capsule.creditFor id = some message) :
    y.receiveOnly id = false ∧ ∀ stream, y.slot id = some stream →
      stream.stopReceived = false ∧ ∃ next, (creditOf (some stream)).absorb message = some next := by
  have hf := h.credit id
  rw [filterMap_cons, hm, State.credit] at hf
  cases hd : y.receiveOnly id with
  | true =>
    rw [hd] at hf
    rcases hf.arrives with h | ⟨_, _, h, -⟩ <;> cases h
  | false =>
    refine ⟨rfl, fun stream hs => ?_⟩
    rw [hd, hs] at hf
    rcases hf.arrives with h | ⟨_, next, h, hn, -⟩
    · cases h
    · exact ⟨(Credit.live.inj h).2, next, hn⟩

theorem read_stop (h : Meets x (.stopSending id code :: xp) y yp) (hsl : y.slot id ≠ none) :
    ∃ y', y.receive (.stopSending id code) = .ok () y' ∧ Reads x xp y y' yp := by
  have hm : creditFor id (.stopSending id code) = some .stop := if_pos rfl
  obtain ⟨hop, hcd⟩ : Capsule.Proper x (.stopSending id code) := h.toReader.proper _ mem_cons_self
  obtain ⟨opened, y₁, stream, hok, ha, hs, h₁⟩ := peerStream_agrees h hop hsl
  obtain ⟨value, hv⟩ := codeFrom_eq hcd
  have hb := h₁.reader.stream id stream hs
  obtain ⟨hd, hf⟩ := h₁.fromReader.credit_arrives hm
  obtain ⟨hst, -⟩ := hf stream (slot_of_lookup hs)
  have hab : (creditOf (some stream)).absorb .stop = some (.live stream.sendMax true) := by
    rw [creditOf, hst]
    rfl
  have hle := outputBytes_le h₁.reader hs
  have hsn := h₁.reader.sent_le
  have hr : y.receive (.stopSending id code) = y₁.stopReceived id code := by
    rw [receive, h.reader.looks]
    simp only [hok, Outcome.ok_andThen]
  rw [stopReceived, hv] at hr
  simp only [hs] at hr
  rw [if_neg (by simp [hst, hd])] at hr
  cases hdn : stream.sendDone with
  | true =>
    -- The sending half is over: the request is only noted.
    have hrd : Reads x xp y₁
        (y₁.putStream id { stream with stopReceived := true, stopCode := some value }) yp :=
      reads_credit h₁ hm hd hs rfl rfl hsn
        ⟨{ hb.send with stopped := fun _ => .inl hdn }, { hb.recv with }, hb.sendOnly,
          hb.receiveOnly⟩ hab rfl rfl rfl
    refine ⟨_, hr.trans (if_neg ?_), hrd.of_admits ha⟩
    simp only [StreamState.sendDone, Bool.or_eq_true] at hdn
    rcases hdn with h | h
    · simp [h]
    · simp [Option.isSome_iff_ne_none.1 h]
  | false =>
    have hrd : Reads x xp y₁ { y₁.putStream id
          (SendStream.discard { stream with stopReceived := true, stopCode := some value } value) with
        queuedSend := y₁.queuedSend - stream.outputBytes
        sent := y₁.sent - stream.outputBytes } yp := by
      refine reads_credit h₁ hm hd hs ?_ ?_ ?_
        ⟨{ hb.send.discard hdn value with stopped := fun _ => .inr rfl }, { hb.recv with },
          hb.sendOnly, hb.receiveOnly⟩ hab rfl rfl rfl
      · show y₁.queuedSend - stream.outputBytes + stream.outputBytes = y₁.queuedSend + 0
        omega
      · show y₁.sent - stream.outputBytes + stream.outputBytes = y₁.sent + 0
        omega
      · show y₁.sent - stream.outputBytes ≤ y₁.sendMaxData
        omega
    refine ⟨_, hr.trans (if_pos ?_), (hrd.of_keeps (ready_keeps hrd.balanced id)).of_admits ha⟩
    simp only [StreamState.sendDone, Bool.or_eq_false_iff] at hdn
    simpa [hdn.1] using hdn.2

theorem read_maxStreamData {limit : Nat} (h : Meets x (.maxStreamData id limit :: xp) y yp) :
    ∃ y', y.receive (.maxStreamData id limit) = .ok () y' ∧ Reads x xp y y' yp := by
  have hm : creditFor id (.maxStreamData id limit) = some (.limit limit) := if_pos rfl
  obtain ⟨hop, hlm⟩ : Capsule.Proper x (.maxStreamData id limit) := h.toReader.proper _ mem_cons_self
  have hd := (h.fromReader.credit_arrives hm).1
  have hr : y.receive (.maxStreamData id limit) = y.maxStreamDataReceived id limit := by
    rw [receive, h.reader.looks]
  have hk : ((y.streams.lookup id).isNone && y.wasOpened id) = (y.slot id).isNone := by
    unfold slot
    cases y.streams.lookup id with
    | some stream => rfl
    | none => cases y.wasOpened id <;> rfl
  rw [maxStreamDataReceived, hd, hk] at hr
  simp only [Bool.false_eq_true, if_false] at hr
  by_cases hs : y.slot id = none
  · -- The stream has been reaped, the credit is of no use.
    rw [hs] at hr
    exact ⟨y, hr, h.reader, h.toReader.drop_credit (fun _ => rfl) rfl,
      h.fromReader.read_obsolete hm hd hs, rfl, rfl, rfl⟩
  · obtain ⟨opened, y₁, stream, hok, ha, hst, h₁⟩ := peerStream_agrees h hop hs
    have hb := h₁.reader.stream id stream hst
    obtain ⟨hd₁, hf⟩ := h₁.fromReader.credit_arrives hm
    obtain ⟨hsp, next, hn⟩ := hf stream (slot_of_lookup hst)
    rw [creditOf, hsp] at hn
    obtain ⟨hle, -⟩ := Option.ite_none_left_eq_some.1 hn
    rw [not_lt] at hle
    have hrd : Reads x xp y₁ (y₁.putStream id { stream with sendMax := limit }) yp := by
      refine reads_credit h₁ hm hd₁ hst rfl rfl h₁.reader.sent_le
        ⟨{ hb.send with
            sent_le := Nat.le_trans hb.send.sent_le hle, sendMax_le := hlm },
          { hb.recv with }, hb.sendOnly, hb.receiveOnly⟩ ?_ rfl rfl rfl
      rw [creditOf, hsp, Credit.absorb, if_neg (by omega), creditOf]
    refine ⟨_, ?_, hrd.of_admits ha⟩
    rw [hr, Option.isNone_eq_false_iff.2 (Option.isSome_iff_ne_none.2 hs), hok]
    simp only [Bool.false_eq_true, if_false, Outcome.ok_andThen, hst]
    rw [if_neg (by simp [hsp, hd₁]), if_neg (by omega)]

/-! ## All capsules -/

/-- **Reading the next capsule succeeds**, unless it asks to stop a stream that has been reaped. -/
theorem receive_agrees (h : Meets x (capsule :: xp) y yp) (hrm : ∀ kind, y.receiveMaxStreams kind < 2 ^ 60)
    (hs : ∀ id code, capsule = .stopSending id code → y.slot id ≠ none) :
    ∃ y', y.receive capsule = .ok () y' ∧ Reads x xp y y' yp := by
  have ⟨_, hy, hxy, hyx, _⟩ := h
  have hp := hxy.proper capsule mem_cons_self
  cases capsule with
  | stream id data fin => exact read_stream h hrm
  | resetStream id code total => exact read_reset h hrm
  | stopSending id code => exact read_stop h (hs id code rfl)
  | maxStreamData id limit => exact read_maxStreamData h
  | maxData limit =>
    obtain ⟨hle, hl⟩ := hyx.read_maxData
    refine ⟨{ y with sendMaxData := limit }, ?_, ?_⟩
    · rw [receive, hy.looks, maxDataReceived, if_neg (by omega)]
    exact
      { balanced := { hy with sent_le := Nat.le_trans hy.sent_le hle }
        toReader := { hxy.drop_credit (fun _ => rfl) rfl with }
        fromReader := hl
        options := rfl
        controls := rfl
        pendingOutput := rfl }
  | maxStreams uni limit =>
    obtain ⟨hle, hl⟩ := hyx.read_maxStreams
    refine ⟨{ y with sendMaxStreams := Function.update y.sendMaxStreams uni limit }, ?_, ?_⟩
    · have : limit ≤ 2 ^ 60 := hp
      rw [receive, hy.looks, maxStreamsReceived, if_neg (by simp; omega)]
    exact
      { balanced := { hy with
          ownOpened_le := le_update_iff.2 ⟨(hy.ownOpened_le uni).trans hle, fun kind _ => hy.ownOpened_le kind⟩
          sendMaxStreams_le := update_le_iff.2 ⟨hp, fun kind _ => hy.sendMaxStreams_le kind⟩ }
        toReader := { hxy.drop_credit (fun _ => rfl) rfl with }
        fromReader := hl
        options := rfl
        controls := rfl
        pendingOutput := rfl }
  | datagram data =>
    have hkp : ∃ y', y.receive (.datagram data) = .ok () y' ∧ Keeps y y' := by
      rw [receive, hy.looks]
      split
      · exact ⟨_, rfl, Keeps.flags hy⟩
      · exact ⟨_, rfl, Keeps.flags hy⟩
    obtain ⟨y', hok, hkp⟩ := hkp
    have hrd : Reads x xp y y yp :=
      ⟨hy, hxy.drop_credit (fun _ => rfl) rfl, hyx.drop_data (fun _ => rfl) rfl (fun _ => rfl), rfl, rfl, rfl⟩
    exact ⟨y', hok, hrd.of_keeps hkp⟩
  | drainSession =>
    have hrd : Reads x xp y y yp :=
      ⟨hy, hxy.drop_credit (fun _ => rfl) rfl, hyx.drop_data (fun _ => rfl) rfl (fun _ => rfl), rfl, rfl, rfl⟩
    refine ⟨{ y with draining := true }, ?_, hrd.of_keeps (Keeps.flags hy)⟩
    rw [receive, hy.looks]
  | dataBlocked | streamDataBlocked | streamsBlocked | closeSession => exact hp.elim

end WebTransport
