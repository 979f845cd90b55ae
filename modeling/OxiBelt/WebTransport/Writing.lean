import OxiBelt.WebTransport.Agreement
import OxiBelt.WebTransport.Pair

/-!
# Sending a capsule

When two ends agree and there is room, the writer finds its next output without a failure (`nextOutput_selects`)
and they agree on what it has decided to send: a control capsule is sent with the decision, data of a
stream only when it is handed over (`commit_agrees`).
-/

namespace WebTransport

open ByteString (Bytes)
open Capsule List State StreamState

variable {x x₁ x' y : State} {xp yp : List Capsule}

/-- The end `x` has decided to send `capsule` after everything else. -/
structure Emits (x x' : State) (capsule : Capsule) : Prop where
  balanced : Balanced x'
  options : x'.options = x.options
  toPeer : ∀ {y xp yp}, Link x xp y yp → Link x' (xp ++ [capsule]) y yp
  fromPeer : ∀ {y xp yp}, x.options.role = y.options.role.other → Link y yp x xp →
    Link y yp x' (xp ++ [capsule])

variable {capsule : Capsule} {stream : StreamState} {id : Nat} {bytes : Bytes} {fin : Bool}

theorem Emits.of_keeps (hk : Keeps x x₁) (h : Emits x₁ x' capsule) : Emits x x' capsule where
  balanced := h.balanced
  options := h.options.trans hk.quiet.options
  toPeer hl := h.toPeer (hl.quiet_sender hk.quiet)
  fromPeer hr hl := h.fromPeer (by rwa [hk.quiet.options]) (hl.keeps_receiver hk)

theorem Emits.keeps (h : Emits x x₁ capsule) (hk : Keeps x₁ x') : Emits x x' capsule where
  balanced := hk.balanced
  options := hk.quiet.options.trans h.options
  toPeer hl := (h.toPeer hl).quiet_sender hk.quiet
  fromPeer hr hl := (h.fromPeer hr hl).keeps_receiver hk

/-- A capsule at the end that says nothing to the receiver of data. -/
theorem Link.append_credit (h : Link x xp y yp) (hd : ∀ id, capsule.dataFor id = none) (hs : capsule.size = 0)
    (hp : capsule.Proper x) : Link x (xp ++ [capsule]) y yp := by
  refine h.data_pipe (fun id => filterMap_snoc_none (hd id) xp) ?_ ?_
  · rw [map_append, sum_append]
    simp [hs]
  intro capsule' hm
  rcases mem_append.1 hm with hm | hm
  · exact h.proper capsule' hm
  · rw [mem_singleton.1 hm]
    exact hp

/-- A capsule that neither end keeps track of. -/
theorem emits_idle {capsule : Capsule} (hb : Balanced x) (hp : capsule.Proper x)
    (hdt : ∀ id, capsule.dataFor id = none) (hsz : capsule.size = 0)
    (hc : ∀ id, capsule.creditFor id = none) (hd : capsule.dataLimit = none)
    (hs : ∀ kind, capsule.streamsLimit kind = none) : Emits x x capsule where
  balanced := hb
  options := rfl
  toPeer hl := hl.append_credit hdt hsz hp
  fromPeer _ hl := hl.credit_pipe (fun id => filterMap_snoc_none (hc id) _) (filterMap_snoc_none hd _)
    fun kind => filterMap_snoc_none (hs kind) _

/-! ## Values in range -/

theorem id_le (hb : Balanced x) (h : x.wasOpened id = true) : id ≤ varintMax := by
  have hi : id / 4 < 2 ^ 60 := by
    simp only [wasOpened, decide_eq_true_eq] at h
    split at h
    · have := hb.ownOpened_le (isUni id)
      have := hb.sendMaxStreams_le (isUni id)
      omega
    have := hb.budget (isUni id)
    have := hb.active_le (isUni id)
    have := hb.receiveMaxStreams_le (isUni id)
    omega
  unfold varintMax
  omega

theorem code_le (code : UInt32) : code.toNat ≤ varintMax :=
  (Nat.le_of_lt code.toNat_lt).trans (by decide)

theorem varintLength_le (n : Nat) : varintLength n ≤ 8 := by
  unfold varintLength
  split
  · omega
  split
  · omega
  split <;> omega

/-! ## Credit for one stream -/

/-- A stream of which more may arrive is not one that only this end sends on. -/
theorem credit_ne_refused (hr : x.options.role = y.options.role.other) {pending : Option PendingStreamOutput}
    (hs : StreamBalanced x.options pending id stream) (hdn : stream.receiveDone = false) : y.credit id ≠ .refused := by
  unfold credit
  cases hd : y.receiveOnly id with
  | false =>
    cases y.slot id with
    | none | some => simp [creditOf]
  | true =>
    simp only [receiveOnly, Bool.and_eq_true, Bool.not_eq_true'] at hd
    have hl : x.options.role.opened id = true := by
      rw [hr, Role.other_opened, hd.2]
      rfl
    have := hs.sendOnly hd.1 hl
    simp [receiveDone, this] at hdn

/-- Credit for one stream, or the request to stop it. -/
theorem emits_credit {capsule : Capsule} {id : Nat} {message : CreditMessage} {stream stream' : StreamState}
    {consumed : Nat} {receiveGrantPending : Bool} (hb : Balanced x) (hs : x.streams.lookup id = some stream)
    (hbl : StreamBalanced x.options (x.pendingFor id) id stream') (hby : stream'.outputBytes = stream.outputBytes)
    (hp : capsule.Proper x) (hm : capsule.creditFor id = some message) (hdn : stream.receiveDone = false)
    (hi : ∀ word outbound, Carries (inboundOf (some stream)) word outbound →
      Carries (inboundOf (some stream')) word outbound)
    (ho : outboundOf (some stream') = outboundOf (some stream))
    (hc : creditOf (some stream') = creditOf (some stream))
    (hf : ∀ credit word, credit ≠ .refused → Funded credit word (grantOf (some stream)) →
      Funded credit (word ++ [message]) (grantOf (some stream'))) :
    Emits x (x.write id stream' x.sent x.queuedSend consumed x.pendingOutput x.readyStreams receiveGrantPending)
      capsule := by
  obtain ⟨-, hdt, hsz, -, -⟩ := only_credit hm
  refine ⟨hb.touch hs (fun _ _ => rfl) hbl (by rw [hby]) (by rw [hby]) hb.sent_le, rfl, ?_, ?_⟩
  · intro y xp yp hl
    exact (hl.append_credit hdt hsz hp).write_sender hs (by rw [hby]) ho hc
  · intro y xp yp hrl hl
    exact hl.send_credit hm hs hi fun word => hf _ word (credit_ne_refused hrl (hb.stream id stream hs) hdn)

/-! ## Queued capsules -/

/-- What is handed over may be queued as well. -/
theorem Emits.queue (h : Emits x x' capsule) (hq : capsule.queued = true) :
    Emits x { x' with controls := x'.controls ++ [capsule] } capsule where
  balanced := { h.balanced with
    controls := fun capsule' hm => by
      rcases mem_append.1 hm with hm | hm
      · exact h.balanced.controls capsule' hm
      · rw [mem_singleton.1 hm]
        exact hq }
  options := h.options
  toPeer hl := { h.toPeer hl with }
  fromPeer hr hl := { h.fromPeer hr hl with }

theorem queueControl_ok (hr : x.controls.length < 256) (he : capsule.encodable = true) :
    x.queueControl capsule = .ok () { x with controls := x.controls ++ [capsule] } := by
  rw [queueControl, if_neg (by omega), if_pos he]

/-- A call of the application on a queue with room: nothing that the peer could notice, or one capsule at
the end of the queue. -/
inductive Calls (x : State) : State → Prop where
  | quiet {x' : State} (h : Keeps x x') : Calls x x'
  | queues {x' : State} (capsule : Capsule) (h : Emits x x' capsule)
      (hcontrols : x'.controls = x.controls ++ [capsule]) (hpending : x'.pendingOutput = x.pendingOutput) :
      Calls x x'

theorem drain_calls (hb : Balanced x) (hrm : x.Roomy) : Calls x x.drain := by
  unfold drain
  by_cases hd : x.draining = true
  · rw [if_pos hd]
    exact .quiet (Keeps.flags hb)
  have hk : Keeps x { x with draining := true } := Keeps.flags hb
  rw [if_neg hd, queueControl_ok (by exact hrm.controls) rfl]
  refine .queues .drainSession ?_ rfl rfl
  have hi := @emits_idle _ .drainSession hk.balanced trivial (fun _ => rfl) rfl (fun _ => rfl) rfl
    (fun _ => rfl)
  exact (hi.of_keeps hk).queue rfl

theorem stop_calls (hb : Balanced x) (hrm : x.Roomy) (id : Nat) (code : UInt32) :
    Calls x (RecvStream.stop id code x).state := by
  unfold RecvStream.stop
  cases hs : x.streams.lookup id with
  | none => exact .quiet (Keeps.flags hb)
  | some stream =>
    have hbl := hb.stream id stream hs
    have hr := hbl.recv
    have ho := hb.opened id (by rw [hs]; rfl)
    -- The receiving half after its input has been dropped.
    have hd : ∀ stop, StreamBalanced x.options (x.pendingFor id) id { stream with
        input := []
        inputStaging := []
        inputBytes := 0
        consumed := stream.consumed + stream.inputBytes
        stopSent := stop
        grantPending := false } := by
      intro stop
      refine ⟨{ hbl.send with }, ⟨rfl, ?_, hr.received_le, ?_⟩, hbl.sendOnly,
        hbl.receiveOnly⟩
      · show 0 + (stream.consumed + stream.inputBytes) = stream.received
        have := hr.received
        omega
      show stream.receiveMax ≤ stream.consumed + stream.inputBytes + _
      have := hr.room
      omega
    simp only
    by_cases hst : (!stream.receiveDone && !stream.stopSent) = true
    · simp only [hst, Bool.or_true, if_true]
      simp only [Bool.and_eq_true, Bool.not_eq_true'] at hst
      have he : (Capsule.stopSending id code.toNat).encodable = true := by
        simp [Capsule.encodable, Capsule.integers, id_le hb ho, code_le]
      rw [queueControl_ok (by exact hrm.controls) he]
      refine .queues (.stopSending id code.toNat) ?_ rfl rfl
      refine Emits.queue (@emits_credit _ _ _ .stop _ _ _ _ hb hs (hd true) rfl ⟨ho, code.toNat_lt⟩ (if_pos rfl) hst.1
        (fun _ _ h => h) rfl rfl ?_) rfl
      intro credit word hc hf
      rw [grantOf, hst.2] at hf
      exact hf.send hc fun limit hl => ⟨limit, true, rfl, hl, fun _ => rfl⟩
    · have hfl : (!stream.receiveDone && !stream.stopSent) = false := by simpa using hst
      simp only [hfl, Bool.or_false, Bool.false_eq_true, if_false]
      exact .quiet (Keeps.touch hb hs (hd stream.stopSent)
        ⟨rfl, rfl, .inl rfl, .inl rfl⟩ rfl rfl hb.sent_le)

/-! ## The stages of `next_output` -/

/-- Nothing is queued and no data is selected. -/
structure AtRest (x : State) : Prop where
  balanced : Balanced x
  roomy : x.Roomy
  controls : x.controls = []
  pendingOutput : x.pendingOutput = none

theorem AtRest.keeps (h : AtRest x) (hk : Keeps x x') (hr : x'.Roomy) : AtRest x' where
  balanced := hk.balanced
  roomy := hr
  controls := hk.quiet.controls.trans h.controls
  pendingOutput := hk.pendingOutput.trans h.pendingOutput

/-- What a stage finds: nothing; a control capsule, which counts as sent; or data of a stream, which is
only noted. -/
inductive Selects (x : State) : Outcome (Option Output) → Prop where
  | nothing {x' : State} (h : Keeps x x') (hroom : x'.Roomy) : Selects x (.ok none x')
  | control {x' : State} {capsule : Capsule} (h : Emits x x' capsule) (hcontrols : x'.controls = [])
      (hpending : x'.pendingOutput = none) : Selects x (.ok (some (.bytes capsule none)) x')
  | data {x' : State} {id : Nat} {bytes : Bytes} {fin : Bool} (hbalanced : Balanced x') (hquiet : Quiet x x')
      (hpeer : x'.peerOpened = x.peerOpened) (hpending : x'.pendingOutput = some ⟨id, bytes, fin⟩) :
      Selects x (.ok (some (.bytes (.stream id bytes fin) (some (id, fin)))) x')

theorem Selects.of_keeps {result : Outcome (Option Output)} (hk : Keeps x x₁) (h : Selects x₁ result) :
    Selects x result := by
  cases h with
  | nothing h hr => exact .nothing (hk.trans h) hr
  | control h hc hp => exact .control (.of_keeps hk h) hc hp
  | data hb hq hpr hp =>
    exact .data hb (hk.quiet.trans hq) (hpr.trans hk.peerOpened) hp

theorem Selects.orElse {result : Outcome (Option Output)} {next : State → Outcome (Option Output)}
    (hx : AtRest x) (h : Selects x result) (hn : ∀ x', AtRest x' → Selects x' (next x')) :
    Selects x (result.orElse next) := by
  cases h with
  | nothing h hr => exact (hn _ (hx.keeps h hr)).of_keeps h
  | control h hc hp => exact .control h hc hp
  | data hb hq hpr hp => exact .data hb hq hpr hp

theorem AtRest.nothing (h : AtRest x) : Selects x (.ok none x) :=
  .nothing (Keeps.flags h.balanced) h.roomy

theorem encodable_one {value : Nat} (h : capsule.integers = [value]) (hv : value ≤ varintMax) :
    capsule.encodable = true := by
  simp [Capsule.encodable, h, hv]

theorem receiveGrant_selects (h : AtRest x) : Selects x x.receiveGrant := by
  have hb := h.balanced
  unfold receiveGrant
  split
  · exact h.nothing
  simp only
  have hf : Keeps x { x with receiveGrantPending := false } := Keeps.flags hb
  rw [if_neg (by have := h.roomy.session; omega)]
  split
  · next hn =>
    simp only [Bool.and_eq_true, decide_eq_true_eq] at hn
    rw [emit, if_pos (encodable_one rfl h.roomy.session)]
    refine .control (.of_keeps hf ?_) h.controls h.pendingOutput
    have hp : (Capsule.maxData (x.consumed + x.options.limits.maxSessionBufferBytes)).Proper
        { x with receiveGrantPending := false } := trivial
    exact
      { balanced := { hf.balanced with }
        options := rfl
        toPeer := fun hl => { hl.append_credit (fun _ => rfl) rfl hp with }
        fromPeer := fun _ hl => hl.send_maxData (Nat.le_of_lt hn.2) }
  · exact .nothing hf { h.roomy with }

theorem streamsGrant_selects (h : AtRest x) (kind : Bool) : Selects x (x.streamsGrant kind) := by
  have hb := h.balanced
  unfold streamsGrant
  split
  · exact h.nothing
  simp only
  have hf : Keeps x { x with streamsGrantPending := Function.update x.streamsGrantPending kind false } :=
    Keeps.flags hb
  have hle := hb.receiveMaxStreams_le kind
  rw [emit, if_pos (encodable_one rfl (by unfold varintMax; omega))]
  refine .control (.of_keeps hf ?_) h.controls h.pendingOutput
  exact
    { balanced := hf.balanced
      options := rfl
      toPeer := fun hl => hl.append_credit (fun _ => rfl) rfl hle
      fromPeer := fun _ hl => hl.send_maxStreams kind }

/-- Changes of one stream that leave what it has consumed. -/
theorem State.Roomy.touch {stream' : StreamState} (h : x.Roomy) (hs : x.streams.lookup id = some stream)
    (hc : stream'.consumed = stream.consumed) :
    (x.putStream id stream').Roomy :=
  { h with
    stream := fun id' found hf => by
      show found.consumed + x.options.limits.maxStreamBufferBytes ≤ varintMax
      rw [putStream, Ledger.lookup_insert_apply] at hf
      split at hf
      · cases hf
        rw [hc]
        exact h.stream id stream hs
      · exact h.stream id' found hf }

theorem streamGrants_selects (order : List Nat) (h : AtRest x) : Selects x (streamGrants order x) := by
  induction order generalizing x with
  | nil => exact h.nothing
  | cons id order ih =>
    have hb := h.balanced
    unfold streamGrants
    cases hs : x.streams.lookup id with
    | none => exact ih h
    | some stream =>
      have hbl := hb.stream id stream hs
      simp only
      split
      · exact ih h
      have hf : Keeps x (x.putStream id { stream with grantPending := false }) := .streamFlags hb hs
      have hn : Selects x (streamGrants order (x.putStream id { stream with grantPending := false })) :=
        (ih (h.keeps hf (h.roomy.touch hs rfl))).of_keeps hf
      split
      · next ho =>
        rw [if_neg (by
          have := h.roomy.stream id stream hs
          show ¬varintMax < stream.consumed + x.options.limits.maxStreamBufferBytes
          omega)]
        split
        · next hm =>
          simp only [Bool.and_eq_true, Bool.not_eq_true'] at ho
          have hv := h.roomy.stream id stream hs
          have hop := hf.balanced.opened id (by rw [putStream, AList.lookup_insert]; rfl)
          have he : (Capsule.maxStreamData id
              (stream.consumed + x.options.limits.maxStreamBufferBytes)).encodable = true := by
            simp [Capsule.encodable, Capsule.integers, id_le hf.balanced hop, hv]
          rw [emit, if_pos (by exact he)]
          refine .control (.of_keeps hf ?_) h.controls h.pendingOutput
          refine @emits_credit _ _ _ (.limit _) _ _ _ _ hf.balanced (AList.lookup_insert _)
            ⟨{ hbl.send with }, ⟨hbl.recv.inputBytes, hbl.recv.received,
              hbl.recv.received_le.trans (Nat.le_of_lt hm), Nat.le_refl _⟩, hbl.sendOnly, hbl.receiveOnly⟩
            rfl ⟨hop, hv⟩ (if_pos rfl) ho.2 ?_ rfl rfl ?_
          · intro word outbound hc
            rw [inboundOf_receiving (by exact ho.2)] at hc ⊢
            exact Carries.raise hc (Nat.le_of_lt hm)
          intro credit word hcr hfn
          have hst : stream.stopSent = false := ho.1
          rw [grantOf] at hfn ⊢
          rw [hst] at hfn ⊢
          exact hfn.send_limit hcr (Nat.le_of_lt hm)
        · exact hn
      · exact hn

theorem datagramOutput_selects (h : AtRest x) : Selects x x.datagramOutput := by
  have hb := h.balanced
  unfold datagramOutput
  cases hd : x.sendDatagram with
  | none => exact h.nothing
  | some payload =>
    have hle : payload.length ≤ maxDatagram := hb.datagram payload hd
    simp only
    rw [emit, if_pos (encodable_one rfl (by unfold maxDatagram at hle; unfold varintMax; omega))]
    have hi := @emits_idle _ (.datagram payload) hb trivial (fun _ => rfl) rfl (fun _ => rfl) rfl
      (fun _ => rfl)
    refine .control ?_ h.controls h.pendingOutput
    exact
      { balanced := { hb with datagram := fun _ hm => by cases hm }
        options := rfl
        toPeer := fun hl => { hi.toPeer hl with }
        fromPeer := fun hr hl => { hi.fromPeer hr hl with } }

/-! ## Data of one stream -/

/-- The end `x` hands over `capsule`, before the capsules that are queued. -/
structure Hands (x x' : State) (capsule : Capsule) : Prop where
  balanced : Balanced x'
  options : x'.options = x.options
  toPeer : ∀ {y sent queue yp}, (∀ capsule ∈ queue, Capsule.queued capsule = true) →
    Link x (sent ++ queue) y yp → Link x' (sent ++ capsule :: queue) y yp
  fromPeer : ∀ {y sent queue yp}, Link y yp x (sent ++ queue) → Link y yp x' (sent ++ capsule :: queue)

theorem Hands.emits (h : Hands x x' capsule) : Emits x x' capsule where
  balanced := h.balanced
  options := h.options
  toPeer hl := h.toPeer (by simp) (by rwa [append_nil])
  fromPeer _ hl := h.fromPeer (by rwa [append_nil])

theorem Hands.keeps (h : Hands x x₁ capsule) (hk : Keeps x₁ x') : Hands x x' capsule where
  balanced := hk.balanced
  options := hk.quiet.options.trans h.options
  toPeer hq hl := (h.toPeer hq hl).quiet_sender hk.quiet
  fromPeer hl := (h.fromPeer hl).keeps_receiver hk

theorem receiveOnly_of_sending {pending : Option PendingStreamOutput} (hs : StreamBalanced x.options pending id stream)
    (hd : stream.sendDone = false) :
    x.receiveOnly id = false := by
  by_contra ho
  simp only [receiveOnly, Bool.and_eq_true, Bool.not_eq_true', Bool.not_eq_false] at ho
  have := hs.receiveOnly ho.1 ho.2
  simp [sendDone, this] at hd

theorem hands_data {message : DataMessage} {stream' : StreamState} {queuedSend : Nat}
    {pendingOutput : Option PendingStreamOutput} (hb : Balanced x) (hs : x.streams.lookup id = some stream)
    (hpn : ∀ id', id' ≠ id → pendingOutput.filter (·.id == id') = x.pendingFor id')
    (hbl : StreamBalanced x.options (pendingOutput.filter (·.id == id)) id stream')
    (hq : queuedSend + stream.outputBytes = x.queuedSend + stream'.outputBytes)
    (hsz : stream.outputBytes = stream'.outputBytes + capsule.size)
    (hp : x.wasOpened id = true → capsule.Proper x) (hm : capsule.dataFor id = some message)
    (hd : stream.sendDone = false) (hi : inboundOf (some stream') = inboundOf (some stream))
    (hcr : creditOf (some stream') = creditOf (some stream)) (hg : grantOf (some stream') = grantOf (some stream))
    (hc : ∀ inbound word, (∀ received limit, inbound = .receiving received limit → stream.sendMax ≤ limit) →
      Carries inbound word (.sending stream.wireSent) →
      Carries inbound (word ++ [message]) (outboundOf (some stream'))) :
    Hands x (x.write id stream' x.sent queuedSend x.consumed pendingOutput x.readyStreams x.receiveGrantPending)
      capsule := by
  obtain ⟨-, hnc, hnd, hn⟩ := only_data hm
  have ho : outboundOf (some stream) = .sending stream.wireSent := by
    rw [outboundOf, hd]
    rfl
  refine ⟨hb.touch hs hpn hbl hq (by omega) hb.sent_le, rfl, ?_, ?_⟩
  · intro y front queue yp hq hl
    refine hl.send_data hq hm (hp (hb.opened id (by rw [hs]; rfl)))
      (receiveOnly_of_sending (hb.stream id stream hs) hd) hs hcr ?_ (by omega)
    rw [ho]
    exact hc
  intro y front queue yp hl
  have hsk : ∀ {α : Type} (f : Capsule → Option α), f capsule = none →
      (front ++ capsule :: queue).filterMap f = (front ++ queue).filterMap f := by
    intro α f hnn
    rw [filterMap_append, filterMap_cons, hnn, filterMap_append]
  exact (hl.credit_pipe (fun id => hsk _ (hnc id)) (hsk _ hnd) (fun kind => hsk _ (hn kind))).write_receiver hs hi hg

theorem pendingFor_none (h : x.pendingOutput = none) (id : Nat) : x.pendingFor id = none := by
  rw [pendingFor, h]
  rfl

theorem filter_selected (pending : PendingStreamOutput) (id : Nat) :
    (some pending).filter (·.id == id) = if id = pending.id then some pending else none := by
  by_cases hid : id = pending.id
  · simp [hid]
  · simp [hid, Ne.symm hid]

theorem pendingFor_selected {pending : PendingStreamOutput} (h : x.pendingOutput = some pending) (id : Nat) :
    x.pendingFor id = if id = pending.id then some pending else none := by
  rw [pendingFor, h, filter_selected]

theorem selectReset_selects (h : AtRest x) {code : UInt32} (hst : x.streams.lookup id = some stream)
    (hcd : stream.resetRequested = some code) :
    Selects x (x.selectReset id { stream with ready := false } code) := by
  have hb := h.balanced
  have hbl := hb.stream id stream hst
  have hs := hbl.send
  have ho := hb.opened id (by rw [hst]; rfl)
  have hd : stream.sendDone = false := by
    by_contra htr
    have := (hs.done (by simpa using htr)).2.1
    simp [hcd] at this
  obtain ⟨hsg, hby⟩ := hs.requested (by rw [hcd]; rfl)
  have hp := pendingFor_none h.pendingOutput id
  have he : (Capsule.resetStream id code.toNat stream.wireSent).encodable = true := by
    have := hs.sent
    have := hs.sent_le
    have := hs.sendMax_le
    have hw : stream.wireSent ≤ varintMax := by omega
    simp [Capsule.encodable, Capsule.integers, id_le hb ho, code_le, hw]
  -- The stream with its sending half closed.
  have hh : Hands x (x.putStream id { stream with
      ready := false
      resetRequested := none
      sendReset := some code }) (.resetStream id code.toNat stream.wireSent) := by
    refine hands_data hb hst (fun _ _ => rfl) ⟨?_, { hbl.recv with }, hbl.sendOnly, hbl.receiveOnly⟩ rfl rfl
      (fun hid => ⟨hid, code.toNat_lt⟩) (if_pos rfl) hd rfl rfl rfl fun inbound word _ hc => ?_
    · show SendBalanced (x.pendingFor id) _
      rw [hp]
      exact
        { hs with
          requested := fun hsm => by simp at hsm
          outputBytes := fun _ => by
            show stream.outputBytes = stream.outputStaging.length + 0
            rw [hby, hsg]
            rfl
          done := fun _ => ⟨hsg, rfl, rfl⟩
          fin := fun _ hm => by cases hm
          stopped := fun _ => .inl (by simp [sendDone]) }
    · simpa [outboundOf, sendDone] using hc.send_reset
  obtain ⟨x', hrp, hk⟩ := reap_keeps hh.balanced h.roomy.streams id
  unfold selectReset
  simp only
  rw [if_pos he, hrp]
  exact .control (hh.emits.keeps hk) (hk.quiet.controls.trans h.controls)
    (hk.pendingOutput.trans h.pendingOutput)

theorem nextBlock_eq {stream : StreamState} (ho : stream.output = []) :
    ∃ block, nextBlock stream = (block, { stream with outputStaging := [] }) ∧
      block.getD [] = stream.outputStaging := by
  unfold nextBlock
  split
  · next hc =>
    rw [ho] at hc
    contradiction
  split
  · next he =>
    have hn := List.isEmpty_iff.1 he
    exact ⟨none, by rw [← hn], hn.symm⟩
  · exact ⟨_, rfl, rfl⟩

theorem selectData_selects (h : AtRest x) (hst : x.streams.lookup id = some stream) (hr : stream.resetRequested = none)
    (hd : stream.sendDone = false) : Selects x (x.selectData id { stream with ready := false }) := by
  have hb := h.balanced
  have hbl := hb.stream id stream hst
  have hs := hbl.send
  have ho := hb.opened id (by rw [hst]; rfl)
  have hp := pendingFor_none h.pendingOutput
  unfold selectData
  obtain ⟨block, hbc, hby⟩ := @nextBlock_eq { stream with ready := false } hs.output
  rw [hbc]
  simp only
  split
  · next hn =>
    simp only [Bool.and_eq_true, Option.isNone_iff_eq_none] at hn
    have hem : stream.outputStaging = [] := by
      rw [hn.1.1] at hby
      exact hby.symm
    rw [← hem]
    exact .nothing (.streamFlags hb hst) (h.roomy.touch hst rfl)
  · simp only at hby
    have he : ∀ fin, (Capsule.stream id stream.outputStaging fin).encodable = true := by
      intro fin
      have := varintLength_le id
      have hl := hs.staging_le
      have hv : varintLength id + stream.outputStaging.length ≤ varintMax := by
        unfold quantum at hl
        unfold varintMax
        omega
      simp [Capsule.encodable, Capsule.integers, id_le hb ho, hv]
    rw [hby, if_pos (he _)]
    refine .data ?_ (Quiet.touch hst ⟨rfl, rfl, .inl rfl, .inl rfl⟩ rfl) rfl rfl
    refine hb.touch hst (fun id' hid => ?_) ?_ rfl (Nat.le_refl _) hb.sent_le
    · rw [hp]
      exact (filter_selected _ id').trans (if_neg hid)
    rw [filter_selected, if_pos rfl]
    refine ⟨?_, { hbl.recv with }, hbl.sendOnly, hbl.receiveOnly⟩
    have hol := hs.outputBytes hr
    rw [hp] at hol
    exact
      { hs with
        staging_le := Nat.zero_le _
        requested := fun hsm => by simp [hr] at hsm
        outputBytes := fun _ => by
          show stream.outputBytes = 0 + stream.outputStaging.length
          rw [hol]
          exact Nat.add_comm _ _
        done := fun ht => by
          have hf : stream.sendDone = true := ht
          simp [hf] at hd
        fin := fun selected hm hfn _ => by
          cases hm
          exact ⟨rfl, (Bool.and_eq_true_iff.1 hfn).1⟩ }

theorem selectStream_selects (h : AtRest x) (id : Nat) : Selects x (x.selectStream id) := by
  unfold selectStream
  cases hs : x.streams.lookup id with
  | none => exact h.nothing
  | some stream =>
    simp only
    split
    · next code hc => exact selectReset_selects h hs hc
    next hr =>
    split
    · exact .nothing (.streamFlags h.balanced hs) (h.roomy.touch hs rfl)
    · next hd => exact selectData_selects h hs hr (Bool.eq_false_iff.2 hd)

theorem readyOutput_selects (ids : List Nat) (h : AtRest x) : Selects x (readyOutput ids x) := by
  induction ids generalizing x with
  | nil => exact h.nothing
  | cons id rest ih =>
    have hk : Keeps x { x with readyStreams := rest } := Keeps.flags h.balanced
    have hr := h.keeps hk { h.roomy with }
    exact (Selects.orElse hr (selectStream_selects hr id) fun x' hx' => ih hx').of_keeps hk

theorem closeOutput_selects (h : AtRest x) : Selects x x.closeOutput := by
  unfold closeOutput
  rw [h.balanced.closing]
  exact h.nothing

/-- With an empty queue the writer finds its next output without a failure. -/
theorem nextOutput_selects (h : AtRest x) (order : List Nat) : Selects x (x.nextOutput order) := by
  unfold nextOutput
  rw [h.pendingOutput, h.balanced.finish, h.controls]
  refine Selects.orElse h (receiveGrant_selects h) fun x₁ h₁ => ?_
  refine Selects.orElse h₁ (streamsGrant_selects h₁ false) fun x₂ h₂ => ?_
  refine Selects.orElse h₂ (streamsGrant_selects h₂ true) fun x₃ h₃ => ?_
  refine Selects.orElse h₃ (streamGrants_selects order h₃) fun x₄ h₄ => ?_
  refine Selects.orElse h₄ (datagramOutput_selects h₄) fun x₅ h₅ => ?_
  exact Selects.orElse h₅ (readyOutput_selects x₅.readyStreams h₅) fun x₆ h₆ => closeOutput_selects h₆

/-! ## Selected data -/

/-- The stream of the selected data, as long as the session is open. -/
theorem selected_stream (hb : Balanced x) (hp : x.pendingOutput = some ⟨id, bytes, fin⟩) :
    ∃ stream, x.streams.lookup id = some stream ∧ SendBalanced (some ⟨id, bytes, fin⟩) stream ∧
      stream.sendDone = false ∧
      x.outputIsCancelled (some (id, fin)) =
        (stream.resetRequested.isSome || stream.sendReset.isSome || stream.stopReceived) := by
  have hf : x.pendingFor id = some ⟨id, bytes, fin⟩ := by rw [pendingFor_selected hp, if_pos rfl]
  obtain ⟨stream, hs⟩ := Option.isSome_iff_exists.1 (hb.pending id (by rw [hf]; rfl))
  have hsn := (hb.stream id stream hs).send
  rw [hf] at hsn
  refine ⟨stream, hs, hsn, ?_, ?_⟩
  · by_contra ht
    have := (hsn.done (by simpa using ht)).2.2
    contradiction
  · rw [outputIsCancelled, hb.failure, hb.finish, hb.ended]
    simp [hs]

/-- The carrier takes the selected data. -/
theorem commit_hands (hb : Balanced x) (hrm : x.Roomy) (hp : x.pendingOutput = some ⟨id, bytes, fin⟩)
    (hc : x.outputIsCancelled (some (id, fin)) = false) :
    ∃ x', x.commitPendingOutput id fin = .ok () x' ∧ Hands x x' (.stream id bytes fin) ∧
      x'.controls = x.controls ∧ x'.pendingOutput = none := by
  obtain ⟨stream, hst, hs, hd, ho⟩ := selected_stream hb hp
  have hbl := hb.stream id stream hst
  rw [ho] at hc
  simp only [Bool.or_eq_false_iff, Option.isSome_eq_false_iff, Option.isNone_iff_eq_none] at hc
  obtain ⟨⟨hr, hrs⟩, hsp⟩ := hc
  have hby : stream.outputBytes = stream.outputStaging.length + bytes.length := hs.outputBytes hr
  have hq := (outputBytes_le hb hst).1
  have hd' : ∀ stream' : StreamState, stream'.sendFin = fin → stream'.sendReset = stream.sendReset →
      stream'.sendDone = fin := by
    intro stream' hf hrs'
    rw [sendDone, hf, hrs', hrs]
    simp
  -- The books after the receipt, before the stream is reaped.
  have hh : Hands x { x.putStream id { stream with
        outputBytes := stream.outputBytes - bytes.length
        wireSent := stream.wireSent + bytes.length
        sendFin := fin } with
      pendingOutput := none
      queuedSend := x.queuedSend - bytes.length } (.stream id bytes fin) := by
    refine hands_data hb hst (fun id' hid => ?_) ⟨?_, { hbl.recv with }, hbl.sendOnly, fun hu hpr => ?_⟩ ?_ ?_
      (fun hid => hid) (if_pos rfl) hd rfl rfl rfl ?_
    · rw [pendingFor_selected hp, if_neg hid]
      rfl
    · exact
        { hs with
          requested := fun hsm => by simp [hr] at hsm
          outputBytes := fun _ => by
            show stream.outputBytes - bytes.length = stream.outputStaging.length + 0
            omega
          sent := by
            show stream.sent = stream.wireSent + bytes.length + (stream.outputBytes - bytes.length)
            have := hs.sent
            omega
          done := fun hf => by
            rw [hd' _ (by rfl) (by rfl)] at hf
            exact ⟨(hs.fin _ rfl hf hr).1, hr, rfl⟩
          fin := fun _ hm => by cases hm
          stopped := fun htr => by
            have : stream.stopReceived = true := htr
            simp [hsp] at this }
    · have := hbl.receiveOnly hu hpr
      simp [sendDone, this] at hd
    · show x.queuedSend - bytes.length + stream.outputBytes = x.queuedSend + (stream.outputBytes - bytes.length)
      omega
    · show stream.outputBytes = stream.outputBytes - bytes.length + bytes.length
      omega
    intro inbound word hl hcr
    have hsn : ∀ received limit, inbound = .receiving received limit →
        stream.wireSent + bytes.length ≤ limit := by
      intro received limit hi
      have := hl received limit hi
      have := hs.sent
      have := hs.sent_le
      omega
    have := @Carries.send_data _ _ _ _ fin hcr hsn
    rwa [outboundOf, hd' _ (by rfl) (by rfl)]
  obtain ⟨x', hrp, hk⟩ := reap_keeps hh.balanced hrm.streams id
  refine ⟨x', ?_, hh.keeps hk, hk.quiet.controls, hk.pendingOutput⟩
  unfold commitPendingOutput
  rw [hp]
  simp only [bne_self_eq_false, Bool.or_self, Bool.false_eq_true, if_false, hst, hs.output, isEmpty_nil,
    if_true]
  rw [← hs.output]
  exact hrp

/-- Data that was selected before its stream was reset is dropped. -/
theorem discard_keeps (hb : Balanced x) (hp : x.pendingOutput = some ⟨id, bytes, fin⟩)
    (hc : x.outputIsCancelled (some (id, fin)) = true) :
    Balanced x.discardPendingOutput ∧ Quiet x x.discardPendingOutput ∧
      x.discardPendingOutput.peerOpened = x.peerOpened ∧ x.discardPendingOutput.pendingOutput = none := by
  obtain ⟨stream, hst, hs, hd, hop⟩ := selected_stream hb hp
  have hr : stream.resetRequested.isSome = true := by
    rw [hop] at hc
    simp only [Bool.or_eq_true] at hc
    rcases hc with (hr | hrs) | hsp
    · exact hr
    · simp [sendDone, hrs] at hd
    rcases hs.stopped hsp with ht | hr
    · simp [ht] at hd
    · exact hr
  have hdr : Balanced { x with pendingOutput := none } :=
    { hb with
      stream := fun id' found hf => by
        have ho := hb.stream id' found hf
        refine ⟨?_, ho.recv, ho.sendOnly, ho.receiveOnly⟩
        rw [pendingFor_none rfl]
        have hs' := ho.send
        rw [pendingFor_selected hp] at hs'
        split at hs'
        · next hid =>
          rw [hid, hst] at hf
          cases hf
          exact
            { hs' with
              outputBytes := fun hn => by simp [hn] at hr
              done := fun ht => by simp [ht] at hd
              fin := fun _ hm => by cases hm }
        · exact hs'
      pending := fun id' hsm => by simp [pendingFor_none] at hsm }
  have hk := ready_keeps hdr id
  have hq : Quiet x { x with pendingOutput := none } := { Quiet.refl x with }
  have heq : x.discardPendingOutput = ready { x with pendingOutput := none } id := by
    unfold discardPendingOutput
    rw [hp]
    simp only [hst, hr, if_true]
  rw [heq]
  exact ⟨hk.balanced, hq.trans hk.quiet, hk.peerOpened, hk.pendingOutput⟩

end WebTransport
