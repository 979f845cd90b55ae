import OxiBelt.WebTransport.Books

/-!
# Calls that the other end cannot notice

Everything an application does to its handles, apart from stopping a stream, keeps the books and changes
nothing that the other end can notice (`Keeps`): it only becomes visible when the writer sends something.
The same is true of opening a stream, of forgetting one, and of the first thing a received capsule does,
which is to open the streams up to the one it names.
-/

namespace WebTransport

open List Function State SendStream RecvStream

open ByteString (Bytes)

variable {s : State}

/-! ## The queue of ready streams -/

theorem ready_keeps (hb : Balanced s) (id : Nat) : Keeps s (s.ready id) := by
  unfold ready
  cases hs : s.streams.lookup id with
  | none => exact .flags hb
  | some stream =>
    by_cases hr : stream.ready = true
    · simp only [hr, if_true]
      exact .flags hb
    simp only [hr, Bool.false_eq_true, if_false]
    exact .streamFlags hb hs

theorem Keeps.ready {s' : State} (h : Keeps s s') (id : Nat) : Keeps s (s'.ready id) :=
  h.trans (ready_keeps h.balanced id)

/-! ## Sending halves -/

variable {stream : StreamState} {id : Nat} {uni : Bool}

theorem outputBytes_le (hb : Balanced s) (hs : s.streams.lookup id = some stream) :
    stream.outputBytes ≤ s.queuedSend ∧ stream.outputBytes ≤ s.sent := by
  have hle : stream.outputBytes ≤ s.unsent := Ledger.le_total (fun _ stream => stream.outputBytes) hs
  have := hb.queuedSend
  have := hb.unsent_le
  omega

/-- The sending half after its data has been dropped. -/
theorem SendBalanced.discard {pending : Option PendingStreamOutput} (h : SendBalanced pending stream)
    (hd : stream.sendDone = false) (code : UInt32) :
    SendBalanced pending (discard stream code) where
  output := rfl
  staging_le := Nat.zero_le _
  requested _ := ⟨rfl, rfl⟩
  outputBytes hn := by simp [SendStream.discard] at hn
  sent := rfl
  sent_le := by
    have := h.sent
    have := h.sent_le
    show stream.wireSent ≤ stream.sendMax
    omega
  sendMax_le := h.sendMax_le
  done hd' := absurd hd' (by rw [show (SendStream.discard stream code).sendDone = stream.sendDone from rfl, hd]; simp)
  fin _ _ _ hn := by simp [SendStream.discard] at hn
  stopped _ := .inr rfl

theorem reset_keeps (hb : Balanced s) (id : Nat) (code : UInt32) : Keeps s (reset id code s) := by
  unfold reset
  cases hs : s.streams.lookup id with
  | none => exact .flags hb
  | some stream =>
    have hbl := hb.stream id stream hs
    have hle := outputBytes_le hb hs
    simp only
    split
    · exact .flags hb
    next ho =>
    have hdn : stream.sendDone = false := by
      simp only [Bool.or_eq_true, not_or, Bool.not_eq_true] at ho
      simp [StreamState.sendDone, ho.1.1, ho.1.2]
    refine .ready (.touch hb hs
      ⟨hbl.send.discard hdn code, { hbl.recv with }, hbl.sendOnly, hbl.receiveOnly⟩
      ⟨rfl, rfl, .inl rfl, .inl rfl⟩ ?_ ?_ ?_) id
    · show s.queuedSend - stream.outputBytes + stream.outputBytes = s.queuedSend + 0
      omega
    · show s.sent - stream.outputBytes + stream.outputBytes = s.sent + 0
      omega
    show s.sent - stream.outputBytes ≤ s.sendMaxData
    have := hb.sent_le
    omega

theorem pollWrite_keeps (hb : Balanced s) (id : Nat) (bytes : Bytes) :
    Keeps s (pollWrite id bytes s).1 := by
  have hsl : Keeps s s := .flags hb
  unfold pollWrite
  split
  · exact hsl
  cases s.check with
  | error text => exact hsl
  | ok _ =>
    cases hst : s.streams.lookup id with
    | none => exact hsl
    | some stream =>
      have hbl := hb.stream id stream hst
      simp only
      split
      · exact hsl
      next ho =>
      split
      · exact hsl
      next hsz =>
      simp only [Bool.or_eq_true, not_or, Bool.not_eq_true] at ho
      obtain ⟨⟨⟨hf, hrq⟩, hrs⟩, hr⟩ := ho
      -- The six bounds on the size of a write.
      generalize hw : writeSize stream bytes.length s = size at hsz
      unfold writeSize at hw
      have ht : (bytes.take size).length = size := by
        rw [length_take]
        omega
      have hn : stream.resetRequested = none := by simpa using hr
      have hs := hbl.send
      refine .ready ?_ id
      refine .touch hb hst
        { hbl with
          send := { hs with
            staging_le := ?_
            requested := fun h => absurd h (by simp [hn])
            outputBytes := fun _ => ?_
            sent := ?_
            sent_le := ?_
            done := fun h => absurd h (by simp [StreamState.sendDone, hf, hrs])
            fin := fun selected hsc hf' _ => ?_ }
          recv := { hbl.recv with } }
        ⟨rfl, rfl, .inl rfl, .inl rfl⟩ ?_ ?_ ?_
      · show (stream.outputStaging ++ bytes.take size).length ≤ quantum
        rw [length_append, ht]
        have := hs.staging_le
        omega
      · show stream.outputBytes + size = (stream.outputStaging ++ bytes.take size).length + _
        rw [length_append, ht, hs.outputBytes hn]
        omega
      · show stream.sent + size = stream.wireSent + (stream.outputBytes + size)
        have := hs.sent
        omega
      · show stream.sent + size ≤ stream.sendMax
        have := hs.sent_le
        omega
      · have := (hs.fin selected hsc hf' hn).2
        rw [hrq] at this
        contradiction
      · show s.queuedSend + size + stream.outputBytes = s.queuedSend + (stream.outputBytes + size)
        omega
      · show s.sent + size + stream.outputBytes = s.sent + (stream.outputBytes + size)
        omega
      · show s.sent + size ≤ s.sendMaxData
        have := hb.sent_le
        omega

theorem pollShutdown_keeps (hb : Balanced s) (id : Nat) : Keeps s (pollShutdown id s).1 := by
  have hsl : Keeps s s := .flags hb
  unfold pollShutdown
  cases s.check with
  | error text => exact hsl
  | ok _ =>
    cases hst : s.streams.lookup id with
    | none => exact hsl
    | some stream =>
      have hbl := hb.stream id stream hst
      simp only
      split
      · exact hsl
      split
      · exact hsl
      refine .ready ?_ id
      exact .touch hb hst
        { hbl with
          send := { hbl.send with
            fin := fun selected hsc hf hn => ⟨(hbl.send.fin selected hsc hf hn).1, rfl⟩ }
          recv := { hbl.recv with } }
        ⟨rfl, rfl, .inl rfl, .inl rfl⟩ rfl rfl hb.sent_le

/-! ## Receiving halves -/

theorem take_length {stream : StreamState} (capacity : Nat) :
    (take stream capacity).1.length +
      ((take stream capacity).2.input.flatten.length +
        (take stream capacity).2.inputStaging.length) =
      stream.input.flatten.length + stream.inputStaging.length := by
  unfold RecvStream.take
  cases hi : stream.input with
  | nil =>
    simp only [length_take, length_drop, flatten_nil, length_nil]
    omega
  | cons block rest =>
    simp only [flatten_cons, length_append, length_take]
    split
    · next hl =>
      have : block.length ≤ capacity := by simpa using hl
      omega
    · simp only [flatten_cons, length_append, length_drop]
      omega

/-- Taking input changes nothing but the stored input. -/
theorem take_eq (stream : StreamState) (capacity : Nat) :
    (take stream capacity).2 = { stream with
      input := (take stream capacity).2.input
      inputStaging := (take stream capacity).2.inputStaging } := by
  unfold RecvStream.take
  cases stream.input <;> rfl

theorem pollRead_keeps (hb : Balanced s) (id capacity : Nat) : Keeps s (pollRead id capacity s).1 := by
  have hs : Keeps s s := .flags hb
  unfold pollRead
  split
  · exact hs
  cases hst : s.streams.lookup id with
  | none => exact hs
  | some stream =>
    have hbl := hb.stream id stream hst
    simp only
    split
    · have hl := @take_length stream capacity
      have hi := hbl.recv.inputBytes
      rw [take_eq]
      generalize (take stream capacity).1 = bytes at hl
      generalize (take stream capacity).2.input = input at hl
      generalize (take stream capacity).2.inputStaging = staging at hl
      refine .touch hb hst
        { hbl with send := { hbl.send with }, recv := ⟨?_, ?_, hbl.recv.received_le, ?_⟩ }
        ⟨rfl, rfl, .inl rfl, .inl rfl⟩ rfl rfl hb.sent_le
      · show stream.inputBytes - bytes.length = input.flatten.length + staging.length
        omega
      · show stream.inputBytes - bytes.length + (stream.consumed + bytes.length) = stream.received
        have := hbl.recv.received
        omega
      show stream.receiveMax ≤ stream.consumed + bytes.length + _
      have := hbl.recv.room
      omega
    · cases stream.receiveReset with
      | some code => exact hs
      | none =>
        simp only
        split
        · exact hs
        cases s.failure with
        | some failure => exact hs
        | none =>
          simp only
          split
          · exact hs
          · exact hs

/-! ## Forgetting a stream -/

theorem sendDone_of_finished (h : stream.finished = true) :
    stream.receiveDone = true ∧ stream.sendDone = true := by
  simp only [StreamState.finished, Bool.and_eq_true] at h
  exact ⟨h.1.1.1, h.1.1.2⟩

variable {s' : State}

/-- Forgetting a finished stream; one of the peer moves from the live ones to the credit. -/
theorem forget_keeps {peerActive ownActive receiveMaxStreams : PerKind Nat} {streamsGrantPending : PerKind Bool}
    (hb : Balanced s) (hs : s.streams.lookup id = some stream) (hfn : stream.finished = true)
    (ha : ∀ kind, peerActive kind + peerCount s.options id kind = s.peerActive kind)
    (hmx : ∀ kind, receiveMaxStreams kind = s.receiveMaxStreams kind + peerCount s.options id kind)
    (hm : ∀ kind, receiveMaxStreams kind ≤ 2 ^ 60) :
    Keeps s { s with
      streams := s.streams.erase id
      peerActive, ownActive, receiveMaxStreams, streamsGrantPending } := by
  have hbl := hb.stream id stream hs
  obtain ⟨hrc, hsd⟩ := sendDone_of_finished hfn
  have hu : Ledger.total (fun _ stream => stream.outputBytes) (s.streams.erase id) = s.unsent := by
    have := Ledger.total_erase_add (fun _ stream => stream.outputBytes) hs
    rw [unsent]
    have : stream.outputBytes = 0 := by
      obtain ⟨hg, hr, hp⟩ := hbl.send.done hsd
      rw [hbl.send.outputBytes hr, hg, hp]
      rfl
    omega
  have hl : ∀ id', (s.streams.erase id).lookup id' = if id' = id then none else s.streams.lookup id' :=
    fun id' => Ledger.lookup_erase_apply ..
  have hsl : ∀ id', slot { s with
      streams := s.streams.erase id
      peerActive, ownActive, receiveMaxStreams, streamsGrantPending } id' =
      if id' = id then none else s.slot id' := by
    intro id'
    rw [slot, hl]
    by_cases hid : id' = id
    · rw [if_pos hid, if_pos hid]
      exact if_pos (hb.opened id' (by rw [hid, hs]; rfl))
    · rw [if_neg hid, if_neg hid]
      rfl
  refine ⟨{ hb with
      budget := ?_, active_le := ?_, receiveMaxStreams_le := hm, stream := ?_, opened := ?_, pending := ?_,
      queuedSend := ?_, unsent_le := ?_, active := ?_ }, ?_, rfl, rfl⟩
  · intro kind
    have := hb.budget kind
    have := ha kind
    have := hmx kind
    show receiveMaxStreams kind + peerActive kind = s.streamBudget kind + s.peerOpened kind
    omega
  · intro kind
    have := hb.active_le kind
    have := ha kind
    show peerActive kind ≤ s.streamBudget kind
    omega
  · intro id' found hf
    rw [hl] at hf
    split at hf
    · contradiction
    · exact hb.stream id' found hf
  · intro id' hsm
    rw [hl] at hsm
    split at hsm
    · contradiction
    · exact hb.opened id' hsm
  · intro id' hsm
    rw [hl, if_neg]
    · exact hb.pending id' hsm
    rintro rfl
    have hn : (s.pendingFor id').isSome = true := hsm
    rw [(hbl.send.done hsd).2.2] at hn
    contradiction
  · exact hb.queuedSend.trans hu.symm
  · exact hu.trans_le hb.unsent_le
  · intro kind
    have ht := Ledger.total_erase_add
      (fun id (_ : StreamState) => peerCount s.options id kind) hs
    have hc : s.peerActive kind = Ledger.total (fun id _ => peerCount s.options id kind) s.streams :=
      hb.active kind
    have := ha kind
    show peerActive kind = Ledger.total (fun id _ => peerCount s.options id kind) (s.streams.erase id)
    omega
  · exact
      { Quiet.refl s with
        same := fun id' => by
          rw [hsl]
          split
          · next hid =>
            rw [hid, slot_of_lookup hs]
            exact ⟨by simp [inboundOf, hrc], by simp [outboundOf, hsd], .inr rfl, .inr rfl⟩
          · exact Same.refl _
        handed := by
          show s.sent + s.unsent = s.sent + Ledger.total _ (s.streams.erase id)
          rw [hu]
        receiveMaxStreams := fun kind => (Nat.le_add_right _ _).trans_eq (hmx kind).symm }

theorem update_peerCount (hl : s.options.role.opened id = false) (f : PerKind Nat) (kind : Bool) :
    update f (isUni id) (f (isUni id) + 1) kind = f kind + peerCount s.options id kind := by
  by_cases hk : kind = isUni id
  · rw [hk, update_self, peerCount, if_pos ⟨hl, rfl⟩]
  · rw [update_of_ne hk, peerCount, if_neg fun h => hk h.2.symm, Nat.add_zero]

theorem reap_keeps (hb : Balanced s) (hr : ∀ kind, s.receiveMaxStreams kind < 2 ^ 60) (id : Nat) :
    ∃ s', s.reap id = .ok () s' ∧ Keeps s s' := by
  have hsl : Keeps s s := .flags hb
  unfold reap
  cases hs : s.streams.lookup id with
  | none => exact ⟨s, rfl, hsl⟩
  | some stream =>
    by_cases hf : stream.finished = true
    · simp only [hf, Bool.not_true, Bool.false_eq_true, if_false]
      by_cases hl : s.options.role.opened id = true
      · simp only [hl, if_true]
        refine ⟨_, rfl, forget_keeps hb hs hf ?_ ?_ hb.receiveMaxStreams_le⟩
        · intro kind
          simp [peerCount, hl]
        · intro kind
          simp [peerCount, hl]
      simp only [hl, Bool.false_eq_true, if_false]
      rw [if_pos (show s.receiveMaxStreams (isUni id) + 1 ≤ 2 ^ 60 from hr (isUni id))]
      have hp : 0 < s.peerActive (isUni id) := by
        have hle := Ledger.le_total (fun id' (_ : StreamState) => peerCount s.options id' (isUni id)) hs
        have ho : peerCount s.options id (isUni id) = 1 := by simp [peerCount, hl]
        rw [hb.active, peerStreams]
        omega
      refine ⟨_, rfl, forget_keeps hb hs hf ?_ ?_ ?_⟩
      · intro kind
        by_cases hk : kind = isUni id
        · simp only [hk, update_self, peerCount, hl, and_self, if_true]
          omega
        · simp [update_of_ne hk, peerCount, Ne.symm hk]
      · exact update_peerCount (Bool.eq_false_iff.2 hl) s.receiveMaxStreams
      · exact update_le_iff.2 ⟨hr _, fun kind _ => hb.receiveMaxStreams_le kind⟩
    · simp only [hf, Bool.not_false, if_true]
      exact ⟨s, rfl, hsl⟩

theorem release_keeps (hb : Balanced s) (hrm : ∀ kind, s.receiveMaxStreams kind < 2 ^ 60) (id : Nat)
    {giveUp : StreamState → StreamState}
    (hg : ∀ stream, s.streams.lookup id = some stream → Keeps s (s.putStream id (giveUp stream))) :
    Keeps s (release id giveUp s) := by
  have hf : ∃ s₁, Keeps s s₁ ∧ s₁.receiveMaxStreams = s.receiveMaxStreams ∧
      ∀ s₂, s₁.reap id = .ok () s₂ → release id giveUp s = s₂ := by
    unfold release
    cases hs : s.streams.lookup id with
    | none => exact ⟨s, .flags hb, rfl, fun s₂ hr => by simp only [hr]⟩
    | some stream => exact ⟨_, hg stream hs, rfl, fun s₂ hr => by simp only [hr]⟩
  obtain ⟨s₁, hk, hm, hrl⟩ := hf
  obtain ⟨s₂, hr, hk'⟩ := reap_keeps hk.balanced (by rwa [hm]) id
  rw [hrl s₂ hr]
  exact hk.trans hk'

/-! ## Opening streams -/

theorem eq_streamId_iff {bit : Nat} (hb : bit < 2) (uni : Bool) (index id : Nat) :
    id = streamId bit uni index ↔ id % 2 = bit ∧ isUni id = uni ∧ id / 4 = index := by
  have hu : isUni id = uni ↔ id / 2 % 2 = if uni then 1 else 0 := by
    cases uni with
    | true | false => simp [isUni]
  rw [hu, streamId]
  cases uni with
  | true =>
    simp only [if_true]
    omega
  | false =>
    simp only [Bool.false_eq_true, if_false]
    omega

theorem Role.bit_lt (role : Role) : role.bit < 2 := by cases role <;> decide

theorem newStream_balanced (hs : Standing s) (id : Nat) :
    StreamBalanced s.options none id (s.newStream id (s.options.role.opened id)) := by
  obtain ⟨hr, hsn⟩ := hs.fresh id (s.options.role.opened id)
  exact
    { send :=
        { output := rfl
          staging_le := Nat.zero_le _
          requested := fun h => by simp [newStream] at h
          outputBytes := fun _ => rfl
          sent := rfl
          sent_le := Nat.zero_le _
          sendMax_le := hsn
          done := fun _ => ⟨rfl, rfl, rfl⟩
          fin := fun _ h => by simp at h
          stopped := fun h => by simp [newStream] at h }
      recv := ⟨rfl, rfl, Nat.zero_le _, by
        rw [show (s.newStream id (s.options.role.opened id)).consumed = 0 from rfl, Nat.zero_add]
        exact hr⟩
      sendOnly := fun hu hl => by simp [newStream, hu, hl]
      receiveOnly := fun hu hl => by simp [newStream, hu, hl] }

theorem slot_unopened (hb : Balanced s) (hid : s.wasOpened id = false) :
    s.streams.lookup id = none ∧ s.slot id = some (s.newStream id (s.options.role.opened id)) := by
  have hn : s.streams.lookup id = none := by
    cases hl : s.streams.lookup id with
    | none => rfl
    | some stream =>
      have := hb.opened id (by rw [hl]; rfl)
      rw [hid] at this
      contradiction
  refine ⟨hn, ?_⟩
  rw [slot, hn]
  simp only [hid, Bool.false_eq_true, if_false]

/-- Opening one stream, by this end or by the peer. -/
theorem create_keeps {accepted : PerKind (List Nat)} {ownOpened peerOpened peerActive ownActive : PerKind Nat}
    {s' : State} (he : s' = { s with
      streams := s.streams.insert id stream
      accepted, ownOpened, peerOpened, peerActive, ownActive }) (hb : Balanced s) (hid : s.wasOpened id = false)
    (hbl : StreamBalanced s.options none id stream) (hby : stream.outputBytes = 0)
    (hsm : Same (some (s.newStream id (s.options.role.opened id))) (some stream)) (hsd : Standing s')
    (ho : ∀ id', s'.wasOpened id' = (s.wasOpened id' || id' == id))
    (how : ∀ kind, s.ownOpened kind ≤ ownOpened kind)
    (ha : ∀ kind, peerActive kind = s.peerActive kind + peerCount s.options id kind) :
    Balanced s' ∧ Quiet s s' ∧ ∀ id', s.slot id' ≠ none → s'.slot id' ≠ none := by
  subst he
  obtain ⟨hn, hslot⟩ := slot_unopened hb hid
  have hp : s.pendingFor id = none := by
    cases hfr : s.pendingFor id with
    | none => rfl
    | some selected =>
      have := hb.pending id (by rw [hfr]; rfl)
      rw [hn] at this
      contradiction
  have hl : ∀ id', (s.streams.insert id stream).lookup id' =
      if id' = id then some stream else s.streams.lookup id' := fun id' => Ledger.lookup_insert_apply ..
  have hu : Ledger.total (fun _ stream => stream.outputBytes) (s.streams.insert id stream) = s.unsent :=
    (Ledger.total_insert_new _ hn).trans (by rw [hby]; rfl)
  have hsl : ∀ id', slot { s with
      streams := s.streams.insert id stream
      accepted, ownOpened, peerOpened, peerActive, ownActive } id' =
      if id' = id then some stream else s.slot id' := by
    intro id'
    rw [slot, hl]
    by_cases heq : id' = id
    · rw [if_pos heq, if_pos heq]
    · have hbq : (id' == id) = false := by simpa using heq
      rw [if_neg heq, if_neg heq, ho, hbq, Bool.or_false]
      rfl
  refine ⟨{ hsd with
      stream := ?_, opened := ?_, pending := ?_, queuedSend := ?_, unsent_le := ?_, sent_le := hb.sent_le,
      active := ?_ }, ?_, ?_⟩
  · intro id' found hf
    rw [hl] at hf
    split at hf
    · next heq =>
      cases hf
      rw [heq]
      show StreamBalanced s.options (s.pendingFor id) id stream
      rwa [hp]
    · exact hb.stream id' found hf
  · intro id' hs
    rw [ho]
    rw [hl] at hs
    split at hs
    · next heq => simp [heq]
    · simp [hb.opened id' hs]
  · intro id' hs
    rw [hl]
    split
    · rfl
    · exact hb.pending id' hs
  · exact hb.queuedSend.trans hu.symm
  · exact hu.trans_le hb.unsent_le
  · intro kind
    exact (ha kind).trans (by rw [hb.active]; exact (Ledger.total_insert_new _ hn).symm)
  · exact
      { Quiet.refl s with
        same := fun id' => by
          rw [hsl]
          split
          · next heq => rwa [heq, hslot]
          · exact Same.refl _
        opened := fun id' h => by simp [ho, h]
        ownOpened := how
        handed := congrArg (s.sent + ·) hu.symm }
  · intro id' hs
    rw [hsl]
    split
    · simp
    · exact hs

theorem wasOpened_update {s' : State} {kind isLocal : Bool} {bit : Nat} (hb : bit < 2)
    (hl : ∀ id, id % 2 = bit ↔ s.options.role.opened id = isLocal) (hop : s'.options = s.options)
    (hu : (if isLocal then s'.ownOpened else s'.peerOpened) = update
      (if isLocal then s.ownOpened else s.peerOpened) kind
      ((if isLocal then s.ownOpened else s.peerOpened) kind + 1))
    (ho : (if isLocal then s'.peerOpened else s'.ownOpened) =
      if isLocal then s.peerOpened else s.ownOpened) (id : Nat) :
    s'.wasOpened id = (s.wasOpened id ||
      id == streamId bit kind ((if isLocal then s.ownOpened else s.peerOpened) kind)) := by
  rw [Bool.eq_iff_iff]
  simp only [wasOpened, hop, Bool.or_eq_true, decide_eq_true_eq, beq_iff_eq,
    eq_streamId_iff hb, hl]
  by_cases hid : s.options.role.opened id = isLocal
  · simp only [hid, true_and]
    rw [hu]
    by_cases hk : isUni id = kind
    · simp only [hk, update_self, true_and]
      omega
    · simp only [update_of_ne hk, hk, false_and, or_false]
  have hn : s.options.role.opened id = !isLocal := by
    cases h : s.options.role.opened id <;> cases isLocal <;> simp_all
  have hs : (if s.options.role.opened id = true then s'.ownOpened else s'.peerOpened) =
      if s.options.role.opened id = true then s.ownOpened else s.peerOpened := by
    rw [hn]
    cases isLocal with
    | true | false => exact ho
  simp only [hs, hid, false_and, or_false]

theorem opened_iff (role : Role) (id : Nat) : id % 2 = role.bit ↔ role.opened id = true := by
  simp [Role.opened]

theorem Role.other_opened (role : Role) (id : Nat) : role.other.opened id = !role.opened id := by
  cases role <;> simp only [Role.opened, Role.other, Role.bit] <;> rw [Bool.eq_iff_iff] <;> simp

theorem not_opened_iff (role : Role) (id : Nat) : id % 2 = 1 - role.bit ↔ role.opened id = false := by
  have := role.bit_lt
  simp only [Role.opened, beq_eq_false_iff_ne]
  omega

theorem addOwnStream_keeps (hb : Balanced s) (hr : s.ownOpened uni < s.sendMaxStreams uni) :
    Keeps s (s.addOwnStream uni (streamId s.options.role.bit uni (s.ownOpened uni))) := by
  have hbt := s.options.role.bit_lt
  obtain ⟨hp, hk, hi⟩ := (eq_streamId_iff hbt uni (s.ownOpened uni) _).1 rfl
  have hl := (opened_iff _ _).1 hp
  generalize hid : streamId s.options.role.bit uni (s.ownOpened uni) = id at hl hk hi
  have hn : s.wasOpened id = false := by simp [wasOpened, hl, hk, hi]
  have hbl := newStream_balanced hb.toStanding id
  rw [hl] at hbl
  have ho : ∀ id', (s.addOwnStream uni id).wasOpened id' = (s.wasOpened id' || id' == id) := by
    intro id'
    rw [← hid]
    exact @wasOpened_update s (s.addOwnStream uni _) uni true _ hbt (opened_iff _) rfl rfl rfl id'
  have hu : ∀ kind, s.ownOpened kind ≤ (s.addOwnStream uni id).ownOpened kind ∧
      (s.addOwnStream uni id).ownOpened kind ≤ s.sendMaxStreams kind :=
    fun kind => ⟨le_update_iff.2 ⟨Nat.le_succ _, fun _ _ => Nat.le_refl _⟩ kind,
      update_le_iff.2 ⟨hr, fun kind _ => hb.ownOpened_le kind⟩ kind⟩
  obtain ⟨hbl', hq, -⟩ : Balanced (s.addOwnStream uni id) ∧ Quiet s (s.addOwnStream uni id) ∧ _ := by
    refine create_keeps rfl hb hn
      ⟨{ hbl.send with }, { hbl.recv with }, hbl.sendOnly, hbl.receiveOnly⟩ rfl
      ?_ { hb.toStanding with ownOpened_le := fun kind => (hu kind).2 } ho (fun kind => (hu kind).1) ?_
    · rw [hl]
      exact ⟨rfl, rfl, .inl rfl, .inl rfl⟩
    · intro kind
      simp [peerCount, hl]
  exact ⟨hbl', hq, rfl, rfl⟩

theorem openStream_keeps (hb : Balanced s) (h : s.openStream uni = some (id, s')) : Keeps s s' := by
  unfold openStream at h
  cases hc : s.check with
  | error text => simp [hc] at h
  | ok _ =>
    simp only [hc] at h
    split at h
    · next hr =>
      split at h
      · contradiction
      simp only [Bool.and_eq_true, decide_eq_true_eq] at hr
      obtain ⟨rfl, rfl⟩ := Prod.mk.inj (Option.some.inj h)
      exact (addOwnStream_keeps hb hr.1).ready _
    · contradiction

theorem accept_keeps (hb : Balanced s) (h : s.accept uni = some (id, s')) : Keeps s s' := by
  unfold accept at h
  split at h
  · obtain ⟨-, rfl⟩ := Prod.mk.inj (Option.some.inj h)
    exact .flags hb
  · contradiction

/-! ### The streams of the peer -/

def State.admitPeer (s : State) (kind : Bool) : State :=
  (s.addPeerStream kind (s.peerOpened kind)).withPeerCounts
    (Function.update s.peerOpened kind (s.peerOpened kind + 1))
    (Function.update s.peerActive kind (s.peerActive kind + 1))

theorem addPeerStreams_counts (kind : Bool) (opened active : PerKind Nat) (index count : Nat) (s : State) :
    addPeerStreams kind index count (s.withPeerCounts opened active) =
      (addPeerStreams kind index count s).withPeerCounts opened active := by
  induction count generalizing index s with
  | zero => rfl
  | succ count ih => exact ih (index + 1) (s.addPeerStream kind index)

/-- The loop of `peer_stream` and the two counters after it, one stream at a time. -/
theorem addPeerStreams_eq (kind : Bool) (count : Nat) (s : State) :
    (addPeerStreams kind (s.peerOpened kind) count s).withPeerCounts
      (update s.peerOpened kind (s.peerOpened kind + count))
      (update s.peerActive kind (s.peerActive kind + count)) =
      (admitPeer · kind)^[count] s := by
  induction count generalizing s with
  | zero =>
    rw [Nat.add_zero, Nat.add_zero, update_eq_self, update_eq_self]
    rfl
  | succ count ih =>
    have ho : (s.admitPeer kind).peerOpened kind = s.peerOpened kind + 1 := update_self ..
    have ha : (s.admitPeer kind).peerActive kind = s.peerActive kind + 1 := update_self ..
    rw [iterate_succ_apply, ← ih, ho, ha, admitPeer, addPeerStreams_counts]
    show _ = (addPeerStreams kind (s.peerOpened kind + 1) count
        (s.addPeerStream kind (s.peerOpened kind))).withPeerCounts
      (update (update s.peerOpened kind (s.peerOpened kind + 1)) kind
        (s.peerOpened kind + 1 + count))
      (update (update s.peerActive kind (s.peerActive kind + 1)) kind
        (s.peerActive kind + 1 + count))
    rw [update_idem, update_idem, Nat.add_right_comm, Nat.add_right_comm _ 1 count]
    rfl

theorem admit_keeps (hb : Balanced s) {kind : Bool} (hr : s.peerActive kind < s.streamBudget kind) :
    Balanced (s.admitPeer kind) ∧ Quiet s (s.admitPeer kind) ∧
      ∀ id, s.slot id ≠ none → (s.admitPeer kind).slot id ≠ none := by
  have hbt : 1 - s.options.role.bit < 2 := by omega
  obtain ⟨hp, hk, hi⟩ := (eq_streamId_iff hbt kind (s.peerOpened kind) _).1 rfl
  have hl := (not_opened_iff _ _).1 hp
  generalize hid : streamId (1 - s.options.role.bit) kind (s.peerOpened kind) = id at hl hk hi
  have hn : s.wasOpened id = false := by simp [wasOpened, hl, hk, hi]
  have hbl := newStream_balanced hb.toStanding id
  rw [hl] at hbl
  have ho : ∀ id', (s.admitPeer kind).wasOpened id' = (s.wasOpened id' || id' == id) := by
    intro id'
    rw [← hid]
    exact @wasOpened_update s (s.admitPeer kind) kind false _ hbt (not_opened_iff _) rfl rfl rfl id'
  have hone := @update_peerCount s id hl
  rw [hk] at hone
  have ha : ∀ kind', (s.admitPeer kind).peerActive kind' =
      s.peerActive kind' + peerCount s.options id kind' := hone s.peerActive
  have hs : Standing (s.admitPeer kind) :=
    { hb.toStanding with
      budget := fun kind' => by
        have := hb.budget kind'
        have := ha kind'
        have : (s.admitPeer kind).peerOpened kind' = _ := hone s.peerOpened kind'
        show s.receiveMaxStreams kind' + _ = s.streamBudget kind' + _
        omega
      active_le := fun kind' => by
        have := hb.active_le kind'
        rw [ha]
        show _ ≤ s.streamBudget kind'
        rw [peerCount]
        split
        · next h =>
          rw [← h.2, hk]
          exact hr
        · exact this }
  refine @create_keeps _ { s.newStream id false with grantPending := true } id _ _ _ _ _ _ (by rw [← hid]; rfl) hb hn
    ⟨{ hbl.send with }, { hbl.recv with }, hbl.sendOnly, hbl.receiveOnly⟩ rfl
    ?_ hs ho (fun _ => Nat.le_refl _) ha
  rw [hl]
  exact ⟨rfl, rfl, .inl rfl, .inl rfl⟩

/-- What opening the streams of the peer leaves alone. -/
structure Admits (s s' : State) : Prop where
  balanced : Balanced s'
  quiet : Quiet s s'
  slot : ∀ id, s.slot id ≠ none → s'.slot id ≠ none
  pendingOutput : s'.pendingOutput = s.pendingOutput
  receiveMaxStreams : s'.receiveMaxStreams = s.receiveMaxStreams

theorem Admits.refl (hb : Balanced s) : Admits s s :=
  ⟨hb, .refl s, fun _ h => h, rfl, rfl⟩

theorem admit_iterate (hb : Balanced s) {kind : Bool} {count : Nat}
    (hrm : s.peerActive kind + count ≤ s.streamBudget kind) :
    Admits s ((admitPeer · kind)^[count] s) := by
  induction count generalizing s with
  | zero => exact Admits.refl hb
  | succ count ih =>
    obtain ⟨hbl, hq, hs⟩ := @admit_keeps s hb kind (by omega)
    have ha : (s.admitPeer kind).peerActive kind = s.peerActive kind + 1 := update_self ..
    have hr := ih hbl (by
      rw [ha]
      show _ ≤ s.streamBudget kind
      omega)
    rw [iterate_succ_apply]
    exact { hr with quiet := hq.trans hr.quiet, slot := fun id h => hr.slot id (hs id h) }

/-- **`peer_stream` succeeds** on a stream that has not been reaped, if the peer had the credit to open
it. -/
theorem peerStream_admits (hb : Balanced s) (hsl : s.slot id ≠ none)
    (hc : s.streams.lookup id = none → s.options.role.opened id = false ∧ id / 4 + 1 ≤ s.receiveMaxStreams (isUni id)) :
    ∃ opened s', s.peerStream id = .ok opened s' ∧ Admits s s' ∧ (s'.streams.lookup id).isSome = true ∧
      ∀ kind, s'.peerOpened kind = s.peerOpened kind ∨
        (s.options.role.opened id = false ∧ kind = isUni id ∧ s'.peerOpened kind = id / 4 + 1) := by
  unfold peerStream
  cases hlk : s.streams.lookup id with
  | some stream => exact ⟨false, s, rfl, Admits.refl hb, by rw [hlk]; rfl, fun kind => .inl rfl⟩
  | none =>
    obtain ⟨hl, hm⟩ := hc hlk
    have hn : s.wasOpened id = false := by
      cases ho : s.wasOpened id with
      | false => rfl
      | true => simp [slot, hlk, ho] at hsl
    have hcn : s.peerOpened (isUni id) < id / 4 + 1 := by
      simp only [wasOpened, hl, Bool.false_eq_true, if_false, decide_eq_false_iff_not] at hn
      omega
    have hbd := hb.budget (isUni id)
    have ha : s.options.receiveApplication = true ∧
        s.peerActive (isUni id) + (id / 4 + 1 - s.peerOpened (isUni id)) ≤
          s.options.limits.maxConcurrentStreams (isUni id) := by
      unfold streamBudget at hbd
      split at hbd
      · next ha => exact ⟨ha, by omega⟩
      · omega
    have hi := addPeerStreams_eq (isUni id) (id / 4 + 1 - s.peerOpened (isUni id)) s
    rw [Nat.add_sub_cancel' (Nat.le_of_lt hcn)] at hi
    have had : Admits s ((admitPeer · (isUni id))^[id / 4 + 1 - s.peerOpened (isUni id)] s) := by
      refine admit_iterate hb ?_
      rw [streamBudget, if_pos ha.1]
      exact ha.2
    rw [← hi] at had
    refine ⟨true, _, ?_, had, ?_, ?_⟩
    · simp only [Option.isSome_none, Bool.false_eq_true, if_false, hl]
      rw [if_neg (by omega), if_neg (by omega), if_neg]
      simp only [ha.1, Bool.not_true, Bool.false_or, decide_eq_true_eq]
      omega
    · have hsm := had.slot id hsl
      generalize hs' : withPeerCounts _ _ _ = s' at had hsm
      have hp : s'.peerOpened (isUni id) = id / 4 + 1 := by
        rw [← hs']
        exact update_self ..
      have ho : s'.wasOpened id = true := by
        simp [wasOpened, had.quiet.options, hl, hp]
      cases hf : s'.streams.lookup id with
      | some stream => rfl
      | none => simp [slot, hf, ho] at hsm
    · intro kind
      show update s.peerOpened (isUni id) (id / 4 + 1) kind = s.peerOpened kind ∨ _
      by_cases hk : kind = isUni id
      · exact .inr ⟨hl, hk, by rw [hk]; exact update_self ..⟩
      · exact .inl (update_of_ne hk ..)

end WebTransport
