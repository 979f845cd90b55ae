import OxiBelt.WebTransport.Driver
import OxiBelt.WebTransport.StreamPipe

/-!
# The books of a session

`Balanced` is what holds in a session between two calls: for every stream the counters fit the bytes that
are stored and the credit that was given, and the counters of the session fit the streams.

`slot` is the state of a stream, or the one that it will get when it is opened, or nothing once it has been
reaped.  Of a slot the other end can only notice the four views `inboundOf`, `outboundOf`, `creditOf` and
`grantOf`; opening a stream changes none of them.  `Keeps` says that a call keeps the books and that the
other end cannot notice it.
-/

namespace WebTransport

open Ledger

open ByteString (Bytes)

/-! ## Streams -/

/-- The sending half, with the data that the writer has selected. -/
structure SendBalanced (pending : Option PendingStreamOutput) (stream : StreamState) : Prop where
  output : stream.output = []
  staging_le : stream.outputStaging.length ≤ quantum
  requested : stream.resetRequested.isSome = true → stream.outputStaging = [] ∧ stream.outputBytes = 0
  outputBytes : stream.resetRequested = none →
    stream.outputBytes = stream.outputStaging.length + pending.elim 0 (·.bytes.length)
  sent : stream.sent = stream.wireSent + stream.outputBytes
  sent_le : stream.sent ≤ stream.sendMax
  sendMax_le : stream.sendMax ≤ varintMax
  done : stream.sendDone = true →
    stream.outputStaging = [] ∧ stream.resetRequested = none ∧ pending = none
  fin : ∀ selected ∈ pending, selected.fin = true → stream.resetRequested = none →
    stream.outputStaging = [] ∧ stream.finRequested = true
  stopped : stream.stopReceived = true → stream.sendDone = true ∨ stream.resetRequested.isSome = true

structure RecvBalanced (buffer : Nat) (stream : StreamState) : Prop where
  inputBytes : stream.inputBytes = stream.input.flatten.length + stream.inputStaging.length
  received : stream.inputBytes + stream.consumed = stream.received
  received_le : stream.received ≤ stream.receiveMax
  room : stream.receiveMax ≤ stream.consumed + buffer

structure StreamBalanced (options : SessionOptions) (pending : Option PendingStreamOutput) (id : Nat)
    (stream : StreamState) : Prop where
  send : SendBalanced pending stream
  recv : RecvBalanced options.limits.maxStreamBufferBytes stream
  sendOnly : isUni id = true → options.role.opened id = true → stream.receiveFin = true
  receiveOnly : isUni id = true → options.role.opened id = false → stream.sendFin = true

variable {stream : StreamState}

/-! ## Sessions -/

/-- The capsules that are queued and not made when they are sent. -/
def Capsule.queued : Capsule → Bool
  | maxData _ | maxStreams _ _ | stopSending _ _ | drainSession => true
  | _ => false

/-- Whether the stream counts as one of the peer's streams of this kind. -/
def peerCount (options : SessionOptions) (id : Nat) (kind : Bool) : Nat :=
  if options.role.opened id = false ∧ isUni id = kind then 1 else 0

namespace State

variable (s : State)

def pendingFor (id : Nat) : Option PendingStreamOutput := s.pendingOutput.filter (·.id == id)

def unsent : Nat := Ledger.total (fun _ stream => stream.outputBytes) s.streams

def peerStreams (kind : Bool) : Nat :=
  Ledger.total (fun id _ => peerCount s.options id kind) s.streams

def streamBudget (kind : Bool) : Nat :=
  if s.options.receiveApplication then s.options.limits.maxConcurrentStreams kind else 0

end State

/-- Limits and flags that no single stream changes. -/
structure Standing (s : State) : Prop where
  budget : ∀ kind, s.receiveMaxStreams kind + s.peerActive kind = s.streamBudget kind + s.peerOpened kind
  active_le : ∀ kind, s.peerActive kind ≤ s.streamBudget kind
  receiveMaxStreams_le : ∀ kind, s.receiveMaxStreams kind ≤ 2 ^ 60
  ownOpened_le : ∀ kind, s.ownOpened kind ≤ s.sendMaxStreams kind
  sendMaxStreams_le : ∀ kind, s.sendMaxStreams kind ≤ 2 ^ 60
  fresh : ∀ id isLocal, (s.newStream id isLocal).receiveMax ≤ s.options.limits.maxStreamBufferBytes ∧
    (s.newStream id isLocal).sendMax ≤ varintMax
  datagram : ∀ payload ∈ s.sendDatagram, payload.length ≤ maxDatagram
  controls : ∀ capsule ∈ s.controls, capsule.queued = true
  failure : s.failure = none
  finish : s.finish = false
  ended : s.ended = false
  closing : s.closing = none
  remoteClose : s.remoteClose = none

structure Balanced (s : State) : Prop extends Standing s where
  stream : ∀ id stream, s.streams.lookup id = some stream →
    StreamBalanced s.options (s.pendingFor id) id stream
  opened : ∀ id, (s.streams.lookup id).isSome = true → s.wasOpened id = true
  pending : ∀ id, (s.pendingFor id).isSome = true → (s.streams.lookup id).isSome = true
  queuedSend : s.queuedSend = s.unsent
  unsent_le : s.unsent ≤ s.sent
  sent_le : s.sent ≤ s.sendMaxData
  active : ∀ kind, s.peerActive kind = s.peerStreams kind

/-! ## What the other end can notice -/

/-- The stream as it is, or as it will be when it is opened; nothing once it has been reaped. -/
def State.slot (s : State) (id : Nat) : Option StreamState :=
  match s.streams.lookup id with
  | some stream => some stream
  | none => if s.wasOpened id then none else some (s.newStream id (s.options.role.opened id))

def inboundOf : Option StreamState → Inbound
  | none => .closed
  | some stream => if stream.receiveDone then .closed else .receiving stream.received stream.receiveMax

def outboundOf : Option StreamState → Outbound
  | none => .closed
  | some stream => if stream.sendDone then .closed else .sending stream.wireSent

def creditOf : Option StreamState → Credit
  | none => .gone
  | some stream => .live stream.sendMax stream.stopReceived

def grantOf : Option StreamState → Grant
  | none => none
  | some stream => some (stream.receiveMax, stream.stopSent)

theorem inboundOf_receiving (h : stream.receiveDone = false) :
    inboundOf (some stream) = .receiving stream.received stream.receiveMax := by
  rw [inboundOf, h]
  rfl

/-- The slot looks the same to the other end, or has been reaped after both halves were done. -/
structure Same (a b : Option StreamState) : Prop where
  inbound : inboundOf b = inboundOf a
  outbound : outboundOf b = outboundOf a
  credit : creditOf b = creditOf a ∨ b = none
  grant : grantOf b = grantOf a ∨ b = none

theorem Same.refl (a : Option StreamState) : Same a a := ⟨rfl, rfl, .inl rfl, .inl rfl⟩

theorem Same.trans {a b c : Option StreamState} (h : Same a b) (h' : Same b c) : Same a c where
  inbound := h'.inbound.trans h.inbound
  outbound := h'.outbound.trans h.outbound
  credit := by
    rcases h'.credit with hc | hc
    · exact h.credit.imp hc.trans fun hb => by cases c <;> simp_all [creditOf]
    · exact .inr hc
  grant := by
    rcases h'.grant with hc | hc
    · exact h.grant.imp hc.trans fun hb => by cases c <;> simp_all [grantOf]
    · exact .inr hc

/-- The other end cannot notice the change from `s` to `s'`. -/
structure Quiet (s s' : State) : Prop where
  options : s'.options = s.options
  same : ∀ id, Same (s.slot id) (s'.slot id)
  opened : ∀ id, s.wasOpened id = true → s'.wasOpened id = true
  ownOpened : ∀ kind, s.ownOpened kind ≤ s'.ownOpened kind
  handed : s'.sent + s.unsent = s.sent + s'.unsent
  sendMaxData : s'.sendMaxData = s.sendMaxData
  sendMaxStreams : s'.sendMaxStreams = s.sendMaxStreams
  received : s'.received = s.received
  receiveMaxData : s'.receiveMaxData = s.receiveMaxData
  receiveMaxStreams : ∀ kind, s.receiveMaxStreams kind ≤ s'.receiveMaxStreams kind
  controls : s'.controls = s.controls

theorem Quiet.refl (s : State) : Quiet s s :=
  ⟨rfl, fun _ => Same.refl _, fun _ hid => hid, fun _ => Nat.le_refl _, rfl, rfl, rfl, rfl, rfl,
    fun _ => Nat.le_refl _, rfl⟩

theorem Quiet.trans {s s' s'' : State} (h : Quiet s s') (h' : Quiet s' s'') : Quiet s s'' where
  options := h'.options.trans h.options
  same id := (h.same id).trans (h'.same id)
  opened id hid := h'.opened id (h.opened id hid)
  ownOpened kind := Nat.le_trans (h.ownOpened kind) (h'.ownOpened kind)
  handed := by
    have := h.handed
    have := h'.handed
    omega
  sendMaxData := h'.sendMaxData.trans h.sendMaxData
  sendMaxStreams := h'.sendMaxStreams.trans h.sendMaxStreams
  received := h'.received.trans h.received
  receiveMaxData := h'.receiveMaxData.trans h.receiveMaxData
  receiveMaxStreams kind := Nat.le_trans (h.receiveMaxStreams kind) (h'.receiveMaxStreams kind)
  controls := h'.controls.trans h.controls

/-- A call keeps the books, and the other end cannot notice it. -/
structure Keeps (s s' : State) : Prop where
  balanced : Balanced s'
  quiet : Quiet s s'
  peerOpened : s'.peerOpened = s.peerOpened
  pendingOutput : s'.pendingOutput = s.pendingOutput

theorem Keeps.trans {s s' s'' : State} (h : Keeps s s') (h' : Keeps s' s'') : Keeps s s'' where
  balanced := h'.balanced
  quiet := h.quiet.trans h'.quiet
  peerOpened := h'.peerOpened.trans h.peerOpened
  pendingOutput := h'.pendingOutput.trans h.pendingOutput

/-! ## Changes of one stream -/

/-- The session after one stream has been written, with the counters and flags that go with it. -/
abbrev State.write (s : State) (id : Nat) (stream : StreamState) (sent queuedSend consumed : Nat)
    (pendingOutput : Option PendingStreamOutput) (readyStreams : List Nat) (receiveGrantPending : Bool) : State :=
  { s with
    streams := s.streams.insert id stream
    sent, queuedSend, consumed, pendingOutput, readyStreams, receiveGrantPending }

section

variable {s : State} {stream' : StreamState} {id sent queuedSend consumed : Nat}
  {pendingOutput : Option PendingStreamOutput} {readyStreams : List Nat} {receiveGrantPending : Bool}

theorem lookup_write (id' : Nat) :
    (s.write id stream sent queuedSend consumed pendingOutput readyStreams receiveGrantPending).streams.lookup id' =
      if id' = id then some stream else s.streams.lookup id' :=
  lookup_insert_apply ..

theorem slot_write (id' : Nat) :
    (s.write id stream sent queuedSend consumed pendingOutput readyStreams receiveGrantPending).slot id' =
      if id' = id then some stream else s.slot id' := by
  rw [State.slot, lookup_write]
  by_cases hid : id' = id
  · rw [if_pos hid, if_pos hid]
  · rw [if_neg hid, if_neg hid]
    rfl

theorem slot_of_lookup (h : s.streams.lookup id = some stream) : s.slot id = some stream := by
  rw [State.slot, h]

theorem view_write {α : Type} {view : Option StreamState → α} (hst : s.streams.lookup id = some stream)
    (hv : view (some stream') = view (some stream)) (id' : Nat) :
    view ((s.write id stream' sent queuedSend consumed pendingOutput readyStreams receiveGrantPending).slot id') =
      view (s.slot id') := by
  rw [slot_write]
  split
  · next hid => rw [hid, slot_of_lookup hst, hv]
  · rfl

theorem unsent_insert (stream' : StreamState) (hst : s.streams.lookup id = some stream) :
    total (fun _ stream => stream.outputBytes) (s.streams.insert id stream') + stream.outputBytes =
      s.unsent + stream'.outputBytes :=
  total_insert_add _ hst

/-- The books after one stream has been written. -/
theorem Balanced.touch (hb : Balanced s) (hst : s.streams.lookup id = some stream)
    (hp : ∀ id', id' ≠ id → pendingOutput.filter (·.id == id') = s.pendingFor id')
    (hbl : StreamBalanced s.options (pendingOutput.filter (·.id == id)) id stream')
    (hq : queuedSend + stream.outputBytes = s.queuedSend + stream'.outputBytes)
    (hsn : s.sent + stream'.outputBytes ≤ sent + stream.outputBytes) (hm : sent ≤ s.sendMaxData) :
    Balanced (s.write id stream' sent queuedSend consumed pendingOutput readyStreams receiveGrantPending) := by
  have hu := unsent_insert stream' hst
  refine { hb with
    stream := ?_, opened := ?_, pending := ?_, queuedSend := ?_, unsent_le := ?_, sent_le := hm, active := ?_ }
  · intro id' found hf
    rw [lookup_write] at hf
    split at hf
    · next hid =>
      cases hf
      rw [hid]
      exact hbl
    · next hid =>
      have ho := hb.stream id' found hf
      rwa [← hp id' hid] at ho
  · intro id' hsm
    rw [lookup_write] at hsm
    split at hsm
    · next hid => exact hb.opened id' (by rw [hid, hst]; rfl)
    · exact hb.opened id' hsm
  · intro id' hsm
    rw [lookup_write]
    split
    · rfl
    · next hid =>
      refine hb.pending id' ?_
      rwa [← hp id' hid]
  · have := hb.queuedSend
    show queuedSend = total _ (s.streams.insert id stream')
    omega
  · have := hb.unsent_le
    show total _ (s.streams.insert id stream') ≤ sent
    omega
  · intro kind
    have ht := @total_insert_add _ _ _ _ _ _ stream' (fun id _ => peerCount s.options id kind) hst
    have ha : s.peerActive kind = total (fun id _ => peerCount s.options id kind) s.streams := hb.active kind
    show s.peerActive kind = total (fun id _ => peerCount s.options id kind) (s.streams.insert id stream')
    omega

/-- A change of one stream that the other end cannot notice. -/
theorem Quiet.touch (hst : s.streams.lookup id = some stream) (hsm : Same (some stream) (some stream'))
    (hsn : sent + stream.outputBytes = s.sent + stream'.outputBytes) :
    Quiet s (s.write id stream' sent queuedSend consumed pendingOutput readyStreams receiveGrantPending) :=
  { Quiet.refl s with
    same := fun id' => by
      rw [slot_write]
      split
      · next hid => rwa [hid, slot_of_lookup hst]
      · exact Same.refl _
    handed := by
      have := unsent_insert stream' hst
      show sent + s.unsent = s.sent + total _ (s.streams.insert id stream')
      omega }

/-- A call that changes one stream and leaves the selected data alone. -/
theorem Keeps.touch (hb : Balanced s) (hst : s.streams.lookup id = some stream)
    (hbl : StreamBalanced s.options (s.pendingFor id) id stream') (hsm : Same (some stream) (some stream'))
    (hq : queuedSend + stream.outputBytes = s.queuedSend + stream'.outputBytes)
    (hsn : sent + stream.outputBytes = s.sent + stream'.outputBytes) (hm : sent ≤ s.sendMaxData) :
    Keeps s (s.write id stream' sent queuedSend consumed s.pendingOutput readyStreams receiveGrantPending) where
  balanced := hb.touch hst (fun _ _ => rfl) hbl hq (Nat.le_of_eq hsn.symm) hm
  quiet := Quiet.touch hst hsm hsn
  peerOpened := rfl
  pendingOutput := rfl

/-- A call that changes what the books do not look at. -/
theorem Keeps.flags {accepted : PerKind (List Nat)} {receiveDatagram : Option Bytes} {draining : Bool}
    {streamsGrantPending : PerKind Bool} (hb : Balanced s) :
    Keeps s { s with
      accepted, consumed, receiveDatagram, readyStreams, draining, receiveGrantPending, streamsGrantPending } where
  balanced := { hb with }
  quiet := { Quiet.refl s with }
  peerOpened := rfl
  pendingOutput := rfl

theorem Keeps.streamFlags {ready readHandle writeHandle grantPending : Bool} (hb : Balanced s)
    (hst : s.streams.lookup id = some stream) :
    Keeps s (s.write id { stream with ready, readHandle, writeHandle, grantPending } s.sent s.queuedSend consumed
      s.pendingOutput readyStreams receiveGrantPending) := by
  have hbl := hb.stream id stream hst
  exact .touch hb hst ⟨{ hbl.send with }, { hbl.recv with }, hbl.sendOnly, hbl.receiveOnly⟩
    ⟨rfl, rfl, .inl rfl, .inl rfl⟩ rfl rfl hb.sent_le

end

end WebTransport
