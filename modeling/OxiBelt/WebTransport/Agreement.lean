import OxiBelt.WebTransport.Calls

/-!
# Agreement of two sessions

`Link x xp y yp` is what the end `x`, as a sender of data, and the end `y`, as its receiver, agree on, when
`xp` is what `x` has decided to send and `y` has not yet read, and `yp` the same for `y`.  For every stream
the data in `xp` leads from what `y` has received to what `x` has handed over, and the credit in `yp` leads
`x` to no more than what `y` has granted; the same holds for the counters of the session.

The first half of the lemmas is about an end that sends something, the second half about an end that reads
the first capsule of its peer.
-/

namespace WebTransport

open ByteString (Bytes)

/-! ## What a capsule says about what -/

namespace Capsule

def dataFor (id : Nat) : Capsule → Option DataMessage
  | stream id' data fin => if id' = id then some (.data data.length fin) else none
  | resetStream id' _ size => if id' = id then some (.reset size) else none
  | _ => none

def creditFor (id : Nat) : Capsule → Option CreditMessage
  | stopSending id' _ => if id' = id then some .stop else none
  | maxStreamData id' limit => if id' = id then some (.limit limit) else none
  | _ => none

def dataLimit : Capsule → Option Nat
  | maxData limit => some limit
  | _ => none

def streamsLimit (kind : Bool) : Capsule → Option Nat
  | maxStreams uni limit => if uni = kind then some limit else none
  | _ => none

/-- How much stream data the capsule carries. -/
def size : Capsule → Nat
  | stream _ data _ => data.length
  | _ => 0

/-- A capsule that this end may have sent: it names streams that this end has seen opened, and its values
are in range. -/
def Proper (s : State) : Capsule → Prop
  | stream id _ _ => s.wasOpened id = true
  | resetStream id code _ => s.wasOpened id = true ∧ code < 2 ^ 32
  | stopSending id code => s.wasOpened id = true ∧ code < 2 ^ 32
  | maxStreamData id limit => s.wasOpened id = true ∧ limit ≤ varintMax
  | maxStreams _ limit => limit ≤ 2 ^ 60
  | maxData _ | datagram _ | drainSession => True
  | _ => False

end Capsule

open Capsule List

def State.credit (s : State) (id : Nat) : Credit :=
  if s.receiveOnly id then .refused else creditOf (s.slot id)

structure Link (x : State) (xp : List Capsule) (y : State) (yp : List Capsule) : Prop where
  data : ∀ id, Carries (inboundOf (y.slot id)) (xp.filterMap (dataFor id)) (outboundOf (x.slot id))
  credit : ∀ id, Funded (x.credit id) (yp.filterMap (creditFor id)) (grantOf (y.slot id))
  total : y.received + (xp.map size).sum + x.unsent = x.sent
  maxData : Raises x.sendMaxData (yp.filterMap dataLimit) y.receiveMaxData
  maxStreams : ∀ kind, Raises (x.sendMaxStreams kind) (yp.filterMap (streamsLimit kind))
    (y.receiveMaxStreams kind)
  opened : ∀ kind, y.peerOpened kind ≤ x.ownOpened kind
  proper : ∀ capsule ∈ xp, capsule.Proper x

variable {x x' y y' : State} {xp xp' yp yp' : List Capsule}

/-! ## Changes that cannot be noticed -/

variable {capsule : Capsule} {stream stream' : StreamState} {id limit : Nat}

theorem Capsule.Proper.mono (ho : ∀ id, x.wasOpened id = true → x'.wasOpened id = true) (h : capsule.Proper x) :
    capsule.Proper x' := by
  cases capsule with
  | stream id data fin => exact ho id h
  | resetStream id | stopSending id | maxStreamData id => exact ⟨ho id h.1, h.2⟩
  | _ => exact h

/-- A capsule with data of one stream says nothing else. -/
theorem only_data {message : DataMessage} (h : capsule.dataFor id = some message) :
    (∀ id', id' ≠ id → capsule.dataFor id' = none) ∧ (∀ id', capsule.creditFor id' = none) ∧
      capsule.dataLimit = none ∧ ∀ kind, capsule.streamsLimit kind = none := by
  cases capsule with
  | stream | resetStream =>
    obtain ⟨rfl, -⟩ := Option.ite_none_right_eq_some.1 h
    exact ⟨fun id' hn => if_neg hn.symm, fun _ => rfl, rfl, fun _ => rfl⟩
  | _ => simp [dataFor] at h

/-- A capsule on the credit of one stream says nothing else. -/
theorem only_credit {message : CreditMessage} (h : capsule.creditFor id = some message) :
    (∀ id', id' ≠ id → capsule.creditFor id' = none) ∧ (∀ id', capsule.dataFor id' = none) ∧
      capsule.size = 0 ∧ capsule.dataLimit = none ∧ ∀ kind, capsule.streamsLimit kind = none := by
  cases capsule with
  | stopSending | maxStreamData =>
    obtain ⟨rfl, -⟩ := Option.ite_none_right_eq_some.1 h
    exact ⟨fun id' hn => if_neg hn.symm, fun _ => rfl, rfl, rfl, fun _ => rfl⟩
  | _ => simp [creditFor] at h

/-- Credit of a slot that looks the same, or has been reaped. -/
theorem Funded.same {word : List CreditMessage} {grant : Grant} (ho : x'.options = x.options)
    (hs : creditOf (x'.slot id) = creditOf (x.slot id) ∨ x'.slot id = none) (h : Funded (x.credit id) word grant) :
    Funded (x'.credit id) word grant := by
  have hc : x'.receiveOnly id = x.receiveOnly id := by rw [State.receiveOnly, State.receiveOnly, ho]
  unfold State.credit at h ⊢
  rw [hc]
  by_cases hon : x.receiveOnly id = true
  · rwa [if_pos hon] at h ⊢
  rw [if_neg hon] at h ⊢
  rcases hs with heq | hn
  · rwa [heq]
  · rw [hn]
    exact Funded.gone word grant

theorem Funded.grant_same {word : List CreditMessage} {credit : Credit}
    (hs : grantOf (y'.slot id) = grantOf (y.slot id) ∨ y'.slot id = none)
    (h : Funded credit word (grantOf (y.slot id))) : Funded credit word (grantOf (y'.slot id)) := by
  rcases hs with heq | hn
  · rwa [heq]
  · rw [hn]
    exact h.grant_gone

section

variable (h : Link x xp y yp)
include h

/-- A change of the sender that its receiver cannot notice. -/
theorem Link.sender (hop : x'.options = x.options) (ho : ∀ id, outboundOf (x'.slot id) = outboundOf (x.slot id))
    (hc : ∀ id, creditOf (x'.slot id) = creditOf (x.slot id) ∨ x'.slot id = none)
    (hon : ∀ id, x.wasOpened id = true → x'.wasOpened id = true)
    (how : ∀ kind, x.ownOpened kind ≤ x'.ownOpened kind)
    (handed : x'.sent + x.unsent = x.sent + x'.unsent) (hmx : x'.sendMaxData = x.sendMaxData)
    (hm : x'.sendMaxStreams = x.sendMaxStreams) : Link x' xp y yp where
  data id := by
    rw [ho]
    exact h.data id
  credit id := (h.credit id).same hop (hc id)
  total := by
    have := h.total
    omega
  maxData := by
    rw [hmx]
    exact h.maxData
  maxStreams := by
    rw [hm]
    exact h.maxStreams
  opened kind := Nat.le_trans (h.opened kind) (how kind)
  proper capsule hmm := Proper.mono hon (h.proper capsule hmm)

/-- A change of the receiver that its sender cannot notice. -/
theorem Link.receiver (hi : ∀ id, inboundOf (y'.slot id) = inboundOf (y.slot id))
    (hg : ∀ id, grantOf (y'.slot id) = grantOf (y.slot id) ∨ y'.slot id = none)
    (hr : y'.received = y.received) (hmx : y'.receiveMaxData = y.receiveMaxData)
    (hm : ∀ kind, y.receiveMaxStreams kind ≤ y'.receiveMaxStreams kind)
    (ho : ∀ kind, y'.peerOpened kind ≤ x.ownOpened kind) : Link x xp y' yp where
  data id := by
    rw [hi]
    exact h.data id
  credit id := (h.credit id).grant_same (hg id)
  total := by
    rw [hr]
    exact h.total
  maxData := by
    rw [hmx]
    exact h.maxData
  maxStreams kind := (h.maxStreams kind).imp fun _ hf => ⟨hf.1, hf.2.trans (hm kind)⟩
  opened := ho
  proper := h.proper

theorem Link.quiet_sender (hq : Quiet x x') : Link x' xp y yp :=
  h.sender hq.options (fun id => (hq.same id).outbound) (fun id => (hq.same id).credit)
    hq.opened hq.ownOpened hq.handed hq.sendMaxData hq.sendMaxStreams

theorem Link.quiet_receiver (hq : Quiet y y')
    (ho : ∀ kind, y'.peerOpened kind ≤ x.ownOpened kind) : Link x xp y' yp :=
  h.receiver (fun id => (hq.same id).inbound) (fun id => (hq.same id).grant) hq.received
    hq.receiveMaxData hq.receiveMaxStreams ho

theorem Link.keeps_receiver (hk : Keeps y y') : Link x xp y' yp :=
  h.quiet_receiver hk.quiet (hk.peerOpened ▸ h.opened)

/-- What is in flight may change as long as it says the same to the receiver of data. -/
theorem Link.data_pipe (hd : ∀ id, xp'.filterMap (dataFor id) = xp.filterMap (dataFor id))
    (hs : (xp'.map size).sum = (xp.map size).sum) (hp : ∀ capsule ∈ xp', capsule.Proper x) :
    Link x xp' y yp :=
  { h with
    data := fun id => by
      rw [hd]
      exact h.data id
    total := by
      rw [hs]
      exact h.total
    proper := hp }

/-- What is in flight may change as long as it says the same to the sender of data. -/
theorem Link.credit_pipe (hc : ∀ id, yp'.filterMap (creditFor id) = yp.filterMap (creditFor id))
    (hd : yp'.filterMap dataLimit = yp.filterMap dataLimit)
    (hs : ∀ kind, yp'.filterMap (streamsLimit kind) = yp.filterMap (streamsLimit kind)) :
    Link x xp y yp' :=
  { h with
    credit := fun id => by
      rw [hc]
      exact h.credit id
    maxData := by
      rw [hd]
      exact h.maxData
    maxStreams := fun kind => by
      rw [hs]
      exact h.maxStreams kind }

end

/-! ## An end sends something -/

/-- A capsule that says nothing of the kind does not change the word. -/
theorem filterMap_snoc_none {α : Type} {f : Capsule → Option α} (h : f capsule = none) (capsules : List Capsule) :
    (capsules ++ [capsule]).filterMap f = capsules.filterMap f := by
  rw [filterMap_append, filterMap_cons, h, filterMap_nil, append_nil]

theorem dataFor_of_queued {queue : List Capsule} (hq : ∀ capsule ∈ queue, capsule.queued = true) (id : Nat) :
    queue.filterMap (dataFor id) = [] := by
  rw [filterMap_eq_nil_iff]
  intro capsule hm
  have := hq capsule hm
  cases capsule <;> simp_all [queued, dataFor]

/-- A sender never knows of more credit than the receiver has granted. -/
theorem Link.sendMax_le (h : Link x xp y yp) (hst : x.slot id = some stream) (hd : x.receiveOnly id = false)
    {received : Nat} (hi : inboundOf (y.slot id) = .receiving received limit) : stream.sendMax ≤ limit := by
  have hc := h.credit id
  rw [State.credit, hd, hst] at hc
  cases hs : y.slot id with
  | none =>
    rw [hs] at hi
    simp [inboundOf] at hi
  | some receiver =>
    rw [hs] at hi hc
    simp only [inboundOf] at hi
    split at hi
    · contradiction
    · cases hi
      exact hc.limit_le

section Write

variable {received sent queuedSend consumed : Nat}
  {pendingOutput : Option PendingStreamOutput} {readyStreams : List Nat} {receiveGrantPending : Bool}

/-- A write of one stream that its receiver cannot notice. -/
theorem Link.write_sender (h : Link x xp y yp) (hst : x.streams.lookup id = some stream)
    (hsn : sent + stream.outputBytes = x.sent + stream'.outputBytes)
    (ho : outboundOf (some stream') = outboundOf (some stream))
    (hc : creditOf (some stream') = creditOf (some stream)) :
    Link (State.write { x with received } id stream' sent queuedSend consumed pendingOutput readyStreams
      receiveGrantPending) xp y yp := by
  refine h.sender rfl (view_write (by exact hst) ho) (fun id' => .inl (view_write (by exact hst) hc id'))
    (fun _ hid => hid) (fun _ => Nat.le_refl _) ?_ rfl rfl
  have := unsent_insert stream' hst
  show sent + x.unsent = x.sent + Ledger.total _ (x.streams.insert id stream')
  omega

/-- A write of one stream that its sender cannot notice. -/
theorem Link.write_receiver (h : Link x xp y yp) (hst : y.streams.lookup id = some stream)
    (hi : inboundOf (some stream') = inboundOf (some stream)) (hg : grantOf (some stream') = grantOf (some stream)) :
    Link x xp (y.write id stream' sent queuedSend consumed pendingOutput readyStreams receiveGrantPending) yp :=
  h.receiver (view_write hst hi) (fun id' => .inl (view_write hst hg id')) rfl rfl (fun _ => Nat.le_refl _) h.opened

/-- Data or a reset of one stream goes out, before the capsules that are queued. -/
theorem Link.send_data {front queue : List Capsule} {message : DataMessage} (h : Link x (front ++ queue) y yp)
    (hq : ∀ capsule ∈ queue, capsule.queued = true) (hms : capsule.dataFor id = some message)
    (hp : capsule.Proper x) (hdr : x.receiveOnly id = false) (hst : x.streams.lookup id = some stream)
    (hcr : creditOf (some stream') = creditOf (some stream))
    (hc : ∀ inbound word, (∀ received limit, inbound = .receiving received limit → stream.sendMax ≤ limit) →
      Carries inbound word (outboundOf (some stream)) →
      Carries inbound (word ++ [message]) (outboundOf (some stream')))
    (ht : sent + stream.outputBytes = x.sent + stream'.outputBytes + capsule.size) :
    Link (x.write id stream' sent queuedSend consumed pendingOutput readyStreams receiveGrantPending)
      (front ++ capsule :: queue) y yp :=
  { h with
    data := fun id' => by
      have hd := h.data id'
      rw [filterMap_append, dataFor_of_queued hq, append_nil] at hd
      rw [filterMap_append, filterMap_cons, dataFor_of_queued hq, slot_write]
      by_cases hid : id' = id
      · rw [hid, hms, if_pos rfl]
        rw [hid, slot_of_lookup hst] at hd
        exact hc _ _ (fun _ _ hi => h.sendMax_le (slot_of_lookup hst) hdr hi) hd
      · rw [(only_data hms).1 id' hid, if_neg hid, append_nil]
        exact hd
    credit := fun id' => (h.credit id').same (x := x) rfl (.inl (view_write hst hcr id'))
    total := by
      have ht' := h.total
      have hu := unsent_insert stream' hst
      rw [map_append, sum_append] at ht'
      rw [map_append, map_cons, sum_append, sum_cons]
      show y.received + ((front.map size).sum + (capsule.size + (queue.map size).sum)) +
        Ledger.total _ (x.streams.insert id stream') = sent
      omega
    proper := fun capsule' hm => by
      rw [mem_append, mem_cons] at hm
      rcases hm with hm | rfl | hm
      · exact h.proper capsule' (mem_append_left _ hm)
      · exact hp
      · exact h.proper capsule' (mem_append_right _ hm) }

/-- Credit for one stream goes out, or the request to stop it. -/
theorem Link.send_credit {message : CreditMessage} (h : Link x xp y yp) (hms : capsule.creditFor id = some message)
    (hst : y.streams.lookup id = some stream)
    (hi : ∀ word outbound, Carries (inboundOf (some stream)) word outbound →
      Carries (inboundOf (some stream')) word outbound)
    (hf : ∀ word, Funded (x.credit id) word (grantOf (some stream)) →
      Funded (x.credit id) (word ++ [message]) (grantOf (some stream'))) :
    Link x xp (y.write id stream' sent queuedSend consumed pendingOutput readyStreams receiveGrantPending)
      (yp ++ [capsule]) := by
  obtain ⟨ho, -, -, hd, hs⟩ := only_credit hms
  refine { h with
    data := fun id' => ?_, credit := fun id' => ?_, maxData := ?_, maxStreams := fun kind => ?_ }
  · have hdt := h.data id'
    rw [slot_write]
    split
    · next hid =>
      rw [hid, slot_of_lookup hst] at hdt
      rw [hid]
      exact hi _ _ hdt
    · exact hdt
  · have hc := h.credit id'
    rw [slot_write]
    by_cases hid : id' = id
    · rw [filterMap_append, filterMap_cons, hid, hms, if_pos rfl]
      rw [hid, slot_of_lookup hst] at hc
      exact hf _ hc
    · rw [filterMap_snoc_none (ho id' hid), if_neg hid]
      exact hc
  · rw [filterMap_snoc_none hd]
    exact h.maxData
  · rw [filterMap_snoc_none (hs kind)]
    exact h.maxStreams kind

/-! ## An end reads a capsule -/

theorem Link.read_data {message : DataMessage} (h : Link x (capsule :: xp) y yp)
    (hms : capsule.dataFor id = some message) (hst : y.streams.lookup id = some stream)
    (hi : (inboundOf (some stream)).absorb message = some (inboundOf (some stream')))
    (hg : grantOf (some stream') = grantOf (some stream)) :
    Link x xp (State.write { y with received := y.received + capsule.size } id stream' sent queuedSend consumed
      pendingOutput readyStreams receiveGrantPending) yp :=
  { h with
    data := fun id' => by
      have hd := h.data id'
      rw [filterMap_cons] at hd
      rw [slot_write]
      by_cases hid : id' = id
      · rw [hid, hms, slot_of_lookup hst] at hd
        obtain ⟨next, hn, hc⟩ := Carries.cons_iff.1 hd
        cases hi.symm.trans hn
        rwa [if_pos hid, hid]
      · rw [(only_data hms).1 id' hid] at hd
        rw [if_neg hid]
        exact hd
    credit := fun id' => (h.credit id').grant_same (.inl (view_write (by exact hst) hg id'))
    total := by
      have := h.total
      rw [map_cons, sum_cons] at this
      show y.received + capsule.size + _ + _ = _
      omega
    proper := fun capsule' hmm => h.proper capsule' (mem_cons_of_mem _ hmm) }

/-- Credit for one stream arrives, or the request to stop it. -/
theorem Link.read_credit {message : CreditMessage} (h : Link x xp y (capsule :: yp))
    (hms : capsule.creditFor id = some message) (hd : x.receiveOnly id = false)
    (hst : x.streams.lookup id = some stream)
    (hc : (creditOf (some stream)).absorb message = some (creditOf (some stream')))
    (ho : outboundOf (some stream') = outboundOf (some stream))
    (hsn : sent + stream.outputBytes = x.sent + stream'.outputBytes) :
    Link (x.write id stream' sent queuedSend consumed pendingOutput readyStreams receiveGrantPending) xp y yp := by
  obtain ⟨hot, -, -, hdl, hs⟩ := only_credit hms
  refine { h with
    data := fun id' => ?_, credit := fun id' => ?_, total := ?_, maxData := ?_, maxStreams := fun kind => ?_ }
  · rw [view_write hst ho]
    exact h.data id'
  · have hf := h.credit id'
    rw [filterMap_cons] at hf
    rw [State.credit, slot_write]
    by_cases hid : id' = id
    · rw [hid, hms, State.credit, hd, slot_of_lookup hst] at hf
      rw [if_pos hid, hid]
      show Funded (if x.receiveOnly id then Credit.refused else _) _ _
      rw [hd]
      rcases hf.arrives with hg | ⟨_, next, -, hn, hw⟩
      · cases hg
      · cases hc.symm.trans hn
        exact hw
    · rw [hot id' hid] at hf
      rw [if_neg hid]
      exact hf
  · have ht := h.total
    have hu := unsent_insert stream' hst
    show _ + _ + Ledger.total _ (x.streams.insert id stream') = sent
    omega
  · have := h.maxData
    rwa [filterMap_cons, hdl] at this
  · have := h.maxStreams kind
    rwa [filterMap_cons, hs] at this

end Write

/-- Credit arrives for a stream that has been reaped. -/
theorem Link.read_obsolete {message : CreditMessage} (h : Link x xp y (capsule :: yp))
    (hms : capsule.creditFor id = some message) (hdr : x.receiveOnly id = false) (hsl : x.slot id = none) :
    Link x xp y yp := by
  obtain ⟨ho, -, -, hd, hs⟩ := only_credit hms
  exact { h with
    credit := fun id' => by
      by_cases hid : id' = id
      · rw [hid, State.credit, hdr, hsl]
        exact Funded.gone _ _
      · have hf := h.credit id'
        rwa [filterMap_cons, ho id' hid] at hf
    maxData := by
      have := h.maxData
      rwa [filterMap_cons, hd] at this
    maxStreams := fun kind => by
      have := h.maxStreams kind
      rwa [filterMap_cons, hs] at this }

theorem Link.read_maxData (h : Link x xp y (.maxData limit :: yp)) :
    x.sendMaxData ≤ limit ∧ Link { x with sendMaxData := limit } xp y yp := by
  obtain ⟨hle, hr⟩ := h.maxData.arrives
  exact ⟨hle, { h with maxData := hr }⟩

theorem Link.read_maxStreams {uni : Bool} (h : Link x xp y (.maxStreams uni limit :: yp)) :
    x.sendMaxStreams uni ≤ limit ∧
      Link { x with sendMaxStreams := Function.update x.sendMaxStreams uni limit } xp y yp := by
  have hr := h.maxStreams uni
  rw [filterMap_cons, show streamsLimit uni (.maxStreams uni limit) = some limit from if_pos rfl] at hr
  obtain ⟨hle, hr⟩ := hr.arrives
  refine ⟨hle, { h with maxStreams := fun kind => ?_ }⟩
  by_cases hk : kind = uni
  · subst hk
    show Raises (Function.update x.sendMaxStreams kind limit kind) _ _
    rw [Function.update_self]
    exact hr
  have ho := h.maxStreams kind
  rw [filterMap_cons, show streamsLimit kind (.maxStreams uni limit) = none from if_neg (fun heq => hk heq.symm)] at ho
  show Raises (Function.update x.sendMaxStreams uni limit kind) _ _
  rw [Function.update_of_ne hk]
  exact ho

/-! ### The limits of the session go out -/

theorem Link.send_maxData {next : Nat} (h : Link x xp y yp) (hle : y.receiveMaxData ≤ next) :
    Link x xp { y with receiveMaxData := next } (yp ++ [.maxData next]) := by
  refine { h with credit := fun id => ?_, maxData := ?_, maxStreams := fun kind => ?_ }
  · rw [filterMap_snoc_none rfl]
    exact h.credit id
  · rw [filterMap_append]
    exact h.maxData.send hle
  · rw [filterMap_snoc_none rfl]
    exact h.maxStreams kind

theorem Link.send_maxStreams (h : Link x xp y yp) (kind : Bool) :
    Link x xp y (yp ++ [.maxStreams kind (y.receiveMaxStreams kind)]) := by
  refine { h with credit := fun id => ?_, maxData := ?_, maxStreams := fun kind' => ?_ }
  · rw [filterMap_snoc_none rfl]
    exact h.credit id
  · rw [filterMap_snoc_none rfl]
    exact h.maxData
  by_cases hk : kind = kind'
  · subst hk
    have hs := (h.maxStreams kind).send (Nat.le_refl _)
    rwa [filterMap_append, filterMap_cons,
      show streamsLimit kind (.maxStreams kind (y.receiveMaxStreams kind)) = some _ from if_pos rfl]
  · rw [filterMap_snoc_none (if_neg hk)]
    exact h.maxStreams kind'

end WebTransport
