import OxiBelt.RustStd.Result
import OxiBelt.WebTransport.Delivery
import OxiBelt.WebTransport.Writing

/-!
# Two connected sessions never blame each other

`Agreed` holds of two sessions that have just started (`agreed_start`) and is kept by every step while there is
room (`step_agreed`), with one exception: a request to stop sending on a stream that its sender has already
finished and forgotten is taken for a violation of the protocol (`stop_fails`).
-/

namespace WebTransport

open ByteString (Bytes)
open Capsule List Side Function Transition

/-! ## The two ends -/

/-- What the writer holds and can no longer take back. -/
def Writer.held : Writer → List Capsule
  | .holding (.bytes capsule none) => [capsule]
  | _ => []

/-- What this side has decided to send and the other has not yet read. -/
def Side.pipe (side : Side) : List Capsule := side.channel ++ (side.writer.held ++ side.state.controls)

/-- The writer and the session mean the same selected data. -/
inductive WriterOk (s : State) : Writer → Prop where
  | idle (h : s.pendingOutput = none) : WriterOk s .idle
  | control {capsule : Capsule} (h : s.pendingOutput = none) : WriterOk s (.holding (.bytes capsule none))
  | data {id : Nat} {bytes : Bytes} {fin : Bool} (h : s.pendingOutput = some ⟨id, bytes, fin⟩) :
      WriterOk s (.holding (.bytes (.stream id bytes fin) (some (id, fin))))

variable {s : State}

theorem WriterOk.congr {s' : State} {writer : Writer} (h : WriterOk s writer)
    (hp : s'.pendingOutput = s.pendingOutput) : WriterOk s' writer := by
  cases h with
  | idle h => exact .idle (hp.trans h)
  | control h => exact .control (hp.trans h)
  | data h => exact .data (hp.trans h)

structure Side.Sound (side : Side) : Prop where
  balanced : Balanced side.state
  reading : side.reading = true
  writer : WriterOk side.state side.writer

/-- A step of one side, whatever the other side is. -/
structure Next (side side' : Side) : Prop where
  sound : side'.Sound
  options : side'.state.options = side.state.options
  toPeer : ∀ {y yp}, Link side.state side.pipe y yp → Link side'.state side'.pipe y yp
  fromPeer : ∀ {y yp}, side.state.options.role = y.options.role.other → Link y yp side.state side.pipe →
    Link y yp side'.state side'.pipe

section

variable {side side' : Side}

theorem Next.refl (h : side.Sound) : Next side side := ⟨h, rfl, fun hl => hl, fun _ hl => hl⟩

theorem Next.ite {c : Prop} [Decidable c] (h : side.Sound) (hn : Next side side') :
    Next side (if c then side' else side) := by
  split
  · exact hn
  · exact .refl h

/-- A change that the peer cannot notice. -/
theorem Next.of_quiet (h : side'.Sound) (hq : Quiet side.state side'.state)
    (hpr : side'.state.peerOpened = side.state.peerOpened) (hp : side'.pipe = side.pipe) : Next side side' where
  sound := h
  options := hq.options
  toPeer hl := by
    rw [hp]
    exact hl.quiet_sender hq
  fromPeer _ hl := by
    rw [hp]
    refine hl.quiet_receiver hq ?_
    rw [hpr]
    exact hl.opened

theorem Next.of_emits {capsule : Capsule} (h : side'.Sound) (he : Emits side.state side'.state capsule)
    (hp : side'.pipe = side.pipe ++ [capsule]) : Next side side' where
  sound := h
  options := he.options
  toPeer hl := hp ▸ he.toPeer hl
  fromPeer hr hl := hp ▸ he.fromPeer hr hl

theorem Next.of_calls (h : side.Sound) (hcl : Calls side.state side'.state) (hw : side'.writer = side.writer)
    (hr : side'.reading = side.reading) (hc : side'.channel = side.channel) : Next side side' := by
  have hs : Balanced side'.state → side'.state.pendingOutput = side.state.pendingOutput → side'.Sound := by
    intro hb hp
    refine ⟨hb, hr.trans h.reading, ?_⟩
    rw [hw]
    exact h.writer.congr hp
  rcases hcl with hk | ⟨capsule, he, hcn, hp⟩
  · refine .of_quiet (hs hk.balanced hk.pendingOutput) hk.quiet hk.peerOpened ?_
    rw [pipe, hc, hw, hk.quiet.controls, pipe]
  refine .of_emits (hs he.balanced hp) he ?_
  rw [pipe, hc, hw, hcn, pipe]
  simp only [append_assoc]

theorem call_next (h : side.Sound) (handles : List Nat) (id : Nat) (f : State → State)
    (hc : Calls side.state (f side.state)) : Next side (side.call handles id f) :=
  .ite h (.of_calls h hc rfl rfl rfl)

theorem queueDatagram_keeps (hb : Balanced s) (payload : Bytes) : Keeps s (s.queueDatagram payload) := by
  have hs : Keeps s s := Keeps.flags hb
  unfold State.queueDatagram
  split
  · exact hs
  next hsz =>
    cases s.check with
    | error text => exact hs
    | ok _ =>
      simp only
      split
      · exact
          { balanced := { hb with
              datagram := fun payload' hm => by
                cases hm
                exact Nat.le_of_not_lt hsz }
            quiet := { hs.quiet with }
            peerOpened := rfl
            pendingOutput := rfl }
      · exact hs

theorem readDatagram_keeps (hb : Balanced s) : Keeps s s.readDatagram := by
  unfold State.readDatagram
  cases s.check with
  | error | ok => exact Keeps.flags hb

/-! ## The writer -/

theorem select_next (h : side.Sound) (hrm : side.state.Roomy) (order : List Nat) : Next side (side.select order) := by
  have hb := h.balanced
  unfold select
  cases hw : side.writer with
  | done | holding => exact .refl h
  | idle =>
    have hpn : side.state.pendingOutput = none := by
      have := h.writer
      rw [hw] at this
      cases this
      assumption
    simp only [hb.failure, Option.isSome_none, Bool.false_eq_true, if_false]
    cases hc : side.state.controls with
    | cons capsule rest =>
      have ho : side.state.nextOutput order =
          .ok (some (.bytes capsule none)) { side.state with controls := rest } := by
        simp [State.nextOutput, hpn, hb.finish, hc]
      rw [ho]
      have hp : side.pipe = side.channel ++ ([capsule] ++ rest) := by
        rw [pipe, hw, hc]
        rfl
      have hc' : ∀ capsule' ∈ rest, Capsule.queued capsule' = true := fun capsule' hm =>
        hb.controls capsule' (by rw [hc]; exact mem_cons_of_mem _ hm)
      refine ⟨⟨{ hb with controls := hc' }, h.reading, .control hpn⟩, rfl, ?_, ?_⟩
      · intro y yp hl
        rw [hp] at hl
        exact { hl with }
      intro y yp _ hl
      rw [hp] at hl
      exact { hl with }
    | nil =>
      have hp : side.pipe = side.channel := by
        rw [pipe, hw, hc]
        exact append_nil _
      have hs := nextOutput_selects ⟨hb, hrm, hc, hpn⟩ order
      generalize side.state.nextOutput order = result at hs
      cases hs with
      | nothing hk _ => exact .of_calls h (.quiet hk) hw.symm rfl rfl
      | @control x' capsule he hem hn =>
        refine .of_emits ⟨he.balanced, h.reading, .control hn⟩ he ?_
        rw [pipe, hem, hp]
        rfl
      | data hbl hq hpr hsl =>
        refine .of_quiet ⟨hbl, h.reading, .data hsl⟩ hq hpr ?_
        rw [hp, pipe, hq.controls, hc]
        exact append_nil _

theorem transmit_next (h : side.Sound) (hr : side.state.Roomy) : Next side side.transmit := by
  have hb := h.balanced
  have hw := h.writer
  unfold transmit
  generalize hwr : side.writer = writer at hw
  cases hw with
  | idle hp => exact .refl h
  | @control capsule hp =>
    have ho : side.state.outputIsCancelled none = false := by
      simp [State.outputIsCancelled, hb.failure, hb.finish, hb.ended]
    simp only [ho, Bool.false_eq_true, if_false]
    have hpp : pipe { side with channel := side.channel ++ [capsule], writer := .idle } = side.pipe := by
      rw [pipe, pipe, hwr]
      simp [Writer.held]
    exact .of_quiet ⟨hb, h.reading, .idle hp⟩ (Quiet.refl side.state) rfl hpp
  | @data id bytes fin hp =>
    have hpp : side.pipe = side.channel ++ side.state.controls := by
      rw [pipe, hwr]
      rfl
    simp only
    cases hc : side.state.outputIsCancelled (some (id, fin)) with
    | true =>
      obtain ⟨hbl, hq, hpr, hn⟩ := discard_keeps hb hp hc
      refine .of_quiet ⟨hbl, h.reading, .idle hn⟩ hq hpr ?_
      rw [hpp, pipe]
      simp [Writer.held, hq.controls]
    | false =>
      obtain ⟨x', hcm, hh, hcn, hn⟩ := commit_hands hb hr hp hc
      simp only [Bool.false_eq_true, if_false, hcm]
      have hpp' : pipe { side with
          state := x', channel := side.channel ++ [.stream id bytes fin], writer := .idle } =
          side.channel ++ Capsule.stream id bytes fin :: side.state.controls := by
        rw [pipe]
        simp [Writer.held, hcn]
      refine ⟨⟨hh.balanced, h.reading, .idle hn⟩, hh.options, ?_, ?_⟩
      · intro y yp hl
        rw [hpp']
        rw [hpp] at hl
        exact hh.toPeer hb.controls hl
      · intro y yp _ hl
        rw [hpp']
        rw [hpp] at hl
        exact hh.fromPeer hl

/-! ## The steps of one side -/

theorem act_next (h : side.Sound) (hr : side.state.Roomy) (action : Action) : Next side (side.act action) := by
  have hb := h.balanced
  cases action with
  | openStream uni =>
    show Next side (side.openStream uni)
    unfold openStream
    cases ho : side.state.openStream uni with
    | none => exact .refl h
    | some result => exact .of_calls h (.quiet (openStream_keeps hb ho)) rfl rfl rfl
  | accept uni =>
    show Next side (side.accept uni)
    unfold accept
    cases ha : side.state.accept uni with
    | none => exact .refl h
    | some result => exact .of_calls h (.quiet (accept_keeps hb ha)) rfl rfl rfl
  | write id bytes =>
    exact call_next h _ id (fun s => (SendStream.pollWrite id bytes s).1) (.quiet (pollWrite_keeps hb id bytes))
  | shutdown id =>
    exact call_next h _ id (fun s => (SendStream.pollShutdown id s).1) (.quiet (pollShutdown_keeps hb id))
  | reset id code => exact call_next h _ id (SendStream.reset id code) (.quiet (reset_keeps hb id code))
  | dropSend id => exact .ite h (.of_calls h (.quiet (reset_keeps hb id 0)) rfl rfl rfl)
  | read id capacity =>
    exact call_next h _ id (fun s => (RecvStream.pollRead id capacity s).1) (.quiet (pollRead_keeps hb id capacity))
  | stop id code =>
    exact call_next h _ id (fun s => (RecvStream.stop id code s).state) (stop_calls hb hr id code)
  | dropRecv id => exact .ite h (.of_calls h (stop_calls hb hr id 0) rfl rfl rfl)
  | releaseSend id | releaseRecv id =>
    exact .ite h (.of_calls h (.quiet (release_keeps hb hr.streams id fun _ hs => .streamFlags hb hs)) rfl rfl rfl)
  | sendDatagram payload => exact .of_calls h (.quiet (queueDatagram_keeps hb payload)) rfl rfl rfl
  | readDatagram => exact .of_calls h (.quiet (readDatagram_keeps hb)) rfl rfl rfl
  | drain => exact .of_calls h (drain_calls hb hr) rfl rfl rfl
  | select order => exact .ite h (select_next h hr order)
  | transmit => exact transmit_next h hr
  | deliver size => exact .refl h

end

/-! ## Capsules arrive -/

variable {capsule : Capsule} {limit : Nat}

section

variable {x y : State} {xp yp : List Capsule}

/-- What is in flight says the same when its first capsule arrives in two parts. -/
theorem Link.split {id : Nat} {data : Bytes} {fin : Bool} (count : Nat) (h : Link x (.stream id data fin :: xp) y yp) :
    Link x (.stream id (data.take count) false :: .stream id (data.drop count) fin :: xp) y yp := by
  have hl : data.length = (data.take count).length + (data.drop count).length := by
    rw [← length_append, take_append_drop]
  refine { h with data := fun id' => ?_, total := ?_, proper := ?_ }
  · have hd := h.data id'
    by_cases hid : id = id'
    · simp only [filterMap_cons, dataFor, if_pos hid] at hd ⊢
      rw [hl] at hd
      exact hd.split
    · simp only [filterMap_cons, dataFor, if_neg hid] at hd ⊢
      exact hd
  · have ht := h.total
    simp only [map_cons, sum_cons, size] at ht ⊢
    omega
  · have ho : x.wasOpened id = true := h.proper _ mem_cons_self
    intro capsule hm
    rcases mem_cons.1 hm with rfl | hm
    · exact ho
    rcases mem_cons.1 hm with rfl | hm
    · exact ho
    · exact h.proper capsule (mem_cons_of_mem _ hm)

theorem Link.piece {capsule : Capsule} (size : Nat) (h : Link x (capsule :: xp) y yp) :
    Link x ((capsule.piece size).1 :: ((capsule.piece size).2 ++ xp)) y yp := by
  cases capsule with
  | stream id data fin =>
    simp only [Capsule.piece]
    split
    · exact h
    · exact h.split _
  | _ => exact h

theorem Link.piece_credit (size : Nat) (h : Link y yp x (capsule :: xp)) :
    Link y yp x ((capsule.piece size).1 :: ((capsule.piece size).2 ++ xp)) := by
  cases capsule with
  | stream id data fin =>
    simp only [Capsule.piece]
    split
    · exact h
    · exact h.credit_pipe (fun _ => rfl) rfl (fun _ => rfl)
  | _ => exact h

/-- A stop that the peer has asked for is handed over as it is. -/
theorem eq_of_piece_stop {count id code : Nat} (h : (capsule.piece count).1 = .stopSending id code) :
    capsule = .stopSending id code := by
  cases capsule with
  | stream id' data fin =>
    simp only [Capsule.piece] at h
    split at h <;> contradiction
  | _ => exact h

end

/-! ## Both sides -/

theorem Role.other_other (role : Role) : role.other.other = role := by cases role <;> rfl

theorem Role.other_ne (role : Role) : role.other ≠ role := by cases role <;> decide

/-- **Agreement of the two sides.** -/
structure Agreed (p : Pair) : Prop where
  sound : ∀ role, (p role).Sound
  role : ∀ role, (p role).state.options.role = role
  link : ∀ role, Link (p role).state (p role).pipe (p role.other).state (p role.other).pipe

variable {p : Pair}

theorem Agreed.of_sides {role : Role} {side peer : Side} (ho : p role = side) (hp : p role.other = peer)
    (hs : side.Sound) (hs' : peer.Sound) (hrl : side.state.options.role = role)
    (hrl' : peer.state.options.role = role.other) (hl : Link side.state side.pipe peer.state peer.pipe)
    (hl' : Link peer.state peer.pipe side.state side.pipe) : Agreed p := by
  subst ho hp
  have hr : ∀ r : Role, r = role ∨ r = role.other := by
    intro r
    cases role <;> cases r <;> simp [Role.other]
  refine ⟨fun r => ?_, fun r => ?_, fun r => ?_⟩
  · rcases hr r with rfl | rfl
    · exact hs
    · exact hs'
  · rcases hr r with rfl | rfl
    · exact hrl
    · exact hrl'
  rcases hr r with rfl | rfl
  · exact hl
  · rw [Role.other_other]
    exact hl'

theorem Agreed.failure (h : Agreed p) (role : Role) : (p role).state.failure = none :=
  (h.sound role).balanced.failure

theorem Agreed.roles (h : Agreed p) (role : Role) :
    (p role).state.options.role = (p role.other).state.options.role.other := by
  rw [h.role, h.role, Role.other_other]

theorem act_agreed (h : Agreed p) (role : Role) (hr : (p role).state.Roomy) (action : Action) :
    Agreed (update p role ((p role).act action)) := by
  have hn := act_next (h.sound role) hr action
  have ho : update p role ((p role).act action) role.other = p role.other :=
    update_of_ne role.other_ne _ _
  have hl := h.link role.other
  rw [Role.other_other] at hl
  exact .of_sides (update_self ..) ho hn.sound (h.sound role.other)
    ((congrArg SessionOptions.role hn.options).trans (h.role role)) (h.role role.other) (hn.toPeer (h.link role))
    (hn.fromPeer (h.roles role) hl)

/-- The next capsule asks to stop a stream that its sender has finished and forgotten. -/
def Pair.stopsReaped (p : Pair) : Role × Action → Bool
  | (role, .deliver _) =>
    match (p role.other).channel with
    | .stopSending id _ :: _ => ((p role).state.streams.lookup id).isNone && (p role).state.wasOpened id
    | _ => false
  | _ => false

theorem deliver_agreed (h : Agreed p) (role : Role) (size : Nat) (hrm : (p role).state.Roomy)
    (hst : p.stopsReaped (role, .deliver size) = false) : Agreed (p.deliver role size) := by
  have hs := h.sound role
  have hpr := h.sound role.other
  unfold Pair.deliver
  rw [hs.reading]
  cases hc : (p role.other).channel with
  | nil => exact h
  | cons capsule rest =>
    have hp : (p role.other).pipe =
        capsule :: (rest ++ ((p role.other).writer.held ++ (p role.other).state.controls)) := by
      rw [pipe, hc]
      rfl
    have hf := h.link role.other
    have hto := h.link role
    rw [Role.other_other, hp] at hf
    rw [hp] at hto
    have hlv : ∀ id code, (capsule.piece size).1 = .stopSending id code → (p role).state.slot id ≠ none := by
      intro id code hpc hn
      rw [Pair.stopsReaped, hc, eq_of_piece_stop hpc] at hst
      simp only [State.slot] at hn
      cases hl : (p role).state.streams.lookup id with
      | some stream => simp [hl] at hn
      | none =>
        simp only [hl, Option.isNone_none, Bool.true_and] at hst hn
        simp [hst] at hn
    obtain ⟨s', hrc, hr⟩ := receive_agrees ⟨hpr.balanced, hs.balanced, hf.piece size,
      hto.piece_credit size, by rw [h.role, h.role]⟩ hrm.streams hlv
    have hsd : (p role).receive (capsule.piece size).1 = { p role with state := s' } := by
      rw [receive, hs.balanced.finish, hrc]
      rfl
    simp only [hsd]
    have ho : update (update p role.other
        { p role.other with channel := (capsule.piece size).2 ++ rest }) role { p role with state := s' } role.other =
        { p role.other with channel := (capsule.piece size).2 ++ rest } := by
      rw [update_of_ne role.other_ne, update_self]
    have hp' : pipe { p role with state := s' } = (p role).pipe := by
      rw [pipe, hr.controls, pipe]
    have hlf : pipe { p role.other with channel := (capsule.piece size).2 ++ rest } =
        (capsule.piece size).2 ++ (rest ++ ((p role.other).writer.held ++ (p role.other).state.controls)) := by
      rw [pipe, append_assoc]
    refine .of_sides (update_self ..) ho ⟨hr.balanced, hs.reading, hs.writer.congr hr.pendingOutput⟩
      ⟨hpr.balanced, hpr.reading, hpr.writer⟩ ((congrArg SessionOptions.role hr.options).trans (h.role role))
      (h.role role.other) ?_ ?_
    · rw [hp', hlf]
      exact hr.fromReader
    · rw [hp', hlf]
      exact hr.toReader

/-- **A step keeps the agreement.** -/
theorem step_agreed (h : Agreed p) (hr : p.Roomy) {label : Role × Action} (hs : p.stopsReaped label = false) :
    Agreed (p.step label) := by
  obtain ⟨role, action⟩ := label
  cases action with
  | deliver size => exact deliver_agreed h role size (hr role) hs
  | _ => exact act_agreed h role (hr role) _

/-- A stop for a stream that is gone is a failure of the session. -/
theorem stop_fails (h : Agreed p) {label : Role × Action} (hs : p.stopsReaped label = true) :
    ∃ role, ((p.step label) role).state.failure ≠ none := by
  obtain ⟨role, action⟩ := label
  cases action with
  | deliver size =>
    refine ⟨role, ?_⟩
    have hsn := h.sound role
    unfold Pair.stopsReaped at hs
    simp only at hs
    split at hs
    · next id code rest hc =>
      simp only [Bool.and_eq_true, Option.isNone_iff_eq_none] at hs
      obtain ⟨hg, ho⟩ := hs
      have hp : ∃ failure, (p role).state.peerStream id = .failed failure (p role).state := by
        unfold State.peerStream
        rw [hg]
        simp only [State.wasOpened, decide_eq_true_eq] at ho
        by_cases hl : (p role).state.options.role.opened id = true
        · exact ⟨_, by rw [hl]; rfl⟩
        · rw [if_neg hl] at ho
          exact ⟨_, by simp only [Option.isSome_none, Bool.false_eq_true, if_false, hl]; rw [if_pos (by omega)]⟩
      obtain ⟨failure, hp⟩ := hp
      have hr : (p role).state.receive (.stopSending id code) = .failed failure (p role).state := by
        simp only [State.receive, hsn.balanced.finish, hsn.balanced.remoteClose, hp]
        rfl
      have hsd : ((p role).receive (.stopSending id code)).state.failure = some failure := by
        rw [receive, hsn.balanced.finish, hr]
        rfl
      have hst : (p.step (role, .deliver size)) role = (p role).receive (.stopSending id code) := by
        simp only [Pair.step, Pair.deliver, hsn.reading, hc]
        exact update_self _ _ _
      rw [hst, hsd]
      simp
    · contradiction
  | _ => contradiction

/-! ## The start -/

def firstCredit (limit : Nat) (capsule : Capsule) : List Capsule := if 0 < limit then [capsule] else []

theorem announce_eq {s' : State} (h : s.announce limit capsule = .ok s') :
    s' = { s with controls := s.controls ++ firstCredit limit capsule } := by
  unfold State.announce at h
  unfold firstCredit
  split at h
  · next hl =>
    rw [if_pos hl]
    split at h
    · next s₁ hq =>
      cases h
      unfold State.queueControl at hq
      split at hq
      · contradiction
      split at hq
      · cases hq
        rfl
      · contradiction
    · contradiction
  · next hl =>
    rw [if_neg hl, append_nil]
    cases h
    rfl

/-- The controls of a session that has started. -/
def State.firstControls (s : State) : List Capsule :=
  firstCredit s.receiveMaxData (.maxData s.receiveMaxData) ++
    firstCredit (s.receiveMaxStreams false) (.maxStreams false (s.receiveMaxStreams false)) ++
    firstCredit (s.receiveMaxStreams true) (.maxStreams true (s.receiveMaxStreams true))

theorem start_eq {options : SessionOptions} {peer own : WebTransportSettings}
    (h : State.start options peer own = .ok s) :
    (State.initial options peer own).withinReservation own = true ∧
      s = { State.initial options peer own with controls := (State.initial options peer own).firstControls } := by
  unfold State.start at h
  obtain ⟨-, h⟩ := RustStd.guard_eq_ok.1 h
  obtain ⟨hw, h⟩ := RustStd.guard_eq_ok.1 h
  obtain ⟨s₁, h₁, h⟩ := RustStd.bind_eq_ok.1 h
  obtain ⟨s₂, h₂, h₃⟩ := RustStd.bind_eq_ok.1 h
  rw [announce_eq h₁] at h₂
  rw [announce_eq h₂] at h₃
  exact ⟨by simpa using hw, announce_eq h₃⟩

theorem settingValue_lt (setting : Option UInt32) : settingValue setting < 2 ^ 32 := (setting.getD 0).toNat_lt

theorem firstCredit_mem {capsule' : Capsule} (h : capsule' ∈ firstCredit limit capsule) :
    capsule' = capsule := by
  unfold firstCredit at h
  split at h
  · exact mem_singleton.1 h
  · contradiction

theorem firstControls_mem (h : capsule ∈ s.firstControls) :
    capsule = .maxData s.receiveMaxData ∨ ∃ kind, capsule = .maxStreams kind (s.receiveMaxStreams kind) := by
  rw [State.firstControls, mem_append, mem_append] at h
  rcases h with (h | h) | h
  · exact .inl (firstCredit_mem h)
  · exact .inr ⟨false, firstCredit_mem h⟩
  · exact .inr ⟨true, firstCredit_mem h⟩

theorem firstControls_queued (s : State) : ∀ capsule ∈ s.firstControls, Capsule.queued capsule = true := by
  intro capsule hm
  rcases firstControls_mem hm with rfl | ⟨kind, rfl⟩
  · rfl
  · rfl

theorem raises_firstCredit {given : Nat} (hle : limit ≤ given) {f : Capsule → Option Nat}
    (hf : f capsule = some given) : Raises limit ((firstCredit given capsule).filterMap f) given := by
  have hs : Raises limit [] given := ⟨limit, rfl, hle⟩
  unfold firstCredit
  split
  · rw [filterMap_cons, hf]
    exact hs.send (Nat.le_refl _)
  · exact hs

theorem firstCredit_skip {α : Type} {limit : Nat} {capsule : Capsule} {f : Capsule → Option α} (hf : f capsule = none) :
    (firstCredit limit capsule).filterMap f = [] := by
  unfold firstCredit
  split
  · rw [filterMap_cons, hf]
    rfl
  · rfl

/-- The session of one side before its first credit is queued. -/
def Setup.first (setup : Setup) (role : Role) : State :=
  State.initial (setup.options role) (setup.settings role.other) (setup.settings role)

def Setup.started (setup : Setup) (role : Role) : State :=
  { setup.first role with controls := (setup.first role).firstControls }

section

variable (setup : Setup) (role : Role)

/-- What an end is told of the first credit of a stream is what the settings of its peer say. -/
theorem first_sendStream :
    (setup.first role).initialSendStream = (setup.settings role.other).streamCredits := by
  unfold Setup.first State.initial
  cases hh : (setup.options role).peerStreamLimits with
  | none => rfl
  | some header =>
    obtain ⟨hu, hl, hr⟩ := setup.header role header hh
    simp only
    rw [Nat.max_eq_left hu, Nat.max_eq_left hl, Nat.max_eq_left hr]

theorem started_slot (id : Nat) :
    (setup.started role).slot id = some ((setup.first role).newStream id (role.opened id)) := by
  have ho : (setup.started role).wasOpened id = false := by
    simp only [State.wasOpened, decide_eq_false_iff_not]
    split <;> exact Nat.not_lt_zero _
  have hl : (setup.started role).streams.lookup id = none := AList.lookup_empty id
  rw [State.slot, hl]
  simp only [ho, Bool.false_eq_true, if_false]
  rw [show (setup.started role).options.role = role from setup.role role]
  rfl

theorem receiveMaxStreams_lt (kind : Bool) : (setup.first role).receiveMaxStreams kind < 2 ^ 32 := by
  show (if _ then _ else _) < 2 ^ 32
  split
  · cases kind with
    | true | false => exact UInt32.toNat_lt _
  · omega

theorem sendMaxStreams_lt (kind : Bool) : (setup.first role).sendMaxStreams kind < 2 ^ 32 := by
  show (if _ then _ else _) < 2 ^ 32
  split <;> exact settingValue_lt _

/-- The first credit that an end is told for a stream is below every limit. -/
theorem first_sendMax_lt (id : Nat) (isLocal : Bool) : ((setup.first role).newStream id isLocal).sendMax < 2 ^ 32 := by
  simp only [State.newStream, first_sendStream, WebTransportSettings.streamCredits]
  split_ifs <;> exact settingValue_lt _

theorem started_balanced (hw : (setup.first role).withinReservation (setup.settings role) = true) :
    Balanced (setup.started role) := by
  simp only [State.withinReservation, Bool.and_eq_true, decide_eq_true_eq] at hw
  obtain ⟨⟨⟨-, hu⟩, hl⟩, hrm⟩ := hw
  have he : ∀ id, (setup.started role).streams.lookup id = none := AList.lookup_empty
  refine
    { budget := fun _ => rfl
      active_le := fun _ => Nat.zero_le _
      receiveMaxStreams_le := fun kind => (receiveMaxStreams_lt setup role kind).le.trans (by decide)
      ownOpened_le := fun _ => Nat.zero_le _
      sendMaxStreams_le := fun kind => (sendMaxStreams_lt setup role kind).le.trans (by decide)
      fresh := fun id isLocal => ⟨?_, (first_sendMax_lt setup role id isLocal).le.trans (by decide)⟩
      datagram := fun _ hm => by cases hm
      controls := firstControls_queued _
      failure := rfl
      finish := rfl
      ended := rfl
      closing := rfl
      remoteClose := rfl
      stream := fun id stream hst => by
        rw [he] at hst
        contradiction
      opened := fun id hs => by
        rw [he] at hs
        contradiction
      pending := fun id hs => by
        rw [pendingFor_none rfl] at hs
        contradiction
      queuedSend := rfl
      unsent_le := Nat.le_refl _
      sent_le := Nat.zero_le _
      active := fun _ => rfl }
  simp only [State.newStream]
  split_ifs <;> assumption

theorem started_link (hw : (setup.first role.other).withinReservation (setup.settings role.other) = true) :
    Link (setup.started role) (setup.started role).controls (setup.started role.other)
      (setup.started role.other).controls := by
  simp only [State.withinReservation, Bool.and_eq_true, decide_eq_true_eq] at hw
  obtain ⟨⟨⟨⟨⟨hd, hb⟩, hu⟩, -⟩, -⟩, -⟩ := hw
  have hnc : ∀ id, (setup.started role.other).controls.filterMap (creditFor id) = [] := by
    intro id
    rw [filterMap_eq_nil_iff]
    intro capsule hm
    rcases firstControls_mem hm with rfl | ⟨kind, rfl⟩
    · rfl
    · rfl
  refine
    { data := fun id => ?_
      credit := fun id => ?_
      total := ?_
      maxData := ?_
      maxStreams := fun kind => ?_
      opened := fun _ => Nat.le_refl _
      proper := fun capsule hm => ?_ }
  · have hnd := dataFor_of_queued (firstControls_queued (setup.first role)) id
    rw [show (setup.started role).controls.filterMap (dataFor id) = [] from hnd, started_slot, started_slot,
      Role.other_opened]
    have hdn : ((setup.first role.other).newStream id (!role.opened id)).receiveDone =
        ((setup.first role).newStream id (role.opened id)).sendDone := rfl
    refine ⟨_, rfl, ?_⟩
    rw [inboundOf, outboundOf, hdn]
    split
    · rfl
    · rfl
  · rw [hnc, started_slot, State.credit, started_slot]
    refine ⟨_, rfl, ?_⟩
    split
    · trivial
    refine ⟨?_, fun hf => hf⟩
    simp only [State.newStream, first_sendStream]
    rw [Role.other_opened]
    cases isUni id with
    | true => exact Nat.le_refl _
    | false => cases role.opened id <;> exact Nat.le_refl _
  · have hs : ((setup.started role).controls.map size).sum = 0 := by
      rw [sum_eq_zero]
      intro n hn
      obtain ⟨capsule, hm, rfl⟩ := mem_map.1 hn
      rcases firstControls_mem hm with rfl | ⟨kind, rfl⟩
      · rfl
      · rfl
    rw [hs]
    rfl
  · show Raises _ ((setup.first role.other).firstControls.filterMap dataLimit) _
    rw [State.firstControls, filterMap_append, filterMap_append,
      @firstCredit_skip _ _ (.maxStreams false _) _ rfl, @firstCredit_skip _ _ (.maxStreams true _) _ rfl,
      append_nil, append_nil]
    exact raises_firstCredit hd rfl
  · show Raises _ ((setup.first role.other).firstControls.filterMap (streamsLimit kind)) _
    rw [State.firstControls, filterMap_append, filterMap_append, @firstCredit_skip _ _ (.maxData _) _ rfl,
      nil_append]
    cases kind with
    | true =>
      rw [@firstCredit_skip _ _ (.maxStreams false _) _ rfl, nil_append]
      exact raises_firstCredit hu rfl
    | false =>
      rw [@firstCredit_skip _ _ (.maxStreams true _) _ rfl, append_nil]
      exact raises_firstCredit hb rfl
  · rcases firstControls_mem hm with rfl | ⟨kind, rfl⟩
    · trivial
    · exact (receiveMaxStreams_lt setup role kind).le.trans (by decide)

end

/-- **Two sessions agree when they have started.** -/
theorem agreed_start {setup : Setup} (h : setup.Connects p) : Agreed p := by
  have hst : ∀ role, (setup.first role).withinReservation (setup.settings role) = true ∧
      p role = fresh (setup.started role) := by
    intro role
    obtain ⟨s, hs, hsd⟩ := h role
    obtain ⟨hw, rfl⟩ := start_eq hs
    exact ⟨hw, hsd⟩
  refine ⟨fun role => ?_, fun role => ?_, fun role => ?_⟩
  · rw [(hst role).2]
    exact ⟨started_balanced setup role (hst role).1, rfl, .idle rfl⟩
  · rw [(hst role).2]
    exact setup.role role
  · rw [(hst role).2, (hst role.other).2]
    exact started_link setup role (hst role.other).1

/-! ## Runs -/

/-- There is room, and the step is not a stop of a stream that is gone. -/
def Calm (p : Pair) (label : Role × Action) : Prop := p.Roomy ∧ p.stopsReaped label = false

instance (p : Pair) (label : Role × Action) : Decidable (Calm p label) :=
  inferInstanceAs (Decidable (p.Roomy ∧ p.stopsReaped label = false))

theorem run_agreed {setup : Setup} (h : setup.Connects p) {labels : List (Role × Action)}
    (hc : Along Pair.step Calm p labels) : Agreed (run Pair.step p labels) := by
  have hs : ∀ p label, Agreed p → Calm p label → Agreed (p.step label) :=
    fun _ _ ha hl => step_agreed ha hl.1 hl.2
  exact run_invariant hs (agreed_start h) hc

/-- **The one failure of a pair.**  After any run in which there was room and no stop for a forgotten stream
was read, the next step makes a side record a failure exactly when it reads such a stop. -/
theorem failure_iff_stopsReaped {setup : Setup} {p : Pair} (h : setup.Connects p) (labels : List (Role × Action))
    (hcalm : Along Pair.step Calm p labels) (hroom : (run Pair.step p labels).Roomy)
    (label : Role × Action) :
    (∃ role, ((run Pair.step p labels).step label role).state.failure ≠ none) ↔
      (run Pair.step p labels).stopsReaped label = true := by
  have ha := run_agreed h hcalm
  constructor
  · rintro ⟨role, hf⟩
    by_contra hs
    exact hf ((step_agreed ha hroom (by simpa using hs)).failure role)
  · exact stop_fails ha

/-! ### The race between a stop and the end of a stream -/

def raceOptions (role : Role) : SessionOptions where
  role := role
  limits := ⟨1, 0, 16, 16⟩
  receiveApplication := role == .server
  peerStreamLimits := none

def raceSettings : WebTransportSettings where
  enabled := true
  initialMaxData := none
  initialMaxStreamDataUni := some 16
  initialMaxStreamDataBidiLocal := none
  initialMaxStreamDataBidiRemote := none
  initialMaxStreamsUni := none
  initialMaxStreamsBidi := none

def raceSetup : Setup where
  options := raceOptions
  settings _ := raceSettings
  role _ := rfl
  header _ _ h := by cases h

def racePair : Pair := fun role => Side.fresh (raceSetup.started role)

/-- The client opens stream 2 and the server drops it, so that STOP_SENDING is on its way.  Meanwhile the client
has finished the stream and dropped it as well. -/
def race : List (Role × Action) :=
  [(.server, .select []), (.server, .transmit), (.server, .select []), (.server, .transmit),
   (.client, .deliver 0), (.client, .deliver 0),
   (.client, .openStream true), (.client, .select [2]), (.client, .transmit),
   (.server, .deliver 0), (.server, .accept true), (.server, .dropRecv 2),
   (.client, .shutdown 2), (.client, .select [2]), (.client, .transmit),
   (.client, .dropSend 2), (.client, .releaseSend 2),
   (.server, .select [2]), (.server, .transmit)]

theorem race_connects : raceSetup.Connects racePair := by
  intro role
  refine ⟨raceSetup.started role, ?_, rfl⟩
  cases role with
  | client => rfl
  | server => rfl

theorem stop_after_finish_fails :
    raceSetup.Connects racePair ∧ Along Pair.step Calm racePair race ∧
      ((run Pair.step racePair race).step (.client, .deliver 0) .client).state.failure =
        some (.state "peer referred to unopened local stream") :=
  ⟨race_connects, by decide +kernel, by decide +kernel⟩

theorem failure_iff_stopsReaped_race :
    (∃ role, ((run Pair.step racePair race).step (.server, .deliver 0) role).state.failure ≠ none) ↔
      (run Pair.step racePair race).stopsReaped (.server, .deliver 0) = true :=
  failure_iff_stopsReaped race_connects race (by decide +kernel) (by decide +kernel) (.server, .deliver 0)

/-- **Flow control.**  After any run in which there was room and no stop for a forgotten stream was read, what an end
has sent has arrived, is on its way or waits; it is within the credit that the other end has given, and no stream holds
more than its buffer. -/
theorem flow_controlled {setup : Setup} (h : setup.Connects p) (labels : List (Role × Action))
    (hcalm : Along Pair.step Calm p labels) (role : Role) :
    let sender := run Pair.step p labels role
    let reader := (run Pair.step p labels role.other).state
    reader.received + (sender.pipe.map Capsule.size).sum + sender.state.unsent = sender.state.sent ∧
      sender.state.sent ≤ reader.receiveMaxData ∧
      (∀ kind, sender.state.ownOpened kind ≤ reader.receiveMaxStreams kind) ∧
      ∀ id stream, reader.streams.lookup id = some stream →
        stream.input.flatten.length + stream.inputStaging.length ≤ reader.options.limits.maxStreamBufferBytes ∧
        ∀ outgoing, sender.state.streams.lookup id = some outgoing → sender.state.receiveOnly id = false →
          stream.receiveDone = false → outgoing.sent ≤ stream.receiveMax := by
  intro sender reader
  have ha := run_agreed h hcalm
  have hl := ha.link role
  have hs := (ha.sound role).balanced
  refine ⟨hl.total, hs.sent_le.trans hl.maxData.le, fun kind => (hs.ownOpened_le kind).trans (hl.maxStreams kind).le,
    ?_⟩
  intro id stream hst
  have hb : RecvBalanced reader.options.limits.maxStreamBufferBytes stream :=
    ((ha.sound role.other).balanced.stream id stream hst).recv
  refine ⟨?_, fun outgoing hog hd hdn => ?_⟩
  · have hi := hb.inputBytes
    have hrc := hb.received
    have hle := hb.received_le
    have hrm := hb.room
    omega
  · have hi : inboundOf (reader.slot id) = .receiving stream.received stream.receiveMax := by
      rw [slot_of_lookup hst, inboundOf_receiving hdn]
    exact (hs.stream id outgoing hog).send.sent_le.trans (hl.sendMax_le (slot_of_lookup hog) hd hi)

/-- Of five bytes written on stream 2, two are read, one is on its way and two wait. -/
def writes : List (Role × Action) :=
  race.take 7 ++ [(.client, .write 2 [1, 2, 3]), (.client, .select [2]), (.client, .transmit),
    (.client, .write 2 [4, 5]), (.server, .deliver 2)]

theorem flow_controlled_writes :
    let p := run Pair.step racePair writes
    (p .client).pipe.map Capsule.size = [1] ∧ 2 + 1 + 2 = (p .client).state.sent ∧ (p .client).state.sent ≤ 16 := by
  obtain ⟨htotal, hle, -⟩ := flow_controlled race_connects writes (by decide +kernel) .client
  have hp : ((run Pair.step racePair writes .client).pipe.map Capsule.size) = [1] := by decide +kernel
  rw [hp] at htotal
  exact ⟨hp, htotal, hle⟩

end WebTransport
