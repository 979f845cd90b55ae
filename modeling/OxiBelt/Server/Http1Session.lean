import OxiBelt.Server.Http1Ideal
import OxiBelt.Lib.Transition

/-!
# The framing guard over a whole connection

A session is a guard with its socket and a record of what came out.  Segments arrive, the peer closes
its side, and the parser polls with whatever room it has.

* `run_outcome`: a session whose polls have room comes to what `ideal` says.
* `reference_outcome`: so does a session that gets the stream in one read and has room for all of it.
* `outcome_split_independent`: hence the cutting of the stream and the room do not show.
-/

namespace Http1

open RustStd ByteString Feed Transition List Guard

structure Session where
  guard : Guard
  socket : Socket
  delivered : Bytes
  fed : Bytes
  /-- Bytes handed on of the chunked body at hand. -/
  bodyDelivered : Nat
  /-- The last poll, if nothing arrived since. -/
  last : Option Poll

inductive Event where
  | arrive (segment : { bytes : Bytes // bytes ≠ [] })
  | close
  | poll (room : ℕ+) (writable : Nat)

def Session.new (maxHeaderBytes : Nat) : Session where
  guard := .new maxHeaderBytes
  socket := { segments := [], closed := false }
  delivered := []
  fed := []
  bodyDelivered := 0
  last := none

/-- The bytes of a chunked body that have been handed on stay counted while the body lasts. -/
def countBody (before after : ReadState) (count : Nat) : Nat :=
  match before, after with
  | .chunkedBody _, .chunkedBody _ => count
  | _, _ => 0

variable (session : Session)

def Session.step : Event → Session
  | .arrive segment =>
    if session.socket.closed then session
    else { session with
      socket := { session.socket with segments := session.socket.segments ++ [segment] }
      last := none }
  | .close => { session with socket := { session.socket with closed := true }, last := none }
  | .poll room writable =>
    let polled := pollRead session.guard session.socket room writable
    { guard := polled.guard
      socket := polled.socket
      delivered := session.delivered ++ polled.poll.bytes
      fed := session.fed ++ polled.fed
      bodyDelivered := countBody session.guard.state polled.guard.state
        (session.bodyDelivered + polled.poll.bytes.length)
      last := some polled.poll }

/-- The last poll came to nothing: it would block, or the stream is over. -/
def Session.exhausted : Bool := session.last.any fun poll => poll.bytes.isEmpty

def Session.outcome : Outcome where
  delivered := session.delivered
  fed := session.fed
  verdict := verdictOf session.guard.state (session.last.getD .pending)

def arriving : Bool → List Event → Bytes
  | _, [] => []
  | closed, .arrive segment :: events =>
    if closed then arriving closed events else segment.val ++ arriving closed events
  | _, .close :: events => arriving true events
  | closed, .poll _ _ :: events => arriving closed events

def closing : Bool → List Event → Bool
  | closed, [] => closed
  | closed, .arrive _ :: events => closing closed events
  | _, .close :: events => closing true events
  | closed, .poll _ _ :: events => closing closed events

/-- A poll in a chunked body has room for every byte that the decoder takes, and the decoder finds no
fault with a body of which a part has been handed on. -/
def Accommodates : Event → Prop
  | .poll room _ =>
    Fits session.guard session.socket room ∧
      ∀ decoder input, feedOf session.guard session.socket = some (decoder, input) →
        session.bodyDelivered ≠ 0 → (decoder.consume input).2 ≠ .inl .invalid
  | _ => True

/-- Both parts of the condition as one property of the bytes that the poll gives to the decoder. -/
theorem accommodates_poll (room : ℕ+) (writable : Nat) : Accommodates session (.poll room writable) ↔
      ∀ fed ∈ feedOf session.guard session.socket,
        ((fed.1.consume fed.2).2 ≠ .inl .invalid → (fed.1.consume fed.2).1 ≤ room) ∧
          (session.bodyDelivered ≠ 0 → (fed.1.consume fed.2).2 ≠ .inl .invalid) := by
  constructor
  · rintro ⟨hft, hv⟩ ⟨decoder, input⟩ hf
    exact ⟨hft decoder input hf, hv decoder input hf⟩
  intro h
  exact ⟨fun decoder input hf => (h (decoder, input) hf).1, fun decoder input hf => (h (decoder, input) hf).2⟩

instance (session : Session) : ∀ event, Decidable (Accommodates session event)
  | .arrive _ => inferInstanceAs (Decidable True)
  | .close => inferInstanceAs (Decidable True)
  | .poll room writable => decidable_of_iff' _ (accommodates_poll session room writable)

/-- Polls until one comes to nothing, at most that many. -/
def Session.drain (room : ℕ+) : Nat → Session → Session
  | 0, session => session
  | polls + 1, session =>
    let session := session.step (.poll room 0)
    if session.exhausted then session else session.drain room polls

def wholeStream (stream : Bytes) : List { bytes : Bytes // bytes ≠ [] } :=
  if h : stream = [] then [] else [⟨stream, h⟩]

/-- The stream arrives in one read and is taken with room for all of it. -/
def reference (maxHeaderBytes : Nat) (stream : Bytes) (closed : Bool) : Outcome :=
  let session : Session := { Session.new maxHeaderBytes with
    socket := { segments := wholeStream stream, closed } }
  (session.drain stream.length.succPNat (stream.length + 1)).outcome

/-! ## A poll in a chunked body -/

section Chunked

variable {guard : Guard} {socket : Socket} {room writable : Nat} {decoder : ChunkDecoder} {input : Bytes}

theorem pollLoop_rejecting (rejection : Rejection) (rounds : Nat) :
    ∀ decoder, (pollLoop room writable (rounds + 1) (guard.beginRejection rejection) socket).guard.state ≠
      .chunkedBody decoder := by
  intro decoder
  rw [pollLoop]
  simp only [turn, beginRejection, pollRejection]
  by_cases hd : rejection.response.length ≤ writable <;> simp [hd]

/-- What a poll that feeds the decoder comes to. -/
structure FedSpec (decoder : ChunkDecoder) (input : Bytes) (socket : Socket) (polled : Polled) : Prop where
  waiting : ∀ decoder', (decoder.consume input).2 = .inr decoder' →
    polled.guard.state = .chunkedBody decoder' ∧ polled.guard.available = [] ∧ polled.socket = socket
  stopped : ∀ stop, (decoder.consume input).2 = .inl stop →
    ∀ decoder', polled.guard.state ≠ .chunkedBody decoder'

theorem pollLoop_fed (hs : guard.state = .chunkedBody decoder) (hne : guard.available ≠ [])
    (hf : (decoder.consume guard.available).2 ≠ .inl .invalid →
      (decoder.consume guard.available).1 ≤ room) (rounds : Nat) :
    FedSpec decoder guard.available socket (pollLoop room writable (rounds + 2) guard socket) := by
  cases hc : decoder.consume guard.available with
  | mk consumed result =>
    rw [hc] at hf
    rw [pollLoop]
    cases result with
    | inr decoder' =>
      have hr : consumed ≤ room := hf (by simp)
      have ha : (decoder.consume guard.available).1 = guard.available.length := feed_waiting (congrArg Prod.snd hc)
      rw [hc] at ha
      simp only [turn, hs, turnChunked, if_neg hne, hc]
      constructor
      · intro decoder'' hsm
        rw [hc] at hsm
        cases hsm
        refine ⟨rfl, ?_, rfl⟩
        show (guard.buffer.consumeInto room consumed).2.available = []
        rw [ReadBuffer.consumeInto_available, Nat.min_eq_right hr]
        exact drop_eq_nil_of_le ha.ge
      · intro stop hst
        rw [hc] at hst
        cases hst
    | inl stop =>
      have hn : ∀ decoder', (decoder.consume guard.available).2 ≠ .inr decoder' := by
        intro decoder' h
        rw [hc] at h
        cases h
      cases stop with
      | complete =>
        simp only [turn, hs, turnChunked, if_neg hne, hc]
        exact ⟨fun decoder' h => absurd h (hn decoder'), fun _ _ _ h => by cases h⟩
      | invalid =>
        simp only [turn, hs, turnChunked, if_neg hne, hc]
        exact ⟨fun decoder' h => absurd h (hn decoder'),
          fun _ _ decoder' => pollLoop_rejecting .badRequest rounds decoder'⟩

theorem turn_unfed (hst : guard.state = .chunkedBody decoder) (hn : guard.available = []) :
    turn guard room writable = .fill guard := by
  simp only [turn, hst, turnChunked, hn, if_true]

/-- A poll that gives bytes to the decoder: the rest of the stream follows them. -/
theorem pollRead_fed (hft : Fits guard socket room) (hf : feedOf guard socket = some (decoder, input)) :
    guard.state = .chunkedBody decoder ∧
    ∃ socket' : Socket, guard.available ++ socket.unread = input ++ socket'.unread ∧
      (socket.segments = [] → socket'.segments = []) ∧
      FedSpec decoder input socket' (pollRead guard socket room writable) := by
  have hr := hft decoder input hf
  obtain ⟨hst, ⟨hne, rfl⟩ | ⟨hn, segment, segments, hs, rfl⟩⟩ := feedOf_eq_some hf
  · exact ⟨hst, socket, rfl, id, pollLoop_fed hst hne hr _⟩
  refine ⟨hst, { socket with segments }, ?_, (by rw [hs]; intro h; cases h), ?_⟩
  · simp only [hn, Socket.unread, hs, flatMap_cons, nil_append]
  have he := available_extend hn segment.val
  have hsp := @pollLoop_fed { guard with buffer := guard.buffer.extend segment.val }
    { socket with segments } room writable decoder hst (by rw [he]; exact segment.property)
    (by rw [he]; exact hr) (segments.length + 2)
  rw [he] at hsp
  rw [pollRead, pollLoop_fill (turn_unfed hst hn) hs, hs]
  exact hsp

/-- Without bytes for the decoder, a poll in a chunked body changes nothing. -/
theorem pollRead_unfed (hst : guard.state = .chunkedBody decoder) (hf : feedOf guard socket = none) :
    guard.available = [] ∧ socket.segments = [] ∧
      (pollRead guard socket room writable).guard = guard ∧
      (pollRead guard socket room writable).socket = socket := by
  simp only [feedOf, hst] at hf
  split at hf
  · cases hf
  next hn =>
  have hn : guard.available = [] := by simpa using hn
  have hs : socket.segments = [] := by
    rw [Option.map_eq_none_iff, head?_eq_none_iff] at hf
    exact hf
  refine ⟨hn, hs, ?_⟩
  rw [pollRead, pollLoop_drained (turn_unfed hst hn) hs]
  by_cases hc : socket.closed = true
  · simp [hc, hn]
  · simp [hc]

end Chunked

/-! ## A session and the ideal -/

/-- The guard is in order, and a poll that came to nothing leaves nothing to be had. -/
structure Session.Sound (session : Session) : Prop where
  guard : session.guard.Sound
  quiet : session.exhausted = true →
    session.guard.ideal session.socket.closed session.socket.unread =
      ⟨[], [], verdictOf session.guard.state (session.last.getD .pending)⟩

theorem Session.Sound.poll {session : Session} (h : session.Sound) {room : ℕ+} (writable : Nat)
    (hf : Fits session.guard session.socket room) : (session.step (.poll room writable)).Sound := by
  have hs : PollSpec _ _ (pollRead session.guard session.socket room writable) := pollRead_spec h.guard room.pos hf
  refine ⟨hs.sound, fun he => ?_⟩
  have hn : (pollRead session.guard session.socket room writable).poll.bytes = [] := by
    simpa [Session.step, Session.exhausted] using he
  have hq := hs.quiet hn
  rw [← hs.closed] at hq
  exact hq

theorem Session.Sound.step {session : Session} (h : session.Sound) {event : Event}
    (hok : Accommodates session event) : (session.step event).Sound := by
  cases event with
  | arrive segment =>
    rw [Session.step]
    split
    · exact h
    · exact ⟨h.guard, fun he => by cases he⟩
  | close => exact ⟨h.guard, fun he => by cases he⟩
  | poll room writable => exact h.poll writable hok.1

theorem arriving_closed (events : List Event) : arriving true events = [] ∧ closing true events = true := by
  induction events with
  | nil => exact ⟨rfl, rfl⟩
  | cons event events ih => cases event <;> simpa [arriving, closing] using ih

/-- The decoder finds no fault with what is left of a body of which a part has been handed on. -/
def Session.Faultless (rest : Bytes) : Prop :=
  session.bodyDelivered ≠ 0 → ∀ decoder, session.guard.state = .chunkedBody decoder →
    (decoder.consume (session.guard.available ++ (session.socket.unread ++ rest))).2 ≠ .inl .invalid

/-- A session at rest within a chunked body waits for more of it. -/
theorem Session.faultless_of_exhausted {session : Session} (h : session.Sound)
    (he : session.exhausted = true) : session.Faultless [] := by
  intro _ decoder hs hi
  have hq := h.quiet he
  rw [append_nil] at hi
  have hc : decoder.consume (session.guard.available ++ session.socket.unread) = (_, .inl .invalid) := Prod.ext rfl hi
  rw [Guard.ideal, hs, ideal, hc] at hq
  have hv := congrArg Outcome.verdict hq
  cases hl : session.last.getD .pending <;> simp [verdictOf, hl] at hv

theorem Session.faultless_of_poll {session : Session} {room : ℕ+} {writable : Nat}
    (hok : Accommodates session (.poll room writable)) {rest : Bytes}
    (haf : (session.step (.poll room writable)).Faultless rest) : session.Faultless rest := by
  intro hp decoder hs
  obtain ⟨hft, hv⟩ := hok
  have hc : ∀ decoder', (pollRead session.guard session.socket room writable).guard.state = .chunkedBody decoder' →
      (session.step (.poll room writable)).bodyDelivered ≠ 0 := by
    intro decoder' hs'
    simp only [Session.step, hs, hs', countBody]
    omega
  cases hf : feedOf session.guard session.socket with
  | none =>
    obtain ⟨-, -, hg, hsc⟩ := @pollRead_unfed _ _ room writable _ hs hf
    have hs' : (pollRead session.guard session.socket room writable).guard.state =
        .chunkedBody decoder := by rw [hg, hs]
    have := haf (hc decoder hs') decoder hs'
    simpa only [Session.step, hg, hsc] using this
  | some pair =>
    obtain ⟨decoder₀, input⟩ := pair
    obtain ⟨hstate₀, socket', hsp, -, hfd⟩ := @pollRead_fed _ _ room writable _ _ hft hf
    rw [hs] at hstate₀
    cases hstate₀
    rw [← append_assoc, hsp, append_assoc]
    have hn := hv decoder input hf hp
    -- A decoder that stopped stays stopped; one that waits goes on in the session after the poll.
    cases hr : (decoder.consume input).2 with
    | inl stop =>
      have hst := (feed_append_stopped hr (socket'.unread ++ rest))
      rw [ChunkDecoder.consume, hst]
      rw [hr] at hn
      exact fun h => hn (hr ▸ h)
    | inr decoder' =>
      obtain ⟨hs', ha, hsc⟩ := hfd.waiting decoder' hr
      have hrs := haf (hc decoder' hs') decoder' hs'
      simp only [Session.step, ha, hsc, nil_append] at hrs
      rw [ChunkDecoder.consume, feed_append_waiting hr]
      exact hrs

/-- A session whose polls have room comes, once a poll comes to nothing, to what the ideal says of
everything that arrived. -/
theorem run_outcome (events : List Event) {session : Session} (h : session.Sound)
    (hok : Along Session.step Accommodates session events)
    (he : (run Session.step session events).exhausted = true) :
    (run Session.step session events).outcome =
        (session.guard.ideal (closing session.socket.closed events)
          (session.socket.unread ++ arriving session.socket.closed events)).after
            session.delivered session.fed ∧
      session.Faultless (arriving session.socket.closed events) := by
  induction events generalizing session with
  | nil =>
    refine ⟨?_, session.faultless_of_exhausted h he⟩
    simp only [run_nil, arriving, closing, append_nil] at he ⊢
    rw [h.quiet he]
    simp [Outcome.after, Session.outcome]
  | cons event events ih =>
    obtain ⟨hev, hen⟩ := hok
    obtain ⟨hr, hf⟩ := ih (h.step hev) hen he
    rw [run_cons]
    cases event with
    | arrive segment =>
      cases hcl : session.socket.closed with
      | true =>
        have hst : session.step (.arrive segment) = session := by simp [Session.step, hcl]
        rw [hst, hcl] at hr hf
        rw [hst]
        exact ⟨hr, hf⟩
      | false =>
        simp only [Session.step, hcl, Session.Faultless, Socket.unread, flatMap_append,
          flatMap_cons, flatMap_nil, append_nil, append_assoc, Bool.false_eq_true,
          if_false] at hr hf
        simp only [Session.step, hcl, Session.Faultless, Socket.unread, arriving, closing, Bool.false_eq_true, if_false]
        exact ⟨hr, hf⟩
    | close => exact ⟨hr, hf⟩
    | poll room writable =>
      have hsp : PollSpec _ _ (pollRead session.guard session.socket room writable) :=
        pollRead_spec h.guard room.pos hev.1
      have hcl : (session.step (.poll room writable)).socket.closed = session.socket.closed := hsp.closed
      rw [hcl] at hr hf
      refine ⟨?_, Session.faultless_of_poll hev hf⟩
      rw [hr, arriving, closing]
      have hi := hsp.ideal (closing session.socket.closed events) (arriving session.socket.closed events) (fun hc => by
          rw [hc]
          exact arriving_closed events) (fun decoder decoder' hs hs' hne => by
          refine hf ?_ decoder' hs'
          simp only [Session.step, hs, hs', countBody]
          have := length_pos_of_ne_nil hne
          omega)
      rw [hi, Outcome.after_after]
      rfl

/-! ## The whole stream at once -/

section Reference

variable {guard : Guard} {socket : Socket} {room writable : Nat}

/-- The bytes that a round hands on or keeps. -/
def Turn.size : Turn → Nat
  | .ready bytes guard => bytes.length + guard.available.length
  | .pending guard => guard.available.length
  | .again guard => guard.available.length
  | .fill guard => guard.available.length
  | .readThrough guard => guard.available.length

theorem beginRejection_size (guard : Guard) (rejection : Rejection) :
    (guard.beginRejection rejection).available.length ≤ guard.available.length := by
  show ReadBuffer.empty.available.length ≤ _
  rw [ReadBuffer.available_empty]
  exact Nat.zero_le _

theorem turn_size (guard : Guard) : (turn guard room writable).size ≤ guard.available.length := by
  have hc : ∀ limit, (guard.buffer.consumeInto room limit).1.length +
      (guard.buffer.consumeInto room limit).2.available.length ≤ guard.available.length := by
    intro limit
    rw [ReadBuffer.consumeInto_bytes, ReadBuffer.consumeInto_available, ← length_append, take_append_drop]
    rfl
  have hr := beginRejection_size guard
  cases hs : guard.state with
  | head =>
    simp only [turn, hs, turnHead]
    split
    · split
      · exact hr .headerTooLarge
      split
      · exact hr .badRequest
      · exact le_refl _
    · split
      · exact hr .headerTooLarge
      · exact le_refl _
  | validatedHead remaining next =>
    simp only [turn, hs]
    exact hc remaining
  | fixedBody remaining =>
    simp only [turn, hs, turnFixed]
    split
    · exact le_refl _
    split
    · exact le_refl _
    · exact hc remaining
  | chunkedBody decoder =>
    simp only [turn, hs, turnChunked]
    split
    · exact le_refl _
    split
    · exact hr .badRequest
    · exact hc _
    · exact hc _
  | awaitingTunnelResponse kind => simp only [turn, hs, Turn.size, le_refl]
  | passthrough =>
    simp only [turn, hs]
    split
    · exact le_refl _
    · exact hc _
  | terminalConnectRejection | rejected => simp [turn, hs, Turn.size]
  | rejecting rejection offset =>
    simp only [turn, hs, pollRejection]
    split
    · simp [Turn.size, available]
    · exact le_refl _

/-- A poll makes no bytes, and reads nothing where there is nothing to read. -/
structure Shrinks (guard : Guard) (socket : Socket) (polled : Polled) : Prop where
  size : polled.poll.bytes.length + (polled.guard.available.length + polled.socket.unread.length) ≤
    guard.available.length + socket.unread.length
  drained : socket.segments = [] → polled.socket.segments = []

theorem pollLoop_shrinks (hr : 0 < room) (rounds : Nat) (guard : Guard) (socket : Socket) :
    Shrinks guard socket (pollLoop room writable rounds guard socket) := by
  induction rounds generalizing guard socket with
  | zero => exact ⟨by simp [pollLoop, Poll.bytes], id⟩
  | succ rounds ih =>
    have hsz := @turn_size room writable guard
    cases ht : turn guard room writable with
    | ready | pending =>
      rw [ht, Turn.size] at hsz
      rw [pollLoop, ht]
      refine ⟨?_, id⟩
      simp only [Poll.bytes, length_nil]
      omega
    | again guard' =>
      rw [ht, Turn.size] at hsz
      obtain ⟨hb, hd⟩ := ih guard' socket
      rw [pollLoop, ht]
      refine ⟨?_, hd⟩
      dsimp only
      omega
    | readThrough guard' =>
      rw [ht, Turn.size] at hsz
      have hrd := congrArg List.length (readInto_spec socket hr).1
      rw [length_append] at hrd
      rw [pollLoop, ht]
      refine ⟨?_, fun hn => ?_⟩
      · dsimp only
        omega
      · simp [Socket.readInto, hn]
    | fill guard' =>
      obtain ⟨rfl, -⟩ := turn_fill ht
      cases hs : socket.segments with
      | cons segment segments =>
        rw [pollLoop_fill ht hs]
        obtain ⟨hb, -⟩ := ih { guard' with buffer := guard'.buffer.extend segment.val } { socket with segments }
        refine ⟨?_, fun hn => by simp [hs] at hn⟩
        simp only [available, ReadBuffer.available_extend, Socket.unread, hs, flatMap_cons, length_append] at hb ⊢
        omega
      | nil =>
        rw [pollLoop_drained ht hs]
        split
        · exact ⟨by simp [Poll.bytes], id⟩
        split
        · exact ⟨by simp [Poll.bytes], id⟩
        obtain ⟨hb, hd⟩ := ih (guard'.beginRejection .badRequest) socket
        have hrj := beginRejection_size guard' .badRequest
        exact ⟨by omega, hd⟩

def Session.remaining : Nat :=
  session.guard.available.length + session.socket.unread.length

/-- A stream that came in one piece, with room for all of it: once it has been read, a chunked body of
which a part was handed on has nothing left in the buffer. -/
structure Session.Whole (room : Nat) (session : Session) : Prop where
  sound : session.Sound
  room : session.remaining ≤ room
  taken : session.bodyDelivered ≠ 0 → ∀ decoder, session.guard.state = .chunkedBody decoder →
    session.guard.available = []
  read : session.socket.segments = [] ∨ session.guard.state = .head ∧ session.guard.available = [] ∧
    ∃ segment, session.socket.segments = [segment]

theorem feedOf_length {decoder : ChunkDecoder} {input : Bytes} (h : feedOf guard socket = some (decoder, input)) :
    input.length ≤ guard.available.length + socket.unread.length := by
  obtain ⟨-, ⟨-, rfl⟩ | ⟨-, segment, segments, hs, rfl⟩⟩ := feedOf_eq_some h
  · exact Nat.le_add_right _ _
  · simp only [Socket.unread, hs, flatMap_cons, length_append]
    omega

theorem Session.Whole.accommodates {session : Session} {room : ℕ+} (h : session.Whole room) :
    Accommodates session (.poll room 0) := by
  refine ⟨fun decoder input hf _ => ?_, fun decoder input hf hp => ?_⟩
  · have hl := feedOf_length hf
    have hc : (decoder.consume input).1 ≤ input.length := feed_consumed_le decoder input
    have hr := h.room
    simp only [Session.remaining] at hr
    omega
  obtain ⟨hs, -⟩ := feedOf_eq_some hf
  have hn := h.taken hp decoder hs
  rcases h.read with hsg | ⟨hh, -⟩
  · simp [feedOf, hs, hn, hsg] at hf
  · rw [hs] at hh
    cases hh

theorem Session.Whole.step {session : Session} {room : ℕ+} (h : session.Whole room) :
    (session.step (.poll room 0)).Whole room ∧
      (pollRead session.guard session.socket room 0).poll.bytes.length +
        (session.step (.poll room 0)).remaining ≤ session.remaining := by
  obtain ⟨hf, -⟩ := h.accommodates
  have hsh : Shrinks _ _ (pollRead session.guard session.socket room 0) := pollLoop_shrinks room.pos _ _ _
  have hsz : _ + (session.step (.poll room 0)).remaining ≤ session.remaining := hsh.size
  refine ⟨⟨h.sound.poll 0 hf, ?_, ?_, .inl ?_⟩, hsz⟩
  · have hrm := h.room
    omega
  · -- Only a chunked body that goes on is counted, and the decoder took all there was.
    intro hp decoder' hs'
    have hs' : (pollRead session.guard session.socket room 0).guard.state = .chunkedBody decoder' := hs'
    have hc : ∃ decoder, session.guard.state = .chunkedBody decoder := by
      cases hs : session.guard.state with
      | chunkedBody decoder => exact ⟨decoder, rfl⟩
      | _ =>
        simp only [Session.step, hs, countBody] at hp
        exact absurd rfl hp
    obtain ⟨decoder, hs⟩ := hc
    show (pollRead session.guard session.socket room 0).guard.available = []
    cases hfd : feedOf session.guard session.socket with
    | none =>
      obtain ⟨hn, -, hg, -⟩ := @pollRead_unfed _ _ room 0 _ hs hfd
      rw [hg, hn]
    | some pair =>
      obtain ⟨decoder₀, input⟩ := pair
      obtain ⟨-, socket', -, -, hfe⟩ := @pollRead_fed _ _ room 0 _ _ hf hfd
      cases hr : (decoder₀.consume input).2 with
      | inl stop => exact absurd hs' (hfe.stopped stop hr decoder')
      | inr next => exact (hfe.waiting next hr).2.1
  · rcases h.read with hsg | ⟨hs, ha, segment, hsg⟩
    · exact hsh.drained hsg
    · -- The first poll reads a stream that came in one piece.
      have ht : turn session.guard room 0 = .fill session.guard := by
        have hl := h.sound.guard.limit
        simp [turn, hs, turnHead, ha, headLength, Nat.ne_of_gt hl]
      rw [Session.step, pollRead, pollLoop_fill ht hsg]
      exact (pollLoop_shrinks room.pos _ _ _).drained rfl

/-- Every poll that does not end the session takes a byte, so the polls suffice. -/
theorem Session.Whole.drain {room : ℕ+} (polls : Nat) {session : Session} (h : session.Whole room)
    (hp : session.remaining < polls) :
    ∃ count, session.drain room polls =
        run Session.step session (List.replicate count (.poll room 0)) ∧
      Along Session.step Accommodates session (List.replicate count (.poll room 0)) ∧
      (session.drain room polls).exhausted = true := by
  induction polls generalizing session with
  | zero => omega
  | succ polls ih =>
    obtain ⟨hw, hs⟩ := h.step
    rw [Session.drain]
    by_cases he : (session.step (.poll room 0)).exhausted = true
    · rw [if_pos he]
      exact ⟨1, rfl, ⟨h.accommodates, trivial⟩, he⟩
    rw [if_neg he]
    have hne : (pollRead session.guard session.socket room 0).poll.bytes ≠ [] := by
      intro hn
      exact he (by simp [Session.step, Session.exhausted, hn])
    have hps := length_pos_of_ne_nil hne
    obtain ⟨count, hr, ha, hen⟩ := ih hw (by omega)
    exact ⟨count + 1, hr, ⟨h.accommodates, ha⟩, hen⟩

end Reference

theorem arriving_polls (closed : Bool) (room : ℕ+) (writable count : Nat) :
    arriving closed (List.replicate count (.poll room writable)) = [] ∧
      closing closed (List.replicate count (.poll room writable)) = closed := by
  induction count with
  | zero => exact ⟨rfl, rfl⟩
  | succ count ih => simpa [replicate_succ, arriving, closing] using ih

theorem Guard.sound_new (maxHeaderBytes : Nat) : (new maxHeaderBytes).Sound :=
  ⟨Nat.le_max_right _ _, fun _ _ hs => by cases hs⟩

theorem wholeStream_unread (stream : Bytes) (closed : Bool) :
    Socket.unread { segments := wholeStream stream, closed } = stream := by
  unfold wholeStream Socket.unread
  split
  · next hn => simp [hn]
  · simp

theorem reference_outcome (maxHeaderBytes : Nat) (stream : Bytes) (closed : Bool) :
    reference maxHeaderBytes stream closed = (new maxHeaderBytes).ideal closed stream := by
  have hu := wholeStream_unread stream closed
  have hw : Session.Whole stream.length.succPNat { Session.new maxHeaderBytes with
      socket := { segments := wholeStream stream, closed } } := by
    refine ⟨⟨sound_new maxHeaderBytes, fun h => by cases h⟩, ?_, fun h => absurd rfl h, ?_⟩
    · simp only [Session.remaining, hu, Nat.succPNat_coe]
      show 0 + stream.length ≤ stream.length.succ
      omega
    unfold wholeStream
    split
    · exact .inl rfl
    · exact .inr ⟨rfl, rfl, _, rfl⟩
  obtain ⟨count, hr, hal, he⟩ := hw.drain (stream.length + 1) (by
    simp only [Session.remaining, hu]
    show 0 + stream.length < stream.length + 1
    omega)
  rw [reference, hr]
  rw [hr] at he
  obtain ⟨ha, hc⟩ := arriving_polls closed stream.length.succPNat 0 count
  have ho := (run_outcome _ hw.sound hal he).1
  simp only [ha, hc, hu, append_nil] at ho
  rw [ho]
  exact Outcome.after_nil _

/-- However the stream is cut into reads and whatever room the polls have, provided that no poll in a
chunked body has less than the decoder takes and that the decoder finds no fault with a body of which a
part has been handed on: the parser gets the bytes, the decoder is fed the bytes and the stream ends as
when it comes in one read. -/
theorem outcome_split_independent (maxHeaderBytes : Nat) (events : List Event)
    (hok : Along Session.step Accommodates (Session.new maxHeaderBytes) events)
    (hexhausted : (run Session.step (Session.new maxHeaderBytes) events).exhausted = true) :
    (run Session.step (Session.new maxHeaderBytes) events).outcome =
      reference maxHeaderBytes (arriving false events) (closing false events) := by
  have hs : (Session.new maxHeaderBytes).Sound := ⟨sound_new maxHeaderBytes, fun h => by cases h⟩
  rw [reference_outcome, (run_outcome events hs hok hexhausted).1]
  exact Outcome.after_nil _

def uploadHead : Bytes := asBytes "POST / HTTP/1.1\x0d\nTransfer-Encoding: chunked\x0d\n\x0d\n"

def uploadBody : Bytes := asBytes "5\x0d\nhello\x0d\n0\x0d\n\x0d\n"

/-- A chunked upload in three reads, its head taken in three polls and its body in two. -/
def uploadInPieces : List Event :=
  [.arrive ⟨uploadHead, by decide +kernel⟩, .poll 20 0, .poll 20 0, .poll 20 0,
    .arrive ⟨uploadBody.take 6, by decide +kernel⟩, .poll 6 0,
    .arrive ⟨uploadBody.drop 6, by decide +kernel⟩, .poll 20 0, .close, .poll 1 0]

theorem upload_in_pieces : Along Session.step Accommodates (Session.new 1000) uploadInPieces ∧
      (run Session.step (Session.new 1000) uploadInPieces).exhausted = true ∧
      (run Session.step (Session.new 1000) uploadInPieces).outcome =
        reference 1000 (arriving false uploadInPieces) (closing false uploadInPieces) := by
  refine ⟨?_, ?_, outcome_split_independent 1000 uploadInPieces ?_ ?_⟩ <;> decide +kernel

/-- The same upload in one read, with a poll that has room for four bytes of the body. -/
def uploadIntoFour : List Event :=
  [.arrive ⟨uploadHead ++ uploadBody, by decide +kernel⟩, .close,
    .poll 1000 0, .poll 4 0, .poll 100 0, .poll 100 0]

-- The decoder takes the whole body while four bytes of it are handed on, and what is left of the body
-- is taken for the head of the next request.
theorem upload_into_four_rejected : (run Session.step (Session.new 1000) uploadIntoFour).exhausted = true ∧
      (run Session.step (Session.new 1000) uploadIntoFour).outcome =
        ⟨uploadHead ++ uploadBody.take 4, uploadBody, .rejectedWith .badRequest⟩ ∧
      reference 1000 (arriving false uploadIntoFour) (closing false uploadIntoFour) =
        ⟨uploadHead ++ uploadBody, uploadBody, .cleanEnd⟩ := by
  decide +kernel

end Http1
