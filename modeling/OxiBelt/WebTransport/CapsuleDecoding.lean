import OxiBelt.WebTransport.Capsules

/-!
# What is encoded is decoded, however the bytes are cut

The decoder may stop anywhere: inside a header, a stream id or a body.  `Awaits decoder bytes items` says what it has
seen so far: with these bytes still to come it has these items still to give.  A turn keeps that (`turn_meets`), and
so do `next`, the calls on one input and those on all inputs.
-/

namespace WebTransport.Wire

open RustStd ByteString List Varint

/-! ## What a capsule gives -/

/-- What is left of a capsule for a reader: nothing, one event, or the data of a stream, of which a first piece has
been given or not. -/
inductive Item where
  | skipped
  | whole (event : Event)
  | data (id : Nat) (bytes : Bytes) (fin start : Bool)

inductive Delivers : List Item → List Event → Prop where
  | nil : Delivers [] []
  | skipped {items events} : Delivers items events → Delivers (.skipped :: items) events
  | whole {items events event} : Delivers items events → Delivers (.whole event :: items) (event :: events)
  | piece {items events id bytes rest fin start} : Delivers (.data id rest fin false :: items) events →
      Delivers (.data id (bytes ++ rest) fin start :: items) (.stream id bytes false start :: events)
  | last {items events id bytes fin start} : Delivers items events →
      Delivers (.data id bytes fin start :: items) (.stream id bytes fin start :: events)

/-- A stream capsule whose id is not read yet, with the rest of its payload. -/
structure Unread (capsule : Capsule) (rest : Bytes) (id : Nat) (idBytes data : Bytes) : Prop where
  kind : isStream capsule.kind = true
  unread : capsule.streamId = none
  fresh : capsule.started = false
  remaining : capsule.remaining = rest.length
  put : Varint.put id = some idBytes
  part : capsule.small <+: idBytes
  split : capsule.small ++ rest = idBytes ++ data

inductive Inside : Capsule → Bytes → Item → Prop where
  | skipped {capsule rest} : isStream capsule.kind = false → capsule.discard = true → capsule.remaining = rest.length →
      Inside capsule rest .skipped
  | whole {capsule rest event} : isStream capsule.kind = false → capsule.discard = false →
      capsule.remaining = rest.length → eventOf capsule.kind (capsule.small ++ rest) = .ok event →
      Inside capsule rest (.whole event)
  | unread {capsule rest id idBytes data} : Unread capsule rest id idBytes data →
      Inside capsule rest (.data id data (capsule.kind == streamFin) true)
  | data {capsule rest id} : isStream capsule.kind = true → capsule.streamId = some id →
      capsule.remaining = rest.length → Inside capsule rest (.data id rest (capsule.kind == streamFin) !capsule.started)

/-- A capsule that the decoder accepts, as its header and its payload. -/
structure Codes (head payload : Bytes) (item : Item) : Prop where
  opens : ∃ kind discard kindBytes lengthBytes, Varint.put kind = some kindBytes ∧
    Varint.put payload.length = some lengthBytes ∧ head = kindBytes ++ lengthBytes ∧
    discards kind payload.length = .ok discard ∧ Inside ⟨kind, payload.length, [], none, false, discard⟩ payload item

inductive Encoded : List Item → Bytes → Prop where
  | nil : Encoded [] []
  | cons {item items head payload rest} : Codes head payload item → Encoded items rest →
      Encoded (item :: items) (head ++ payload ++ rest)

inductive Awaits : Decoder → Bytes → List Item → Prop where
  | nothing : Awaits Decoder.new [] []
  | header {header bytes head payload rest item items} : Codes head payload item → Encoded items rest →
      header <+: head → header ++ bytes = head ++ payload ++ rest → Awaits ⟨header, none⟩ bytes (item :: items)
  | body {capsule bytes rest item items} : Inside capsule bytes item → Encoded items rest →
      Awaits ⟨[], some capsule⟩ (bytes ++ rest) (item :: items)

variable {items : List Item}

theorem Encoded.awaits {bytes : Bytes} (h : Encoded items bytes) : Awaits Decoder.new bytes items := by
  cases h with
  | nil => exact .nothing
  | cons hc hr => exact .header hc hr nil_prefix rfl

/-- The items that are left give the events of all, once these have been given. -/
def Leaves (items left : List Item) (given : List Event) : Prop :=
  ∀ events, Delivers left events → Delivers items (given ++ events)

theorem Leaves.refl (items : List Item) : Leaves items items [] := fun _ h => h

theorem Leaves.trans {items left last : List Item} {given more : List Event} (h : Leaves items left given)
    (h' : Leaves left last more) : Leaves items last (given ++ more) := by
  intro events hd
  rw [append_assoc]
  exact h _ (h' events hd)

/-- What a turn must come to, given the bytes of later inputs. -/
def Meets (later : Bytes) (items : List Item) : Turn → Prop
  | .yield none decoder input => input = [] ∧ ∃ left, Leaves items left [] ∧ Awaits decoder later left ∧
      (later = [] → left = [] ∧ decoder = Decoder.new)
  | .yield (some event) decoder input => ∃ left, Leaves items left [event] ∧ Awaits decoder (input ++ later) left
  | .again decoder input => ∃ left, Leaves items left [] ∧ Awaits decoder (input ++ later) left

variable {decoder : Decoder} {later input : Bytes}

theorem Meets.mono {left : List Item} {t : Turn} (h : Meets later left t) (hlv : Leaves items left []) :
    Meets later items t := by
  cases t with
  | yield event decoder input =>
    cases event with
    | none =>
      obtain ⟨hi, last, hl, ha⟩ := h
      exact ⟨hi, last, hlv.trans hl, ha⟩
    | some event =>
      obtain ⟨last, hl, ha⟩ := h
      exact ⟨last, hlv.trans hl, ha⟩
  | again decoder input =>
    obtain ⟨last, hl, ha⟩ := h
    exact ⟨last, hlv.trans hl, ha⟩

/-! ## One turn inside a capsule -/

section Body

variable {capsule : Capsule} {input later payload rest : Bytes} {item : Item} {items : List Item}

theorem append_cut {a b c d : Bytes} (h : a ++ b = c ++ d) {n : Nat} (hn : n ≤ a.length) (hn' : n ≤ c.length) :
    a.take n = c.take n ∧ a.drop n ++ b = c.drop n ++ d := by
  have ht := congrArg (List.take n) h
  have hd := congrArg (List.drop n) h
  rw [take_append_of_le_length hn, take_append_of_le_length hn'] at ht
  rw [drop_append_of_le_length hn, drop_append_of_le_length hn'] at hd
  exact ⟨ht, hd⟩

/-- No byte is left for the capsule, but some are missing. -/
theorem meets_wait (hi : Inside capsule payload item) (hr : Encoded items rest) (hs : later = payload ++ rest)
    (hne : payload ≠ []) : Meets later (item :: items) (.yield none ⟨[], some capsule⟩ []) := by
  refine ⟨rfl, _, .refl _, hs ▸ .body hi hr, fun hl => ?_⟩
  rw [hl] at hs
  exact absurd (append_eq_nil_iff.1 hs.symm).1 hne

theorem dataTurn_meets (capsule : Capsule) {id : Nat} (hk : isStream capsule.kind = true)
    (hid : capsule.streamId = some id) (hr : capsule.remaining = payload.length) (hrs : Encoded items rest)
    (hs : input ++ later = payload ++ rest) :
    Meets later (.data id payload (capsule.kind == streamFin) (!capsule.started) :: items)
      (dataTurn capsule id [] input) := by
  unfold dataTurn
  split
  · next he =>
    obtain ⟨hi, hne⟩ := Bool.and_eq_true_iff.1 he
    rw [List.isEmpty_iff] at hi
    subst hi
    refine meets_wait (.data hk hid hr) hrs hs fun hn => ?_
    rw [hr, hn] at hne
    exact absurd hne (by decide)
  next hgo =>
  have hc : min capsule.remaining (min input.length quantum) ≤ input.length ∧
      min capsule.remaining (min input.length quantum) ≤ payload.length := by omega
  generalize min capsule.remaining (min input.length quantum) = count at hc
  obtain ⟨ht, hd⟩ := append_cut hs hc.1 hc.2
  simp only [ht]
  by_cases hl : capsule.remaining - count = 0
  · -- the last piece: the capsule is done
    have ha : payload.length ≤ count := by omega
    rw [drop_eq_nil_of_le ha, nil_append] at hd
    rw [hl, take_of_length_le ha]
    simp only [beq_self_eq_true, Bool.and_true, if_true]
    exact ⟨items, fun events h => .last h, hd ▸ hrs.awaits⟩
  have hm : (capsule.remaining - count == 0) = false := by simpa using hl
  simp only [hm, Bool.and_false, Bool.false_eq_true, if_false]
  refine ⟨.data id (payload.drop count) (capsule.kind == streamFin) false :: items, fun events h => ?_, ?_⟩
  · nth_rewrite 1 [← take_append_drop count payload]
    exact .piece h
  rw [hd]
  exact .body (.data hk hid (by rw [length_drop, hr])) hrs

namespace Unread

variable {id : Nat} {idBytes data : Bytes}

theorem known (h : Unread capsule payload id idBytes data) (hal : capsule.small = idBytes) (input : Bytes) :
    readStreamId capsule input =
      .ok ({ capsule with small := [], streamId := some id, remaining := data.length }, input) ∧ payload = data := by
  have hr : read capsule.small = some (id, capsule.small.length) := by
    have ha := read_append h.put []
    rw [append_nil, ← hal] at ha
    exact ha
  obtain rfl : payload = data := append_cancel_left (hal ▸ h.split)
  refine ⟨?_, rfl⟩
  unfold readStreamId
  rw [Capsule.knownId, h.unread, hr, ← h.remaining]
  simp only [Option.map_some, drop_length]
  rfl

theorem unknown (h : Unread capsule payload id idBytes data) (hp : capsule.small ≠ idBytes) :
    capsule.knownId = none ∧ (capsule.remaining != 0) = true ∧ payload ≠ [] := by
  have hne : payload ≠ [] := by
    rintro rfl
    have hl := congrArg List.length h.split
    rw [length_append, length_append, length_nil] at hl
    exact hp (h.part.eq_of_length_le (by omega))
  refine ⟨?_, ?_, hne⟩
  · rw [Capsule.knownId, h.unread, read_strict h.put h.part hp]
    rfl
  · rw [h.remaining]
    simpa using hne

theorem push {byte : UInt8} (h : Unread capsule (byte :: payload) id idBytes data) (hp : capsule.small ≠ idBytes) :
    Unread { capsule with small := capsule.small ++ [byte], remaining := capsule.remaining - 1 } payload id idBytes
      data := by
  have hs : (capsule.small ++ [byte]) ++ payload = idBytes ++ data := by
    rw [append_assoc]
    exact h.split
  have hsh : capsule.small.length < idBytes.length :=
    Nat.lt_of_le_of_ne h.part.length_le fun hl => hp (h.part.eq_of_length hl)
  refine ⟨h.kind, h.unread, h.fresh, ?_, h.put, ?_, hs⟩
  · rw [h.remaining]
    rfl
  refine prefix_of_prefix_length_le ⟨payload, hs⟩ (prefix_append idBytes data) ?_
  rw [length_append]
  exact hsh

end Unread

/-- Reading the stream id: it is known then, or the input is used up before its end. -/
theorem readStreamId_meets {id : Nat} {idBytes data : Bytes} (h : Unread capsule payload id idBytes data)
    (hs : input ++ later = payload ++ rest) :
    (∃ small input', readStreamId capsule input =
        .ok ({ capsule with small, streamId := some id, remaining := data.length }, input') ∧
        input' ++ later = data ++ rest) ∨
      ∃ small remaining payload', readStreamId capsule input = .ok ({ capsule with small, remaining }, []) ∧
        payload' ≠ [] ∧ later = payload' ++ rest ∧
          Unread { capsule with small, remaining } payload' id idBytes data := by
  induction input generalizing capsule payload with
  | nil =>
    by_cases ha : capsule.small = idBytes
    · obtain ⟨hk, rfl⟩ := h.known ha []
      exact .inl ⟨[], [], hk, hs⟩
    obtain ⟨hu, hm, hne⟩ := h.unknown ha
    refine .inr ⟨capsule.small, capsule.remaining, payload, ?_, hne, hs, h⟩
    rw [readStreamId, hu]
    simp only [hm]
    rfl
  | cons byte input ih =>
    by_cases ha : capsule.small = idBytes
    · obtain ⟨hk, rfl⟩ := h.known ha (byte :: input)
      exact .inl ⟨[], byte :: input, hk, hs⟩
    obtain ⟨hu, hm, hne⟩ := h.unknown ha
    cases payload with
    | nil => exact absurd rfl hne
    | cons byte' payload =>
      obtain ⟨rfl, haf⟩ := List.cons.inj hs
      have hr := ih (h.push ha) haf
      rw [readStreamId, hu]
      simp only [hm]
      exact hr

section

variable (hi : Inside capsule payload item)
include hi

theorem streamTurn_meets (hk : isStream capsule.kind = true)
    (hr : Encoded items rest) (hs : input ++ later = payload ++ rest) :
    ∃ t, streamTurn capsule [] input = .ok t ∧ Meets later (item :: items) t := by
  cases hi with
  | skipped hn | whole hn => exact absurd hk (by rw [hn]; decide)
  | data hk hid hrm =>
    have hkn : capsule.knownId = some capsule := by
      rw [Capsule.knownId, hid]
      rfl
    refine ⟨_, ?_, dataTurn_meets capsule hk hid hrm hr hs⟩
    unfold streamTurn readStreamId
    rw [hkn]
    simp only [bind, Except.bind, hid]
    rfl
  | @unread id idBytes data hu =>
    unfold streamTurn
    obtain ⟨small, input', hrd, hs⟩ | ⟨small, remaining, payload', hrd, hne, hl, hu'⟩ := readStreamId_meets hu hs
    · rw [hrd]
      refine ⟨_, rfl, ?_⟩
      have hd := dataTurn_meets { capsule with small, streamId := some id, remaining := data.length }
        hu.kind rfl rfl hr hs
      simp only [hu.fresh] at hd ⊢
      exact hd
    · rw [hrd]
      simp only [hu.unread] at hu' ⊢
      exact ⟨_, rfl, meets_wait (.unread hu') hr hl hne⟩

/-- A part of the payload of a capsule that is kept or thrown away whole. -/
theorem Inside.advance (hk : isStream capsule.kind = false) (count : Nat) : Inside { capsule with
      remaining := capsule.remaining - count
      small := if capsule.discard then capsule.small else capsule.small ++ payload.take count }
      (payload.drop count) item := by
  cases hi with
  | skipped _ hd hr =>
    exact .skipped hk hd (by rw [length_drop, hr])
  | whole _ hd hr he =>
    refine .whole hk hd (by rw [length_drop, hr]) ?_
    rw [if_neg (by rw [hd]; decide), append_assoc, take_append_drop]
    exact he
  | unread hu => exact absurd hu.kind (by rw [hk]; decide)
  | data hs => exact absurd hs (by rw [hk]; decide)

theorem Inside.remaining : capsule.remaining = payload.length := by
  cases hi with
  | skipped _ _ h | whole _ _ h | data _ _ h => exact h
  | unread h => exact h.remaining

theorem smallTurn_meets (hk : isStream capsule.kind = false)
    (hr : Encoded items rest) (hs : input ++ later = payload ++ rest) :
    ∃ t, smallTurn capsule [] input = .ok t ∧ Meets later (item :: items) t := by
  have hrm := hi.remaining
  unfold smallTurn
  split
  · next he =>
    obtain ⟨hne, hin⟩ := Bool.and_eq_true_iff.1 he
    rw [List.isEmpty_iff] at hin
    subst hin
    refine ⟨_, rfl, meets_wait hi hr hs fun hn => ?_⟩
    rw [hrm, hn] at hne
    exact absurd hne (by decide)
  have hc : min capsule.remaining input.length ≤ input.length ∧
      min capsule.remaining input.length ≤ payload.length := by omega
  generalize min capsule.remaining input.length = count at hc
  obtain ⟨ht, hdr⟩ := append_cut hs hc.1 hc.2
  have ha := hi.advance hk count
  simp only [ht]
  split
  · -- the input ends inside the capsule
    refine ⟨_, rfl, item :: items, .refl _, ?_⟩
    rw [hdr]
    exact .body ha hr
  next hdn =>
  have hal : payload.drop count = [] := by
    have hz : capsule.remaining - count = 0 := by simpa using hdn
    exact drop_eq_nil_of_le (by omega)
  rw [hal] at ha hdr
  have haw : Awaits Decoder.new (input.drop count ++ later) items := by
    rw [hdr]
    exact hr.awaits
  cases hi with
  | skipped _ hd =>
    rw [if_pos hd]
    exact ⟨_, rfl, items, fun events h => .skipped h, haw⟩
  | whole _ hd _ hev =>
    have hkp : payload.take count = payload := by
      have hap := take_append_drop count payload
      rwa [hal, append_nil] at hap
    rw [if_neg (by rw [hd]; decide), if_neg (by rw [hd]; decide), hkp, hev]
    exact ⟨_, rfl, items, fun events h => .whole h, haw⟩
  | unread hu => exact absurd hu.kind (by rw [hk]; decide)
  | data hst => exact absurd hst (by rw [hk]; decide)

theorem capsuleTurn_meets (hr : Encoded items rest) (hs : input ++ later = payload ++ rest) :
    ∃ t, capsuleTurn capsule [] input = .ok t ∧ Meets later (item :: items) t := by
  unfold capsuleTurn
  by_cases hk : isStream capsule.kind = true
  · rw [if_pos hk]
    exact streamTurn_meets hi hk hr hs
  · rw [if_neg hk]
    exact smallTurn_meets hi (Bool.eq_false_iff.2 hk) hr hs

end

end Body

/-! ## One turn -/

section Header

variable {kind length : Nat} {kindBytes lengthBytes : Bytes}

theorem parseHeader_complete (hk : put kind = some kindBytes) (hl : put length = some lengthBytes) :
    parseHeader (kindBytes ++ lengthBytes) = some (kind, length, (kindBytes ++ lengthBytes).length) := by
  have hr : read lengthBytes = some (length, lengthBytes.length) := by
    have ha := read_append hl []
    rwa [append_nil] at ha
  rw [parseHeader, read_append hk, length_append]
  simp only [Option.bind_eq_bind, Option.bind_some, drop_left, hr]
  rfl

theorem parseHeader_part (hkn : put kind = some kindBytes) (hlg : put length = some lengthBytes)
    {header : Bytes} (hp : header <+: kindBytes ++ lengthBytes) (hne : header ≠ kindBytes ++ lengthBytes) :
    parseHeader header = none := by
  unfold parseHeader
  have hk : kindBytes <+: kindBytes ++ lengthBytes := prefix_append _ _
  by_cases hin : header.length < kindBytes.length
  · have hin' : header <+: kindBytes := prefix_of_prefix_length_le hp hk hin.le
    rw [read_strict hkn hin' fun heq => absurd hin (by rw [heq]; exact Nat.lt_irrefl _)]
    rfl
  -- the kind is there, and a part of the length
  obtain ⟨part, rfl⟩ : kindBytes <+: header := prefix_of_prefix_length_le hk hp (Nat.le_of_not_lt hin)
  have hl : part <+: lengthBytes := (prefix_append_right_inj kindBytes).1 hp
  have hln : part ≠ lengthBytes := fun heq => hne (heq ▸ rfl)
  rw [read_append hkn]
  simp only [Option.bind_eq_bind, Option.bind_some, drop_left, read_strict hlg hl hln]
  rfl

end Header

theorem turn_meets (h : Awaits decoder (input ++ later) items) :
    ∃ t, turn decoder input = .ok t ∧ Meets later items t := by
  generalize hb : input ++ later = bytes at h
  cases h with
  | nothing =>
    obtain ⟨rfl, rfl⟩ := append_eq_nil_iff.1 hb
    exact ⟨_, rfl, rfl, [], .refl [], .nothing, fun _ => ⟨rfl, rfl⟩⟩
  | body hi hr => exact capsuleTurn_meets hi hr hb
  | @header header _ head payload rest item items hc hr hp hs =>
    obtain ⟨kind, discard, kindBytes, lengthBytes, hkn, hln, rfl, hd, hi⟩ := hc.opens
    by_cases ha : header = kindBytes ++ lengthBytes
    · -- the header is complete, and the capsule is opened
      subst ha
      rw [append_assoc _ payload rest] at hs
      obtain ⟨t, ht, hm⟩ := capsuleTurn_meets hi hr (hb.trans (append_cancel_left hs))
      refine ⟨t, ?_, hm⟩
      unfold turn
      simp only [parseHeader_complete hkn hln, hd, drop_length]
      exact ht
    · have hpr := parseHeader_part hkn hln hp ha
      have hsh : header.length < (kindBytes ++ lengthBytes).length :=
        Nat.lt_of_le_of_ne hp.length_le fun hle => ha (hp.eq_of_length hle)
      have haw : Awaits ⟨header, none⟩ (input ++ later) (item :: items) := .header hc hr hp (hb ▸ hs)
      unfold turn
      simp only [hpr]
      cases input with
      | nil =>
        refine ⟨_, rfl, rfl, item :: items, .refl _, haw, fun hlt => ?_⟩
        have hle := congrArg List.length hs
        rw [← hb, hlt] at hle
        simp only [length_append, length_nil] at hle hsh
        omega
      | cons byte input =>
        have hle : header.length < 16 := by
          have hk := length_put hkn
          have hl := length_put hln
          rw [length_append] at hsh
          omega
        have hs' : (header ++ [byte]) ++ (input ++ later) = kindBytes ++ lengthBytes ++ payload ++ rest := by
          rw [append_assoc]
          exact hb ▸ hs
        have hp' : header ++ [byte] <+: kindBytes ++ lengthBytes := by
          refine prefix_of_prefix_length_le ⟨_, hs'⟩ ⟨payload ++ rest, (append_assoc _ _ _).symm⟩ ?_
          rw [length_append]
          exact hsh
        simp only [decide_eq_true hle]
        exact ⟨_, rfl, item :: items, .refl _, .header hc hr hp' hs'⟩

/-! ## The calls -/

theorem next_meets (h : Awaits decoder (input ++ later) items) :
    ∃ event decoder' input', next decoder input = .ok (event, decoder', input') ∧
      Meets later items (.yield event decoder' input') := by
  obtain ⟨t, ht', hm⟩ := turn_meets h
  fun_induction next decoder input generalizing items t with
  | case1 decoder input e ht => cases ht.symm.trans ht'
  | case2 decoder input event decoder' input' ht =>
    cases ht.symm.trans ht'
    exact ⟨event, decoder', input', rfl, hm⟩
  | case3 decoder input decoder' input' ht ih =>
    cases ht.symm.trans ht'
    obtain ⟨left, hl, ha⟩ := hm
    obtain ⟨t, ht, hm⟩ := turn_meets ha
    obtain ⟨event, decoder'', input'', hn, hm⟩ := ih ha t ht hm
    exact ⟨event, decoder'', input'', hn, hm.mono hl⟩

theorem events_meets (h : Awaits decoder (input ++ later) items) :
    ∃ given decoder' left, events decoder input = .ok (given, decoder') ∧ Leaves items left given ∧
      Awaits decoder' later left ∧ (later = [] → left = [] ∧ decoder' = Decoder.new) := by
  obtain ⟨event, decoder', input', hn', hm⟩ := next_meets h
  fun_induction events decoder input generalizing items event decoder' input' with
  | case1 decoder input e hn => cases hn.symm.trans hn'
  | case2 decoder input decoder' input' hn =>
    cases hn.symm.trans hn'
    obtain ⟨-, left, hl, ha, he⟩ := hm
    exact ⟨[], decoder', left, rfl, hl, ha, he⟩
  | case3 decoder input event decoder' input' hn ih =>
    cases hn.symm.trans hn'
    obtain ⟨left, hl, ha⟩ := hm
    obtain ⟨event', decoder'', input'', hn, hm⟩ := next_meets ha
    obtain ⟨given, decoder'', left', he, hl', hr⟩ := ih ha _ _ _ hn hm
    exact ⟨event :: given, decoder'', left', by rw [he]; rfl, hl.trans hl', hr⟩

theorem receive_meets {inputs : List Bytes} (h : Awaits decoder inputs.flatten items)
    (he : inputs.flatten = [] → items = [] ∧ decoder = Decoder.new) :
    ∃ given, receive decoder inputs = .ok (given, Decoder.new) ∧ Delivers items given := by
  induction inputs generalizing decoder items with
  | nil =>
    obtain ⟨rfl, rfl⟩ := he rfl
    exact ⟨[], rfl, .nil⟩
  | cons input inputs ih =>
    obtain ⟨given, decoder', left, hev, hl, ha, he'⟩ := events_meets h
    obtain ⟨more, hr, hd⟩ := ih ha he'
    refine ⟨given ++ more, ?_, hl more hd⟩
    rw [receive, hev]
    simp only [bind, Except.bind, hr]
    rfl

end WebTransport.Wire
