import OxiBelt.WebTransport.CapsuleDecoding

/-!
# Capsules through the encoders and the decoder

The capsules that a sender can build, the bytes that the encoders make of them, and the events that a reader is to
get: `decode_encoded` says that it gets them.
-/

namespace WebTransport.Wire

open RustStd ByteString List

inductive Frame where
  | stream (id : Nat) (data : Bytes) (fin : Bool)
  | control (kind : Nat) (values : List Nat)
  | datagram (data : Bytes)
  | close (code : UInt32) (reason : Bytes)
  | drain
  | ignored (kind : Nat) (payload : Bytes)
  deriving DecidableEq

namespace Frame

def encoded : Frame → Result Bytes
  | stream id data fin => encodeStream id data fin
  | control kind values => encodeControl kind values
  | datagram data => encode Wire.datagram data
  | close code reason => encodeClose code reason
  | drain => encode drainSession []
  | ignored kind payload => encode kind payload

/-- Padding, and every kind that has no meaning. -/
def unknown (kind : Nat) : Bool :=
  !isStream kind && kind != Wire.datagram && kind != closeSession && kind != drainSession && (controlValues kind).isNone

/-- Controls have the number of values of their kind, and datagrams at most the greatest size. -/
def wellFormed : Frame → Bool
  | control kind values => controlValues kind == some values.length
  | datagram data => data.length ≤ maxDatagram
  | ignored kind _ => unknown kind
  | _ => true

/-- The data of a stream in pieces: the first is the start, and the last has the end of the stream, if there is one. -/
def pieceEvents (id : Nat) (fin : Bool) (pieces : List Bytes) : List Event :=
  pieces.zipIdx.map fun (piece, i) => .stream id piece (fin && i + 1 == pieces.length) (i == 0)

/-- The events that a capsule must give.  A close reason is cut to as many characters as fit. -/
def Gives : Frame → List Event → Prop
  | stream id data fin, events => ∃ pieces, pieces ≠ [] ∧ pieces.flatten = data ∧ events = pieceEvents id fin pieces
  | control kind values, events => events = [.control kind values]
  | datagram data, events => events = [.datagram data]
  | close code reason, events => ∃ full text, reason = asBytes full ∧ text <+: full ∧
      (asBytes text).length ≤ maxCloseReason ∧
      (∀ other, other <+: full → (asBytes other).length ≤ maxCloseReason → other <+: text) ∧ events = [.close code text]
  | drain, events => events = [.drain]
  | ignored _ _, events => events = []

end Frame

/-! ## The pieces of a stream -/

def marked (id : Nat) (fin : Bool) : Bool → List Bytes → List Event
  | _, [] => []
  | start, [piece] => [.stream id piece fin start]
  | start, piece :: next :: pieces => .stream id piece false start :: marked id fin false (next :: pieces)

theorem marked_eq (id : Nat) (fin start : Bool) (pieces : List Bytes) (n : Nat) :
    marked id fin start pieces = (pieces.zipIdx n).map fun (piece, i) =>
      .stream id piece (fin && i + 1 == n + pieces.length) (start && i == n) := by
  induction pieces generalizing start n with
  | nil => rfl
  | cons piece pieces ih =>
    cases pieces with
    | nil => simp [marked]
    | cons next pieces =>
      rw [marked, ih false (n + 1), zipIdx_cons (a := piece), map_cons (a := (piece, n))]
      congr 1
      · simp
      refine map_congr_left fun entry he => ?_
      have hle := le_snd_of_mem_zipIdx he
      have hne : (entry.2 == n) = false := beq_eq_false_iff_ne.2 (by omega)
      have hl : n + 1 + (next :: pieces).length = n + (piece :: next :: pieces).length := by
        rw [length_cons, length_cons, length_cons]
        omega
      simp only [hne, hl, Bool.and_false, Bool.false_and]

variable {bytes : Bytes} {kind : Nat}

theorem Delivers.data_pieces {id : Nat} {fin start : Bool} {items : List Item} {events : List Event}
    (h : Delivers (.data id bytes fin start :: items) events) :
    ∃ pieces later, pieces ≠ [] ∧ pieces.flatten = bytes ∧ events = marked id fin start pieces ++ later ∧
      Delivers items later := by
  generalize ha : Item.data id bytes fin start :: items = all at h
  induction h generalizing bytes start with
  | nil | skipped | whole => cases ha
  | @piece _ _ _ first _ _ _ _ ih =>
    cases ha
    obtain ⟨pieces, later, hne, rfl, rfl, hl⟩ := ih rfl
    refine ⟨first :: pieces, later, cons_ne_nil _ _, rfl, ?_, hl⟩
    cases pieces with
    | nil => exact absurd rfl hne
    | cons next pieces => rfl
  | @last _ later _ only _ _ hl =>
    cases ha
    exact ⟨[only], later, cons_ne_nil _ _, append_nil _, rfl, hl⟩

/-! ## The encoders -/

theorem encode_codes {payload : Bytes} {item : Item} {discard : Bool} (h : encode kind payload = .ok bytes)
    (hd : discards kind payload.length = .ok discard)
    (hi : Inside ⟨kind, payload.length, [], none, false, discard⟩ payload item) :
    ∃ head, bytes = head ++ payload ∧ Codes head payload item := by
  unfold encode putVarint at h
  obtain ⟨kindBytes, hk, h⟩ := bind_eq_ok.1 h
  obtain ⟨lengthBytes, hl, h⟩ := bind_eq_ok.1 h
  cases h
  exact ⟨kindBytes ++ lengthBytes, rfl,
    ⟨kind, discard, kindBytes, lengthBytes, context_eq_ok.1 hk, context_eq_ok.1 hl, rfl, hd, hi⟩⟩

theorem encodeStream_codes {id : Nat} {data : Bytes} {fin : Bool} (h : encodeStream id data fin = .ok bytes) :
    ∃ head payload, bytes = head ++ payload ∧ Codes head payload (.data id data fin true) := by
  unfold encodeStream at h
  obtain ⟨idBytes, hid, h⟩ := bind_eq_ok.1 h
  have hs : isStream (if fin then streamFin else stream) = true := by cases fin <;> decide
  have hf : ((if fin then streamFin else stream) == streamFin) = fin := by cases fin <;> decide
  have hd : discards (if fin then streamFin else stream) (idBytes ++ data).length = .ok false := by
    rw [discards, if_pos hs]
  obtain ⟨head, hb, hc⟩ := encode_codes h hd
    (.unread ⟨hs, rfl, rfl, rfl, context_eq_ok.1 hid, nil_prefix, rfl⟩)
  rw [hf] at hc
  exact ⟨head, _, hb, hc⟩

theorem controlValues_some {count : Nat} (h : controlValues kind = some count) :
    isStream kind = false ∧ (kind == datagram) = false ∧ (kind == closeSession) = false ∧
      (kind == drainSession) = false ∧ count ≤ 3 := by
  unfold controlValues at h
  split at h
  · next hk =>
    cases h
    rw [beq_iff_eq] at hk
    subst hk
    decide
  split at h
  · next hk =>
    cases h
    simp only [Bool.or_eq_true, beq_iff_eq] at hk
    obtain (rfl | rfl) | rfl := hk <;> decide
  split at h
  · next hk =>
    cases h
    simp only [Bool.or_eq_true, beq_iff_eq] at hk
    obtain ((((rfl | rfl) | rfl) | rfl) | rfl) | rfl := hk <;> decide
  · cases h

theorem mapM_putVarint {values : List Nat} {parts : List Bytes} (h : values.mapM putVarint = .ok parts) :
    readValues values.length parts.flatten = .ok values ∧ parts.flatten.length ≤ 8 * values.length := by
  induction values generalizing parts with
  | nil =>
    cases h
    exact ⟨rfl, Nat.le_refl 0⟩
  | cons value values ih =>
    rw [mapM_cons] at h
    obtain ⟨part, hpr, h⟩ := bind_eq_ok.1 h
    obtain ⟨parts, hp, h⟩ := bind_eq_ok.1 h
    cases h
    have hpt := context_eq_ok.1 hpr
    obtain ⟨hr, hl⟩ := ih hp
    constructor
    · rw [flatten_cons, length_cons, readValues, Varint.read_append hpt]
      simp only [context, bind, Except.bind, drop_left, hr]
      rfl
    have hs := (Varint.length_put hpt).2
    rw [flatten_cons, length_append, length_cons]
    omega

theorem encodeControl_codes {values : List Nat} (h : encodeControl kind values = .ok bytes)
    (hc : controlValues kind = some values.length) :
    ∃ head payload, bytes = head ++ payload ∧ Codes head payload (.whole (.control kind values)) := by
  unfold encodeControl at h
  obtain ⟨parts, hp, h⟩ := bind_eq_ok.1 h
  obtain ⟨hs, hd, hcl, hdr, ht⟩ := controlValues_some hc
  obtain ⟨hr, hln⟩ := mapM_putVarint hp
  have hl : parts.flatten.length ≤ 24 := by omega
  have hds : discards kind parts.flatten.length = .ok false := by
    simp only [discards, hs, hd, hcl, hdr, hc, Option.isSome_some, Bool.false_eq_true, if_false,
      if_true, decide_eq_true hl]
    rfl
  have he : eventOf kind parts.flatten = .ok (.control kind values) := by
    simp only [eventOf, hd, hcl, hdr, hc, Bool.false_eq_true, if_false, context, bind, Except.bind, hr]
    rfl
  obtain ⟨head, hb, hcd⟩ := encode_codes h hds (.whole hs rfl rfl he)
  exact ⟨head, _, hb, hcd⟩

theorem encodeClose_codes {code : UInt32} {reason : Bytes} (h : encodeClose code reason = .ok bytes) :
    ∃ head payload full text, bytes = head ++ payload ∧ Codes head payload (.whole (.close code text)) ∧
      reason = asBytes full ∧ text <+: full ∧ (asBytes text).length ≤ maxCloseReason ∧
      ∀ other, other <+: full → (asBytes other).length ≤ maxCloseReason → other <+: text := by
  unfold encodeClose at h
  obtain ⟨full, hf, h⟩ := bind_eq_ok.1 h
  have hrs := eq_asBytes_of_fromUtf8 (context_eq_ok.1 hf)
  subst hrs
  obtain ⟨text, ht, htk, hlm, hl⟩ := take_charBoundary full (min (asBytes full).length maxCloseReason)
  simp only [htk] at h
  have hs : (asBytes text).length ≤ maxCloseReason := Nat.le_trans hlm (Nat.min_le_right _ _)
  have hln : (beBytes 4 code.toNat ++ asBytes text).length = 4 + (asBytes text).length := by
    rw [length_append, beBytes_length]
  have hd : discards closeSession (beBytes 4 code.toNat ++ asBytes text).length = .ok false := by
    have hr : 4 ≤ 4 + (asBytes text).length ∧ 4 + (asBytes text).length ≤ 4 + maxCloseReason := by omega
    rw [hln, discards, if_neg (by decide), if_neg (by decide), if_pos (by decide), decide_eq_true hr.1,
      decide_eq_true hr.2]
    rfl
  have he : eventOf closeSession (beBytes 4 code.toNat ++ asBytes text) = .ok (.close code text) := by
    have hcd : UInt32.ofNat (beValue (beBytes 4 code.toNat)) = code := by
      rw [beValue_beBytes code.toNat_lt, UInt32.ofNat_toNat]
    rw [eventOf, if_neg (by decide), if_neg (by decide), if_pos (by decide), drop_left' (beBytes_length _ _),
      take_left' (beBytes_length _ _), fromUtf8_asBytes, hcd]
    rfl
  have hk : isStream closeSession = false := by decide
  obtain ⟨head, hb, hc⟩ := encode_codes h hd (.whole hk rfl rfl he)
  refine ⟨head, _, full, text, hb, hc, rfl, ht, hs, fun other ho hle => ?_⟩
  have hw : (asBytes other).length ≤ (asBytes full).length := by
    obtain ⟨rest, rfl⟩ := ho
    rw [asBytes_append, length_append]
    omega
  exact hl other ho (Nat.le_min.2 ⟨hw, hle⟩)

/-- An item of a capsule, which gives the events of the capsule. -/
def Frame.Becomes (frame : Frame) (item : Item) : Prop :=
  ∀ items events, Delivers (item :: items) events → ∃ given later, frame.Gives given ∧ events = given ++ later ∧
    Delivers items later

theorem becomes_whole {frame : Frame} {event : Event} (h : frame.Gives [event]) : frame.Becomes (.whole event) := by
  intro items events hd
  cases hd with
  | whole hl => exact ⟨[event], _, h, rfl, hl⟩

theorem Frame.encoded_codes {frame : Frame} (h : frame.encoded = .ok bytes) (hw : frame.wellFormed = true) :
    ∃ head payload item, bytes = head ++ payload ∧ Codes head payload item ∧ frame.Becomes item := by
  cases frame with
  | stream id data fin =>
    obtain ⟨head, payload, hb, hc⟩ := encodeStream_codes h
    refine ⟨head, payload, _, hb, hc, fun items events hd => ?_⟩
    obtain ⟨pieces, later, hne, hda, rfl, hl⟩ := hd.data_pieces
    refine ⟨_, later, ⟨pieces, hne, hda, ?_⟩, rfl, hl⟩
    rw [marked_eq id fin true pieces 0, pieceEvents, Nat.zero_add]
    rfl
  | control kind values =>
    obtain ⟨head, payload, hb, hc⟩ := encodeControl_codes h (beq_iff_eq.1 hw)
    exact ⟨head, payload, _, hb, hc, becomes_whole rfl⟩
  | datagram data =>
    have hsz : (maxDatagram < data.length) = False := eq_false (Nat.not_lt.2 (of_decide_eq_true hw))
    have hds : discards Wire.datagram data.length = .ok false := by
      rw [discards, if_neg (by decide), if_pos (by decide)]
      simp only [hsz, decide_false]
    obtain ⟨head, hb, hc⟩ := encode_codes h hds (.whole rfl rfl rfl rfl)
    exact ⟨head, data, _, hb, hc, becomes_whole rfl⟩
  | close code reason =>
    obtain ⟨head, payload, full, text, hb, hc, hr⟩ := encodeClose_codes h
    obtain ⟨hr, ht, hlm, hln⟩ := hr
    exact ⟨head, payload, _, hb, hc, becomes_whole ⟨full, text, hr, ht, hlm, hln, rfl⟩⟩
  | drain =>
    obtain ⟨head, hb, hc⟩ := encode_codes h rfl (.whole rfl rfl rfl rfl)
    exact ⟨head, [], _, hb, hc, becomes_whole rfl⟩
  | ignored kind payload =>
    simp only [wellFormed, unknown, Bool.and_eq_true, Bool.not_eq_true', bne_iff_ne] at hw
    obtain ⟨⟨⟨⟨hs, hdt⟩, hcl⟩, hdr⟩, hv⟩ := hw
    have hds : discards kind payload.length = .ok true := by
      rw [Option.isNone_iff_eq_none] at hv
      simp only [discards, hs, beq_eq_false_iff_ne.2 hdt, beq_eq_false_iff_ne.2 hcl,
        beq_eq_false_iff_ne.2 hdr, hv, Option.isSome_none, Bool.false_eq_true, if_false]
    obtain ⟨head, hb, hc⟩ := encode_codes h hds (.skipped hs rfl rfl)
    refine ⟨head, payload, _, hb, hc, fun items events hd => ?_⟩
    cases hd with
    | skipped hl => exact ⟨[], events, rfl, rfl, hl⟩

theorem encoded_items {frames : List Frame} {parts : List Bytes} (hw : ∀ frame ∈ frames, frame.wellFormed = true)
    (h : frames.mapM Frame.encoded = .ok parts) :
    ∃ items, Encoded items parts.flatten ∧ ∀ events, Delivers items events →
      ∃ given, List.Forall₂ Frame.Gives frames given ∧ events = given.flatten := by
  induction frames generalizing parts with
  | nil =>
    cases h
    refine ⟨[], .nil, fun events hd => ⟨[], .nil, ?_⟩⟩
    cases hd
    rfl
  | cons frame frames ih =>
    rw [mapM_cons] at h
    obtain ⟨bytes, hby, h⟩ := bind_eq_ok.1 h
    obtain ⟨parts, hp, h⟩ := bind_eq_ok.1 h
    cases h
    obtain ⟨hfr, hf⟩ := forall_mem_cons.1 hw
    obtain ⟨head, payload, item, rfl, hc, hb⟩ := Frame.encoded_codes hby hfr
    obtain ⟨items, hi, hg⟩ := ih hf hp
    refine ⟨item :: items, .cons hc hi, fun events hd => ?_⟩
    obtain ⟨first, later, hfs, rfl, hl⟩ := hb items events hd
    obtain ⟨given, hgv, rfl⟩ := hg later hl
    exact ⟨first :: given, .cons hfs hgv, rfl⟩

/-- No capsule is empty. -/
theorem Encoded.eq_nil {items : List Item} (h : Encoded items []) : items = [] := by
  generalize hb : ([] : Bytes) = bytes at h
  cases h with
  | nil => rfl
  | @cons _ _ head payload rest hc hr =>
    obtain ⟨kind, discard, kindBytes, lengthBytes, hk, -, rfl, -, -⟩ := hc.opens
    have hl := congrArg List.length hb
    have hp := (Varint.length_put hk).1
    simp only [length_nil, length_append] at hl
    omega

/-- Whatever capsules are encoded and however their bytes are cut into inputs, the decoder gives the events of each, in
order, and nothing is left over. -/
theorem decode_encoded (frames : List Frame) (parts inputs : List Bytes)
    (hwell : ∀ frame ∈ frames, frame.wellFormed = true) (hparts : frames.mapM Frame.encoded = .ok parts)
    (hinputs : inputs.flatten = parts.flatten) :
    ∃ events decoder given, receive Decoder.new inputs = .ok (events, decoder) ∧ finish decoder = .ok () ∧
      List.Forall₂ Frame.Gives frames given ∧ events = given.flatten := by
  obtain ⟨items, he, hg⟩ := encoded_items hwell hparts
  rw [← hinputs] at he
  have hen : inputs.flatten = [] → items = [] ∧ Decoder.new = Decoder.new := by
    intro hem
    rw [hem] at he
    exact ⟨he.eq_nil, rfl⟩
  obtain ⟨events, hr, hd⟩ := receive_meets he.awaits hen
  obtain ⟨given, hgv, rfl⟩ := hg events hd
  exact ⟨_, Decoder.new, given, hr, rfl, hgv, rfl⟩

/-- A stream of five bytes that ends, padding and a limit, cut inside the stream id, the data and the padding. -/
theorem decode_encoded_cut : ∃ parts events decoder given,
    [Frame.stream 300 [1, 2, 3, 4, 5] true, .ignored padding [0, 0], .control maxData [70000]].mapM Frame.encoded =
      .ok parts ∧
    receive Decoder.new [parts.flatten.take 6, (parts.flatten.drop 6).take 3, (parts.flatten.drop 6).drop 3] =
      .ok (events, decoder) ∧
    finish decoder = .ok () ∧
    List.Forall₂ Frame.Gives
      [Frame.stream 300 [1, 2, 3, 4, 5] true, .ignored padding [0, 0], .control maxData [70000]] given ∧
    events = given.flatten := by
  obtain ⟨parts, hp⟩ : ∃ parts, [Frame.stream 300 [1, 2, 3, 4, 5] true, .ignored padding [0, 0],
      .control maxData [70000]].mapM Frame.encoded = .ok parts := ⟨_, rfl⟩
  have hc : [parts.flatten.take 6, (parts.flatten.drop 6).take 3, (parts.flatten.drop 6).drop 3].flatten =
      parts.flatten := by
    rw [flatten_cons, flatten_cons, flatten_singleton, take_append_drop, take_append_drop]
  obtain ⟨events, decoder, given, hd⟩ := decode_encoded _ parts _ (by decide) hp hc
  exact ⟨parts, events, decoder, given, hp, hd⟩

end WebTransport.Wire
