import OxiBelt.SniForward.InitialCompletion

/-!
# The ClientHello in TLS records (`sni_forward/client_hello.rs`)

The bytes that a connection has sent so far are read as TLS records until these hold the ClientHello.  The parser is run
again from the start each time there are more bytes, so its answers must not depend on how the message was cut into
records, nor change when more bytes arrive (`reassembled_answers`).

The offset of the source is here what is left of the data behind it.
-/

namespace SniForward

open RustStd Codec ByteString List

inductive ClientHelloSni
  | complete (sni : Option Str)
  | incomplete
  deriving DecidableEq

/-- `tls_record_bounds`: the payload of the first record, and what is behind it. -/
def tlsRecordBounds : Bytes → Result (Option (Bytes × Bytes))
  | kind :: _ :: _ :: high :: low :: data =>
    if kind ≠ 0x16 then .error "expected TLS handshake record"
    else if data.length < beValue [high, low] then .ok none
    else .ok (some (data.take (beValue [high, low]), data.drop (beValue [high, low])))
  | _ => .ok none

def clientHelloMessageLen (data : Bytes) : Result (Option Nat) :=
  if data.length < 4 then .ok none
  else do
    ensure (data.head? == some 0x01) "expected TLS ClientHello handshake"
    return some (declaredLength data)

/-- What a record does: it answers, or the loop goes on with the handshake bytes and their expected length. -/
inductive RecordTurn
  | answer (answer : Result ClientHelloSni)
  | again (handshake : Bytes) (expected : Option Nat)

def messageAnswer (message : Bytes) : Result ClientHelloSni :=
  ((rawClientHelloSni message).mapError fun _ => "invalid TLS record".toList).map .complete

def recordTurn (handshake : Bytes) (expected : Option Nat) : RecordTurn :=
  match if expected.isNone then clientHelloMessageLen handshake else .ok expected with
  | .error e => .answer (.error e)
  | .ok none => .again handshake none
  | .ok (some length) =>
    if length ≤ handshake.length then .answer (messageAnswer (handshake.take length))
    else .again handshake (some length)

theorem tlsRecordBounds_length {data payload rest : Bytes} (h : tlsRecordBounds data = .ok (some (payload, rest))) :
    rest.length < data.length := by
  unfold tlsRecordBounds at h
  split at h
  · split at h
    · cases h
    split at h
    · cases h
    cases h
    simp only [length_drop, length_cons]
    omega
  · cases h

/-- The loop of `reassembled_tls_record_client_hello_sni`. -/
def reassembleRecords (handshake : Bytes) (expected : Option Nat) (data : Bytes) : Result ClientHelloSni :=
  match _hrecord : tlsRecordBounds data with
  | .error e => .error e
  | .ok none => .ok .incomplete
  | .ok (some (payload, rest)) =>
    match recordTurn (handshake ++ payload) expected with
    | .answer answer => answer
    | .again handshake expected => reassembleRecords handshake expected rest
termination_by data.length
decreasing_by exact tlsRecordBounds_length _hrecord

def reassembledTlsRecordClientHelloSni (data : Bytes) : Result ClientHelloSni := reassembleRecords [] none data

/-! ## More bytes -/

variable {data more handshake payload rest message : Bytes} {expected : Option Nat}

/-- A record that could be read is read again, whatever follows. -/
theorem tlsRecordBounds_append (h : tlsRecordBounds data ≠ .ok none) : tlsRecordBounds (data ++ more) =
      (tlsRecordBounds data).map (Option.map fun record => (record.1, record.2 ++ more)) := by
  unfold tlsRecordBounds at h
  split at h
  · next kind v w high low data =>
    simp only [tlsRecordBounds, cons_append]
    split
    · rfl
    next hk =>
    rw [if_neg hk] at h
    have hl : ¬ data.length < beValue [high, low] := fun hl => h (if_pos hl)
    rw [if_neg hl, if_neg (by rw [length_append]; omega), take_append_of_le_length (by omega),
      drop_append_of_le_length (by omega)]
    rfl
  · exact absurd rfl h

/-- An answer does not change when more bytes arrive. -/
theorem reassembleRecords_append (h : reassembleRecords handshake expected data ≠ .ok .incomplete) :
    reassembleRecords handshake expected (data ++ more) = reassembleRecords handshake expected data := by
  induction hn : data.length using Nat.strong_induction_on generalizing handshake expected data with
  | _ n ih =>
  subst hn
  rw [reassembleRecords] at h
  rw [reassembleRecords, reassembleRecords]
  cases hr : tlsRecordBounds data with
  | error e =>
    rw [tlsRecordBounds_append (by simp [hr]), hr]
    rfl
  | ok record =>
    cases record with
    | none =>
      rw [hr] at h
      exact absurd rfl h
    | some record =>
      obtain ⟨payload, rest⟩ := record
      rw [hr] at h
      rw [tlsRecordBounds_append (by simp [hr]), hr]
      dsimp only [Except.map, Option.map] at h ⊢
      cases ht : recordTurn (handshake ++ payload) expected with
      | answer answer => rfl
      | again handshake' expected' =>
        rw [ht] at h
        exact ih _ (tlsRecordBounds_length hr) h rfl

/-! ## A message cut into records -/

structure TlsRecord where
  version : UInt8 × UInt8
  payload : Bytes
  fits : payload.length < 2 ^ 16

def TlsRecord.encode (record : TlsRecord) : Bytes :=
  0x16 :: record.version.1 :: record.version.2 :: (beBytes 2 record.payload.length ++ record.payload)

def handshakeOf (records : List TlsRecord) : Bytes := records.flatMap TlsRecord.payload

variable {record : TlsRecord} {records : List TlsRecord}

theorem tlsRecordBounds_encode : tlsRecordBounds (record.encode ++ rest) = .ok (some (record.payload, rest)) := by
  have hv := @beValue_beBytes 2 record.payload.length (by have := record.fits; omega)
  have hb : beBytes 2 record.payload.length = [_, _] := rfl
  rw [hb] at hv
  rw [TlsRecord.encode, hb]
  simp only [cons_append, nil_append, tlsRecordBounds]
  rw [hv, if_neg (by simp), if_neg (by rw [length_append]; omega), take_left, drop_left]

theorem tlsRecordBounds_cut {cut : Bytes} (h : cut <+: record.encode) (hne : cut ≠ record.encode) :
    tlsRecordBounds cut = .ok none := by
  obtain ⟨more, hm⟩ := h
  by_contra hc
  have ha := @tlsRecordBounds_append cut more hc
  have he := @tlsRecordBounds_encode [] record
  rw [append_nil, ← hm, ha] at he
  cases hr : tlsRecordBounds cut with
  | error e => rw [hr] at he; cases he
  | ok value =>
    cases value with
    | none => exact hc hr
    | some value =>
      rw [hr] at he
      simp only [Except.map, Option.map, Except.ok.injEq, Option.some.injEq, Prod.mk.injEq, append_eq_nil_iff] at he
      rw [he.2.2, append_nil] at hm
      exact hne hm

theorem IsClientHello.messageLen (hm : IsClientHello message) (h : handshake <+: message) :
    clientHelloMessageLen handshake = .ok (if handshake.length < 4 then none else some message.length) := by
  unfold clientHelloMessageLen
  split
  · rfl
  next hl =>
  obtain ⟨hh, hd⟩ := hm.of_prefix h (not_lt.1 hl)
  rw [hh, hd]
  rfl

/-- The loop knows the length of the message or has not read it yet. -/
def Expects (message : Bytes) (expected : Option Nat) : Prop := ∀ length ∈ expected, length = message.length

/-- A round answers when the handshake bytes are the message, and not before. -/
theorem recordTurn_hello (hm : IsClientHello message) (h : handshake <+: message) (he : Expects message expected) :
    ∃ expected', Expects message expected' ∧ recordTurn handshake expected =
      if handshake = message then .answer (messageAnswer message) else .again handshake expected' := by
  have hk : (if message.length ≤ handshake.length then RecordTurn.answer (messageAnswer (handshake.take message.length))
      else .again handshake (some message.length)) =
      if handshake = message then .answer (messageAnswer message) else .again handshake (some message.length) := by
    by_cases hw : handshake = message
    · rw [if_pos hw, hw, if_pos le_rfl, List.take_length]
    · rw [if_neg hw, if_neg fun hl => hw (h.eq_of_length_le hl)]
  have hs : Expects message (some message.length) := by simp [Expects]
  unfold recordTurn
  cases expected with
  | some length =>
    obtain rfl := he length rfl
    exact ⟨_, hs, hk⟩
  | none =>
    rw [if_pos Option.isNone_none, hm.messageLen h]
    by_cases hl : handshake.length < 4
    · rw [if_pos hl]
      refine ⟨none, he, (if_neg ?_).symm⟩
      rintro rfl
      exact absurd hm.header (not_le.2 hl)
    · rw [if_neg hl]
      exact ⟨_, hs, hk⟩

/-- Records whose handshake bytes belong to the message: the loop answers once they are the message. -/
theorem reassembleRecords_encode (hm : IsClientHello message) (h : handshake ++ handshakeOf records <+: message)
    (hne : handshake ≠ message) (he : Expects message expected) :
    ∃ expected', reassembleRecords handshake expected (records.flatMap TlsRecord.encode ++ data) =
      if handshake ++ handshakeOf records = message then messageAnswer message
      else reassembleRecords (handshake ++ handshakeOf records) expected' data := by
  induction records generalizing handshake expected with
  | nil =>
    refine ⟨expected, ?_⟩
    simp [handshakeOf, hne]
  | cons record records ih =>
    have hs : handshakeOf (record :: records) = record.payload ++ handshakeOf records := flatMap_cons
    rw [hs, ← append_assoc] at h ⊢
    obtain ⟨expected', he', ht⟩ := recordTurn_hello hm ((prefix_append _ _).trans h) he
    rw [flatMap_cons, append_assoc, reassembleRecords, tlsRecordBounds_encode]
    dsimp only
    rw [ht]
    by_cases hw : handshake ++ record.payload = message
    · -- nothing of the message is left for the further records
      have hn : handshakeOf records = [] := by
        rw [hw] at h
        simpa using h.length_le
      exact ⟨none, by simp [hw, hn]⟩
    · rw [if_neg hw]
      exact ih h hw he'

/-- **Records do not matter.**  However a ClientHello is cut into handshake records and whatever follows them, the
answer is that to the message itself.  On every prefix that lacks a part of the message, which ends within a record, it
is that the message is incomplete.  And every other answer stays the same when more bytes arrive. -/
theorem reassembled_answers (message : Bytes) (hmessage : IsClientHello message) (records : List TlsRecord)
    (hrecords : handshakeOf records = message) :
    (∀ trailing, reassembledTlsRecordClientHelloSni (records.flatMap TlsRecord.encode ++ trailing) =
      messageAnswer message) ∧
    (∀ front record back cut, records = front ++ record :: back → handshakeOf front ≠ message →
      cut <+: record.encode → cut ≠ record.encode →
      reassembledTlsRecordClientHelloSni (front.flatMap TlsRecord.encode ++ cut) = .ok .incomplete) ∧
    ∀ data more, reassembledTlsRecordClientHelloSni data ≠ .ok .incomplete →
      reassembledTlsRecordClientHelloSni (data ++ more) = reassembledTlsRecordClientHelloSni data := by
  have hne : [] ≠ message := by
    rintro rfl
    exact absurd hmessage.header (by decide)
  refine ⟨fun trailing => ?_, ?_, fun data more => reassembleRecords_append⟩
  · obtain ⟨_, h⟩ := @reassembleRecords_encode trailing [] message none records hmessage
      (by rw [nil_append, hrecords]) hne (by simp [Expects])
    rwa [nil_append, if_pos hrecords] at h
  · rintro front record back cut rfl hf hp hc
    have hpf : [] ++ handshakeOf front <+: message := ⟨handshakeOf (record :: back), by simp [← hrecords, handshakeOf]⟩
    obtain ⟨_, h⟩ := @reassembleRecords_encode cut [] message none front hmessage hpf hne (by simp [Expects])
    rw [nil_append, if_neg hf] at h
    rw [reassembledTlsRecordClientHelloSni, h, reassembleRecords, tlsRecordBounds_cut hp hc]

/-- A message that asks for `a.example`, its header cut into three records of which one is empty. -/
def namedHello : Bytes :=
  [1, 0, 0, 61, 3, 3] ++ List.replicate 32 0 ++ [0, 0, 2, 0x13, 1, 1, 0, 0, 18, 0, 0, 0, 14, 0, 12, 0, 0, 9] ++
    asBytes "a.example"

def cutHeader : List TlsRecord :=
  [⟨(3, 1), namedHello.take 2, by decide⟩, ⟨(3, 3), [], by decide⟩, ⟨(3, 3), namedHello.drop 2, by decide⟩]

theorem reassembled_answers_cutHeader :
    reassembledTlsRecordClientHelloSni (cutHeader.flatMap TlsRecord.encode ++ [0x17]) =
      .ok (.complete (some "a.example")) :=
  ((reassembled_answers namedHello ⟨by decide, rfl, rfl⟩ cutHeader rfl).1 [0x17]).trans (by decide +kernel)

end SniForward
