import OxiBelt.Lib.Bytes
import OxiBelt.Lib.Chain
import OxiBelt.RustStd.Result

/-!
# Tamper-evident chaining of audit events (`admin_audit/integrity.rs`)

Each event is sealed with a hash over the chain id, its sequence number, the hash before it, the
algorithm, the key id and its canonical payload.  A verifier replays the chain from genesis.

* `eventHashInput_inj`: the hashed bytes determine the sequence number, the previous hash and the
  canonical payload, also next to a key id of variable length.
* `verifyAndAdvance_eq_ok`: what one accepted event has passed.
* `verifyAll_tamper_evident`: equal last hashes mean equal payloads, and sealed chains are accepted.

The hash, the MAC and the canonical JSON writer are parameters.
-/

namespace Audit

open RustStd ByteString List

/-- The primitives of the crypto provider; its MAC check accepts the MAC of the same message. -/
structure Crypto where
  sha256 : Bytes → ByteArr 32
  hmacSha256 : Bytes → Bytes → ByteArr 32
  verifyHmacSha256 : Bytes → Bytes → Bytes → Bool
  verify_own : ∀ key value, verifyHmacSha256 key value (hmacSha256 key value).val = true

def integrityDomain : Bytes := asBytes "oxibelt.admin.audit.integrity/v1\x00"

def chainIdBytes : Nat := 16

def genesisHash : ByteArr 32 := zeros 32

/-! ## Hexadecimal text -/

def hexDigit (n : Nat) : Char := "0123456789abcdef".toList.getD n '0'

def hexEncode (bytes : Bytes) : Str :=
  bytes.flatMap fun (byte : UInt8) => [hexDigit (byte >>> 4).toNat, hexDigit (byte &&& 0x0f).toNat]

/-- `decode_hex_digit`: lower case only. -/
def decodeHexDigit (value : UInt8) : Option UInt8 :=
  if 48 ≤ value && value ≤ 57 then some (value - 48)
  else if 97 ≤ value && value ≤ 102 then some (value - 97 + 10)
  else none

def decodeHexPairs : Bytes → Option Bytes
  | high :: low :: rest =>
    match decodeHexDigit high, decodeHexDigit low, decodeHexPairs rest with
    | some high, some low, some output => some ((high <<< 4 ||| low) :: output)
    | _, _, _ => none
  | _ => some []

theorem decodeHexPairs_length : ∀ {bytes output : Bytes}, decodeHexPairs bytes = some output →
    output.length = bytes.length / 2
  | [], _, h => by cases h; rfl
  | [_], _, h => by cases h; simp
  | _ :: _ :: rest, output, h => by
    rw [decodeHexPairs] at h
    split at h
    · next hr =>
      cases h
      have := decodeHexPairs_length hr
      simp only [length_cons]
      omega
    · contradiction

/-- `decode_hex::<N>`. -/
def decodeHex (n : Nat) (value : Str) (label : String) : Result (ByteArr n) :=
  if hlen : (asBytes value).length = n * 2 then
    match h : decodeHexPairs (asBytes value) with
    | some output => .ok ⟨output, by rw [decodeHexPairs_length h, hlen]; omega⟩
    | none => .error ("Admin audit " ++ label.toList)
  else
    .error ("Admin audit " ++ label.toList ++ " must contain exactly " ++
      decimal (n * 2) ++ " lowercase hexadecimal characters")

variable {chainId : Str} {n : Nat}

theorem decodeHex_eq_ok {value : Str} {label : String} {output : ByteArr n} : decodeHex n value label = .ok output ↔
      (asBytes value).length = n * 2 ∧ decodeHexPairs (asBytes value) = some output.val := by
  unfold decodeHex
  split
  · next hl =>
    split
    · next out h => simp [hl, h, Subtype.ext_iff, eq_comm]
    · next h => simp [h]
  · next hl => simp [hl]

/-- A hexadecimal digit is one byte of text, and that byte decodes to the digit. -/
theorem decodeHexDigit_hexDigit (h : n < 16) :
    ∃ c, asBytes [hexDigit n] = [c] ∧ decodeHexDigit c = some (UInt8.ofNat n) := by
  have ha : ∀ n : Fin 16, asBytes [hexDigit n] = [(asBytes [hexDigit n]).headD 0] ∧
      decodeHexDigit ((asBytes [hexDigit n]).headD 0) = some (UInt8.ofNat n) := by decide +kernel
  exact ⟨_, ha ⟨n, h⟩⟩

theorem nibbles (byte : UInt8) : (byte >>> 4).toNat < 16 ∧ (byte &&& 0x0f).toNat < 16 ∧
      (byte >>> 4) <<< 4 ||| (byte &&& 0x0f) = byte := by
  have ha : ∀ n : Fin 256, (UInt8.ofNat n >>> 4).toNat < 16 ∧ (UInt8.ofNat n &&& 0x0f).toNat < 16 ∧
      (UInt8.ofNat n >>> 4) <<< 4 ||| (UInt8.ofNat n &&& 0x0f) = UInt8.ofNat n := by decide +kernel
  have h := ha ⟨byte.toNat, byte.toNat_lt⟩
  simpa using h

theorem asBytes_hexEncode_cons (byte : UInt8) (bytes : Bytes) :
    ∃ high low, asBytes (hexEncode (byte :: bytes)) = high :: low :: asBytes (hexEncode bytes) ∧
      decodeHexDigit high = some (byte >>> 4) ∧ decodeHexDigit low = some (byte &&& 0x0f) := by
  obtain ⟨hhg, hlw, -⟩ := nibbles byte
  obtain ⟨high, hh, hdh⟩ := decodeHexDigit_hexDigit hhg
  obtain ⟨low, hl, hdl⟩ := decodeHexDigit_hexDigit hlw
  refine ⟨high, low, ?_, ?_, ?_⟩
  · simp only [asBytes, flatMap_cons, flatMap_nil, append_nil] at hh hl
    simp only [asBytes, hexEncode, flatMap_cons, flatMap_append, hh, hl]
    rfl
  · rwa [UInt8.ofNat_toNat] at hdh
  · rwa [UInt8.ofNat_toNat] at hdl

theorem asBytes_hexEncode_length (bytes : Bytes) : (asBytes (hexEncode bytes)).length = bytes.length * 2 := by
  induction bytes with
  | nil => rfl
  | cons byte bytes ih =>
    obtain ⟨high, low, heq, -, -⟩ := asBytes_hexEncode_cons byte bytes
    rw [heq]
    simp only [length_cons, ih]
    omega

theorem decodeHexPairs_hexEncode (bytes : Bytes) : decodeHexPairs (asBytes (hexEncode bytes)) = some bytes := by
  induction bytes with
  | nil => rfl
  | cons byte bytes ih =>
    obtain ⟨high, low, heq, hh, hl⟩ := asBytes_hexEncode_cons byte bytes
    rw [heq, decodeHexPairs, hh, hl, ih]
    simp only [(nibbles byte).2.2]

/-- **Round trip** of `hex_encode` and `decode_hex`. -/
theorem decodeHex_hexEncode (bytes : ByteArr n) (label : String) :
    decodeHex n (hexEncode bytes.val) label = .ok bytes := by
  rw [decodeHex_eq_ok, asBytes_hexEncode_length, bytes.property]
  exact ⟨rfl, decodeHexPairs_hexEncode bytes.val⟩

/-! ## Keys, envelopes and the hashed bytes -/

def isAsciiControl (byte : UInt8) : Bool := byte < 32 || byte == 127

def validateKeyId (keyId : Str) : Result Unit := do
  ensure (!keyId.isEmpty && trim keyId == keyId)
    "Admin audit HMAC key ID must not be empty or padded"
  ensure ((asBytes keyId).length ≤ 128) "Admin audit HMAC key ID must be at most 128 bytes"
  ensure (!(asBytes keyId).any isAsciiControl)
    "Admin audit HMAC key ID must not contain control characters"

/-- A key whose id has passed `validate_key_id`, as `from_base64` builds it. -/
structure AuditHmacKey where
  key : ByteArr 32
  keyId : Str
  valid : validateKeyId keyId = .ok ()

inductive IntegrityAlgorithm where
  | sha256
  | hmacSha256
  deriving DecidableEq, Repr

def algorithmFor : Option AuditHmacKey → IntegrityAlgorithm
  | some _ => .hmacSha256
  | none => .sha256

structure IntegrityEnvelope where
  algorithm : IntegrityAlgorithm
  chainId : Str
  sequence : UInt64
  (previousHash eventHash : Str)
  (keyId tag : Option Str)
  deriving DecidableEq

def algorithmByte : IntegrityAlgorithm → UInt8
  | .sha256 => 1
  | .hmacSha256 => 2

def validateChainId (chainId : Str) : Result Unit := do
  let _ ← decodeHex chainIdBytes chainId "chain ID"
  return ()

/-- The bytes that `calculate_event_hash` hashes. -/
def eventHashInput (chainId : Str) (sequence : UInt64) (previousHash : ByteArr 32)
    (algorithm : IntegrityAlgorithm) (keyId : Option Str) (canonicalPayload : Bytes) : Result Bytes := do
  validateChainId chainId
  let chainId ← decodeHex chainIdBytes chainId "chain ID"
  let keyId := asBytes (keyId.getD [])
  ensure (keyId.length < 2 ^ 32) "Admin audit HMAC key ID is too long"
  ensure (canonicalPayload.length < 2 ^ 64) "Admin audit canonical payload is too large"
  return integrityDomain ++ (chainId.val ++ (beBytes 8 sequence.toNat ++ (previousHash.val ++
    (algorithmByte algorithm :: (field 4 keyId ++ field 8 canonicalPayload)))))

def calculateEventHash (c : Crypto) (chainId : Str) (sequence : UInt64) (previousHash : ByteArr 32)
    (algorithm : IntegrityAlgorithm) (keyId : Option Str) (canonicalPayload : Bytes) :
    Result (ByteArr 32) := do
  let input ← eventHashInput chainId sequence previousHash algorithm keyId canonicalPayload
  return c.sha256 input

variable {keyId : Option Str} {payload input : Bytes}

theorem eventHashInput_eq_ok {seq : UInt64} {prev : ByteArr 32} {alg : IntegrityAlgorithm}
    (h : eventHashInput chainId seq prev alg keyId payload = .ok input) :
    ∃ id : ByteArr chainIdBytes, (asBytes (keyId.getD [])).length < 256 ^ 4 ∧ payload.length < 256 ^ 8 ∧
      integrityDomain ++ (id.val ++ (beBytes 8 seq.toNat ++ (prev.val ++
        (algorithmByte alg :: (field 4 (asBytes (keyId.getD [])) ++ field 8 payload))))) = input := by
  obtain ⟨-, -, h⟩ := bind_eq_ok.1 h
  obtain ⟨id, -, h⟩ := bind_eq_ok.1 h
  obtain ⟨hk, h⟩ := ensure_bind_eq_ok.1 h
  obtain ⟨hl, h⟩ := ensure_bind_eq_ok.1 h
  exact ⟨id, of_decide_eq_true hk, of_decide_eq_true hl, Except.ok.inj h⟩

/-- **Layout.**  The hashed bytes of one chain determine where in the chain the event stands, what it
follows and its canonical payload. -/
theorem eventHashInput_inj {seq seq' : UInt64} {prev prev' : ByteArr 32} {alg alg' : IntegrityAlgorithm}
    {keyId' : Option Str} {payload' : Bytes}
    (h : eventHashInput chainId seq prev alg keyId payload = .ok input)
    (h' : eventHashInput chainId seq' prev' alg' keyId' payload' = .ok input) :
    seq = seq' ∧ prev = prev' ∧ payload = payload' := by
  obtain ⟨id', hk', hl', rfl⟩ := eventHashInput_eq_ok h'
  obtain ⟨id, hk, hl, hin⟩ := eventHashInput_eq_ok h
  -- strip the parts of fixed length, then the two fields
  have hin := (append_inj hin rfl).2
  obtain ⟨-, hin⟩ := append_inj hin (by rw [id.property, id'.property])
  obtain ⟨hs, hin⟩ := append_inj hin (by simp)
  obtain ⟨hpr, hin⟩ := append_inj hin (by rw [prev.property, prev'.property])
  have hin := (List.cons.inj hin).2
  obtain ⟨-, hin⟩ := field_append_inj hk hk' hin
  have hp : payload = payload' := by
    have hin' : field 8 payload ++ [] = field 8 payload' ++ [] := by simpa using hin
    exact (field_append_inj hl hl' hin').1
  exact ⟨UInt64.toNat_inj.1 (beBytes_inj seq.toNat_lt seq'.toNat_lt hs), Subtype.ext hpr, hp⟩

/-! ## Sealing and verifying -/

structure IntegrityChain where
  chainId : Str
  nextSequence : UInt64
  previousHash : ByteArr 32
  hmacKey : Option AuditHmacKey

structure IntegrityVerifier where
  chainId : Str
  nextSequence : UInt64
  previousHash : ByteArr 32
  hmacKey : Option AuditHmacKey

def IntegrityChain.restore (chainId : Str) (nextSequence : UInt64) (previousHash : Str)
    (hmacKey : Option AuditHmacKey) : Result IntegrityChain := do
  validateChainId chainId
  let previousHash ← decodeHex 32 previousHash "previous event hash"
  return { chainId, nextSequence, previousHash, hmacKey }

def IntegrityVerifier.restore (chainId : Str) (nextSequence : UInt64) (previousHash : Str)
    (hmacKey : Option AuditHmacKey) : Result IntegrityVerifier := do
  validateChainId chainId
  let previousHash ← decodeHex 32 previousHash "previous event hash"
  return { chainId, nextSequence, previousHash, hmacKey }

def sequenceExhausted : Str := "Admin audit integrity sequence is exhausted"

variable {v v' : IntegrityVerifier}

section Sealing

variable (c : Crypto) {P : Type} (canonicalJsonBytes : P → Result Bytes)

/-- `IntegrityChain::seal`: the envelope of the payload, and the chain after it. -/
def IntegrityChain.seal (chain : IntegrityChain) (payload : P) :
    Result (IntegrityEnvelope × IntegrityChain) := do
  let nextSequence ← context (checkedSucc chain.nextSequence) sequenceExhausted
  let canonicalPayload ← canonicalJsonBytes payload
  let algorithm := algorithmFor chain.hmacKey
  let keyId := chain.hmacKey.map (·.keyId)
  let eventHash ← calculateEventHash c chain.chainId chain.nextSequence chain.previousHash algorithm
    keyId canonicalPayload
  let tag := chain.hmacKey.map fun hmacKey =>
    hexEncode (c.hmacSha256 hmacKey.key.val eventHash.val).val
  let envelope : IntegrityEnvelope := {
    algorithm
    chainId := chain.chainId
    sequence := chain.nextSequence
    previousHash := hexEncode chain.previousHash.val
    eventHash := hexEncode eventHash.val
    keyId
    tag }
  return (envelope, { chain with nextSequence, previousHash := eventHash })

def keyIdMatches (hmacKey : Option AuditHmacKey) (envelope : IntegrityEnvelope) : Result Unit :=
  match hmacKey with
  | some hmacKey =>
    ensure (envelope.keyId == some hmacKey.keyId) "Admin audit HMAC key ID does not match"
  | none =>
    ensure (envelope.keyId.isNone && envelope.tag.isNone)
      "hash-only Admin audit envelopes must not contain HMAC metadata"

def tagMatches (hmacKey : Option AuditHmacKey) (envelope : IntegrityEnvelope)
    (eventHash : ByteArr 32) : Result Unit :=
  match hmacKey with
  | none => return ()
  | some hmacKey => do
    let tag ← context envelope.tag "Admin audit HMAC envelope is missing its tag"
    let tag ← decodeHex 32 tag "HMAC tag"
    ensure (c.verifyHmacSha256 hmacKey.key.val eventHash.val tag.val)
      "Admin audit HMAC tag does not match"

/-- `IntegrityVerifier::verify_and_advance`. -/
def IntegrityVerifier.verifyAndAdvance (v : IntegrityVerifier) (item : P × IntegrityEnvelope) :
    Result IntegrityVerifier := do
  let (payload, envelope) := item
  ensure (envelope.chainId == v.chainId) "Admin audit integrity chain ID does not match"
  ensure (envelope.sequence == v.nextSequence) "Admin audit integrity sequence is out of order"
  let envelopePreviousHash ← decodeHex 32 envelope.previousHash "previous event hash"
  ensure (envelopePreviousHash == v.previousHash) "Admin audit previous event hash does not match"
  let expectedAlgorithm := algorithmFor v.hmacKey
  ensure (envelope.algorithm == expectedAlgorithm)
    "Admin audit integrity algorithm does not match the configured chain"
  keyIdMatches v.hmacKey envelope
  let canonicalPayload ← canonicalJsonBytes payload
  let expectedEventHash ← calculateEventHash c v.chainId v.nextSequence v.previousHash
    expectedAlgorithm envelope.keyId canonicalPayload
  let eventHash ← decodeHex 32 envelope.eventHash "event hash"
  ensure (eventHash == expectedEventHash) "Admin audit event hash does not match"
  tagMatches c v.hmacKey envelope eventHash
  let nextSequence ← context (checkedSucc v.nextSequence) sequenceExhausted
  return { v with nextSequence, previousHash := eventHash }

/-- The bytes hashed for an item, when its payload has a canonical form. -/
def IntegrityVerifier.hashedInput (v : IntegrityVerifier) (item : P × IntegrityEnvelope) :
    Result Bytes := do
  let canonicalPayload ← canonicalJsonBytes item.1
  eventHashInput v.chainId v.nextSequence v.previousHash (algorithmFor v.hmacKey) item.2.keyId
    canonicalPayload

/-- What an accepted item has passed, as far as the chain is concerned. -/
theorem verifyAndAdvance_eq_ok {item : P × IntegrityEnvelope}
    (h : v.verifyAndAdvance c canonicalJsonBytes item = .ok v') :
    ∃ input, v.hashedInput canonicalJsonBytes item = .ok input ∧
      v'.previousHash = c.sha256 input ∧
      decodeHex 32 item.2.eventHash "event hash" = .ok v'.previousHash ∧
      v'.nextSequence.toNat = v.nextSequence.toNat + 1 ∧ v'.chainId = v.chainId := by
  obtain ⟨payload, envelope⟩ := item
  obtain ⟨-, h⟩ := ensure_bind_eq_ok.1 h
  obtain ⟨-, h⟩ := ensure_bind_eq_ok.1 h
  obtain ⟨_, -, h⟩ := bind_eq_ok.1 h
  obtain ⟨-, h⟩ := ensure_bind_eq_ok.1 h
  obtain ⟨-, h⟩ := ensure_bind_eq_ok.1 h
  obtain ⟨_, -, h⟩ := bind_eq_ok.1 h
  obtain ⟨canonical, hc, h⟩ := bind_eq_ok.1 h
  obtain ⟨expected, he, h⟩ := bind_eq_ok.1 h
  obtain ⟨input, hi, hs⟩ := bind_eq_ok.1 he
  obtain ⟨eventHash, hh, h⟩ := bind_eq_ok.1 h
  obtain ⟨heq, h⟩ := ensure_bind_eq_ok.1 h
  obtain ⟨_, -, h⟩ := bind_eq_ok.1 h
  obtain ⟨next, hn, h⟩ := bind_eq_ok.1 h
  cases h
  rw [beq_iff_eq] at heq
  subst heq
  refine ⟨input, bind_eq_ok.2 ⟨canonical, hc, hi⟩, ?_, hh, ?_, rfl⟩
  · exact (Except.ok.inj hs).symm
  · exact checkedSucc_toNat (context_eq_ok.1 hn)

/-! ## A sealed chain is accepted -/

def IntegrityChain.verifier (chain : IntegrityChain) : IntegrityVerifier where
  chainId := chain.chainId
  nextSequence := chain.nextSequence
  previousHash := chain.previousHash
  hmacKey := chain.hmacKey

theorem restore_fields {next : UInt64} {prev : Str} {key : Option AuditHmacKey}
    (h : IntegrityVerifier.restore chainId next prev key = .ok v) :
    v.chainId = chainId ∧ v.nextSequence = next := by
  obtain ⟨-, -, h⟩ := bind_eq_ok.1 h
  obtain ⟨_, -, h⟩ := bind_eq_ok.1 h
  cases h
  exact ⟨rfl, rfl⟩

variable {chain : IntegrityChain}

theorem restore_verifier {next : UInt64} {prev : Str} {key : Option AuditHmacKey}
    (h : IntegrityChain.restore chainId next prev key = .ok chain) :
    IntegrityVerifier.restore chainId next prev key = .ok chain.verifier := by
  obtain ⟨u, hid, h⟩ := bind_eq_ok.1 h
  obtain ⟨hash, hh, h⟩ := bind_eq_ok.1 h
  cases h
  exact bind_eq_ok.2 ⟨u, hid, bind_eq_ok.2 ⟨hash, hh, rfl⟩⟩

variable {chain' : IntegrityChain}

/-- One step: what `seal` produces, the verifier in the same place accepts and follows. -/
theorem seal_verifies {payload : P} {envelope : IntegrityEnvelope}
    (h : chain.seal c canonicalJsonBytes payload = .ok (envelope, chain')) :
    chain.verifier.verifyAndAdvance c canonicalJsonBytes (payload, envelope) = .ok chain'.verifier := by
  obtain ⟨next, hn, h⟩ := bind_eq_ok.1 h
  obtain ⟨canonical, hc, h⟩ := bind_eq_ok.1 h
  obtain ⟨eventHash, hh, h⟩ := bind_eq_ok.1 h
  cases h
  refine ensure_bind_eq_ok.2 ⟨beq_self_eq_true _, ensure_bind_eq_ok.2 ⟨beq_self_eq_true _, ?_⟩⟩
  refine bind_eq_ok.2 ⟨chain.previousHash, decodeHex_hexEncode _ _, ?_⟩
  refine ensure_bind_eq_ok.2 ⟨beq_self_eq_true _, ensure_bind_eq_ok.2 ⟨beq_self_eq_true _, ?_⟩⟩
  refine bind_eq_ok.2 ⟨(), ?_, bind_eq_ok.2 ⟨canonical, hc, bind_eq_ok.2 ⟨eventHash, hh, ?_⟩⟩⟩
  · cases hk : chain.hmacKey <;> simp [keyIdMatches, IntegrityChain.verifier, hk, ensure]
  refine bind_eq_ok.2 ⟨eventHash, decodeHex_hexEncode _ _, ?_⟩
  refine ensure_bind_eq_ok.2 ⟨beq_self_eq_true _, bind_eq_ok.2 ⟨(), ?_, ?_⟩⟩
  · cases hk : chain.hmacKey with
    | none => simp [tagMatches, IntegrityChain.verifier, hk, pure, Except.pure]
    | some key =>
      simp only [tagMatches, IntegrityChain.verifier, hk, Option.map_some]
      refine bind_eq_ok.2 ⟨_, context_eq_ok.2 rfl, bind_eq_ok.2 ⟨_, decodeHex_hexEncode _ _, ?_⟩⟩
      simp [ensure, c.verify_own]
  · exact bind_eq_ok.2 ⟨next, hn, rfl⟩

def sealAll (chain : IntegrityChain) : List P → Result (List (P × IntegrityEnvelope) × IntegrityChain)
  | [] => .ok ([], chain)
  | payload :: payloads => do
    let (envelope, chain) ← chain.seal c canonicalJsonBytes payload
    let (items, chain) ← sealAll chain payloads
    return ((payload, envelope) :: items, chain)

def verifyAll (v : IntegrityVerifier) (items : List (P × IntegrityEnvelope)) :
    Result IntegrityVerifier :=
  Chain.accept (fun v item => v.verifyAndAdvance c canonicalJsonBytes item) v items

/-- A sealed chain holds its payloads, and the verifier in its place follows it. -/
theorem sealAll_verifies {payloads : List P} {items : List (P × IntegrityEnvelope)}
    (h : sealAll c canonicalJsonBytes chain payloads = .ok (items, chain')) :
    items.map (·.1) = payloads ∧ verifyAll c canonicalJsonBytes chain.verifier items = .ok chain'.verifier := by
  induction payloads generalizing chain items with
  | nil =>
    cases h
    exact ⟨rfl, rfl⟩
  | cons payload payloads ih =>
    obtain ⟨⟨envelope, mid⟩, hs, h⟩ := bind_eq_ok.1 h
    obtain ⟨⟨rest, last⟩, hr, h⟩ := bind_eq_ok.1 h
    cases h
    obtain ⟨hp, hv⟩ := ih hr
    rw [map_cons, hp]
    exact ⟨rfl, Chain.accept_cons_eq_ok.2 ⟨mid.verifier, seal_verifies c canonicalJsonBytes hs, hv⟩⟩

/-! ## Equal last hashes -/

def hashedInputs (v : IntegrityVerifier) (items : List (P × IntegrityEnvelope)) : List Bytes :=
  (Chain.visited (fun v item => v.verifyAndAdvance c canonicalJsonBytes item) v items).filterMap
    fun (v, item) => (v.hashedInput canonicalJsonBytes item).toOption

def lastEventHash (items : List (P × IntegrityEnvelope)) : Option Str :=
  items.getLast?.map (·.2.eventHash)

end Sealing

section TamperEvidence

variable {c : Crypto} {P : Type} {canonicalJsonBytes : P → Result Bytes}

/-- The hash ties an item to its place, unless two different inputs of the runs collide. -/
theorem binds_of_no_collision
    (hc : ∀ p q bytes, canonicalJsonBytes p = .ok bytes → canonicalJsonBytes q = .ok bytes → p = q)
    {x y : IntegrityVerifier × (P × IntegrityEnvelope)} (hid : x.1.chainId = y.1.chainId)
    (hs : ∀ a b, x.1.hashedInput canonicalJsonBytes x.2 = .ok a →
      y.1.hashedInput canonicalJsonBytes y.2 = .ok b → c.sha256 a = c.sha256 b → a = b) :
    Chain.Binds (fun v : IntegrityVerifier => v.nextSequence.toNat) (fun v => v.previousHash)
      (fun item : P × IntegrityEnvelope => item.1)
      (fun v item => v.verifyAndAdvance c canonicalJsonBytes item) x y := by
  intro v' w' hv hw hd
  obtain ⟨a, ha, hsa, -⟩ := verifyAndAdvance_eq_ok c canonicalJsonBytes hv
  obtain ⟨b, hb, hsb, -⟩ := verifyAndAdvance_eq_ok c canonicalJsonBytes hw
  have hab : a = b := hs a b ha hb (by rw [← hsa, ← hsb]; exact hd)
  subst hab
  obtain ⟨p, hp, ha⟩ := bind_eq_ok.1 ha
  obtain ⟨q, hq, hb⟩ := bind_eq_ok.1 hb
  rw [← hid] at hb
  obtain ⟨hsq, hpr, hpq⟩ := eventHashInput_inj ha hb
  refine ⟨congrArg UInt64.toNat hsq, hpr, hc _ _ p hp ?_⟩
  rw [hpq]
  exact hq

variable {items : List (P × IntegrityEnvelope)} {x : IntegrityVerifier × (P × IntegrityEnvelope)}

/-- The verifier's chain id does not change along a run. -/
theorem visited_chainId (hx : x ∈ Chain.visited (fun v item => v.verifyAndAdvance c canonicalJsonBytes item) v items) :
    x.1.chainId = v.chainId := by
  induction items generalizing v with
  | nil => simp [Chain.visited] at hx
  | cons item items ih =>
    rw [Chain.visited, mem_cons] at hx
    rcases hx with rfl | hx
    · rfl
    split at hx
    · next v' hv =>
      obtain ⟨-, -, -, -, -, hid⟩ := verifyAndAdvance_eq_ok c canonicalJsonBytes hv
      rw [ih hx, hid]
    · simp at hx

theorem mem_hashedInputs {a : Bytes}
    (hx : x ∈ Chain.visited (fun v item => v.verifyAndAdvance c canonicalJsonBytes item) v items)
    (ha : x.1.hashedInput canonicalJsonBytes x.2 = .ok a) :
    a ∈ hashedInputs c canonicalJsonBytes v items := by
  refine mem_filterMap.2 ⟨x, hx, ?_⟩
  show (x.1.hashedInput canonicalJsonBytes x.2).toOption = some a
  rw [ha]
  rfl

/-- The text of the last event hash fixes the digest the verifier ends with. -/
theorem digest_of_lastEventHash {w w' : IntegrityVerifier} {xs ys : List (P × IntegrityEnvelope)}
    {x y : P × IntegrityEnvelope} (hx : verifyAll c canonicalJsonBytes v (xs ++ [x]) = .ok v')
    (hy : verifyAll c canonicalJsonBytes w (ys ++ [y]) = .ok w') (hl : x.2.eventHash = y.2.eventHash) :
    v'.previousHash = w'.previousHash := by
  obtain ⟨m, -, hm⟩ := Chain.accept_concat_eq_ok.1 hx
  obtain ⟨n, -, hn⟩ := Chain.accept_concat_eq_ok.1 hy
  obtain ⟨-, -, -, hdx, -⟩ := verifyAndAdvance_eq_ok c canonicalJsonBytes hm
  obtain ⟨-, -, -, hdy, -⟩ := verifyAndAdvance_eq_ok c canonicalJsonBytes hn
  rw [hl] at hdx
  exact Except.ok.inj (hdx.symm.trans hdy)

theorem payloads_eq_of_lastEventHash
    (hc : ∀ p q bytes, canonicalJsonBytes p = .ok bytes → canonicalJsonBytes q = .ok bytes → p = q)
    {w w' : IntegrityVerifier} (hid : v.chainId = w.chainId) (hs : v.nextSequence = w.nextSequence)
    {xs ys : List (P × IntegrityEnvelope)} (hx : verifyAll c canonicalJsonBytes v xs = .ok v')
    (hy : verifyAll c canonicalJsonBytes w ys = .ok w')
    (hsh : ∀ a ∈ hashedInputs c canonicalJsonBytes v xs, ∀ b ∈ hashedInputs c canonicalJsonBytes w ys,
      c.sha256 a = c.sha256 b → a = b)
    (hl : lastEventHash xs = lastEventHash ys) : xs.map (·.1) = ys.map (·.1) := by
  rcases eq_nil_or_concat' xs with rfl | ⟨xs, x, rfl⟩
  · rcases eq_nil_or_concat' ys with rfl | ⟨ys, y, rfl⟩
    · rfl
    · simp [lastEventHash] at hl
  rcases eq_nil_or_concat' ys with rfl | ⟨ys, y, rfl⟩
  · simp [lastEventHash] at hl
  have ht : x.2.eventHash = y.2.eventHash := by simpa [lastEventHash] using hl
  refine Chain.bodies_eq_of_digest (fun v : IntegrityVerifier => v.nextSequence.toNat)
    (fun v => v.previousHash) (fun item : P × IntegrityEnvelope => item.1) ?_ ?_ ?_ hx hy
    (digest_of_lastEventHash hx hy ht)
  · intro s item s' h
    obtain ⟨-, -, -, -, hn, -⟩ := verifyAndAdvance_eq_ok c canonicalJsonBytes h
    exact hn
  · rw [hs]
  intro p hp q hq
  refine binds_of_no_collision hc ?_ ?_
  · rw [visited_chainId hp, visited_chainId hq, hid]
  · intro a b ha hb
    exact hsh a (mem_hashedInputs hp ha) b (mem_hashedInputs hq hb)

end TamperEvidence

/-- **Tamper evidence.**  Two sequences accepted from the genesis state of one chain, under any keys,
that end in the same event hash have the same payloads, as long as no two inputs hashed on the way
collide; and a chain sealed from genesis is accepted. -/
theorem verifyAll_tamper_evident (c : Crypto) {P : Type} (canonicalJsonBytes : P → Result Bytes)
    (hcanon : ∀ p q bytes, canonicalJsonBytes p = .ok bytes → canonicalJsonBytes q = .ok bytes → p = q)
    (chainId : Str) (key key' : Option AuditHmacKey) :
    (∀ v w v' w' xs ys,
      IntegrityVerifier.restore chainId 0 (hexEncode genesisHash.val) key = .ok v →
      IntegrityVerifier.restore chainId 0 (hexEncode genesisHash.val) key' = .ok w →
      verifyAll c canonicalJsonBytes v xs = .ok v' → verifyAll c canonicalJsonBytes w ys = .ok w' →
      (∀ a ∈ hashedInputs c canonicalJsonBytes v xs, ∀ b ∈ hashedInputs c canonicalJsonBytes w ys,
        c.sha256 a = c.sha256 b → a = b) →
      lastEventHash xs = lastEventHash ys →
      xs.length = ys.length ∧ xs.map (·.1) = ys.map (·.1)) ∧
    (∀ chain payloads items chain',
      IntegrityChain.restore chainId 0 (hexEncode genesisHash.val) key = .ok chain →
      sealAll c canonicalJsonBytes chain payloads = .ok (items, chain') →
      items.map (·.1) = payloads ∧
      ∃ v v', IntegrityVerifier.restore chainId 0 (hexEncode genesisHash.val) key = .ok v ∧
        verifyAll c canonicalJsonBytes v items = .ok v') := by
  constructor
  · intro v w v' w' xs ys hv hw hx hy hsh hls
    have hv' := restore_fields hv
    have hw' := restore_fields hw
    have hp := payloads_eq_of_lastEventHash hcanon (hv'.1.trans hw'.1.symm) (hv'.2.trans hw'.2.symm) hx hy hsh hls
    have hl := congrArg List.length hp
    rw [length_map, length_map] at hl
    exact ⟨hl, hp⟩
  · intro chain payloads items chain' hc hs
    obtain ⟨hp, hv⟩ := sealAll_verifies c canonicalJsonBytes hs
    exact ⟨hp, chain.verifier, chain'.verifier, restore_verifier hc, hv⟩

/-- The primitives on the inputs of a sample, by their digests. -/
def tableCrypto (digests : List (Bytes × Nat)) (macs : List ((Bytes × Bytes) × Nat)) : Crypto where
  sha256 input := ⟨beBytes 32 ((digests.lookup input).getD 0), beBytes_length ..⟩
  hmacSha256 key value := ⟨beBytes 32 ((macs.lookup (key, value)).getD 0), beBytes_length ..⟩
  verifyHmacSha256 key value tag := tag == beBytes 32 ((macs.lookup (key, value)).getD 0)
  verify_own _ _ := beq_self_eq_true _

def sampleChainId : Str := "00112233445566778899aabbccddeeff"

def sampleKey (byte : UInt8) : AuditHmacKey := ⟨⟨List.replicate 32 byte, length_replicate⟩, ['k'], by decide⟩

def sampleChain (byte : UInt8) : IntegrityChain := ⟨sampleChainId, 0, genesisHash, some (sampleKey byte)⟩

/-- SHA-256 of the two events and its MACs under the two keys. -/
def sampleCrypto : Crypto :=
  let first := 0xc95d1d954ba67847b63b5775bab616f2603aabcf2e4018c5daaa0b080abadfac
  let second := 0x3d0ee6ac645f332cf2a9a9f8020d6820926d803a47f0639faaacc9936f520bd8
  let event sequence previous payload := ((eventHashInput sampleChainId sequence
    ⟨beBytes 32 previous, beBytes_length ..⟩ .hmacSha256 (some ['k']) (asBytes [payload])).toOption.getD [])
  let tagged byte hash := ((sampleKey byte).key.val, beBytes 32 hash)
  tableCrypto [(event 0 0 '1', first), (event 1 first '2', second)]
    [(tagged 1 first, 0xabc1c24171b89b1f32785e73d524aa3b965d9e42af7d27108234dce945d4ca17),
      (tagged 1 second, 0x7583c93c14cea91c9225c27ee7ceb0eb90e8caee00204535060dea04b2498133),
      (tagged 2 first, 0x6fffc91d1763d97b4d74d398fca789331c1c8d2ba8e4b6c84acf97a6191ba4f2),
      (tagged 2 second, 0x1e9d298d7abd3071b10c0e3ebcaa958ac24c1e4d366ad745a1cb40a6a1685f2e)]

/-- The payloads `1` and `2` sealed from genesis. -/
def sampleItems (byte : UInt8) : List (Str × IntegrityEnvelope) :=
  ((sealAll sampleCrypto (.ok ∘ asBytes) (sampleChain byte) [['1'], ['2']]).toOption.map (·.1)).getD []

/-- One sequence under two keys: the tags differ, the hashes agree. -/
theorem verifyAll_tamper_evident_rekeyed : sampleItems 1 ≠ sampleItems 2 ∧
    (∀ byte ∈ [1, 2],
      ∃ v', verifyAll sampleCrypto (.ok ∘ asBytes) (sampleChain byte).verifier (sampleItems byte) = .ok v') ∧
    (sampleItems 1).map (·.1) = (sampleItems 2).map (·.1) := by
  have htamper := verifyAll_tamper_evident sampleCrypto (.ok ∘ asBytes)
    (fun _ _ _ hp hq => asBytes_injective ((Except.ok.inj hp).trans (Except.ok.inj hq).symm)) sampleChainId
  have hr (byte : UInt8) : IntegrityChain.restore sampleChainId 0 (hexEncode genesisHash.val) (some (sampleKey byte)) =
      .ok (sampleChain byte) :=
    bind_eq_ok.2 ⟨(), by decide +kernel, bind_eq_ok.2 ⟨genesisHash, decodeHex_hexEncode _ _, rfl⟩⟩
  have ha : ∀ byte ∈ [1, 2],
      ∃ v', verifyAll sampleCrypto (.ok ∘ asBytes) (sampleChain byte).verifier (sampleItems byte) = .ok v' := by
    intro byte hb
    have hok : ∀ byte ∈ [1, 2],
        (sealAll sampleCrypto (.ok ∘ asBytes) (sampleChain byte) [['1'], ['2']]).toOption.isSome = true := by
      decide +kernel
    cases hs : sealAll sampleCrypto (.ok ∘ asBytes) (sampleChain byte) [['1'], ['2']] with
    | error e => exact absurd (hok byte hb) (by rw [hs]; nofun)
    | ok answer =>
      obtain ⟨-, v, v', hv, ha⟩ := (htamper (some (sampleKey byte)) none).2 _ _ _ _ (hr byte) hs
      cases hv.symm.trans (restore_verifier (hr byte))
      exact ⟨v', by rwa [sampleItems, hs]⟩
  obtain ⟨v', hv⟩ := ha 1 (by decide)
  obtain ⟨w', hw⟩ := ha 2 (by decide)
  refine ⟨by decide +kernel, ha, ((htamper (some (sampleKey 1)) (some (sampleKey 2))).1 _ _ v' w' _ _
    (restore_verifier (hr 1)) (restore_verifier (hr 2)) hv hw ?_ ?_).2⟩
  · decide +kernel
  · decide +kernel

end Audit
