import OxiBelt.Ct.Wire

/-!
# Leaves and timestamps of the certificate log, version 1 (`oxibelt-ct/src/rfc6962.rs`)

The type of an entry stands before the entry and decides how it is read.
-/

namespace Ct

open RustStd Codec ByteString Reads

def versionV1 : UInt8 := 0
def logEntryX509 : UInt16 := 0
def logEntryPrecert : UInt16 := 1
def merkleLeafTimestampedEntry : UInt8 := 0
def hashAlgorithmSha256 : UInt8 := 4
def signatureAlgorithmRsa : UInt8 := 1
def signatureAlgorithmEcdsa : UInt8 := 3

/-- `HASH_BYTES`. -/
def hashBytes : Nat := 32

/-- `Hash`. -/
abbrev HashBytes := { bytes : Bytes // bytes.length = hashBytes }

/-- `try_into` of a slice, with the error it is mapped to. -/
def tryIntoHash (message : Str) (bytes : Bytes) : Result HashBytes :=
  if h : bytes.length = hashBytes then .ok ⟨bytes, h⟩ else .error message

theorem tryIntoHash_eq {message : Str} {bytes : Bytes} {hash : HashBytes} :
    tryIntoHash message bytes = .ok hash ↔ hash.1 = bytes := by
  unfold tryIntoHash
  split
  · next h =>
    rw [Except.ok.injEq, Subtype.ext_iff]
    exact eq_comm
  next h =>
  constructor
  · intro hf
    contradiction
  · rintro rfl
    exact absurd hash.2 h

def Reader.hash (message : Str) : Reader Str HashBytes := do
  let bytes ← Reader.take 32
  StateT.lift (tryIntoHash message bytes)

theorem hash_reads (message : Str) : ReadsBack (fun hash : HashBytes => .ok hash.1) (Reader.hash message) := by
  have hb : Reads (fun _ : HashBytes => True) (fun hash => [.ok hash.1] ++ []) (Reader.hash message) := by
    refine bind Subtype.val (take_reads _ 32) (fun bytes _ => ?_) (fun hash _ => hash.2)
    exact lift fun hash => tryIntoHash_eq.trans (true_and _).symm.to_iff
  exact hb

/-! ## Entries -/

inductive SignedEntryV1 where
  | x509 (certificate : Bytes)
  | precertificate (issuerKeyHash : HashBytes) (tbsCertificate : Bytes)

namespace SignedEntryV1

def entryType : SignedEntryV1 → UInt16
  | x509 _ => logEntryX509
  | precertificate _ _ => logEntryPrecert

def encodeTo : SignedEntryV1 → Result Bytes
  | x509 certificate => pushVectorU24 certificate 1
  | precertificate issuerKeyHash tbsCertificate => concat [.ok issuerKeyHash.1, pushVectorU24 tbsCertificate 1]

def decode (entryType : UInt16) : Reader Str SignedEntryV1 :=
  if entryType = logEntryX509 then x509 <$> Reader.vectorU24 1 u24Max
  else if entryType = logEntryPrecert then do
    let issuerKeyHash ← Reader.hash "RFC 6962 issuer key hash must be 32 bytes"
    precertificate issuerKeyHash <$> Reader.vectorU24 1 u24Max
  else throw "unsupported RFC 6962 log entry type".toList

end SignedEntryV1

theorem signedEntry_reads (entryType : UInt16) :
    Reads (fun entry => entry.entryType = entryType) (fun entry => [entry.encodeTo])
      (SignedEntryV1.decode entryType) := by
  refine of_eq fun bytes entry rest => ?_
  constructor
  · intro h
    unfold SignedEntryV1.decode at h
    split at h
    · next ht =>
      obtain ⟨certificate, rfl, hh⟩ := (vectorU24_reads 1).map_eq.1 h
      exact ⟨ht.symm, hh⟩
    split at h
    · next ht =>
      obtain ⟨issuerKeyHash, tbsCertificate, rfl, hh⟩ := (hash_reads _).map₂_eq (vectorU24_reads 1) |>.1 h
      exact ⟨ht.symm, hh⟩
    · contradiction
  · rintro ⟨rfl, hh⟩
    cases entry with
    | x509 certificate => exact (vectorU24_reads 1).map_eq.2 ⟨certificate, rfl, hh⟩
    | precertificate issuerKeyHash tbsCertificate =>
      exact ((hash_reads _).map₂_eq (vectorU24_reads 1)).2 ⟨issuerKeyHash, tbsCertificate, rfl, hh⟩

structure TimestampedEntryV1 where
  timestamp : UInt64
  signedEntry : SignedEntryV1
  extensions : Bytes

namespace TimestampedEntryV1

def encode (entry : TimestampedEntryV1) : Result Bytes :=
  concat [.ok (beU64 entry.timestamp), .ok (beU16 entry.signedEntry.entryType), entry.signedEntry.encodeTo,
    pushVectorU16 entry.extensions 0]

def decodeFrom : Reader Str TimestampedEntryV1 := do
  let timestamp ← Reader.u64
  let entryType ← Reader.u16
  let signedEntry ← SignedEntryV1.decode entryType
  let extensions ← Reader.vectorU16 0 65535
  return { timestamp, signedEntry, extensions }

theorem reads : ReadsBack encode decodeFrom := by
  refine record ?_
  refine field timestamp u64_reads fun timestamp => ?_
  refine field (fun entry : TimestampedEntryV1 => entry.signedEntry.entryType) u16_reads fun entryType => ?_
  refine bind signedEntry (signedEntry_reads entryType) (fun signedEntry ht => ?_) (fun _ h => h.2)
  refine field extensions (vectorU16_reads 0) fun extensions => ?_
  exact pure fun ⟨_, _, _⟩ => by grind

end TimestampedEntryV1

theorem constant_reads {α : Type} {Q : α → Prop} {parts : α → List (Result Bytes)} {value : UInt8} {message : Str}
    {p : Reader Str α} (hp : Reads Q parts p) :
    Reads Q (fun a => [.ok [value]] ++ parts a)
      (Reader.u8 >>= fun byte => if byte ≠ value then throw message else p) := by
  refine field (fun _ => value) u8_reads fun byte => ?_
  refine check (fun a h => not_not.2 h.2.symm) fun hb => ?_
  exact hp.congr fun a head => and_congr_left fun _ => and_iff_left (not_not.1 hb).symm

structure MerkleTreeLeafV1 where
  entry : TimestampedEntryV1

namespace MerkleTreeLeafV1

def encode (leaf : MerkleTreeLeafV1) : Result Bytes :=
  concat [.ok [versionV1], .ok [merkleLeafTimestampedEntry], leaf.entry.encode]

def decodeFrom : Reader Str MerkleTreeLeafV1 := do
  let version ← Reader.u8
  if version ≠ versionV1 then throw "RFC 6962 Merkle leaf is not v1".toList
  else do
    let leafType ← Reader.u8
    if leafType ≠ merkleLeafTimestampedEntry then throw "unsupported RFC 6962 Merkle leaf type".toList
    else do
      let entry ← TimestampedEntryV1.decodeFrom
      return { entry }

def decode (input : Bytes) : Result MerkleTreeLeafV1 := Reader.decode decodeFrom input

theorem reads : ReadsBack encode decodeFrom := by
  refine record (constant_reads (constant_reads ?_))
  refine field entry TimestampedEntryV1.reads fun entry => ?_
  exact pure fun ⟨_⟩ => by simp

end MerkleTreeLeafV1

/-! ## Timestamps -/

structure DigitallySigned where
  hashAlgorithm : UInt8
  signatureAlgorithm : UInt8
  signature : Bytes
  deriving DecidableEq

namespace DigitallySigned

def notSha256 : Str := "RFC 6962 v1 requires SHA-256 signatures"

def unsupported : Str := "unsupported RFC 6962 v1 signature algorithm"

def encode (signed : DigitallySigned) : Result Bytes :=
  if signed.hashAlgorithm ≠ hashAlgorithmSha256 then .error notSha256
  else if ¬(signed.signatureAlgorithm = signatureAlgorithmRsa ∨ signed.signatureAlgorithm = signatureAlgorithmEcdsa)
  then .error unsupported
  else concat [.ok [signed.hashAlgorithm], .ok [signed.signatureAlgorithm], pushVectorU16 signed.signature 1]

def decodeFrom : Reader Str DigitallySigned := do
  let hashAlgorithm ← Reader.u8
  if hashAlgorithm ≠ hashAlgorithmSha256 then throw notSha256
  else do
    let signatureAlgorithm ← Reader.u8
    if ¬(signatureAlgorithm = signatureAlgorithmRsa ∨ signatureAlgorithm = signatureAlgorithmEcdsa) then
      throw unsupported
    else do
      let signature ← Reader.vectorU16 1 65535
      return { hashAlgorithm, signatureAlgorithm, signature }

theorem reads : ReadsBack encode decodeFrom := by
  refine checked (checked (record ?_))
  refine field hashAlgorithm u8_reads fun hashAlgorithm => ?_
  refine check (by grind) fun hh => ?_
  refine field signatureAlgorithm u8_reads fun signatureAlgorithm => ?_
  refine check (by grind) fun hs => ?_
  refine field signature (vectorU16_reads 1) fun signature => ?_
  exact pure fun ⟨_, _, _⟩ => by grind

end DigitallySigned

structure SignedCertificateTimestampV1 where
  logId : HashBytes
  timestamp : UInt64
  extensions : Bytes
  signature : DigitallySigned

namespace SignedCertificateTimestampV1

def encode (sct : SignedCertificateTimestampV1) : Result Bytes :=
  concat [.ok [versionV1], .ok sct.logId.1, .ok (beU64 sct.timestamp), pushVectorU16 sct.extensions 0,
    sct.signature.encode]

def decodeFrom : Reader Str SignedCertificateTimestampV1 := do
  let version ← Reader.u8
  if version ≠ versionV1 then throw "SCT is not RFC 6962 v1".toList
  else do
    let logId ← Reader.hash "RFC 6962 LogID must be 32 bytes"
    let timestamp ← Reader.u64
    let extensions ← Reader.vectorU16 0 65535
    let signature ← DigitallySigned.decodeFrom
    return { logId, timestamp, extensions, signature }

def decode (input : Bytes) : Result SignedCertificateTimestampV1 := Reader.decode decodeFrom input

theorem reads : ReadsBack encode decodeFrom := by
  refine record (constant_reads ?_)
  refine field logId (hash_reads _) fun logId => ?_
  refine field timestamp u64_reads fun timestamp => ?_
  refine field extensions (vectorU16_reads 0) fun extensions => ?_
  refine field signature DigitallySigned.reads fun signature => ?_
  exact pure fun ⟨_, _, _, _⟩ => by simp [and_assoc]

end SignedCertificateTimestampV1

end Ct
