import OxiBelt.Ct.SignedEntry

/-!
# Data tiles of the certificate log (`oxibelt-ct/src/static_ct.rs`)

The leaves of a tile stand one after the other with no length around them; a reader of the tile has to know how many
there are.  `dataTile_decode_iff_encode` says that what is decoded is what is encoded, for tiles, leaves of the Merkle
tree and timestamps of the first version.
-/

namespace Ct

open RustStd Codec ByteString List

/-- `TILE_WIDTH`. -/
def tileWidth : Nat := 256

/-- `chunks_exact`: `count` is the number of whole chunks. -/
def chunksExact (size : Nat) : Nat → Bytes → List Bytes
  | 0, _ => []
  | count + 1, bytes => bytes.take size :: chunksExact size count (bytes.drop size)

structure StaticTileLeaf where
  timestampedEntry : TimestampedEntryV1
  preCertificate : Option Bytes
  certificateChain : List HashBytes

def SignedEntryV1.isPrecertificate : SignedEntryV1 → Bool
  | x509 _ => false
  | precertificate _ _ => true

namespace StaticTileLeaf

def encodePreCertificate : Option Bytes → Result Bytes
  | none => .ok []
  | some preCertificate => pushVectorU24 preCertificate 1

def fingerprints (chain : List HashBytes) : Bytes := chain.flatMap Subtype.val

def encode (leaf : StaticTileLeaf) : Result Bytes :=
  if leaf.timestampedEntry.signedEntry.isPrecertificate ≠ leaf.preCertificate.isSome then
    .error "Static CT pre_certificate presence does not match entry type"
  else
    concat [leaf.timestampedEntry.encode, encodePreCertificate leaf.preCertificate,
      pushVectorU16 (fingerprints leaf.certificateChain) 0]

def decodePreCertificate (isPrecertificate : Bool) : Reader Str (Option Bytes) :=
  if isPrecertificate then some <$> Reader.vectorU24 1 u24Max else pure none

def decodeFingerprints (fingerprints : Bytes) : Result (List HashBytes) :=
  if fingerprints.length % hashBytes ≠ 0 then
    .error "Static CT certificate chain fingerprint vector is misaligned"
  else
    (chunksExact hashBytes (fingerprints.length / hashBytes) fingerprints).mapM
      (tryIntoHash "Static CT issuer fingerprint must be 32 bytes")

def decodeFrom : Reader Str StaticTileLeaf := do
  let timestampedEntry ← TimestampedEntryV1.decodeFrom
  let preCertificate ← decodePreCertificate timestampedEntry.signedEntry.isPrecertificate
  let fingerprints ← Reader.vectorU16 0 65535
  let certificateChain ← StateT.lift (decodeFingerprints fingerprints)
  return { timestampedEntry, preCertificate, certificateChain }

end StaticTileLeaf

def encodeDataTile (leaves : List StaticTileLeaf) : Result Bytes :=
  if leaves.isEmpty || tileWidth < leaves.length then
    .error "Static CT data tile width must be between 1 and 256"
  else concat (leaves.map StaticTileLeaf.encode)

def decodeDataTile (input : Bytes) (expectedWidth : Nat) : Result (List StaticTileLeaf) :=
  if expectedWidth < 1 || tileWidth < expectedWidth then
    .error "Static CT data tile expected width is invalid"
  else Reader.decode (readCount StaticTileLeaf.decodeFrom expectedWidth) input

/-! ## The chain of a leaf -/

open StaticTileLeaf

theorem fingerprints_cons (hash : HashBytes) (chain : List HashBytes) :
    fingerprints (hash :: chain) = hash.1 ++ fingerprints chain := rfl

/-- The chunks that are cut out are the hashes that were put together. -/
theorem chunks_eq {message : Str} (count : Nat) {bytes : Bytes} {chain : List HashBytes}
    (hl : bytes.length = hashBytes * count) :
    (chunksExact hashBytes count bytes).mapM (tryIntoHash message) = .ok chain ↔ fingerprints chain = bytes := by
  induction count generalizing bytes chain with
  | zero =>
    have hb : bytes = [] := length_eq_zero_iff.1 (by omega)
    subst hb
    cases chain with
    | nil => exact iff_of_true rfl rfl
    | cons hash chain =>
      refine iff_of_false nofun fun h => ?_
      have he := congrArg List.length h
      rw [fingerprints_cons, length_append, hash.2, hashBytes, length_nil] at he
      omega
  | succ count ih =>
    rw [Nat.mul_succ] at hl
    rw [chunksExact, mapM_cons, bind_eq_ok]
    constructor
    · rintro ⟨hash, hh, hc⟩
      obtain ⟨rest, hr, hcn⟩ := bind_eq_ok.1 hc
      cases hcn
      have hd := (ih (by rw [length_drop]; omega)).1 hr
      rw [fingerprints_cons, tryIntoHash_eq.1 hh, hd, take_append_drop]
    rintro rfl
    cases chain with
    | nil =>
      have hp : 0 < hashBytes := by decide
      have hn : (fingerprints []).length = 0 := rfl
      omega
    | cons hash chain =>
      rw [fingerprints_cons, length_append, hash.2] at hl
      refine ⟨hash, ?_, bind_eq_ok.2 ⟨chain, (ih ?_).2 ?_, rfl⟩⟩
      · rw [tryIntoHash_eq, fingerprints_cons, take_left' hash.2]
      · rw [fingerprints_cons, drop_left' hash.2]
        omega
      · rw [fingerprints_cons, drop_left' hash.2]

theorem fingerprints_length (chain : List HashBytes) : (fingerprints chain).length = hashBytes * chain.length := by
  induction chain with
  | nil => rfl
  | cons hash chain ih =>
    rw [fingerprints_cons, length_append, hash.2, ih, length_cons, Nat.mul_succ]
    omega

theorem decodeFingerprints_eq {bytes : Bytes} {chain : List HashBytes} :
    decodeFingerprints bytes = .ok chain ↔ fingerprints chain = bytes := by
  unfold decodeFingerprints
  split
  · next hm =>
    refine iff_of_false nofun ?_
    rintro rfl
    rw [fingerprints_length, Nat.mul_mod_right] at hm
    contradiction
  · next ha =>
    exact chunks_eq _ (Nat.mul_div_cancel' (Nat.dvd_of_mod_eq_zero (not_not.1 ha))).symm

theorem preCertificate_reads (isPrecertificate : Bool) :
    Reads (fun preCertificate => preCertificate.isSome = isPrecertificate)
      (fun preCertificate => [encodePreCertificate preCertificate]) (decodePreCertificate isPrecertificate) := by
  cases isPrecertificate with
  | false =>
    have hn : Reads (fun preCertificate : Option Bytes => preCertificate.isSome = false) (fun _ => [])
        (decodePreCertificate false) := Reads.pure fun preCertificate => by cases preCertificate <;> simp
    refine hn.congr fun preCertificate head => and_congr_right fun h => ?_
    cases preCertificate with
    | none => rfl
    | some _ => contradiction
  | true =>
    refine Reads.of_eq fun bytes preCertificate rest => ?_
    refine (vectorU24_reads 1).map_eq.trans ?_
    constructor
    · rintro ⟨value, rfl, hh⟩
      exact ⟨rfl, hh⟩
    rintro ⟨hs, hh⟩
    obtain ⟨value, rfl⟩ := Option.isSome_iff_exists.1 hs
    exact ⟨value, rfl, hh⟩

theorem staticTileLeaf_reads : ReadsBack StaticTileLeaf.encode StaticTileLeaf.decodeFrom := by
  refine Reads.checked (Reads.record ?_)
  refine Reads.field StaticTileLeaf.timestampedEntry TimestampedEntryV1.reads fun timestampedEntry => ?_
  refine Reads.bind StaticTileLeaf.preCertificate (preCertificate_reads _) (fun preCertificate hp => ?_)
    (fun leaf h => ?_)
  · refine Reads.field (fun leaf : StaticTileLeaf => fingerprints leaf.certificateChain) (vectorU16_reads 0)
      fun bytes => ?_
    refine Reads.bind StaticTileLeaf.certificateChain (Reads.lift fun _ => decodeFingerprints_eq)
      (fun certificateChain hc => ?_) (fun _ h => h.2)
    exact Reads.pure fun ⟨_, _, _⟩ => by grind
  · obtain ⟨⟨-, hp⟩, rfl⟩ := h
    exact (not_not.1 hp).symm

/-! ## Tiles -/

theorem decodeDataTile_eq {input : Bytes} {width : Nat} {leaves : List StaticTileLeaf} :
    decodeDataTile input width = .ok leaves ↔ leaves.length = width ∧ encodeDataTile leaves = .ok input := by
  rw [decodeDataTile, guard_eq_ok, Reader.decode, whole_eq (readCount_reads staticTileLeaf_reads width).whole,
    encodeDataTile, guard_eq_ok]
  constructor
  · rintro ⟨hw, rfl, hc⟩
    refine ⟨rfl, ?_, hc⟩
    cases leaves with
    | nil => contradiction
    | cons leaf leaves => simpa using hw
  rintro ⟨rfl, hl, hc⟩
  refine ⟨?_, rfl, hc⟩
  cases leaves with
  | nil => contradiction
  | cons leaf leaves => simpa using hl

/-- What is decoded is what is encoded: for data tiles, leaves of the Merkle tree and timestamps of version 1. -/
theorem dataTile_decode_iff_encode : (∀ input width leaves,
        decodeDataTile input width = .ok leaves ↔ leaves.length = width ∧ encodeDataTile leaves = .ok input) ∧
      (∀ input leaf, MerkleTreeLeafV1.decode input = .ok leaf ↔ leaf.encode = .ok input) ∧
      ∀ input sct, SignedCertificateTimestampV1.decode input = .ok sct ↔ sct.encode = .ok input :=
  ⟨fun _ _ _ => decodeDataTile_eq, fun _ _ => decode_eq MerkleTreeLeafV1.reads,
    fun _ _ => decode_eq SignedCertificateTimestampV1.reads⟩

end Ct
