import OxiBelt.Ct.Wire

/-!
# Items of the certificate log, version 2 (`oxibelt-ct/src/rfc9162.rs`)

A `TransItem` is a type code and the contents for that type; an item of an unknown type keeps its contents as they
are.  For every structure there is a lemma that its decoder reads back what its encoder writes (`reads`), from the
numbers and vectors up to lists of items.
-/

namespace Ct

open RustStd Codec ByteString Reads

def x509EntryV2 : UInt16 := 0x0100
def precertEntryV2 : UInt16 := 0x0101
def x509SctV2 : UInt16 := 0x0102
def precertSctV2 : UInt16 := 0x0103
def signedTreeHeadV2 : UInt16 := 0x0104
def consistencyProofV2 : UInt16 := 0x0105
def inclusionProofV2 : UInt16 := 0x0106

/-! ## Identities of logs -/

/-- The value octets of an object identifier. -/
structure LogIdV2 where
  oidValue : Bytes

/-- The loop of `validate_oid_value`: whether a subidentifier may start at the end. -/
def oidSubidentifiers : Bool → Bytes → Result Bool
  | atStart, [] => .ok atStart
  | atStart, byte :: value =>
    if atStart && byte == 0x80 then .error "RFC 9162 LogID is not a canonical DER OID value"
    else oidSubidentifiers (byte &&& 0x80 == 0) value

def validateOidValue (value : Bytes) : Result Unit :=
  if value.length < 2 || 127 < value.length then .error "RFC 9162 LogID OID value must be 2..127 bytes"
  else
    match oidSubidentifiers true value with
    | .error e => .error e
    | .ok atStart =>
      if atStart then .ok () else .error "RFC 9162 LogID has an unterminated OID subidentifier"

namespace LogIdV2

def new (oidValue : Bytes) : Result LogIdV2 :=
  match validateOidValue oidValue with
  | .error e => .error e
  | .ok _ => .ok ⟨oidValue⟩

def encodeTo (id : LogIdV2) : Result Bytes :=
  match validateOidValue id.oidValue with
  | .error e => .error e
  | .ok _ => pushVectorU8 id.oidValue 2

def decodeFrom : Reader Str LogIdV2 := do
  let value ← Reader.vectorU8 2 127
  StateT.lift (new value)

end LogIdV2

/-! ## Extensions -/

structure ExtensionV2 where
  extensionType : UInt16
  data : Bytes

def notSorted : Str := "RFC 9162 extensions must be strictly sorted without duplicates"

variable (previous : Option UInt16)

/-- One round of the loop of `encode_extensions`. -/
def encodeExtension (extension : ExtensionV2) : Result Bytes :=
  if previous.any (extension.extensionType ≤ ·) then .error notSorted
  else concat [.ok (beU16 extension.extensionType), pushVectorU16 extension.data 0]

/-- One round of the loop of `decode_extensions`. -/
def decodeExtension : Reader Str ExtensionV2 := do
  let extensionType ← Reader.u16
  if previous.any (extensionType ≤ ·) then throw notSorted
  else do
    let data ← Reader.vectorU16 0 65535
    return { extensionType, data }

def lastType (_ : Option UInt16) (extension : ExtensionV2) : Option UInt16 := some extension.extensionType

def encodeExtensions (extensions : List ExtensionV2) : Result Bytes :=
  concat (writeAll encodeExtension lastType none extensions) >>= (pushVectorU16 · 0)

theorem beU16_ne_nil (n : UInt16) : beU16 n ≠ [] := by
  intro h
  have := congrArg List.length h
  simp [beU16] at this

theorem extension_reads : ReadsBack (encodeExtension previous) (decodeExtension previous) := by
  refine checked (record ?_)
  refine field ExtensionV2.extensionType u16_reads fun extensionType => ?_
  refine check (by grind) fun hs => ?_
  refine field ExtensionV2.data (vectorU16_reads 0) fun data => ?_
  exact pure fun ⟨_, _⟩ => by grind

theorem encodeExtension_ne_nil (extension : ExtensionV2) : encodeExtension previous extension ≠ .ok [] := by
  intro h
  unfold encodeExtension at h
  split at h
  · contradiction
  obtain ⟨head, tail, hh, -, hn⟩ := concat_cons_eq.1 h
  cases hh
  exact beU16_ne_nil _ (List.append_eq_nil_iff.1 hn.symm).1

def decodeExtensions : Reader Str (List ExtensionV2) := do
  let encoded ← Reader.vectorU16 0 65535
  StateT.lift (readAll decodeExtension lastType (Reads.progress extension_reads encodeExtension_ne_nil) none encoded)

theorem extensions_reads : ReadsBack encodeExtensions decodeExtensions :=
  inner (vectorU16_reads 0) fun _ _ => by rw [readAll_eq extension_reads, true_and]

theorem validateOidValue_length {value : Bytes} (h : validateOidValue value = .ok ()) :
    2 ≤ value.length ∧ value.length ≤ 127 := by
  unfold validateOidValue at h
  split at h
  · contradiction
  next hl =>
  simp only [Bool.or_eq_true, decide_eq_true_eq] at hl
  omega

theorem LogIdV2.new_eq {value : Bytes} {id : LogIdV2} :
    LogIdV2.new value = .ok id ↔ validateOidValue id.oidValue = .ok () ∧ id.oidValue = value := by
  unfold LogIdV2.new
  constructor
  · intro h
    split at h
    · contradiction
    next hv =>
    cases h
    exact ⟨hv, rfl⟩
  · rintro ⟨hv, rfl⟩
    rw [hv]

theorem logId_reads : ReadsBack LogIdV2.encodeTo LogIdV2.decodeFrom := by
  have hv : Reads (fun id : LogIdV2 => validateOidValue id.oidValue = .ok ())
      (fun id => [.ok (field 1 id.oidValue)] ++ []) LogIdV2.decodeFrom := by
    refine bind LogIdV2.oidValue (vector_reads _ _ (by decide)) (fun value _ => ?_)
      (fun id h => validateOidValue_length h)
    exact lift fun id => LogIdV2.new_eq
  refine hv.congr fun id head => ?_
  rw [List.append_nil, concat_singleton, concat_singleton, LogIdV2.encodeTo]
  cases hvl : validateOidValue id.oidValue with
  | error e => simp
  | ok _ =>
    have hl := validateOidValue_length hvl
    rw [pushVectorU8, pushVector_eq]
    simp only [true_and, Except.ok.injEq, eq_comm]
    exact and_iff_right ⟨hl.1, by omega⟩

/-! ## Entries, timestamps and tree heads -/

structure TimestampedCertificateEntryV2 where
  timestamp : UInt64
  (issuerKeyHash tbsCertificate : Bytes)
  extensions : List ExtensionV2

namespace TimestampedCertificateEntryV2

def encode (entry : TimestampedCertificateEntryV2) : Result Bytes :=
  concat [.ok (beU64 entry.timestamp), pushVectorU8 entry.issuerKeyHash 32, pushVectorU24 entry.tbsCertificate 1,
    encodeExtensions entry.extensions]

def decodeFrom : Reader Str TimestampedCertificateEntryV2 := do
  let timestamp ← Reader.u64
  let issuerKeyHash ← Reader.vectorU8 32 255
  let tbsCertificate ← Reader.vectorU24 1 u24Max
  let extensions ← decodeExtensions
  return { timestamp, issuerKeyHash, tbsCertificate, extensions }

theorem reads : ReadsBack encode decodeFrom := by
  refine record ?_
  refine field timestamp u64_reads fun timestamp => ?_
  refine field issuerKeyHash (vectorU8_reads 32) fun issuerKeyHash => ?_
  refine field tbsCertificate (vectorU24_reads 1) fun tbsCertificate => ?_
  refine field extensions extensions_reads fun extensions => ?_
  exact pure fun ⟨_, _, _, _⟩ => by simp [and_assoc]

end TimestampedCertificateEntryV2

structure SignedCertificateTimestampV2 where
  logId : LogIdV2
  timestamp : UInt64
  extensions : List ExtensionV2
  signature : Bytes

namespace SignedCertificateTimestampV2

def encode (sct : SignedCertificateTimestampV2) : Result Bytes :=
  concat [sct.logId.encodeTo, .ok (beU64 sct.timestamp), encodeExtensions sct.extensions,
    pushVectorU16 sct.signature 1]

def decodeFrom : Reader Str SignedCertificateTimestampV2 := do
  let logId ← LogIdV2.decodeFrom
  let timestamp ← Reader.u64
  let extensions ← decodeExtensions
  let signature ← Reader.vectorU16 1 65535
  return { logId, timestamp, extensions, signature }

theorem reads : ReadsBack encode decodeFrom := by
  refine record ?_
  refine field logId logId_reads fun logId => ?_
  refine field timestamp u64_reads fun timestamp => ?_
  refine field extensions extensions_reads fun extensions => ?_
  refine field signature (vectorU16_reads 1) fun signature => ?_
  exact pure fun ⟨_, _, _, _⟩ => by simp [and_assoc]

end SignedCertificateTimestampV2

structure TreeHeadV2 where
  (timestamp treeSize : UInt64)
  rootHash : Bytes
  extensions : List ExtensionV2

namespace TreeHeadV2

def encodeSignedInput (head : TreeHeadV2) : Result Bytes :=
  concat [.ok (beU64 head.timestamp), .ok (beU64 head.treeSize), pushVectorU8 head.rootHash 32,
    encodeExtensions head.extensions]

def decodeFrom : Reader Str TreeHeadV2 := do
  let timestamp ← Reader.u64
  let treeSize ← Reader.u64
  let rootHash ← Reader.vectorU8 32 255
  let extensions ← decodeExtensions
  return { timestamp, treeSize, rootHash, extensions }

theorem reads : ReadsBack encodeSignedInput decodeFrom := by
  refine record ?_
  refine field timestamp u64_reads fun timestamp => ?_
  refine field treeSize u64_reads fun treeSize => ?_
  refine field rootHash (vectorU8_reads 32) fun rootHash => ?_
  refine field extensions extensions_reads fun extensions => ?_
  exact pure fun ⟨_, _, _, _⟩ => by simp [and_assoc]

end TreeHeadV2

structure SignedTreeHeadV2 where
  logId : LogIdV2
  treeHead : TreeHeadV2
  signature : Bytes

namespace SignedTreeHeadV2

def encode (head : SignedTreeHeadV2) : Result Bytes :=
  concat [head.logId.encodeTo, head.treeHead.encodeSignedInput, pushVectorU16 head.signature 1]

def decodeFrom : Reader Str SignedTreeHeadV2 := do
  let logId ← LogIdV2.decodeFrom
  let treeHead ← TreeHeadV2.decodeFrom
  let signature ← Reader.vectorU16 1 65535
  return { logId, treeHead, signature }

theorem reads : ReadsBack encode decodeFrom := by
  refine record ?_
  refine field logId logId_reads fun logId => ?_
  refine field treeHead TreeHeadV2.reads fun treeHead => ?_
  refine field signature (vectorU16_reads 1) fun signature => ?_
  exact pure fun ⟨_, _, _⟩ => by simp [and_assoc]

end SignedTreeHeadV2

/-! ## Proofs -/

def encodeNodePath (path : List Bytes) : Result Bytes :=
  concat (path.map (pushVectorU8 · 32)) >>= (pushVectorU16 · 0)

def decodeNodePath : Reader Str (List Bytes) := do
  let encoded ← Reader.vectorU16 0 65535
  StateT.lift (readAll (fun _ : Unit => Reader.vectorU8 32 255) (fun _ _ => ())
    (Reads.progress (fun _ => vectorU8_reads 32) fun _ _ => pushVector_ne_nil (by decide)) () encoded)

theorem nodePath_reads : ReadsBack encodeNodePath decodeNodePath := inner (vectorU16_reads 0) fun _ path => by
    rw [readAll_eq fun _ => vectorU8_reads 32, writeAll_const, true_and]

structure ConsistencyProofV2 where
  logId : LogIdV2
  (treeSize1 treeSize2 : UInt64)
  path : List Bytes

namespace ConsistencyProofV2

def reversed : Str := "RFC 9162 consistency proof sizes are reversed"

def encode (proof : ConsistencyProofV2) : Result Bytes :=
  if proof.treeSize2 < proof.treeSize1 then .error reversed
  else
    concat [proof.logId.encodeTo, .ok (beU64 proof.treeSize1), .ok (beU64 proof.treeSize2), encodeNodePath proof.path]

def decodeFrom : Reader Str ConsistencyProofV2 := do
  let logId ← LogIdV2.decodeFrom
  let treeSize1 ← Reader.u64
  let treeSize2 ← Reader.u64
  if treeSize2 < treeSize1 then throw reversed
  else do
    let path ← decodeNodePath
    return { logId, treeSize1, treeSize2, path }

theorem reads : ReadsBack encode decodeFrom := by
  refine checked (record ?_)
  refine field logId logId_reads fun logId => ?_
  refine field treeSize1 u64_reads fun treeSize1 => ?_
  refine field treeSize2 u64_reads fun treeSize2 => ?_
  refine check (by grind) fun hs => ?_
  refine field path nodePath_reads fun path => ?_
  exact pure fun ⟨_, _, _, _⟩ => by grind

end ConsistencyProofV2

structure InclusionProofV2 where
  logId : LogIdV2
  (treeSize leafIndex : UInt64)
  path : List Bytes

namespace InclusionProofV2

def outsideTree : Str := "RFC 9162 inclusion proof leaf index is outside the tree"

def encode (proof : InclusionProofV2) : Result Bytes :=
  if proof.treeSize ≤ proof.leafIndex then .error outsideTree
  else concat [proof.logId.encodeTo, .ok (beU64 proof.treeSize), .ok (beU64 proof.leafIndex), encodeNodePath proof.path]

def decodeFrom : Reader Str InclusionProofV2 := do
  let logId ← LogIdV2.decodeFrom
  let treeSize ← Reader.u64
  let leafIndex ← Reader.u64
  if treeSize ≤ leafIndex then throw outsideTree
  else do
    let path ← decodeNodePath
    return { logId, treeSize, leafIndex, path }

theorem reads : ReadsBack encode decodeFrom := by
  refine checked (record ?_)
  refine field logId logId_reads fun logId => ?_
  refine field treeSize u64_reads fun treeSize => ?_
  refine field leafIndex u64_reads fun leafIndex => ?_
  refine check (by grind) fun hi => ?_
  refine field path nodePath_reads fun path => ?_
  exact pure fun ⟨_, _, _, _⟩ => by grind

end InclusionProofV2

/-! ## Items -/

inductive TransItemV2 where
  | x509Entry (value : TimestampedCertificateEntryV2)
  | precertificateEntry (value : TimestampedCertificateEntryV2)
  | x509Sct (value : SignedCertificateTimestampV2)
  | precertificateSct (value : SignedCertificateTimestampV2)
  | signedTreeHead (value : SignedTreeHeadV2)
  | consistencyProof (value : ConsistencyProofV2)
  | inclusionProof (value : InclusionProofV2)
  /-- `Opaque`: a type that is not known, with its contents as they are. -/
  | other (transType : UInt16) (data : Bytes)

variable {input : Bytes}

namespace TransItemV2

def transType : TransItemV2 → UInt16
  | x509Entry _ => x509EntryV2
  | precertificateEntry _ => precertEntryV2
  | x509Sct _ => x509SctV2
  | precertificateSct _ => precertSctV2
  | signedTreeHead _ => signedTreeHeadV2
  | consistencyProof _ => consistencyProofV2
  | inclusionProof _ => inclusionProofV2
  | other transType _ => transType

/-- The `match` of `encode`: what stands behind the type. -/
def contents : TransItemV2 → Result Bytes
  | x509Entry value => value.encode
  | precertificateEntry value => value.encode
  | x509Sct value => value.encode
  | precertificateSct value => value.encode
  | signedTreeHead value => value.encode
  | consistencyProof value => value.encode
  | inclusionProof value => value.encode
  | other _ data => .ok data

def encode (item : TransItemV2) : Result Bytes := concat [.ok (beU16 item.transType), item.contents]

/-- The last branch of `decode_from`: an opaque item takes all that is left. -/
def decodeOther (transType : UInt16) : Reader Str TransItemV2 := do
  let remaining := (← get).length
  other transType <$> Reader.take remaining

/-- The `match` of `decode_from`: the contents of an item of a type. -/
def decodeContents (transType : UInt16) : Reader Str TransItemV2 :=
  if transType = x509EntryV2 then x509Entry <$> TimestampedCertificateEntryV2.decodeFrom
  else if transType = precertEntryV2 then precertificateEntry <$> TimestampedCertificateEntryV2.decodeFrom
  else if transType = x509SctV2 then x509Sct <$> SignedCertificateTimestampV2.decodeFrom
  else if transType = precertSctV2 then precertificateSct <$> SignedCertificateTimestampV2.decodeFrom
  else if transType = signedTreeHeadV2 then signedTreeHead <$> SignedTreeHeadV2.decodeFrom
  else if transType = consistencyProofV2 then consistencyProof <$> ConsistencyProofV2.decodeFrom
  else if transType = inclusionProofV2 then inclusionProof <$> InclusionProofV2.decodeFrom
  else if transType ≤ 0x00ff then throw "RFC 6962 v1 type is not an RFC 9162 TransItem".toList
  else decodeOther transType

def decodeFrom : Reader Str TransItemV2 := do
  let transType ← Reader.u16
  decodeContents transType

def decode (input : Bytes) : Result TransItemV2 := Reader.decode decodeFrom input

abbrev Defined (transType : UInt16) : Prop := x509EntryV2 ≤ transType ∧ transType ≤ inclusionProofV2

/-- The type of an opaque item is not one of the first version, and not one that has a form of its own. -/
def WellTyped : TransItemV2 → Prop
  | other transType _ => 0x0100 ≤ transType ∧ ¬Defined transType
  | _ => True

/-- An opaque item does not have the type of another form. -/
theorem decodeContents_other {code : UInt16} {data : Bytes} (h : WellTyped (other code data)) :
    decodeContents code = decodeOther code := by
  have hd : ∀ known, Defined known → code ≠ known := by
    rintro _ hk rfl
    exact h.2 hk
  have hv : ¬code ≤ 0x00ff := by
    have := h.1
    rw [UInt16.le_iff_toNat_le] at this ⊢
    exact Nat.not_le.2 this
  unfold decodeContents
  rw [if_neg (hd _ (by decide)), if_neg (hd _ (by decide)), if_neg (hd _ (by decide)),
    if_neg (hd _ (by decide)), if_neg (hd _ (by decide)), if_neg (hd _ (by decide)),
    if_neg (hd _ (by decide)), if_neg hv]

theorem decodeOther_eq (code : UInt16) (bytes : Bytes) : decodeOther code bytes = .ok (other code bytes, []) := by
  refine Reader.bind_eq.2 ⟨bytes, bytes, rfl, ?_⟩
  rw [map_eq_pure_bind, Reader.bind_eq]
  refine ⟨bytes, [], ?_, rfl⟩
  exact (take_reads _ _ _ _ _).2 ⟨rfl, bytes, concat_singleton _, (List.append_nil _).symm⟩

theorem form_contents {α : Type} {f : α → TransItemV2} {valueEncode : α → Result Bytes} {p : Reader Str α}
    (hp : ReadsBack valueEncode p) {bytes : Bytes} {item : TransItemV2} (h : (f <$> p) bytes = .ok (item, []))
    {code form : UInt16} (hcd : code = form)
    (hf : ∀ value, (f value).WellTyped ∧ (f value).transType = form ∧ (f value).contents = valueEncode value := by
      exact fun _ => ⟨trivial, rfl, rfl⟩) :
    (item.WellTyped ∧ item.transType = code) ∧ item.contents = .ok bytes := by
  obtain ⟨value, rfl, head, hh, rfl⟩ := hp.map_eq.1 h
  obtain ⟨ht, hty, hc⟩ := hf value
  rw [List.append_nil]
  exact ⟨⟨ht, hty.trans hcd.symm⟩, hc.trans hh⟩

theorem decodeContents_whole (code : UInt16) :
    ReadsWhole (fun item => item.WellTyped ∧ item.transType = code) (fun item => [item.contents])
      (decodeContents code) := by
  intro bytes item
  rw [concat_singleton]
  constructor
  · intro h
    unfold decodeContents at h
    split at h
    · next hcd => exact form_contents TimestampedCertificateEntryV2.reads h hcd
    split at h
    · next hcd => exact form_contents TimestampedCertificateEntryV2.reads h hcd
    split at h
    · next hcd => exact form_contents SignedCertificateTimestampV2.reads h hcd
    split at h
    · next hcd => exact form_contents SignedCertificateTimestampV2.reads h hcd
    split at h
    · next hcd => exact form_contents SignedTreeHeadV2.reads h hcd
    split at h
    · next hcd => exact form_contents ConsistencyProofV2.reads h hcd
    split at h
    · next hcd => exact form_contents InclusionProofV2.reads h hcd
    split at h
    · contradiction
    next h0 h1 h2 h3 h4 h5 h6 hv =>
    rw [decodeOther_eq] at h
    cases h
    refine ⟨⟨⟨?_, ?_⟩, rfl⟩, rfl⟩
    · rw [UInt16.le_iff_toNat_le] at hv ⊢
      exact Nat.not_le.1 hv
    rintro ⟨hl, hh⟩
    simp only [← UInt16.toNat_inj, x509EntryV2, precertEntryV2, x509SctV2, precertSctV2, signedTreeHeadV2,
      consistencyProofV2, inclusionProofV2, UInt16.le_iff_toNat_le, UInt16.reduceToNat] at *
    omega
  · rintro ⟨⟨ht, rfl⟩, hc⟩
    have hb : bytes = bytes ++ [] := (List.append_nil _).symm
    cases item with
    | x509Entry value | precertificateEntry value =>
      exact TimestampedCertificateEntryV2.reads.map_eq.2 ⟨value, rfl, bytes, hc, hb⟩
    | x509Sct value | precertificateSct value =>
      exact SignedCertificateTimestampV2.reads.map_eq.2 ⟨value, rfl, bytes, hc, hb⟩
    | signedTreeHead value => exact SignedTreeHeadV2.reads.map_eq.2 ⟨value, rfl, bytes, hc, hb⟩
    | consistencyProof value => exact ConsistencyProofV2.reads.map_eq.2 ⟨value, rfl, bytes, hc, hb⟩
    | inclusionProof value => exact InclusionProofV2.reads.map_eq.2 ⟨value, rfl, bytes, hc, hb⟩
    | other code data =>
      cases hc
      show decodeContents code bytes = _
      rw [decodeContents_other ht]
      exact decodeOther_eq code bytes

theorem decode_eq {item : TransItemV2} : decode input = .ok item ↔ item.WellTyped ∧ item.encode = .ok input :=
  whole_eq (ReadsWhole.bind transType u16_reads decodeContents_whole fun _ _ => trivial)

end TransItemV2

/-! ## Lists of items -/

def encodeListItem (item : TransItemV2) : Result Bytes := item.encode >>= (pushVectorU16 · 1)

def encodeTransItemList (items : List TransItemV2) : Result Bytes :=
  if items.isEmpty then .error "RFC 9162 TransItemList must not be empty"
  else concat (items.map encodeListItem) >>= (pushVectorU16 · 1)

def decodeListItem : Reader Str TransItemV2 := do
  let serialized ← Reader.vectorU16 1 65535
  StateT.lift (TransItemV2.decode serialized)

theorem listItem_reads : Reads TransItemV2.WellTyped (fun item => [encodeListItem item]) decodeListItem :=
  inner (vectorU16_reads 1) fun _ _ => TransItemV2.decode_eq

theorem encodeListItem_ne_nil (item : TransItemV2) : encodeListItem item ≠ .ok [] := by
  unfold encodeListItem
  cases item.encode with
  | error e => nofun
  | ok bytes => exact pushVector_ne_nil (by decide)

def decodeTransItemList (input : Bytes) : Result (List TransItemV2) := do
  let contents ← Reader.decode (Reader.vectorU16 1 65535) input
  readAll (fun _ : Unit => decodeListItem) (fun _ _ => ())
    (Reads.progress (fun _ => listItem_reads) fun _ => encodeListItem_ne_nil) () contents

theorem encodeTransItemList_eq {items : List TransItemV2} : encodeTransItemList items = .ok input ↔
      ∃ contents, concat (items.map encodeListItem) = .ok contents ∧ pushVectorU16 contents 1 = .ok input := by
  unfold encodeTransItemList
  split
  · next he =>
    rw [List.isEmpty_iff.1 he]
    constructor
    · intro h
      contradiction
    -- Nothing is too short for the outer vector.
    rintro ⟨contents, hc, hp⟩
    cases hc
    contradiction
  · exact bind_eq_ok

theorem decodeTransItemList_eq {items : List TransItemV2} : decodeTransItemList input = .ok items ↔
      (∀ item ∈ items, item.WellTyped) ∧ encodeTransItemList items = .ok input := by
  rw [encodeTransItemList_eq, decodeTransItemList, bind_eq_ok]
  constructor
  · rintro ⟨contents, hcn, hi⟩
    obtain ⟨ht, hc⟩ := (readAll_reads fun _ => listItem_reads).1 hi
    rw [writeAll_const] at hc
    exact ⟨ht, contents, hc, (decode_eq (vectorU16_reads 1)).1 hcn⟩
  · rintro ⟨ht, contents, hc, hp⟩
    refine ⟨contents, (decode_eq (vectorU16_reads 1)).2 hp, (readAll_reads fun _ => listItem_reads).2 ⟨ht, ?_⟩⟩
    rw [writeAll_const]
    exact hc

/-- What the decoders accept is what the encoders write: an accepted byte string is the encoding of the decoded
items, and a well-typed item or list that can be encoded is decoded again. -/
theorem transItem_decode_iff_encode :
    (∀ input item, TransItemV2.decode input = .ok item ↔ item.WellTyped ∧ item.encode = .ok input) ∧
      ∀ input items, decodeTransItemList input = .ok items ↔
        (∀ item ∈ items, item.WellTyped) ∧ encodeTransItemList items = .ok input :=
  ⟨fun _ _ => TransItemV2.decode_eq, fun _ _ => decodeTransItemList_eq⟩

end Ct
