import OxiBelt.Audit.Integrity
import OxiBelt.Cache.KeyExpansion
import OxiBelt.Lib.Netstring

/-!
# Identity of cache keys (`cache/key.rs`)

The physical base key separates the entries of different certificate and dictionary identities; the
variant key adds partition and `Vary` matchers.

* `physicalBaseKey_injective`: base key, certificate identity and dictionary identity are read back from
  the physical base key, whatever the base key contains.
* `variantKey_clean`: partition, base key and matchers are read back from the variant key if there is no
  line feed in them and no equals sign in a name; every identity with a line feed in its partition or
  base key, or an equals sign in a name, shares its key with another one.
-/

namespace Cache

open RustStd Http List

/-! ## Physical base keys -/

/-- `len()` of a text: each character counts its bytes. -/
theorem asBytes_length (s : Str) : (asBytes s).length = Netstring.size Char.utf8Size s := by
  simp [asBytes, Netstring.size, length_flatMap]

def Sha256Hex : Type :=
  { digest : Str // digest.length = 64 ∧ digest.all (fun c => (toDigit 16 c).isSome) = true }

structure CacheCertificateIdentity where
  (headerName format : Str)
  fingerprintSha256 : Option Sha256Hex

structure CacheDictionaryIdentity where
  upstreamScopeSha256 : Str
  selectedDictionarySha256 : Option Sha256Hex
  acceptEncodingSha256 : Str

def digestOr (absent : String) (digest : Option Sha256Hex) : Str := (digest.map (·.val)).getD absent.toList

def cacheCertificateDomain : Str := "\x00oxibelt-cache-certificate-v1\x00"
def cacheDictionaryDomain : Str := "\x00oxibelt-cache-dictionary-v1\x00"
def cachePlainKeyEscapeDomain : Str := "\x00oxibelt-cache-plain-key-v1\x00"

/-- One labelled field of a key: its length in bytes, a colon and its text. -/
def keyField (label : String) (value : Str) : Str :=
  label.toList ++ (decimal (asBytes value).length ++ ':' :: value)

variable (baseKey : Str)

def escapePlainBaseKey : Str :=
  if !baseKey.contains '\x00' then baseKey
  else
    cachePlainKeyEscapeDomain ++
      (decimal (asBytes baseKey).length ++ ':' :: Audit.hexEncode (asBytes baseKey))

def certificatePartitionedBaseKey (identity : Option CacheCertificateIdentity) : Str :=
  match identity with
  | none => escapePlainBaseKey baseKey
  | some identity =>
    cacheCertificateDomain ++
      (keyField "base:" (escapePlainBaseKey baseKey) ++
        (keyField "header:" identity.headerName ++
          (keyField "format:" identity.format ++
            keyField "identity:" (digestOr "absent" identity.fingerprintSha256))))

def dictionaryPartitionedBaseKey (identity : Option CacheDictionaryIdentity) : Str :=
  match identity with
  | none => baseKey
  | some identity =>
    cacheDictionaryDomain ++
      (keyField "base:" baseKey ++
        (keyField "scope:" identity.upstreamScopeSha256 ++
          (keyField "dictionary:" (digestOr "identity" identity.selectedDictionarySha256) ++
            keyField "accept-encoding:" identity.acceptEncodingSha256)))

/-- Certificate partitioning, then dictionary partitioning. -/
def physicalBaseKey (certificate : Option CacheCertificateIdentity)
    (dictionary : Option CacheDictionaryIdentity) : Str :=
  dictionaryPartitionedBaseKey (certificatePartitionedBaseKey baseKey certificate) dictionary

variable {b : Str}

variable {a : Str}

section Physical

theorem keyField_append_inj {label : String} {a b x y : Str}
    (h : keyField label a ++ x = keyField label b ++ y) : a = b ∧ x = y := by
  simp only [keyField, append_assoc] at h
  have hf := append_cancel_left h
  rw [asBytes_length, asBytes_length] at hf
  refine Netstring.field_append_inj Char.utf8Size_pos ?_
  simpa [Netstring.field, decimal] using hf

theorem keyField_inj {label : String} (h : keyField label a = keyField label b) : a = b := by
  refine (@keyField_append_inj label a b [] [] ?_).1
  rw [append_nil, append_nil, h]

theorem hexEncode_injective {a b : List UInt8} (h : Audit.hexEncode a = Audit.hexEncode b) : a = b := by
  have hd := congrArg (fun text => Audit.decodeHexPairs (asBytes text)) h
  simp only [Audit.decodeHexPairs_hexEncode] at hd
  exact Option.some.inj hd

/-- A plain key is itself without NUL, or stands in the plain-key domain. -/
theorem escapePlainBaseKey_cases : ('\x00' ∉ baseKey ∧ escapePlainBaseKey baseKey = baseKey) ∨
      ('\x00' ∈ baseKey ∧ escapePlainBaseKey baseKey = cachePlainKeyEscapeDomain ++
        (decimal (asBytes baseKey).length ++ ':' :: Audit.hexEncode (asBytes baseKey))) := by
  unfold escapePlainBaseKey
  by_cases hn : '\x00' ∈ baseKey
  · right
    simp [hn]
  · left
    simp [hn]

theorem escapePlainBaseKey_injective (h : escapePlainBaseKey a = escapePlainBaseKey b) : a = b := by
  rcases escapePlainBaseKey_cases a with ⟨ha, hea⟩ | ⟨ha, hea⟩
  · rcases escapePlainBaseKey_cases b with ⟨hb, heb⟩ | ⟨hb, heb⟩
    · rw [hea, heb] at h
      exact h
    · rw [hea, heb] at h
      exact absurd (by rw [h]; exact mem_append_left _ (by decide)) ha
  rcases escapePlainBaseKey_cases b with ⟨hb, heb⟩ | ⟨hb, heb⟩
  · rw [hea, heb] at h
    exact absurd (by rw [← h]; exact mem_append_left _ (by decide)) hb
  rw [hea, heb] at h
  obtain ⟨-, hh⟩ := Netstring.toDigits_append_inj (append_cancel_left h)
  exact asBytes_injective (hexEncode_injective hh)

theorem domain_letter (rest : Str) :
    (cacheCertificateDomain ++ rest)[15]? = some 'c' ∧ (cacheDictionaryDomain ++ rest)[15]? = some 'd' ∧
      (cachePlainKeyEscapeDomain ++ rest)[15]? = some 'p' :=
  ⟨rfl, rfl, rfl⟩

theorem escapePlainBaseKey_ne {baseKey rest : Str} : escapePlainBaseKey baseKey ≠ cacheCertificateDomain ++ rest ∧
      escapePlainBaseKey baseKey ≠ cacheDictionaryDomain ++ rest := by
  rcases escapePlainBaseKey_cases baseKey with ⟨hn, heq⟩ | ⟨-, heq⟩
  · rw [heq]
    constructor <;> exact fun h => hn (h ▸ mem_append_left _ (by decide))
  rw [heq]
  have hp := (domain_letter (decimal (asBytes baseKey).length ++ ':' :: Audit.hexEncode (asBytes baseKey))).2.2
  refine ⟨fun h => ?_, fun h => ?_⟩
  · rw [h, (domain_letter rest).1] at hp
    exact absurd hp (by decide)
  · rw [h, (domain_letter rest).2.1] at hp
    exact absurd hp (by decide)

theorem digestOr_injective {absent : String} (ha : absent.toList.length ≠ 64) {a b : Option Sha256Hex}
    (h : digestOr absent a = digestOr absent b) : a = b := by
  have hne : ∀ x : Sha256Hex, absent.toList ≠ x.val := by
    intro x heq
    rw [heq] at ha
    exact ha x.property.1
  rcases a with _ | x
  · rcases b with _ | y
    · rfl
    · exact absurd h (hne y)
  rcases b with _ | y
  · exact absurd h.symm (hne x)
  · rw [Subtype.ext (show x.val = y.val from h)]

theorem certificatePartitionedBaseKey_injective {c d : Option CacheCertificateIdentity}
    (h : certificatePartitionedBaseKey a c = certificatePartitionedBaseKey b d) : a = b ∧ c = d := by
  rcases c with _ | c
  · rcases d with _ | d
    · exact ⟨escapePlainBaseKey_injective h, rfl⟩
    · exact absurd h escapePlainBaseKey_ne.1
  rcases d with _ | d
  · exact absurd h.symm escapePlainBaseKey_ne.1
  unfold certificatePartitionedBaseKey at h
  obtain ⟨hb, h⟩ := keyField_append_inj (append_cancel_left h)
  obtain ⟨hh, h⟩ := keyField_append_inj h
  obtain ⟨hfr, h⟩ := keyField_append_inj h
  have hf := digestOr_injective (by decide) (keyField_inj h)
  refine ⟨escapePlainBaseKey_injective hb, congrArg some ?_⟩
  rcases c with ⟨_, _, _⟩
  rcases d with ⟨_, _, _⟩
  exact CacheCertificateIdentity.mk.injEq .. ▸ ⟨hh, hfr, hf⟩

/-- The certificate stage never writes into the dictionary domain. -/
theorem certificatePartitionedBaseKey_ne {rest : Str} {c : Option CacheCertificateIdentity} :
    certificatePartitionedBaseKey a c ≠ cacheDictionaryDomain ++ rest := by
  rcases c with _ | c
  · exact escapePlainBaseKey_ne.2
  intro h
  have hl := (domain_letter rest).2.1
  rw [← h] at hl
  exact absurd ((domain_letter _).1.symm.trans hl) (by decide)

/-- **Physical base keys are injective.** -/
theorem physicalBaseKey_injective (baseKey baseKey' : Str) (certificate certificate' : Option CacheCertificateIdentity)
    (dictionary dictionary' : Option CacheDictionaryIdentity)
    (h : physicalBaseKey baseKey certificate dictionary =
      physicalBaseKey baseKey' certificate' dictionary') :
    baseKey = baseKey' ∧ certificate = certificate' ∧ dictionary = dictionary' := by
  unfold physicalBaseKey at h
  rcases dictionary with _ | d
  · rcases dictionary' with _ | d'
    · obtain ⟨hb, hc⟩ := certificatePartitionedBaseKey_injective h
      exact ⟨hb, hc, rfl⟩
    · exact absurd h certificatePartitionedBaseKey_ne
  rcases dictionary' with _ | d'
  · exact absurd h.symm certificatePartitionedBaseKey_ne
  unfold dictionaryPartitionedBaseKey at h
  obtain ⟨hb, h⟩ := keyField_append_inj (append_cancel_left h)
  obtain ⟨hsc, h⟩ := keyField_append_inj h
  obtain ⟨hs, h⟩ := keyField_append_inj h
  have ha := keyField_inj h
  have hd := digestOr_injective (by decide) hs
  obtain ⟨hb, hc⟩ := certificatePartitionedBaseKey_injective hb
  refine ⟨hb, hc, congrArg some ?_⟩
  rcases d with ⟨_, _, _⟩
  rcases d' with ⟨_, _, _⟩
  exact CacheDictionaryIdentity.mk.injEq .. ▸ ⟨hsc, hd, ha⟩

/-- A base key that imitates a domain, with a certificate without fingerprint and a dictionary. -/
theorem physicalBaseKey_injective_imitation :
    let digest : Sha256Hex := ⟨List.replicate 64 'a', by decide⟩
    let certificate : CacheCertificateIdentity := ⟨"client-cert".toList, "rfc9440".toList, none⟩
    let dictionary : CacheDictionaryIdentity := ⟨digest.val, some digest, digest.val⟩
    certificatePartitionedBaseKey "\x00o".toList none = "\x00oxibelt-cache-plain-key-v1\x002:006f".toList ∧
      "\x00o".toList = "\x00o".toList ∧ some certificate = some certificate ∧ some dictionary = some dictionary :=
  ⟨by decide +kernel, physicalBaseKey_injective _ _ _ _ _ _ rfl⟩

end Physical

/-! ## Variant keys -/

def variantKey (partition baseKey : Str) (vary : List VaryMatcher) : Str :=
  "partition=" ++ (partition ++ '\n' :: (baseKey ++
    vary.flatMap fun item => '\n' :: (item.name ++ '=' :: item.value)))

structure VariantIdentity where
  (partition baseKey : Str)
  vary : List VaryMatcher

def VariantIdentity.key (identity : VariantIdentity) : Str :=
  variantKey identity.partition identity.baseKey identity.vary

/-- No line feed anywhere, and no equals sign in a name. -/
def VariantIdentity.Clean (identity : VariantIdentity) : Prop :=
  '\n' ∉ identity.partition ∧ '\n' ∉ identity.baseKey ∧
    ∀ item ∈ identity.vary, '\n' ∉ item.name ∧ '=' ∉ item.name ∧ '\n' ∉ item.value

section Variant

def varyLines (vary : List VaryMatcher) : Str :=
  vary.flatMap fun item => '\n' :: (item.name ++ '=' :: item.value)

theorem append_varyLines (text : Str) (vary : List VaryMatcher) : text ++ varyLines vary =
    ['\n'].intercalate (text :: vary.map fun item => item.name ++ '=' :: item.value) := by
  rw [ByteString.intercalate_cons_eq, flatMap_map]
  rfl

variable {a : VariantIdentity}

theorem splitOn_clean (ha : a.Clean) : (a.partition ++ '\n' :: (a.baseKey ++ varyLines a.vary)).splitOn '\n' =
    a.partition :: a.baseKey :: a.vary.map fun item => item.name ++ '=' :: item.value := by
  obtain ⟨hp, hb, hv⟩ := ha
  rw [append_varyLines, ← singleton_append, ← append_assoc, ← intercalate_cons_cons]
  refine splitOn_intercalate '\n' (forall_mem_cons.2 ⟨hp, forall_mem_cons.2 ⟨hb, ?_⟩⟩) (cons_ne_nil _ _)
  simp only [forall_mem_map, mem_append, mem_cons, not_or]
  exact fun item hi => ⟨(hv item hi).1, by decide, (hv item hi).2.2⟩

theorem clean_key_injective {b : VariantIdentity} (ha : a.Clean) (hb : b.Clean) (h : a.key = b.key) : a = b := by
  have hl := (splitOn_clean hb).symm.trans
    ((congrArg (splitOn '\n') (append_cancel_left h)).symm.trans (splitOn_clean ha))
  obtain ⟨hp, hl⟩ := List.cons.inj hl
  obtain ⟨hk, hl⟩ := List.cons.inj hl
  -- a line is read back up to its first equals sign
  have hr : ∀ vary : List VaryMatcher, (∀ item ∈ vary, '=' ∉ item.name) →
      (vary.map fun item => item.name ++ '=' :: item.value).map
        (fun line => (⟨line.takeWhile (· != '='), (line.dropWhile (· != '=')).tail⟩ : VaryMatcher)) = vary := by
    intro vary hv
    rw [map_map]
    refine (map_congr_left fun item hi => ?_).trans vary.map_id
    obtain ⟨hn, hd⟩ := ByteString.cut_append (hv item hi) item.value
    simp only [Function.comp_apply, hn, hd, tail_cons, id]
  have hv := hr a.vary fun item hi => (ha.2.2 item hi).2.1
  rw [← hl, hr b.vary fun item hi => (hb.2.2 item hi).2.1] at hv
  rcases a with ⟨_, _, _⟩
  rcases b with ⟨_, _, _⟩
  simp only at hp hk hv
  rw [hp, hk, hv]

/-- A line feed in the partition or in the base key can be read as the one between them. -/
theorem exists_same_key_of_lineFeed (h : '\n' ∈ a.partition ∨ '\n' ∈ a.baseKey) : ∃ b, b ≠ a ∧ b.key = a.key := by
  rcases a with ⟨partition, baseKey, vary⟩
  rcases h with h | h
  · obtain ⟨s, t, rfl⟩ := append_of_mem h
    refine ⟨⟨s, t ++ '\n' :: baseKey, vary⟩, fun heq => ?_, ?_⟩
    · have hl := congrArg (fun identity => identity.partition.length) heq
      simp at hl
    · refine congrArg ("partition=".toList ++ ·) ?_
      simp
  obtain ⟨s, t, rfl⟩ := append_of_mem h
  refine ⟨⟨partition ++ '\n' :: s, t, vary⟩, fun heq => ?_, ?_⟩
  · have hl := congrArg (fun identity => identity.partition.length) heq
    simp at hl
  · refine congrArg ("partition=".toList ++ ·) ?_
    simp

/-- An equals sign in a name can be read as the one behind it. -/
theorem exists_same_key_of_equals (h : ∃ item ∈ a.vary, '=' ∈ item.name) : ∃ b, b ≠ a ∧ b.key = a.key := by
  rcases a with ⟨partition, baseKey, vary⟩
  obtain ⟨⟨name, value⟩, hi, hn⟩ := h
  obtain ⟨before, after, rfl⟩ := append_of_mem hi
  obtain ⟨s, t, rfl⟩ := append_of_mem hn
  refine ⟨⟨partition, baseKey, before ++ ⟨s, t ++ '=' :: value⟩ :: after⟩, fun heq => ?_, ?_⟩
  · simp only [VariantIdentity.mk.injEq, true_and, append_cancel_left_eq, List.cons.injEq, VaryMatcher.mk.injEq] at heq
    have hl := congrArg List.length heq.1.1
    simp at hl
  · refine congrArg ("partition=".toList ++ ·) ?_
    simp

/-- **Variant keys.**  Clean identities with one key are equal; an identity with a line feed in its
partition or base key, or with an equals sign in a name, has the key of another identity too. -/
theorem variantKey_clean (a : VariantIdentity) : (∀ b : VariantIdentity, a.Clean → b.Clean → a.key = b.key → a = b) ∧
      ('\n' ∈ a.partition ∨ '\n' ∈ a.baseKey ∨ (∃ item ∈ a.vary, '=' ∈ item.name) →
        ∃ b : VariantIdentity, b ≠ a ∧ b.key = a.key) := by
  refine ⟨fun b ha hb h => clean_key_injective ha hb h, fun h => ?_⟩
  rcases h with h | h | h
  · exact exists_same_key_of_lineFeed (.inl h)
  · exact exists_same_key_of_lineFeed (.inr h)
  · exact exists_same_key_of_equals h

/-- Two clean identities that differ in the value of a matcher. -/
theorem variantKey_clean_values :
    (⟨"p", "k", [⟨"x", "1"⟩]⟩ : VariantIdentity).key ≠
      (⟨"p", "k", [⟨"x", "2"⟩]⟩ : VariantIdentity).key := by
  intro h
  have he := (variantKey_clean _).1 _ (by simp [VariantIdentity.Clean]) (by simp [VariantIdentity.Clean]) h
  simp at he

/-- `form_urlencoded::parse` on pairs of ASCII text. -/
def asciiForm : FormParser := fun query =>
  (query.splitOn '&').filterMap fun pair =>
    (splitOnce '=' pair).map fun (name, value) => (decode name, decode value)
where
  decode : Str → Str
  | '%' :: high :: low :: rest =>
    match toDigit 16 high, toDigit 16 low with
    | some high, some low => Char.ofNat (high * 16 + low) :: decode rest
    | _, _ => '%' :: decode (high :: low :: rest)
  | '+' :: rest => ' ' :: decode rest
  | c :: rest => c :: decode rest
  | [] => []

def queryRequest (query : String) : KeyRequest :=
  ⟨"http", "a.example", ⟨"/?" ++ query.toList, "/", some query.toList⟩,
    HeaderMap.empty⟩

/-- A decoded line feed in a query value imitates a `Vary` line. -/
theorem variantKey_query_lineFeed :
    expandedCacheKey asciiForm "\x7bquery:q\x7d" (queryRequest "q=a%0Ax%3D1") = "a\nx=1" ∧
      expandedCacheKey asciiForm "\x7bquery:q\x7d" (queryRequest "q=a") = "a" ∧
      variantKey [] "a\nx=1" [] = variantKey [] "a" [⟨"x", "1"⟩] := by
  exact ⟨by decide +kernel, by decide +kernel, rfl⟩

end Variant

end Cache
