import OxiBelt.Lib.Bytes
import OxiBelt.RustStd.Result

/-!
# The signed transcript of a mutation (`admin_mutation/envelope.rs`)

What a signer signs: a domain, and then each field behind its length in four bytes.  The transcript is made
only for an envelope and a context that pass every check, against the digest of the body.

* `mutationTranscript_injective`: the transcript determines the suite, the envelope and what the context says
  about the request.
-/

namespace MutationEnvelope

open RustStd ByteString List

/-! ## Records -/

inductive ErrorKind where
  | invalidEnvelope
  | unsupportedVersion
  | invalidTimestamp
  | expired
  | notYetValid
  | validityWindowTooLong
  | digestMismatch
  deriving DecidableEq

structure MutationProtocolError where
  kind : ErrorKind
  detail : Str
  deriving DecidableEq

abbrev Checked (α : Type) := Except MutationProtocolError α

def invalid (detail : String) : MutationProtocolError := ⟨.invalidEnvelope, detail.toList⟩

def invalidTimestamp : MutationProtocolError :=
  ⟨.invalidTimestamp, "mutation timestamp must be canonical UTC RFC 3339"⟩

def refuse (bad : Bool) (e : MutationProtocolError) : Checked Unit := if bad then .error e else .ok ()

structure MutationTarget where
  (clusterId membershipRevision : Str)
  deriving DecidableEq

structure UnsignedMutationEnvelope where
  (version signerId requestId issuedAt expiresAt expectedPreviousRevision newRevision : Str)
  contentDigest : Str
  target : MutationTarget
  deriving DecidableEq

inductive SignatureSuite where
  | ed25519
  | ed25519MlDsa44
  deriving DecidableEq

def SignatureSuite.asStr : SignatureSuite → Str
  | ed25519 => "ed25519"
  | ed25519MlDsa44 => "ed25519_ml_dsa_44"

/-- The method is its text, and the clock is in seconds. -/
structure TranscriptContext where
  (method pathAndQuery ipmNamespace authenticatedPrincipal : Str)
  body : Bytes
  preconditionRevision : Str
  nowUnixSeconds : Int
  (maximumValiditySeconds maximumClockSkewSeconds : Nat)

/-! ## Checks of single fields -/

def isAlphanumericByte (byte : UInt8) : Bool :=
  (48 ≤ byte && byte ≤ 57) || (65 ≤ byte && byte ≤ 90) || (97 ≤ byte && byte ≤ 122)

def isDigitByte (byte : UInt8) : Bool := 48 ≤ byte && byte ≤ 57

/-- A digit, or a letter from `a` to `f`. -/
def isHexByte (byte : UInt8) : Bool := isDigitByte byte || (97 ≤ byte && byte ≤ 102)

def hexNibble (byte : UInt8) : UInt8 :=
  if isDigitByte byte then byte - 48 else if isHexByte byte then byte - 97 + 10 else 0

def hexPairs : Bytes → Bytes
  | high :: low :: rest => (hexNibble high <<< 4 ||| hexNibble low) :: hexPairs rest
  | _ => []

def hasControl (value : Str) : Bool := value.any isControlChar

def validateRevision (field : String) (value : Str) : Checked Unit :=
  refuse (value.isEmpty || 128 < (asBytes value).length ||
    (asBytes value).any fun byte => !isAlphanumericByte byte && !(asBytes "._:-").contains byte) (invalid field)

def validateIdentifier (field : String) (value : Str) (maximum : Nat) : Checked Unit :=
  refuse (value.isEmpty || maximum < (asBytes value).length ||
    (asBytes value).any fun byte => !isAlphanumericByte byte && !(asBytes "._:-/").contains byte) (invalid field)

def validateText (field : String) (value : Str) (maximum : Nat) : Checked Unit :=
  refuse (value.isEmpty || maximum < (asBytes value).length || hasControl value) (invalid field)

def validateDigest (field : String) (value : Str) : Checked Unit :=
  refuse ((asBytes value).length != 71 || !"sha256:".toList.isPrefixOf value ||
    ((asBytes value).drop 7).any fun byte => !isHexByte byte) (invalid field)

def validateUuid (value : Str) : Checked Unit := do
  let bytes := asBytes value
  refuse (bytes.length != 36 || bytes[8]? != some 45 || bytes[13]? != some 45 || bytes[18]? != some 45 ||
    bytes[23]? != some 45) (invalid "mutation request_id must be a canonical UUID")
  let compact := asBytes (value.filter (· != '-'))
  refuse (compact.length != 32 || compact.any fun byte => !isHexByte byte)
    (invalid "mutation request_id must be a canonical UUID")
  let decoded := hexPairs compact
  let version := decoded.getD 6 0 >>> 4
  refuse (!(1 ≤ version && version ≤ 8) || decoded.getD 8 0 &&& 0b11000000 != 0b10000000 ||
    decoded == List.replicate 16 0) (invalid "mutation request_id must be an RFC 9562 UUID")

/-! ## Timestamps -/

def isLeapYear (year : Nat) : Bool := year % 4 == 0 && (year % 100 != 0 || year % 400 == 0)

def daysInMonth (year month : Nat) : Nat :=
  if month == 2 then (if isLeapYear year then 29 else 28)
  else if month == 4 || month == 6 || month == 9 || month == 11 then 30
  else 31

def daysBeforeYear (year : Nat) : Nat :=
  let previous := year - 1
  previous * 365 + previous / 4 - previous / 100 + previous / 400

def daysBeforeMonth (year month : Nat) : Nat :=
  [0, 31, 59, 90, 120, 151, 181, 212, 243, 273, 304, 334].getD (month - 1) 0 +
    if 2 < month && isLeapYear year then 1 else 0

/-- `decimal`: the number that the digits at a place stand for. -/
def decimalAt (bytes : Bytes) (offset length : Nat) : Checked Nat := do
  refuse (bytes.length < offset + length) invalidTimestamp
  let digits := (bytes.drop offset).take length
  refuse (digits.any fun byte => !isDigitByte byte) invalidTimestamp
  return digits.foldl (fun value byte => value * 10 + (byte.toNat - 48)) 0

def parseTimestamp (value : Str) : Checked Int := do
  let bytes := asBytes value
  refuse (bytes.length != 20 || bytes[4]? != some 45 || bytes[7]? != some 45 || bytes[10]? != some 84 ||
    bytes[13]? != some 58 || bytes[16]? != some 58 || bytes[19]? != some 90) invalidTimestamp
  let year ← decimalAt bytes 0 4
  let month ← decimalAt bytes 5 2
  let day ← decimalAt bytes 8 2
  let hour ← decimalAt bytes 11 2
  let minute ← decimalAt bytes 14 2
  let second ← decimalAt bytes 17 2
  refuse (!(1970 ≤ year && year ≤ 9999) || !(1 ≤ month && month ≤ 12) || day == 0 || daysInMonth year month < day ||
    23 < hour || 59 < minute || 59 < second) invalidTimestamp
  let days := daysBeforeYear year - daysBeforeYear 1970 + daysBeforeMonth year month + (day - 1)
  return (days * 86400 + (hour * 3600 + minute * 60 + second) : Nat)

/-- `i64::saturating_add`. -/
def saturatingAdd (a b : Int) : Int := max (-2 ^ 63) (min (2 ^ 63 - 1) (a + b))

/-! ## The transcript -/

def validateUnsigned (unsigned : UnsignedMutationEnvelope) (context : TranscriptContext) : Checked Unit := do
  refuse (unsigned.version != "1")
    ⟨.unsupportedVersion, "mutation envelope version is unsupported"⟩
  validateIdentifier "signer_id" unsigned.signerId 128
  validateUuid unsigned.requestId
  validateRevision "expected_previous_revision" unsigned.expectedPreviousRevision
  validateRevision "new_revision" unsigned.newRevision
  refuse (unsigned.expectedPreviousRevision == unsigned.newRevision) (invalid "mutation revisions must differ")
  validateIdentifier "cluster_id" unsigned.target.clusterId 128
  validateDigest "membership_revision" unsigned.target.membershipRevision
  validateDigest "content_digest" unsigned.contentDigest
  let issued ← parseTimestamp unsigned.issuedAt
  let expires ← parseTimestamp unsigned.expiresAt
  refuse (expires ≤ issued) ⟨.invalidTimestamp, "mutation expiration must be after issuance"⟩
  refuse (context.maximumValiditySeconds < expires - issued)
    ⟨.validityWindowTooLong, "mutation validity window exceeds policy"⟩
  let skew := min (context.maximumClockSkewSeconds : Int) (2 ^ 63 - 1)
  refuse (saturatingAdd context.nowUnixSeconds skew < issued)
    ⟨.notYetValid, "mutation issuance is in the future"⟩
  refuse (expires ≤ context.nowUnixSeconds) ⟨.expired, "mutation envelope has expired"⟩

def validateContext (context : TranscriptContext) : Checked Unit := do
  refuse (context.pathAndQuery.isEmpty || context.pathAndQuery.head? != some '/' || context.pathAndQuery.contains '#' ||
    hasControl context.pathAndQuery || 4096 < (asBytes context.pathAndQuery).length)
    (invalid "mutation request path and query are invalid")
  validateText "IPM namespace" context.ipmNamespace 256
  validateText "authenticated principal" context.authenticatedPrincipal 1024
  validateRevision "If-Match precondition" context.preconditionRevision

variable (sha256 : Bytes → ByteArr 32)

variable (unsigned : UnsignedMutationEnvelope)

def verifyContentDigest (body : Bytes) : Checked Unit := do
  validateDigest "content_digest" unsigned.contentDigest
  refuse (hexPairs ((asBytes unsigned.contentDigest).drop 7) != (sha256 body).1)
    ⟨.digestMismatch, "mutation content digest does not match the request body"⟩

def transcriptDomain : Bytes := asBytes "OXIBELT-ADMIN-MUTATION-TRANSCRIPT\x00"

def appendField (output value : Bytes) : Checked Bytes :=
  if value.length < 2 ^ 32 then .ok (output ++ field 4 value)
  else .error (invalid "mutation transcript field is too long")

def transcriptFields (suite : SignatureSuite) (context : TranscriptContext) : List Str :=
  [unsigned.version, suite.asStr, unsigned.signerId, context.ipmNamespace, context.authenticatedPrincipal,
    context.method, context.pathAndQuery, context.preconditionRevision, unsigned.requestId, unsigned.issuedAt,
    unsigned.expiresAt, unsigned.expectedPreviousRevision, unsigned.newRevision, unsigned.contentDigest,
    unsigned.target.clusterId, unsigned.target.membershipRevision]

def mutationTranscript (suite : SignatureSuite) (context : TranscriptContext) : Checked Bytes := do
  validateUnsigned unsigned context
  validateContext context
  verifyContentDigest sha256 unsigned context.body
  (transcriptFields unsigned suite context).foldlM (fun output value => appendField output (asBytes value))
    transcriptDomain

/-! ## Injectivity -/

theorem appendField_eq_ok {output value bytes : Bytes} :
    appendField output value = .ok bytes ↔ value.length < 256 ^ 4 ∧ bytes = output ++ field 4 value := by
  have hp : (256 ^ 4 : Nat) = 2 ^ 32 := by decide
  rw [hp]
  unfold appendField
  split
  · next hlt => exact ⟨fun h => ⟨hlt, (Except.ok.inj h).symm⟩, fun h => congrArg Except.ok h.2.symm⟩
  · next hlt => exact ⟨nofun, fun h => absurd h.1 hlt⟩

theorem appendFields_eq_ok {fields : List Str} {output bytes : Bytes} :
    fields.foldlM (fun output value => appendField output (asBytes value)) output = .ok bytes ↔
      (∀ part ∈ fields.map asBytes, part.length < 256 ^ 4) ∧
        bytes = output ++ (fields.map asBytes).flatMap (field 4) := by
  induction fields generalizing output with
  | nil => simp [pure, Except.pure, eq_comm]
  | cons value fields ih =>
    rw [foldlM_cons, bind_eq_ok, map_cons, forall_mem_cons, flatMap_cons]
    constructor
    · rintro ⟨written, hv, hr⟩
      obtain ⟨hlt, rfl⟩ := appendField_eq_ok.1 hv
      obtain ⟨ha, rfl⟩ := ih.1 hr
      exact ⟨⟨hlt, ha⟩, append_assoc _ _ _⟩
    · rintro ⟨⟨hlt, ha⟩, rfl⟩
      exact ⟨_, appendField_eq_ok.2 ⟨hlt, rfl⟩, ih.2 ⟨ha, (append_assoc _ _ _).symm⟩⟩

variable {suite : SignatureSuite}

theorem mutationTranscript_eq_ok {unsigned : UnsignedMutationEnvelope} {context : TranscriptContext}
    {transcript : Bytes} :
    mutationTranscript sha256 unsigned suite context = .ok transcript ↔
      validateUnsigned unsigned context = .ok () ∧ validateContext context = .ok () ∧
        verifyContentDigest sha256 unsigned context.body = .ok () ∧
        (∀ part ∈ (transcriptFields unsigned suite context).map asBytes, part.length < 256 ^ 4) ∧
        transcript =
          transcriptDomain ++ ((transcriptFields unsigned suite context).map asBytes).flatMap (field 4) := by
  simp only [mutationTranscript, unit_bind_eq_ok, appendFields_eq_ok]

theorem SignatureSuite.asStr_injective {suite' : SignatureSuite} (h : suite.asStr = suite'.asStr) : suite = suite' := by
  cases suite <;> cases suite' <;> first | rfl | exact absurd h (by decide)

/-- **The transcript is injective.**  Whatever passes the checks, the bytes that are signed determine the suite, every
field of the envelope, and namespace, principal, method, path and precondition of the request. -/
theorem mutationTranscript_injective {unsigned unsigned' : UnsignedMutationEnvelope} {suite suite' : SignatureSuite}
    {context context' : TranscriptContext} {transcript : Bytes}
    (h : mutationTranscript sha256 unsigned suite context = .ok transcript)
    (h' : mutationTranscript sha256 unsigned' suite' context' = .ok transcript) :
    suite = suite' ∧ unsigned = unsigned' ∧ context.ipmNamespace = context'.ipmNamespace ∧
      context.authenticatedPrincipal = context'.authenticatedPrincipal ∧ context.method = context'.method ∧
      context.pathAndQuery = context'.pathAndQuery ∧
      context.preconditionRevision = context'.preconditionRevision := by
  obtain ⟨-, -, -, hs, hb⟩ := (mutationTranscript_eq_ok sha256).1 h
  obtain ⟨-, -, -, hs', hb'⟩ := (mutationTranscript_eq_ok sha256).1 h'
  have hp := fields_inj (by decide) hs hs' (append_cancel_left (hb.symm.trans hb'))
  have hf := map_injective_iff.2 (fun _ _ => asBytes_injective) hp
  simp only [transcriptFields, cons.injEq, and_true] at hf
  obtain ⟨hv, hst, hsg, hn, hpr, hmt, hpt, hpc, hr, hi, hex, he, hnw, hd, hc, hm⟩ := hf
  refine ⟨SignatureSuite.asStr_injective hst, ?_, hn, hpr, hmt, hpt, hpc⟩
  obtain ⟨version, signer, request, issued, expires, expected, new, digest, cluster, membership⟩ := unsigned
  subst hv hsg hr hi hex he hnw hd hc hm
  rfl

def sampleEnvelope : UnsignedMutationEnvelope :=
  { version := "1", signerId := "s", requestId := "00000000-0000-1000-8000-000000000001"
    issuedAt := "2026-01-01T00:00:00Z", expiresAt := "2026-01-01T00:01:00Z"
    expectedPreviousRevision := "r1", newRevision := "r2"
    contentDigest := "sha256:e3b0c44298fc1c149afbf4c8996fb92427ae41e4649b934ca495991b7852b855"
    target := ⟨"c", "sha256:" ++ List.replicate 64 'a'⟩ }

/-- A request, with any clock that is set right. -/
def sampleContext (nowUnixSeconds : Int) : TranscriptContext :=
  { method := "PUT", pathAndQuery := "/config", ipmNamespace := "n"
    authenticatedPrincipal := "p", body := [], preconditionRevision := "r1"
    nowUnixSeconds, maximumValiditySeconds := 60, maximumClockSkewSeconds := 0 }

def sampleSha256 (body : Bytes) : ByteArr 32 :=
  if body.isEmpty then
    ⟨beBytes 32 0xe3b0c44298fc1c149afbf4c8996fb92427ae41e4649b934ca495991b7852b855, beBytes_length ..⟩
  else zeros 32

theorem mutationTranscript_injective_sample : ∃ transcript,
      mutationTranscript sampleSha256 sampleEnvelope .ed25519 (sampleContext 1767225601) = .ok transcript ∧
      mutationTranscript sampleSha256 sampleEnvelope .ed25519 (sampleContext 1767225602) = .ok transcript ∧
      (sampleContext 1767225601).method = (sampleContext 1767225602).method := by
  have hu : ∀ now ∈ [1767225601, 1767225602], validateUnsigned sampleEnvelope (sampleContext now) = .ok () := by decide
  have hd : verifyContentDigest sampleSha256 sampleEnvelope [] = .ok () := by decide
  have hs : ∀ part ∈ (transcriptFields sampleEnvelope .ed25519 (sampleContext 0)).map asBytes,
      part.length < 256 ^ 4 := by decide
  have h : ∀ now ∈ [1767225601, 1767225602],
      mutationTranscript sampleSha256 sampleEnvelope .ed25519 (sampleContext now) =
        .ok (transcriptDomain ++
          ((transcriptFields sampleEnvelope .ed25519 (sampleContext 0)).map asBytes).flatMap (field 4)) :=
    fun now hn => (mutationTranscript_eq_ok _).2 ⟨hu now hn, rfl, hd, hs, rfl⟩
  have h1 := h 1767225601 (by decide)
  have h2 := h 1767225602 (by decide)
  exact ⟨_, h1, h2, (mutationTranscript_injective _ h1 h2).2.2.2.2.1⟩

end MutationEnvelope
