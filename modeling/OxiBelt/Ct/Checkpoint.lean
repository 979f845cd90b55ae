import OxiBelt.Ct.SignedEntry
import OxiBelt.Lib.Base64

/-!
# Checkpoints of a static log (`oxibelt-ct/src/static_ct.rs`)

A checkpoint is a signed note: three lines of text, an empty line and signature lines.  The text that is signed ends
at the last empty line (`signedBody`).  Lines of other keys are checked for their form and passed over.

* `checkpoint_parse_render`: what is rendered is parsed back, and the signed body of whatever is parsed is the canonical
  text of the values that are returned.
-/

namespace Ct

open RustStd Codec ByteString List Base64

/-- `SIGNATURE_LINE_PREFIX`. -/
def signatureLineStart : Str := ['—', ' ']

def rfc6962NoteSignatureType : UInt8 := 5

structure StaticCheckpoint where
  origin : Str
  treeSize : UInt64
  rootHash : HashBytes
  timestamp : UInt64
  treeHeadSignature : DigitallySigned
  deriving DecidableEq

def checkpointText [Base64] (origin : Str) (treeSize : UInt64) (rootHash : HashBytes) : Str :=
  origin ++ '\n' :: (decimal treeSize.toNat ++ '\n' :: (Base64.encode rootHash.1 ++ ['\n']))

def isNoteChar (c : Char) : Bool := !(isControlChar c || isWhitespace c || c == '+')

def validateOrigin (origin : Str) : Result Unit :=
  ensure (!(origin.isEmpty || 2048 < (asBytes origin).length || (find "://" origin).isSome ||
    origin.head? == some '/' || origin.getLast? == some '/' || origin.any (!isNoteChar ·)))
    "Static CT checkpoint origin is not a schema-less URL"

def validateKeyName (keyName : Str) : Result Unit :=
  ensure (!(keyName.isEmpty || keyName.any (!isNoteChar ·))) "Static CT signed-note key name is invalid"

def parseCanonicalU64 (value : Str) : Result UInt64 :=
  if value.isEmpty || (1 < value.length && value.head? == some '0') || !value.all isAsciiDigit then
    .error "Static CT checkpoint size is not canonical decimal"
  else
    match parseU64 value with
    | none => .error "Static CT checkpoint size overflows u64"
    | some n => .ok (UInt64.ofNat n)

variable (sha256 : Bytes → HashBytes)

def checkpointKeyId (origin : Str) (logId : HashBytes) : Bytes :=
  (sha256 (asBytes origin ++ [10] ++ [rfc6962NoteSignatureType] ++ logId.1)).1.take 4

namespace StaticCheckpoint

def noteSignature (checkpoint : StaticCheckpoint) (logId : HashBytes) : Result Bytes :=
  concat [.ok (checkpointKeyId sha256 checkpoint.origin logId), .ok (beU64 checkpoint.timestamp),
    checkpoint.treeHeadSignature.encode]

def signatureLine [Base64] (origin : Str) (signature : Bytes) : Str :=
  signatureLineStart ++ (origin ++ ' ' :: Base64.encode signature)

def render [Base64] (checkpoint : StaticCheckpoint) (logId : HashBytes) : Result Str := do
  validateOrigin checkpoint.origin
  let text := checkpointText checkpoint.origin checkpoint.treeSize checkpoint.rootHash
  let signature ← noteSignature sha256 checkpoint logId
  return text ++ '\n' :: (signatureLine checkpoint.origin signature ++ ['\n'])

/-- The signature of the log behind its key id. -/
def decodeSignature : Reader Str (UInt64 × DigitallySigned) := do
  let timestamp ← Reader.u64
  let treeHeadSignature ← DigitallySigned.decodeFrom
  return (timestamp, treeHeadSignature)

def scanSignatures [Base64] (origin : Str) (expectedKeyId : Bytes) :
    Nat → Option (UInt64 × DigitallySigned) → List Str → Result (Option (UInt64 × DigitallySigned))
  | _, matching, [] => .ok matching
  | signatureCount, matching, line :: lines => do
    ensure (signatureCount + 1 ≤ 16) "Static CT checkpoint has too many signatures"
    let rest ← context (stripPrefix signatureLineStart line) "invalid Static CT checkpoint signature line"
    let (keyName, encoded) ← context (splitOnce ' ' rest) "invalid Static CT checkpoint signature fields"
    ensure (!encoded.isEmpty) "empty Static CT checkpoint signature field"
    validateKeyName keyName
    let decoded ← context (Base64.decode encoded) "Static CT checkpoint signature is not base64"
    ensure (Base64.encode decoded == encoded) "Static CT checkpoint signature is not canonical base64"
    if keyName != origin || decoded.take 4 != expectedKeyId then
      scanSignatures origin expectedKeyId (signatureCount + 1) matching lines
    else do
      ensure matching.isNone "duplicate Static CT RFC 6962 checkpoint signature"
      let signature ← Reader.decode decodeSignature (decoded.drop 4)
      scanSignatures origin expectedKeyId (signatureCount + 1) (some signature) lines

def parseText [Base64] (text : Str) : Result (Str × UInt64 × HashBytes) :=
  match text.splitOn '\n' with
  | [origin, treeSize, root] => do
    validateOrigin origin
    let treeSize ← parseCanonicalU64 treeSize
    let root ← context (Base64.decode root) "Static CT checkpoint root is not base64"
    let rootHash ← tryIntoHash "Static CT checkpoint root must be 32 bytes" root
    ensure (checkpointText origin treeSize rootHash == text ++ ['\n']) "Static CT checkpoint text is not canonical"
    return (origin, treeSize, rootHash)
  | _ => .error "Static CT checkpoint text must have exactly three lines"

def parse [Base64] (input : Str) (logId : HashBytes) : Result StaticCheckpoint := do
  ensure ((asBytes input).length ≤ 128 * 1024 && input.getLast? == some '\n')
    "Static CT checkpoint is too large or lacks final newline"
  ensure (!input.any fun c => c < ' ' && c != '\n') "Static CT checkpoint contains forbidden control characters"
  let (text, signatureBlock) ← context (rfind ['\n', '\n'] input)
    "Static CT checkpoint lacks signed-note separator"
  let (origin, treeSize, rootHash) ← parseText text
  let matching ← scanSignatures origin (checkpointKeyId sha256 origin logId) 0 none (lines signatureBlock)
  let (timestamp, treeHeadSignature) ← context matching
    "Static CT checkpoint lacks the expected log signature"
  return { origin, treeSize, rootHash, timestamp, treeHeadSignature }

end StaticCheckpoint

/-- The text of a note that its signatures are for, with the line feed that ends it. -/
def signedBody (input : Str) : Option Str := (rfind ['\n', '\n'] input).map fun (text, _) => text ++ ['\n']

/-! ## The parts of a note -/

namespace StaticCheckpoint

variable {origin text : Str} {signature : UInt64 × DigitallySigned} {bytes : Bytes} {c : Char}
  {logId rootHash : HashBytes} {treeSize : UInt64}

/-- What `decodeSignature` reads. -/
def encodeSignature (signature : UInt64 × DigitallySigned) : Result Bytes :=
  concat [.ok (beU64 signature.1), signature.2.encode]

theorem decodeSignature_eq :
    Reader.decode decodeSignature bytes = .ok signature ↔ encodeSignature signature = .ok bytes := by
  have hr : ReadsBack encodeSignature decodeSignature := by
    refine Reads.record ?_
    refine Reads.field Prod.fst u64_reads fun timestamp => ?_
    refine Reads.field Prod.snd DigitallySigned.reads fun signed => ?_
    exact Reads.pure fun ⟨_, _⟩ => by simp
  exact decode_eq hr

variable {checkpoint : StaticCheckpoint}

theorem noteSignature_eq {signature : Bytes} : noteSignature sha256 checkpoint logId = .ok signature ↔
      ∃ bytes, encodeSignature (checkpoint.timestamp, checkpoint.treeHeadSignature) = .ok bytes ∧
        signature = checkpointKeyId sha256 checkpoint.origin logId ++ bytes := by
  rw [noteSignature, concat_cons_eq]
  simp [encodeSignature]

theorem checkpointKeyId_length (origin : Str) (logId : HashBytes) :
    (checkpointKeyId sha256 origin logId).length = 4 := by
  rw [checkpointKeyId, length_take, (sha256 _).2]
  rfl

theorem validateOrigin_spec (h : validateOrigin origin = .ok ()) :
    origin ≠ [] ∧ (asBytes origin).length ≤ 2048 ∧ ∀ c ∈ origin, isNoteChar c = true := by
  unfold validateOrigin ensure at h
  split at h
  · next hv =>
    simp only [Bool.not_eq_true', Bool.or_eq_false_iff, isEmpty_eq_false_iff, decide_eq_false_iff_not, not_lt,
      any_eq_false, Bool.not_eq_true', Bool.not_eq_false] at hv
    obtain ⟨⟨⟨⟨⟨hne, hl⟩, -⟩, -⟩, -⟩, hc⟩ := hv
    exact ⟨hne, hl, hc⟩
  · cases h

theorem validateKeyName_of_validateOrigin (h : validateOrigin origin = .ok ()) : validateKeyName origin = .ok () := by
  obtain ⟨hne, -, hc⟩ := validateOrigin_spec h
  have hv : (origin.isEmpty || origin.any (!isNoteChar ·)) = false := by
    simpa [hne] using hc
  rw [validateKeyName, hv]
  rfl

/-- A character that is neither a control character nor a blank. -/
theorem not_mem_of_isNoteChar {s : Str} (h : ∀ c ∈ s, isNoteChar c = true) (hc : isNoteChar c = false) :
    c ∉ s := fun hm => by
  rw [h c hm] at hc
  cases hc

theorem not_mem_decimal {n : Nat} (hc : isAsciiDigit c = false) : c ∉ decimal n := fun hm => by
  rw [isAsciiDigit_of_mem_decimal hm] at hc
  cases hc

theorem rfind_blank_line {line : Str} (hne : line ≠ []) (hl : '\n' ∉ line) :
    rfind ['\n', '\n'] (text ++ '\n' :: '\n' :: (line ++ ['\n'])) = some (text, line ++ ['\n']) := by
  have hfn : ∀ {front rest : Str}, '\n' ∉ front →
      find ['\n', '\n'] (front ++ '\n' :: '\n' :: rest) = some (front, rest) := by
    intro front rest hf
    induction front with
    | nil => simp [find, isPrefixOf]
    | cons c front ih =>
      rw [mem_cons, not_or] at hf
      obtain ⟨hc, hf⟩ := hf
      have hs : ['\n', '\n'].isPrefixOf (c :: (front ++ '\n' :: '\n' :: rest)) = false := by
        simp [isPrefixOf, hc]
      rw [cons_append, find, hs, ih hf]
      rfl
  have hr : (text ++ '\n' :: '\n' :: (line ++ ['\n'])).reverse =
      '\n' :: (line.reverse ++ '\n' :: '\n' :: text.reverse) := by simp
  obtain ⟨c, back, hcn⟩ := exists_cons_of_ne_nil (reverse_ne_nil_iff.2 hne)
  have hb : '\n' ∉ c :: back := by rwa [← hcn, mem_reverse]
  have hc : '\n' ≠ c := fun hc => hb (hc ▸ mem_cons_self)
  have hs : ['\n', '\n'].isPrefixOf ('\n' :: ((c :: back) ++ '\n' :: '\n' :: text.reverse)) = false := by
    simp [isPrefixOf, hc]
  have hp : ['\n', '\n'].reverse = ['\n', '\n'] := rfl
  rw [rfind, hr, hp, hcn, find, hs, hfn hb]
  simp [← hcn]

theorem lines_single {line : Str} (hln : '\n' ∉ line) (hr : '\r' ∉ line) : lines (line ++ ['\n']) = [line] := by
  have hs : (line ++ ['\n']).splitOn '\n' = [line, []] := by
    have hj : line ++ ['\n'] = ['\n'].intercalate [line, []] := by simp [intercalate]
    rw [hj, splitOn_intercalate '\n' _ (by simp)]
    intro piece hp
    rcases mem_pair.1 hp with rfl | rfl
    · exact hln
    · exact not_mem_nil
  have hl : line.getLast? ≠ some '\r' := fun hl => hr (mem_of_getLast? hl)
  simp [lines, hs, hl]

theorem parseCanonicalU64_decimal (n : UInt64) : parseCanonicalU64 (decimal n.toNat) = .ok n := by
  have hp : parseU64 (decimal n.toNat) = some n.toNat := fromStrRadix_decimal (Nat.le_pred_of_lt n.toNat_lt)
  rw [parseCanonicalU64, decimal_canonical, if_neg (by decide)]
  simp only [hp, UInt64.ofNat_toNat]

theorem decimal_size (n : UInt64) : (asBytes (decimal n.toNat)).length ≤ 20 := by
  rw [asBytes_length_of_ascii]
  · exact Nat.toDigits_length 10 n.toNat 20 (by decide) (n.toNat_lt.trans (by decide))
  intro c hc
  have hd := isAsciiDigit_of_mem_decimal hc
  simp only [isAsciiDigit, Bool.and_eq_true, decide_eq_true_eq] at hd
  have hle : c.toNat ≤ '9'.toNat := hd.2
  exact Nat.lt_of_le_of_lt hle (by decide)

theorem encodeSignature_size (h : encodeSignature signature = .ok bytes) : bytes.length ≤ 65547 := by
  obtain ⟨_, _, hh, ht, rfl⟩ := concat_cons_eq.1 h
  cases hh
  rw [concat_singleton] at ht
  have hs : ∀ {bytes : Bytes}, signature.2.encode = .ok bytes → bytes.length ≤ 65539 := by
    intro bytes h
    unfold DigitallySigned.encode at h
    split at h
    · cases h
    split at h
    · cases h
    obtain ⟨_, _, hhs, hr, rfl⟩ := concat_cons_eq.1 h
    obtain ⟨_, _, ha, hv, rfl⟩ := concat_cons_eq.1 hr
    cases hhs
    cases ha
    rw [concat_singleton] at hv
    obtain ⟨⟨-, hl⟩, rfl⟩ := pushVector_eq.1 hv
    simp only [field, length_append, length_singleton, beBytes_length]
    omega
  have ht := hs ht
  simp only [beU64, length_append, beBytes_length]
  omega

/-- A character that the parser lets pass. -/
def isPassed (c : Char) : Bool := !(c < ' ' && c != '\n')

theorem isPassed_of_le (h : 32 ≤ c.toNat) : isPassed c = true := by
  have hlt : ¬c < ' ' := fun hlt => absurd (show c.toNat < 32 from hlt) (by omega)
  simp [isPassed, hlt]

theorem isPassed_of_isNoteChar (h : isNoteChar c = true) : isPassed c = true := by
  apply isPassed_of_le
  simp only [isNoteChar, isControlChar, Bool.not_eq_true', Bool.or_eq_false_iff, decide_eq_false_iff_not] at h
  omega

theorem isPassed_of_mem_decimal {n : Nat} (h : c ∈ decimal n) : isPassed c = true := by
  have hd := isAsciiDigit_of_mem_decimal h
  simp only [isAsciiDigit, Bool.and_eq_true, decide_eq_true_eq] at hd
  have hle : '0'.toNat ≤ c.toNat := hd.1
  exact isPassed_of_le (Nat.le_trans (by decide) hle)

variable [Base64]

/-! ## The signature of the log -/

def Signs (origin : Str) (keyId : Bytes) (signature : UInt64 × DigitallySigned) (lines : List Str) : Prop :=
  ∃ bytes, encodeSignature signature = .ok bytes ∧ signatureLine origin (keyId ++ bytes) ∈ lines

/-- A signature that the loop returns was found before, or stands on a line of the log. -/
theorem scanSignatures_found {keyId : Bytes} {count : Nat} {matching : Option (UInt64 × DigitallySigned)}
    {lines : List Str} (h : scanSignatures origin keyId count matching lines = .ok (some signature)) :
    matching = some signature ∨ Signs origin keyId signature lines := by
  induction lines generalizing count matching with
  | nil => exact .inl (Except.ok.inj h)
  | cons line lines ih =>
    obtain ⟨-, h⟩ := ensure_bind_eq_ok.1 h
    obtain ⟨rest, hr, h⟩ := bind_eq_ok.1 h
    obtain ⟨⟨keyName, encoded⟩, hs, h⟩ := bind_eq_ok.1 h
    obtain ⟨-, h⟩ := ensure_bind_eq_ok.1 h
    obtain ⟨-, h⟩ := unit_bind_eq_ok.1 h
    obtain ⟨decoded, -, h⟩ := bind_eq_ok.1 h
    obtain ⟨hc, h⟩ := ensure_bind_eq_ok.1 h
    have hl : Signs origin keyId signature lines → Signs origin keyId signature (line :: lines) :=
      fun ⟨bytes, hb, hm⟩ => ⟨bytes, hb, mem_cons_of_mem line hm⟩
    split at h
    · exact (ih h).imp_right hl
    next hm =>
    obtain ⟨hn, h⟩ := ensure_bind_eq_ok.1 h
    obtain ⟨found, hf, h⟩ := bind_eq_ok.1 h
    obtain hsm | hln := ih h
    · -- the line is the one of the log
      cases hsm
      simp only [Bool.or_eq_true, bne_iff_ne, ne_eq, not_or, not_not] at hm
      refine .inr ⟨decoded.drop 4, decodeSignature_eq.1 hf, ?_⟩
      rw [← hm.2, take_append_drop, signatureLine, eq_of_beq hc, ← hm.1,
        ← splitOnce_eq_append (context_eq_ok.1 hs), ← stripPrefix_eq_some.1 (context_eq_ok.1 hr)]
      exact mem_cons_self
    · exact .inr (hl hln)

/-! ## Rendering and parsing back -/

theorem not_mem_encode (hl : c.toNat < 43) : c ∉ encode bytes := fun hm => by
  have hr := encode_range hm
  omega

theorem parseText_checkpointText (ho : validateOrigin origin = .ok ())
    (ht : checkpointText origin treeSize rootHash = text ++ ['\n']) :
    parseText text = .ok (origin, treeSize, rootHash) := by
  obtain ⟨-, -, hc⟩ := validateOrigin_spec ho
  have hj : text = ['\n'].intercalate [origin, decimal treeSize.toNat, encode rootHash.1] := by
    refine append_cancel_right (ht.symm.trans ?_)
    simp [checkpointText, intercalate]
  have hs : text.splitOn '\n' = [origin, decimal treeSize.toNat, encode rootHash.1] := by
    rw [hj, splitOn_intercalate '\n' _ (by simp)]
    simp only [mem_cons, not_mem_nil, or_false, forall_eq_or_imp, forall_eq]
    exact ⟨not_mem_of_isNoteChar hc (by decide), not_mem_decimal (by decide), not_mem_encode (by decide)⟩
  unfold parseText
  rw [hs]
  refine unit_bind_eq_ok.2 ⟨ho, bind_eq_ok.2 ⟨_, parseCanonicalU64_decimal treeSize, ?_⟩⟩
  refine bind_eq_ok.2 ⟨rootHash.1, context_eq_ok.2 (decode_encode _), ?_⟩
  refine bind_eq_ok.2 ⟨rootHash, tryIntoHash_eq.2 rfl, ensure_bind_eq_ok.2 ⟨?_, rfl⟩⟩
  rw [ht, beq_self_eq_true]

theorem scanSignatures_single {keyId : Bytes} (ho : validateOrigin origin = .ok ()) (hk : keyId.length = 4)
    (hb : encodeSignature signature = .ok bytes) :
    scanSignatures origin keyId 0 none [signatureLine origin (keyId ++ bytes)] = .ok (some signature) := by
  obtain ⟨-, -, hc⟩ := validateOrigin_spec ho
  have hs := @splitOnce_append _ (encode (keyId ++ bytes)) ' ' (not_mem_of_isNoteChar hc (by decide))
  have hn : (encode (keyId ++ bytes)).isEmpty = false := by
    rw [isEmpty_eq_false_iff, ← length_pos_iff, encode_length, length_append, hk]
    omega
  have ht : (keyId ++ bytes).take 4 = keyId := by rw [← hk, take_left]
  have hd : (keyId ++ bytes).drop 4 = bytes := by rw [← hk, drop_left]
  refine ensure_bind_eq_ok.2 ⟨rfl, bind_eq_ok.2 ⟨_, context_eq_ok.2 (stripPrefix_eq_some.2 rfl), ?_⟩⟩
  refine bind_eq_ok.2 ⟨_, context_eq_ok.2 hs, ensure_bind_eq_ok.2 ⟨by rw [hn]; rfl, ?_⟩⟩
  refine unit_bind_eq_ok.2 ⟨validateKeyName_of_validateOrigin ho, ?_⟩
  refine bind_eq_ok.2 ⟨_, context_eq_ok.2 (decode_encode _), ensure_bind_eq_ok.2 ⟨beq_self_eq_true _, ?_⟩⟩
  rw [ht, hd, if_neg (by simp)]
  exact ensure_bind_eq_ok.2 ⟨rfl, bind_eq_ok.2 ⟨signature, decodeSignature_eq.2 hb, rfl⟩⟩

/-! ### The size of a rendered checkpoint -/

theorem encode_ascii (bytes : Bytes) : (asBytes (encode bytes)).length = (bytes.length + 2) / 3 * 4 := by
  rw [asBytes_length_of_ascii, encode_length]
  intro c hc
  have hr := encode_range hc
  omega

theorem checkpoint_size (ho : (asBytes origin).length ≤ 2048) (treeSize : UInt64) (rootHash : HashBytes)
    {signature : Bytes} (hsg : signature.length ≤ 65551) :
    (asBytes (checkpointText origin treeSize rootHash ++ '\n' :: (signatureLine origin signature ++ ['\n']))).length ≤
      128 * 1024 := by
  have ha : ∀ s t : Str, (asBytes (s ++ t)).length = (asBytes s).length + (asBytes t).length := fun s t => by
    rw [asBytes_append, length_append]
  have hf : ∀ s : Str, (asBytes ('\n' :: s)).length = 1 + (asBytes s).length := ha ['\n']
  have hb : ∀ s : Str, (asBytes (' ' :: s)).length = 1 + (asBytes s).length := ha [' ']
  have hs : (asBytes signatureLineStart).length = 4 := by decide
  have hn : (asBytes []).length = 0 := rfl
  have hd := decimal_size treeSize
  have hr := encode_ascii rootHash.1
  rw [show rootHash.1.length = 32 from rootHash.2] at hr
  have hl := encode_ascii signature
  simp only [checkpointText, signatureLine, ha, hf, hb, hn, hs, hr, hl]
  omega

/-- A character that is in no origin and no base64 text, nor at the start of the line. -/
theorem not_mem_signatureLine (ho : ∀ c ∈ origin, isNoteChar c = true) (signature : Bytes) (hn : isNoteChar c = false)
    (hl : c.toNat < 43) (hb : c ≠ ' ') (hd : c ≠ '—') :
    c ∉ signatureLine origin signature := by
  simp only [signatureLine, signatureLineStart, mem_append, mem_cons, not_mem_nil, or_false, not_or]
  exact ⟨⟨hd, hb⟩, not_mem_of_isNoteChar ho hn, hb, not_mem_encode hl⟩

theorem isPassed_of_mem_encode (h : c ∈ encode bytes) : isPassed c = true := by
  apply isPassed_of_le
  have hr := encode_range h
  omega

theorem note_isPassed (ho : ∀ c ∈ origin, isNoteChar c = true) (treeSize : UInt64) (rootHash : HashBytes)
    (signature : Bytes) :
    ∀ c ∈ checkpointText origin treeSize rootHash ++ '\n' :: (signatureLine origin signature ++ ['\n']),
      isPassed c = true := by
  have hf : isPassed '\n' = true := by decide
  have hn : ∀ c ∈ origin, isPassed c = true := fun c hc => isPassed_of_isNoteChar (ho c hc)
  simp only [checkpointText, signatureLine, signatureLineStart, forall_mem_append, forall_mem_cons,
    not_mem_nil, false_imp_iff, implies_true, and_true]
  exact ⟨⟨hn, hf, fun c => isPassed_of_mem_decimal, hf, fun c => isPassed_of_mem_encode, hf⟩, hf,
    ⟨⟨by decide, by decide⟩, hn, by decide, fun c => isPassed_of_mem_encode⟩, hf⟩

theorem parse_note (signature : UInt64 × DigitallySigned) (ho : validateOrigin origin = .ok ())
    (hb : encodeSignature signature = .ok bytes) :
    parse sha256 (checkpointText origin treeSize rootHash ++
        '\n' :: (signatureLine origin (checkpointKeyId sha256 origin logId ++ bytes) ++ ['\n'])) logId =
      .ok ⟨origin, treeSize, rootHash, signature.1, signature.2⟩ := by
  obtain ⟨-, hl, hch⟩ := validateOrigin_spec ho
  have hk := checkpointKeyId_length sha256 origin logId
  have hsc := scanSignatures_single ho hk hb
  have hsz : (checkpointKeyId sha256 origin logId ++ bytes).length ≤ 65551 := by
    have hsg := encodeSignature_size hb
    rw [length_append, hk]
    omega
  have hs := checkpoint_size hl treeSize rootHash hsz
  have hp := note_isPassed hch treeSize rootHash (checkpointKeyId sha256 origin logId ++ bytes)
  have hf := not_mem_signatureLine hch (checkpointKeyId sha256 origin logId ++ bytes) (c := '\n')
    (by decide) (by decide) (by decide) (by decide)
  have hr := not_mem_signatureLine hch (checkpointKeyId sha256 origin logId ++ bytes) (c := '\r')
    (by decide) (by decide) (by decide) (by decide)
  have hne : signatureLine origin (checkpointKeyId sha256 origin logId ++ bytes) ≠ [] := nofun
  obtain ⟨text, ht⟩ : ∃ text, checkpointText origin treeSize rootHash = text ++ ['\n'] :=
    ⟨origin ++ '\n' :: (decimal treeSize.toNat ++ '\n' :: encode rootHash.1), by simp [checkpointText]⟩
  refine ensure_bind_eq_ok.2 ⟨?_, ensure_bind_eq_ok.2 ⟨?_, ?_⟩⟩
  · rw [Bool.and_eq_true, decide_eq_true_eq, ← cons_append, ← append_assoc, getLast?_concat, append_assoc, cons_append]
    exact ⟨hs, rfl⟩
  · rw [Bool.not_eq_true', any_eq_false]
    intro c hc
    have hc : (!(c < ' ' && c != '\n')) = true := hp c hc
    rw [Bool.not_eq_true'] at hc
    rw [hc]
    decide
  rw [ht, append_assoc text]
  refine bind_eq_ok.2 ⟨_, context_eq_ok.2 (rfind_blank_line hne hf), ?_⟩
  refine bind_eq_ok.2 ⟨_, parseText_checkpointText ho ht, bind_eq_ok.2 ⟨some signature, ?_, rfl⟩⟩
  rw [lines_single hf hr]
  exact hsc

theorem parse_of_render (h : render sha256 checkpoint logId = .ok text) : parse sha256 text logId = .ok checkpoint := by
  obtain ⟨ho, h⟩ := unit_bind_eq_ok.1 h
  obtain ⟨signature, hs, h⟩ := bind_eq_ok.1 h
  obtain ⟨bytes, hb, rfl⟩ := (noteSignature_eq sha256).1 hs
  rw [← Except.ok.inj h]
  exact parse_note sha256 (checkpoint.timestamp, checkpoint.treeHeadSignature) ho hb

theorem parseText_spec (h : parseText text = .ok (origin, treeSize, rootHash)) :
    validateOrigin origin = .ok () ∧ checkpointText origin treeSize rootHash = text ++ ['\n'] := by
  unfold parseText at h
  split at h
  · obtain ⟨ho, h⟩ := unit_bind_eq_ok.1 h
    obtain ⟨_, -, h⟩ := bind_eq_ok.1 h
    obtain ⟨_, -, h⟩ := bind_eq_ok.1 h
    obtain ⟨_, -, h⟩ := bind_eq_ok.1 h
    obtain ⟨hc, h⟩ := ensure_bind_eq_ok.1 h
    cases h
    exact ⟨ho, eq_of_beq hc⟩
  · cases h

/-- The canonical text of what is parsed is the signed body, and the signature of the log is on a line of its own. -/
theorem render_of_parse {input : Str} (h : parse sha256 input logId = .ok checkpoint) :
    ∃ text block line, rfind ['\n', '\n'] input = some (text, block) ∧
      checkpointText checkpoint.origin checkpoint.treeSize checkpoint.rootHash = text ++ ['\n'] ∧
      line ∈ lines block ∧
      render sha256 checkpoint logId = .ok (text ++ '\n' :: '\n' :: (line ++ ['\n'])) := by
  obtain ⟨-, h⟩ := ensure_bind_eq_ok.1 h
  obtain ⟨-, h⟩ := ensure_bind_eq_ok.1 h
  obtain ⟨⟨text, block⟩, hf, h⟩ := bind_eq_ok.1 h
  obtain ⟨⟨origin, treeSize, rootHash⟩, ht, h⟩ := bind_eq_ok.1 h
  obtain ⟨matching, hs, h⟩ := bind_eq_ok.1 h
  obtain ⟨⟨timestamp, signed⟩, hm, h⟩ := bind_eq_ok.1 h
  cases h
  rw [context_eq_ok] at hm
  rw [hm] at hs
  obtain ⟨ho, hc⟩ := parseText_spec ht
  obtain hn | ⟨bytes, hb, hl⟩ := scanSignatures_found hs
  · cases hn
  refine ⟨text, block, _, context_eq_ok.1 hf, hc, hl, ?_⟩
  refine unit_bind_eq_ok.2 ⟨ho, bind_eq_ok.2 ⟨_, (noteSignature_eq sha256).2 ⟨bytes, hb, rfl⟩, ?_⟩⟩
  simp only [hc, append_assoc, singleton_append]
  rfl

end StaticCheckpoint

/-- **Checkpoints are parsed back, and signatures are for what is returned.**  A checkpoint with a valid origin and a
valid signature is rendered, and its text is parsed to the same values; the signed body of every text that is parsed,
whatever other signature lines it has, is the canonical text of the values that are returned, and their rendering is
that body with one of the lines. -/
theorem checkpoint_parse_render [Base64] (logId : HashBytes) :
    (∀ (checkpoint : StaticCheckpoint) (signature : Bytes), validateOrigin checkpoint.origin = .ok () →
      checkpoint.treeHeadSignature.encode = .ok signature →
      ∃ text, checkpoint.render sha256 logId = .ok text ∧ StaticCheckpoint.parse sha256 text logId = .ok checkpoint) ∧
    ∀ (input : Str) (checkpoint : StaticCheckpoint), StaticCheckpoint.parse sha256 input logId = .ok checkpoint →
      ∃ block line, input = checkpointText checkpoint.origin checkpoint.treeSize checkpoint.rootHash ++ '\n' :: block ∧
        signedBody input = some (checkpointText checkpoint.origin checkpoint.treeSize checkpoint.rootHash) ∧
        line ∈ lines block ∧
        checkpoint.render sha256 logId = .ok
          (checkpointText checkpoint.origin checkpoint.treeSize checkpoint.rootHash ++ '\n' :: (line ++ ['\n'])) := by
  constructor
  · intro checkpoint signature ho hs
    have hn : checkpoint.noteSignature sha256 logId = .ok _ := (StaticCheckpoint.noteSignature_eq sha256).2
      ⟨_, concat_cons_eq.2 ⟨_, _, rfl, (concat_singleton _).trans hs, rfl⟩, rfl⟩
    have hr : checkpoint.render sha256 logId = .ok _ := unit_bind_eq_ok.2 ⟨ho, bind_eq_ok.2 ⟨_, hn, rfl⟩⟩
    exact ⟨_, hr, StaticCheckpoint.parse_of_render sha256 hr⟩
  · intro input checkpoint h
    obtain ⟨text, block, line, hf, hc, hl, hr⟩ := StaticCheckpoint.render_of_parse sha256 h
    refine ⟨block, line, ?_, ?_, hl, ?_⟩
    · rw [hc, rfind_eq_append hf]
      simp
    · rw [signedBody, hf, hc]
      rfl
    · rw [hr, hc]
      simp

/-- A note with the signature of another key in front of the one of the log. -/
theorem checkpoint_parse_render_foreign :
    let sha256 : Bytes → HashBytes := fun input =>
      if input = asBytes "log.example\n\x05" ++ List.replicate 32 0 then
        ⟨beBytes 32 0xfa9ad448410fb44e558a2286abcc5d7da31dd278f83354b3a4fd334bbdd8c932, beBytes_length ..⟩
      else zeros 32
    let input := checkpointText "log.example" 1 (zeros 32) ++ '\n' ::
      (StaticCheckpoint.signatureLine "other.example" [1, 2, 3, 4] ++ '\n' ::
        (StaticCheckpoint.signatureLine "log.example"
          ([0xfa, 0x9a, 0xd4, 0x48] ++ beU64 7 ++ [4, 3, 0, 1, 9]) ++ ['\n']))
    ∃ checkpoint, StaticCheckpoint.parse sha256 input (zeros 32) = .ok checkpoint ∧ checkpoint.timestamp = 7 ∧
      signedBody input = some (checkpointText checkpoint.origin checkpoint.treeSize checkpoint.rootHash) := by
  intro sha256 input
  have hp : StaticCheckpoint.parse sha256 input (zeros 32) =
      .ok ⟨"log.example", 1, zeros 32, 7, ⟨4, 3, [9]⟩⟩ := by
    decide +kernel
  obtain ⟨_, _, -, hb, -⟩ := (checkpoint_parse_render sha256 (zeros 32)).2 input _ hp
  exact ⟨_, hp, rfl, hb⟩

end Ct
