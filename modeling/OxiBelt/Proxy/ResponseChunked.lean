import Mathlib.Data.List.TakeWhile
import OxiBelt.Proxy.ResponseSplit

/-!
# Chunked responses are read back exactly

A chunked message is written from its parts: chunks with their size lines, the last size line and the
trailer fields.  The structures carry what makes the parts valid (hexadecimal digits that give the
length of the data, extensions of tokens and quoted strings, trailer names that are allowed) and that
they stay within the limits.

`ideal_encode` reads such a message in the ideal reading; by the refinement every run of the engine, in
buffers of any kind, reports the data, the trailers, one completion and what follows the message.
-/

namespace DirectH1

open RustStd ByteString Http Search List

/-! ## Parts of a message -/

inductive QuotedRest : Bytes → Prop where
  | close : QuotedRest [34]
  | text (byte : UInt8) (rest : Bytes) : isControl byte = false → byte ≠ 34 → byte ≠ 92 →
      QuotedRest rest → QuotedRest (byte :: rest)
  | pair (byte : UInt8) (rest : Bytes) : isControl byte = false → QuotedRest rest →
      QuotedRest (92 :: byte :: rest)

def IsToken (bytes : Bytes) : Prop := bytes ≠ [] ∧ bytes.all isTokenByte = true

/-- The value of a chunk extension: a token or a quoted string. -/
inductive ExtensionValue : Bytes → Prop where
  | token (bytes : Bytes) : IsToken bytes → ExtensionValue bytes
  | quoted (rest : Bytes) : QuotedRest rest → ExtensionValue (34 :: rest)

structure ChunkExtension where
  name : Bytes
  value : Option Bytes
  name_token : IsToken name
  value_valid : ∀ bytes ∈ value, ExtensionValue bytes

def ChunkExtension.bytes (extension : ChunkExtension) : Bytes :=
  extension.name ++ (extension.value.map fun value => 61 :: value).getD []

/-- Extensions as they stand in a line, each behind a semicolon. -/
def extensionBytes (extensions : List ChunkExtension) : Bytes :=
  extensions.flatMap fun extension => 59 :: extension.bytes

def hexValue (digits : Bytes) : Nat :=
  digits.foldl (fun value byte => value * 16 + (hexDigit byte).getD 0) 0

/-- A size line for `size` bytes, without its line end. -/
structure SizeLine (limits : Limits) (size : Nat) where
  digits : Bytes
  extensions : List ChunkExtension
  digits_ne : digits ≠ []
  digits_hex : ∀ byte ∈ digits, (hexDigit byte).isSome = true
  digits_value : hexValue digits = size
  size_fits : size < 2 ^ 64
  line_fits : (digits ++ extensionBytes extensions).length ≤ limits.maxChunkSizeLineBytes
  extensions_fit : (extensionBytes extensions).length ≤ limits.maxChunkExtensionBytes + 1

def SizeLine.bytes {limits : Limits} {size : Nat} (line : SizeLine limits size) : Bytes :=
  line.digits ++ extensionBytes line.extensions

structure Chunk (limits : Limits) where
  data : Bytes
  data_ne : data ≠ []
  line : SizeLine limits data.length

def Chunk.bytes {limits : Limits} (chunk : Chunk limits) : Bytes :=
  chunk.line.bytes ++ crlf ++ chunk.data ++ crlf

def fieldName (name : Bytes) : Str := (name.map toAsciiLowercase).map charOfByte

structure TrailerField (limits : Limits) where
  name : Bytes
  before : Bytes
  value : HeaderValue
  after : Bytes
  name_token : IsToken name
  name_fits : name.length ≤ maxHeaderNameBytes
  name_allowed : forbiddenTrailerNames.contains (fieldName name) = false
  before_blank : before.all isOws = true
  value_trimmed : trimOws value.bytes = value.bytes
  after_blank : after.all isOws = true
  field_fits : (name ++ 58 :: (before ++ value.bytes ++ after)).length ≤ limits.maxTrailerFieldBytes

def TrailerField.bytes {limits : Limits} (field : TrailerField limits) : Bytes :=
  field.name ++ 58 :: (field.before ++ field.value.bytes ++ field.after)

def trailerBlock {limits : Limits} (fields : List (TrailerField limits)) : Bytes :=
  (fields.flatMap fun field => field.bytes ++ crlf) ++ crlf

structure ChunkedMessage (limits : Limits) where
  chunks : List (Chunk limits)
  last : SizeLine limits 0
  trailers : List (TrailerField limits)
  trailers_fit : trailers.length ≤ limits.maxTrailerFields
  block_fits : (trailerBlock trailers).length ≤ limits.maxTrailerBlockBytes

def ChunkedMessage.encode {limits : Limits} (message : ChunkedMessage limits) : Bytes :=
  message.chunks.flatMap Chunk.bytes ++ (message.last.bytes ++ crlf ++ trailerBlock message.trailers)

def ChunkedMessage.data {limits : Limits} (message : ChunkedMessage limits) : Bytes :=
  message.chunks.flatMap Chunk.data

/-! ## Bytes of the parts -/

variable {bytes rest value : Bytes} {limits : Limits} {size : Nat}

section Classes

/-- A token byte is none of the bytes that cut a line, and goes into a header name. -/
theorem isTokenByte_spec {byte : UInt8} (h : isTokenByte byte = true) :
    byte ≠ 13 ∧ byte ≠ 58 ∧ byte ≠ 59 ∧ byte ≠ 61 ∧ byte ≠ 34 ∧
      isNameChar (charOfByte (toAsciiLowercase byte)) = true := by
  have ha := @forall_byte (fun byte => !isTokenByte byte || (byte != 13 && byte != 58 && byte != 59 &&
    byte != 61 && byte != 34 && isNameChar (charOfByte (toAsciiLowercase byte)))) (by decide +kernel) byte
  simpa [h, and_assoc] using ha

theorem hexDigit_spec {byte : UInt8} (h : (hexDigit byte).isSome = true) : byte ≠ 13 ∧ byte ≠ 59 := by
  have ha := @forall_byte (fun byte => !(hexDigit byte).isSome || (byte != 13 && byte != 59)) (by decide +kernel) byte
  simpa [h] using ha

theorem not_mem_of_token (h : bytes.all isTokenByte = true) : 13 ∉ bytes := by
  intro hm
  exact (isTokenByte_spec (all_eq_true.1 h 13 hm)).1 rfl

theorem not_mem_of_quoted (h : QuotedRest rest) : 13 ∉ rest := by
  have hcr : ∀ {byte : UInt8}, isControl byte = false → 13 ≠ byte := by
    rintro _ hc rfl
    exact absurd hc (by decide)
  induction h with
  | close => decide
  | text byte rest hc _ _ _ ih => simp [hcr hc, ih]
  | pair byte rest hc _ ih => simp [hcr hc, ih]

theorem not_mem_of_extensionValue (h : ExtensionValue value) : 13 ∉ value := by
  rcases h with ⟨_, ht⟩ | ⟨rest, hq⟩
  · exact not_mem_of_token ht.2
  · simp [not_mem_of_quoted hq]

theorem ChunkExtension.not_mem (extension : ChunkExtension) : 13 ∉ extension.bytes := by
  have hn := not_mem_of_token extension.name_token.2
  unfold ChunkExtension.bytes
  rcases hv : extension.value with _ | value
  · simp [hn]
  · simp [hn, not_mem_of_extensionValue (extension.value_valid value hv)]

theorem SizeLine.not_mem (line : SizeLine limits size) : 13 ∉ line.bytes := by
  have hd : 13 ∉ line.digits := fun hm => (hexDigit_spec (line.digits_hex 13 hm)).1 rfl
  simp [SizeLine.bytes, extensionBytes, hd, ChunkExtension.not_mem]

theorem TrailerField.not_mem (field : TrailerField limits) : 13 ∉ field.bytes := by
  have ho : ∀ {bytes : Bytes}, bytes.all isOws = true → 13 ∉ bytes := fun h hm =>
    absurd (all_eq_true.1 h 13 hm) (by decide)
  have hv : 13 ∉ field.value.bytes := fun hm => absurd (all_eq_true.1 field.value.valid 13 hm) (by decide)
  simp [TrailerField.bytes, not_mem_of_token field.name_token.2, ho field.before_blank, hv, ho field.after_blank]

theorem TrailerField.name_cons (field : TrailerField limits) :
    ∃ first rest, field.bytes = first :: rest ∧ first ≠ 13 := by
  obtain ⟨hne, ht⟩ := field.name_token
  obtain ⟨first, rest, hn⟩ := exists_cons_of_ne_nil hne
  refine ⟨first, rest ++ 58 :: (field.before ++ field.value.bytes ++ field.after), ?_, ?_⟩
  · unfold TrailerField.bytes
    rw [hn, cons_append]
  · exact (isTokenByte_spec (all_eq_true.1 ht first (by simp [hn]))).1

end Classes

/-! ## Lines -/

section Lines

/-- What starts with a carriage return does not start inside of a line without one. -/
theorem not_at_of_not_mem (h : 13 ∉ bytes) {mark : Bytes} {j : Nat} (hj : j < bytes.length) :
    ¬ At (13 :: mark) (bytes ++ rest) j := by
  intro hat
  rw [At, drop_append_of_le_length hj.le, drop_eq_getElem_cons hj] at hat
  have hcr : 13 = bytes[j] := (cons_prefix_cons.1 hat).1
  exact h (hcr ▸ getElem_mem hj)

theorem find_line (h : 13 ∉ bytes) (mark rest : Bytes) :
    find (13 :: mark) (bytes ++ (13 :: mark ++ rest)) = some bytes.length :=
  find_self_append (fun _ hj => not_at_of_not_mem h hj) rest

theorem splitCrlfFrom_cons {byte : UInt8} (h : 13 ≠ byte) (read rest : Bytes) :
    splitCrlfFrom read (byte :: rest) = splitCrlfFrom (read ++ [byte]) rest := by
  rw [splitCrlfFrom]
  intro rest' hb
  exact absurd hb.symm h

theorem splitCrlfFrom_line {line : Bytes} (h : 13 ∉ line) (read rest : Bytes) :
    splitCrlfFrom read (line ++ (crlf ++ rest)) = (read ++ line) :: splitCrlfFrom [] rest := by
  induction line generalizing read with
  | nil => simp [crlf, splitCrlfFrom]
  | cons byte line ih =>
    rw [mem_cons, not_or] at h
    rw [cons_append, splitCrlfFrom_cons h.1, ih h.2]
    simp

theorem splitCrlfFrom_last {line : Bytes} (h : 13 ∉ line) (read : Bytes) (hne : read ++ line ≠ []) :
    splitCrlfFrom read line = [read ++ line] := by
  induction line generalizing read with
  | nil =>
    rw [append_nil] at hne ⊢
    rw [splitCrlfFrom, if_neg hne]
  | cons byte line ih =>
    rw [mem_cons, not_or] at h
    rw [splitCrlfFrom_cons h.1, ih h.2 _ (by simp)]
    simp

theorem splitCrlf_intercalate {lines : List Bytes} (h : ∀ line ∈ lines, 13 ∉ line ∧ line ≠ []) :
    splitCrlf (crlf.intercalate lines) = lines := by
  unfold splitCrlf
  induction lines with
  | nil => rfl
  | cons line lines ih =>
    obtain ⟨⟨hl, hne⟩, hln⟩ := forall_mem_cons.1 h
    rcases lines with _ | ⟨next, lines⟩
    · rw [intercalate_singleton, splitCrlfFrom_last hl [] (by simpa using hne)]
      simp
    · rw [intercalate_cons_cons, append_assoc, splitCrlfFrom_line hl, ih hln]
      simp

end Lines

/-! ## The size line is read -/

section SizeLines

theorem quotedLength_rest (h : QuotedRest rest) (after : Bytes) :
    quotedLength false (rest ++ after) = some rest.length := by
  induction h with
  | close => rfl
  | text byte rest hc h34 h92 _ ih =>
    rw [cons_append, quotedLength, if_neg h92, if_neg h34, hc, ih]
    rfl
  | pair byte rest hc _ ih =>
    rw [cons_append, cons_append, quotedLength, if_pos rfl, quotedLength, hc, ih]
    rfl

theorem takeWhile_token (h : bytes.all isTokenByte = true) (hr : ∀ byte ∈ rest.head?, isTokenByte byte = false) :
    (bytes ++ rest).takeWhile isTokenByte = bytes := by
  rw [takeWhile_append_of_pos (all_eq_true.1 h)]
  rcases rest with _ | ⟨byte, rest⟩
  · simp
  · have hb := hr byte rfl
    simp [hb]

theorem parseTokenOrQuoted_value (h : ExtensionValue value) (hr : ∀ byte ∈ rest.head?, isTokenByte byte = false) :
    parseTokenOrQuoted (value ++ rest) = some value.length := by
  rcases h with ⟨_, hne, ht⟩ | ⟨quoted, hq⟩
  · obtain ⟨first, bytes, rfl⟩ := exists_cons_of_ne_nil hne
    have hf : first ≠ 34 := (isTokenByte_spec (all_eq_true.1 ht first (by simp))).2.2.2.2.1
    have hp : parseTokenOrQuoted (first :: bytes ++ rest) =
        let length := ((first :: bytes ++ rest).takeWhile isTokenByte).length
        if 0 < length then some length else none := by
      rw [cons_append, parseTokenOrQuoted]
      intro rest' hc
      exact hf (List.cons.inj hc).1
    rw [hp, takeWhile_token ht hr]
    exact if_pos (by simp)
  · rw [cons_append, parseTokenOrQuoted, quotedLength_rest hq]
    rfl

theorem extensionBytes_head (extensions : List ChunkExtension) :
    ∀ byte ∈ (extensionBytes extensions).head?, isTokenByte byte = false := by
  intro byte hb
  rcases extensions with _ | ⟨extension, extensions⟩
  · simp [extensionBytes] at hb
  have h59 : byte = 59 := by simpa [extensionBytes, eq_comm] using hb
  rw [h59]
  decide

theorem skipExtensionValue_of_value {value : Option Bytes} (hv : ∀ bytes ∈ value, ExtensionValue bytes)
    (extensions : List ChunkExtension) :
    skipExtensionValue ((value.map fun value => 61 :: value).getD [] ++ extensionBytes extensions) =
      some (extensionBytes extensions) := by
  rcases value with _ | bytes
  · rcases extensions with _ | ⟨extension, extensions⟩
    · rfl
    · rfl
  have hp := parseTokenOrQuoted_value (hv bytes rfl) (extensionBytes_head extensions)
  rw [Option.map_some, Option.getD_some, cons_append, skipExtensionValue, hp, Option.map_some, drop_left]

theorem takeWhile_extensionName (extension : ChunkExtension) (extensions : List ChunkExtension) :
    (extension.bytes ++ extensionBytes extensions).takeWhile (fun byte => byte != 61 && byte != 59) =
      extension.name := by
  have hn : ∀ byte ∈ extension.name, (byte != 61 && byte != 59) = true := by
    intro byte hb
    obtain ⟨-, -, h59, h61, -⟩ := isTokenByte_spec (all_eq_true.1 extension.name_token.2 byte hb)
    simp [h59, h61]
  unfold ChunkExtension.bytes
  rw [append_assoc, takeWhile_append_of_pos hn]
  rcases extension.value with _ | value
  · rcases extensions with _ | ⟨next, extensions⟩
    · simp [extensionBytes]
    · simp [extensionBytes]
  · simp

theorem validateChunkExtensions_ok (extension : ChunkExtension) (extensions : List ChunkExtension) :
    validateChunkExtensions (extension.bytes ++ extensionBytes extensions) = .ok () := by
  have hd : ∀ extension : ChunkExtension, ∀ extensions : List ChunkExtension,
      (extension.bytes ++ extensionBytes extensions).drop extension.name.length =
        (extension.value.map fun value => 61 :: value).getD [] ++ extensionBytes extensions := by
    intro extension extensions
    unfold ChunkExtension.bytes
    rw [append_assoc, drop_left]
  have hnm : ∀ extension : ChunkExtension, ¬ (extension.name = [] ∨ ¬ extension.name.all isTokenByte = true) := by
    intro extension h
    rcases h with hn | hnt
    · exact extension.name_token.1 hn
    · exact hnt extension.name_token.2
  induction extensions generalizing extension with
  | nil =>
    have hs := skipExtensionValue_of_value extension.value_valid []
    rw [validateChunkExtensions, takeWhile_extensionName, if_neg (hnm extension)]
    rw [← hd] at hs
    split <;> simp_all [extensionBytes]
  | cons next extensions ih =>
    have hs := skipExtensionValue_of_value extension.value_valid (next :: extensions)
    have hb : extensionBytes (next :: extensions) = 59 :: (next.bytes ++ extensionBytes extensions) := by
      simp [extensionBytes]
    rw [validateChunkExtensions, takeWhile_extensionName, if_neg (hnm extension)]
    rw [← hd, hb] at hs
    rw [hb]
    split
    · next hnn => simp [hnn] at hs
    · next hn => simp [hn] at hs
    · next rest hr =>
      rw [hr] at hs
      cases hs
      exact ih next
    · next other hne hne' ho =>
      rw [ho] at hs
      cases hs
      exact absurd rfl (hne' _)

theorem foldlM_pushDigit {digits : Bytes} (hh : ∀ byte ∈ digits, (hexDigit byte).isSome = true) (value : Nat)
    (hf : digits.foldl (fun value byte => value * 16 + (hexDigit byte).getD 0) value < 2 ^ 64) :
    digits.foldlM (fun parsed byte => (hexDigit byte).bind (pushDigit 16 parsed)) value =
      some (digits.foldl (fun value byte => value * 16 + (hexDigit byte).getD 0) value) := by
  induction digits generalizing value with
  | nil => rfl
  | cons byte digits ih =>
    obtain ⟨hb, hdg⟩ := forall_mem_cons.1 hh
    obtain ⟨digit, hd⟩ := Option.isSome_iff_exists.1 hb
    rw [foldl_cons] at hf ⊢
    have hg : ∀ (digits : Bytes) (value : Nat),
        value ≤ digits.foldl (fun value byte => value * 16 + (hexDigit byte).getD 0) value := by
      intro digits
      induction digits with
      | nil => exact fun value => le_rfl
      | cons byte digits ih =>
        intro value
        refine le_trans ?_ (ih _)
        show value ≤ value * 16 + (hexDigit byte).getD 0
        omega
    have hn : pushDigit 16 value digit = some (value * 16 + digit) := by
      have := hg digits (value * 16 + (hexDigit byte).getD 0)
      rw [hd, Option.getD_some] at this hf
      exact if_pos (by omega)
    rw [foldlM_cons, hd, Option.bind_some, hn, Option.getD_some]
    rw [hd, Option.getD_some] at hf
    exact ih hdg _ hf

theorem parseChunkSizeLine_ok (line : SizeLine limits size) :
    parseChunkSizeLine line.bytes limits.maxChunkExtensionBytes = .ok size := by
  have hd : ∀ byte ∈ line.digits, (byte != 59) = true := by
    intro byte hby
    simpa using (hexDigit_spec (line.digits_hex byte hby)).2
  have hc : line.bytes.takeWhile (· != 59) = line.digits ∧
      line.bytes.dropWhile (· != 59) = extensionBytes line.extensions := by
    unfold SizeLine.bytes
    rw [takeWhile_append_of_pos hd, dropWhile_append_of_pos hd]
    rcases line.extensions with _ | ⟨extension, extensions⟩
    · simp [extensionBytes]
    · simp [extensionBytes]
  have ha : (line.digits.all fun byte => (hexDigit byte).isSome) = true := all_eq_true.2 line.digits_hex
  have hv := line.digits_value
  unfold hexValue at hv
  have hf := foldlM_pushDigit line.digits_hex 0 (by rw [hv]; exact line.size_fits)
  rw [hv] at hf
  have hg : ¬ (line.digits = [] ∨ ¬ (line.digits.all fun byte => (hexDigit byte).isSome) = true) := by
    rintro (hn | hnt)
    · exact line.digits_ne hn
    · exact hnt ha
  unfold parseChunkSizeLine
  rw [hc.1, hc.2]
  dsimp only
  rw [if_neg hg, hf]
  dsimp only
  have hft := line.extensions_fit
  rcases he : line.extensions with _ | ⟨extension, extensions⟩
  · rfl
  have hb : extensionBytes (extension :: extensions) = 59 :: (extension.bytes ++ extensionBytes extensions) := by
    simp [extensionBytes]
  rw [he, hb, length_cons] at hft
  rw [hb]
  dsimp only
  rw [if_neg (by omega), validateChunkExtensions_ok]
  rfl

end SizeLines

/-! ## The trailer block is read -/

section Trailers

variable {limits : Limits} (field : TrailerField limits) (fields : List (TrailerField limits))

/-- The mark that ends a block is not found before a line that is not empty. -/
theorem find_headEndMark_skip (h : 13 ∉ bytes) (hr : ∀ byte ∈ rest.head?, byte ≠ 13) {index : Nat}
    (hf : find headEndMark rest = some index) :
    find headEndMark (bytes ++ (crlf ++ rest)) = some (bytes.length + 2 + index) := by
  have hd : (bytes ++ (crlf ++ rest)).drop (bytes.length + 2) = rest := by
    rw [← append_assoc]
    exact drop_left' (by simp [crlf])
  rw [@find_of_not_at _ _ _ _ (bytes.length + 2), hd, hf, Option.map_some]
  intro j hj hat
  obtain hlt | rfl | rfl : j < bytes.length ∨ j = bytes.length ∨ j = bytes.length + 1 := by omega
  · exact not_at_of_not_mem h hlt hat
  · -- behind the line end the next line starts
    rw [At, drop_left] at hat
    have hm : crlf ++ crlf <+: crlf ++ rest := hat
    rw [prefix_append_right_inj] at hm
    rcases rest with _ | ⟨byte, rest⟩
    · simp [crlf] at hm
    · exact hr byte rfl (cons_prefix_cons.1 hm).1.symm
  · rw [At, ← drop_drop, drop_left] at hat
    exact absurd (cons_prefix_cons.1 hat).1 (by decide)

theorem trailerBlock_cons : trailerBlock (field :: fields) = field.bytes ++ (crlf ++ trailerBlock fields) := by
  simp [trailerBlock, append_assoc]

theorem four_le_trailerBlock : 4 ≤ (trailerBlock (field :: fields)).length := by
  rw [trailerBlock_cons]
  simp only [trailerBlock, crlf, length_append, length_cons, length_nil]
  omega

theorem find_trailerBlock (rest : Bytes) : find headEndMark (trailerBlock (field :: fields) ++ rest) =
      some ((trailerBlock (field :: fields)).length - 4) := by
  induction fields generalizing field with
  | nil =>
    have hbl : trailerBlock [field] ++ rest = field.bytes ++ (headEndMark ++ rest) := by
      simp [trailerBlock, headEndMark, append_assoc]
    have hl : (trailerBlock [field]).length - 4 = field.bytes.length := by
      simp [trailerBlock, crlf]
    rw [hbl, hl]
    exact find_line field.not_mem _ rest
  | cons next fields ih =>
    obtain ⟨first, others, hn, hf⟩ := next.name_cons
    have hh : ∀ byte ∈ (trailerBlock (next :: fields) ++ rest).head?, byte ≠ 13 := by
      intro byte hb
      rw [trailerBlock_cons, hn] at hb
      have hb : first = byte := by simpa using hb
      rw [← hb]
      exact hf
    have hfr := four_le_trailerBlock next fields
    have hl : (trailerBlock (field :: next :: fields)).length - 4 =
        field.bytes.length + 2 + ((trailerBlock (next :: fields)).length - 4) := by
      rw [trailerBlock_cons field, length_append, length_append]
      have hc : crlf.length = 2 := rfl
      omega
    rw [hl, trailerBlock_cons field, append_assoc, append_assoc]
    exact find_headEndMark_skip field.not_mem hh (ih next)

theorem trailerEnd_trailerBlock (rest : Bytes) :
    trailerEnd (trailerBlock fields ++ rest) = some (trailerBlock fields).length := by
  unfold trailerEnd
  rcases fields with _ | ⟨field, fields⟩
  · rfl
  obtain ⟨first, others, hf, hfr⟩ := field.name_cons
  have hs : crlf.isPrefixOf (trailerBlock (field :: fields) ++ rest) = false := by
    rw [trailerBlock_cons, hf, Bool.eq_false_iff]
    intro hc
    exact hfr (cons_prefix_cons.1 (List.isPrefixOf_iff_prefix.1 hc)).1.symm
  have hfo := four_le_trailerBlock field fields
  rw [hs, find_trailerBlock]
  simp only [Bool.false_eq_true, if_false, Option.map_some, Option.some.injEq]
  omega

theorem trailerBlock_eq_intercalate : trailerBlock (field :: fields) =
      crlf.intercalate ((field :: fields).map TrailerField.bytes) ++ headEndMark := by
  induction fields generalizing field with
  | nil => simp [trailerBlock, headEndMark, append_assoc]
  | cons next fields ih =>
    rw [trailerBlock_cons, ih next]
    simp [intercalate_cons_cons, append_assoc]

theorem TrailerField.cut : field.bytes.contains 58 = true ∧ field.bytes.takeWhile (· != 58) = field.name ∧
      (field.bytes.dropWhile (· != 58)).drop 1 = field.before ++ field.value.bytes ++ field.after := by
  have hn : 58 ∉ field.name := fun hb => (isTokenByte_spec (all_eq_true.1 field.name_token.2 58 hb)).2.1 rfl
  unfold TrailerField.bytes
  obtain ⟨ht, hd⟩ := cut_append hn (field.before ++ field.value.bytes ++ field.after)
  exact ⟨by simp, ht, congrArg (List.drop 1) hd⟩

theorem validateRawField_ok {fields : Nat} (hf : fields ≤ limits.maxTrailerFields) :
    validateRawField fields limits.maxTrailerFields limits.maxTrailerFieldBytes .tooManyTrailers
      .trailerFieldTooLarge .invalidTrailerField field.bytes = .ok () := by
  obtain ⟨hc, ht, -⟩ := field.cut
  have hne : field.bytes ≠ [] := by simp [TrailerField.bytes]
  have hl : field.bytes.length ≤ limits.maxTrailerFieldBytes := field.field_fits
  unfold validateRawField
  rw [if_neg hne, if_neg (by omega), if_neg (by omega), hc]
  dsimp only
  rw [ht]
  simp only [Bool.true_eq_false, if_false]
  refine if_neg ?_
  rintro (hnl | hln | hnt)
  · exact field.name_token.1 hnl
  · exact absurd field.name_fits (by omega)
  · exact hnt field.name_token.2

variable (trailers : List (TrailerField limits))

theorem validateRawLines_ok (fields : Nat) (hf : fields + trailers.length ≤ limits.maxTrailerFields) :
    validateRawLines limits.maxTrailerFields limits.maxTrailerFieldBytes .tooManyTrailers
      .trailerFieldTooLarge .invalidTrailerField fields (trailers.map TrailerField.bytes) = .ok () := by
  induction trailers generalizing fields with
  | nil => rfl
  | cons field trailers ih =>
    rw [length_cons] at hf
    rw [map_cons, validateRawLines, validateRawField_ok field (by omega)]
    exact ih (fields + 1) (by omega)

theorem isHeaderName_fieldName : isHeaderName (fieldName field.name) = true := by
  have hne : (fieldName field.name).isEmpty = false := by
    simpa [fieldName] using field.name_token.1
  have hl : (fieldName field.name).length < 2 ^ 16 := by
    have := field.name_fits
    simp only [fieldName, length_map, maxHeaderNameBytes] at this ⊢
    omega
  have hch : (fieldName field.name).all isNameChar = true := by
    rw [all_eq_true]
    intro c hc
    simp only [fieldName, map_map, mem_map, Function.comp_apply] at hc
    obtain ⟨byte, hb, rfl⟩ := hc
    exact (isTokenByte_spec (all_eq_true.1 field.name_token.2 byte hb)).2.2.2.2.2
  unfold isHeaderName
  rw [hne, hch]
  simpa using hl

def trailerMap : HeaderMap where
  entries := trailers.map fun field => (fieldName field.name, field.value)
  names := by
    rw [all_eq_true]
    intro entry hentry
    obtain ⟨field, -, rfl⟩ := mem_map.1 hentry
    exact isHeaderName_fieldName field

theorem trimOws_blanks {before after : Bytes} (hbf : before.all isOws = true) (hv : trimOws value = value)
    (ha : after.all isOws = true) :
    trimOws (before ++ value ++ after) = value := by
  have har : ∀ byte ∈ after.reverse, isOws byte = true := by simpa using ha
  refine Eq.trans ?_ hv
  rw [trimOws, append_assoc, dropWhile_append_of_pos (all_eq_true.1 hbf), dropWhile_append]
  split
  · next he => rw [dropWhile_eq_nil_iff.2 (all_eq_true.1 ha), trimOws, isEmpty_iff.1 he]
  · rw [reverse_append, dropWhile_append_of_pos har, trimOws]

theorem parseTrailerLine_ok (trailers : HeaderMap) : parseTrailerLine trailers field.bytes =
      .ok (append trailers ⟨fieldName field.name, isHeaderName_fieldName field⟩ field.value) := by
  obtain ⟨hc, ht, hd⟩ := field.cut
  have hh : headerName field.name = some ⟨fieldName field.name, isHeaderName_fieldName field⟩ :=
    dif_pos (isHeaderName_fieldName field)
  have hv : headerValue field.value.bytes = some field.value := dif_pos field.value.valid
  unfold parseTrailerLine
  rw [hc, ht, hh, hd, trimOws_blanks field.before_blank field.value_trimmed field.after_blank, hv]
  simp only [Bool.true_eq_false, if_false, field.name_allowed, Bool.false_eq_true]

theorem foldlM_parseTrailerLine (headers : HeaderMap) :
    ∃ result, (trailers.map TrailerField.bytes).foldlM parseTrailerLine headers = .ok result ∧
      result.entries = headers.entries ++ trailers.map fun field => (fieldName field.name, field.value) := by
  induction trailers generalizing headers with
  | nil => exact ⟨headers, rfl, by simp⟩
  | cons field trailers ih =>
    obtain ⟨result, hr, he⟩ := ih (append headers ⟨fieldName field.name, isHeaderName_fieldName field⟩ field.value)
    refine ⟨result, ?_, ?_⟩
    · rw [map_cons, foldlM_cons, parseTrailerLine_ok]
      exact hr
    · rw [he, append]
      simp

theorem headerMap_ext {a b : HeaderMap} (h : a.entries = b.entries) : a = b := by
  cases a
  cases b
  cases h
  rfl

theorem parseTrailers_trailerBlock {trailers : List (TrailerField limits)}
    (hft : trailers.length ≤ limits.maxTrailerFields) :
    parseTrailers limits (trailerBlock trailers) = .ok (trailerMap trailers) := by
  rcases trailers with _ | ⟨field, fields⟩
  · exact if_pos rfl
  have hb := trailerBlock_eq_intercalate field fields
  have hne : trailerBlock (field :: fields) ≠ crlf := by
    obtain ⟨first, others, hfl, hfr⟩ := field.name_cons
    rw [trailerBlock_cons, hfl]
    intro heq
    exact hfr (List.cons.inj heq).1
  have hen : (crlf ++ crlf).isSuffixOf (trailerBlock (field :: fields)) = true := by
    rw [isSuffixOf_iff_suffix, hb]
    exact suffix_append _ _
  have hf : (trailerBlock (field :: fields)).take ((trailerBlock (field :: fields)).length - 4) =
      crlf.intercalate ((field :: fields).map TrailerField.bytes) := by
    rw [hb]
    exact take_left' (by simp [headEndMark, crlf])
  have hl : splitCrlf (crlf.intercalate ((field :: fields).map TrailerField.bytes)) =
      (field :: fields).map TrailerField.bytes := by
    refine splitCrlf_intercalate fun bytes hby => ?_
    obtain ⟨field, -, rfl⟩ := mem_map.1 hby
    exact ⟨field.not_mem, by simp [TrailerField.bytes]⟩
  obtain ⟨result, hr, he⟩ := foldlM_parseTrailerLine (field :: fields) HeaderMap.empty
  have hm : result = trailerMap (field :: fields) := headerMap_ext (he.trans (nil_append _))
  unfold parseTrailers
  rw [if_neg hne, hen]
  simp only [Bool.true_eq_false, if_false]
  rw [hf, validateRawFields, hl, validateRawLines_ok _ 0 (by simpa using hft), hr, hm]
  rfl

end Trailers

/-! ## The message is read -/

section Message

variable {httparse : Httparse} {limits : Limits} {requestMethod : Str} {eof : Bool} {interim : Nat}

theorem ideal_sizeLine (line : SizeLine limits size) (emitted : Bool) (rest : Bytes) :
    ideal httparse limits requestMethod eof .chunkSizeLine interim emitted
        (line.bytes ++ (crlf ++ rest)) =
      ideal httparse limits requestMethod eof (if size = 0 then .trailers else .chunkData size) interim
        emitted rest := by
  have hf : find crlf (line.bytes ++ (crlf ++ rest)) = some line.bytes.length := find_line line.not_mem _ rest
  have hft : ¬ limits.maxChunkSizeLineBytes < line.bytes.length := not_lt.2 line.line_fits
  have hd : (line.bytes ++ (crlf ++ rest)).drop (line.bytes.length + 2) = rest := by
    rw [← append_assoc]
    exact drop_left' (by simp [crlf])
  rw [ideal, hf]
  dsimp only
  rw [if_neg hft, take_left, parseChunkSizeLine_ok line, hd]

theorem ideal_chunk (chunk : Chunk limits) (emitted : Bool) (rest : Bytes) :
    ideal httparse limits requestMethod eof .chunkSizeLine interim emitted (chunk.bytes ++ rest) =
      .add (.body chunk.data)
        (ideal httparse limits requestMethod eof .chunkSizeLine interim emitted rest) := by
  have hne : chunk.data.length ≠ 0 := by
    have := length_pos_of_ne_nil chunk.data_ne
    omega
  have hb : chunk.bytes ++ rest = chunk.line.bytes ++ (crlf ++ (chunk.data ++ (crlf ++ rest))) := by
    simp [Chunk.bytes, append_assoc]
  rw [hb, ideal_sizeLine, if_neg hne]
  conv_lhs => rw [ideal, take_left, drop_left, if_pos (by simp), crlf, cons_append, cons_append, ideal,
    if_neg (by decide)]
  rfl

theorem ideal_encode (message : ChunkedMessage limits) (further : Bytes) :
    ideal httparse limits requestMethod eof .chunkSizeLine interim false (message.encode ++ further) =
      { interimHeads := []
        finalHeads := []
        body := message.data
        trailers := [trailerMap message.trailers]
        completions := 1
        outcome := .complete further } := by
  obtain ⟨chunks, last, trailers, ht, hb⟩ := message
  unfold ChunkedMessage.encode ChunkedMessage.data
  dsimp only
  induction chunks with
  | nil =>
    have he := trailerEnd_trailerBlock trailers further
    have hp := parseTrailers_trailerBlock ht
    rw [flatMap_nil, nil_append, append_assoc, append_assoc, ideal_sizeLine, if_pos rfl,
      ideal, he]
    dsimp only
    rw [if_neg (by omega), take_left, hp, drop_left]
    rfl
  | cons chunk chunks ih =>
    rw [flatMap_cons, append_assoc, append_assoc, ideal_chunk, ← append_assoc, ih]
    rfl

end Message

/-- **Chunked messages.**  An engine that has entered a chunked body and gets such a message with
anything behind it, cut into buffers in any way, reports the data of the chunks, the trailers and one
completion, and leaves what is behind the message unread. -/
theorem run_chunked_message (httparse : Httparse) (engine : Engine) (hvalid : engine.Valid [])
    (heof : engine.sawEof = false) (hstate : engine.state = .chunkSizeLine)
    (message : ChunkedMessage engine.limits) (further : Bytes) (buffers : List Bytes) (last : Bytes)
    (eof : Bool) (hstream : buffers.flatten ++ last = message.encode ++ further) :
    (run httparse engine [] buffers last eof).report =
      { interimHeads := []
        finalHeads := []
        body := message.data
        trailers := [trailerMap message.trailers]
        completions := 1
        outcome := .complete further } := by
  have he : engine.completeEmitted = false := hvalid.not_emitted (by rw [hstate]; simp)
  rw [run_ideal hvalid heof, nil_append, hstream, Engine.idealFrom, hstate, he]
  exact ideal_encode message further

def shortMessage : ChunkedMessage {} where
  chunks := [{
    data := asBytes "abc"
    data_ne := by decide
    line := {
      digits := asBytes "03"
      extensions := [{
        name := asBytes "x"
        value := some (asBytes "y")
        name_token := by constructor <;> decide
        value_valid := by
          intro bytes hbytes
          obtain rfl := Option.some.inj hbytes
          exact .token _ (by constructor <;> decide) }]
      digits_ne := by decide
      digits_hex := all_eq_true.1 (by decide)
      digits_value := by decide
      size_fits := by decide
      line_fits := by decide
      extensions_fit := by decide } }]
  last := {
    digits := asBytes "0"
    extensions := []
    digits_ne := by decide
    digits_hex := all_eq_true.1 (by decide)
    digits_value := by decide
    size_fits := by decide
    line_fits := by decide
    extensions_fit := by decide }
  trailers := [{
    name := asBytes "Etag"
    before := asBytes " "
    value := ⟨asBytes "v1", by decide⟩
    after := []
    name_token := by constructor <;> decide
    name_fits := by decide
    name_allowed := by decide
    before_blank := by decide
    value_trimmed := by decide
    after_blank := by decide
    field_fits := by decide }]
  trailers_fit := by decide
  block_fits := by decide

theorem run_chunked_message_short : (run plainHttparse { defaultEngine with state := .chunkSizeLine } []
        [asBytes "03;x=y\x0d"] (asBytes "\nabc\x0d\n0\x0d\nEtag: v1\x0d\n\x0d\nHTTP") false).report =
      { interimHeads := []
        finalHeads := []
        body := asBytes "abc"
        trailers := [trailerMap shortMessage.trailers]
        completions := 1
        outcome := .complete (asBytes "HTTP") } :=
  run_chunked_message _ { defaultEngine with state := .chunkSizeLine }
    (valid_of_starts rfl (by simp) (by simp [defaultEngine]) ⟨rfl, rfl, rfl⟩) rfl rfl shortMessage
    (asBytes "HTTP") _ _ _ (by decide +kernel)

end DirectH1
