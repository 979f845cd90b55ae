import OxiBelt.Http.HeaderMap

/-!
# Hop-by-hop fields (`proxy/http/headers.rs`)

`stripHopByHopHeaders` removes from a message what is meant for one connection only: the fields that
`Connection` names, seven fixed names, and `TE` unless it is `trailers`.  The order of field lines is
kept for each name; the `http` crate leaves the order of different names open.

* `getAll_stripHopByHopHeaders`: what is left under each name.
* `stripped_iff_handled`: when the result is what a proxy must send on.  `Connection` lines that are not
  visible ASCII are skipped, and only the first line of `TE` is looked at.
-/

namespace HopByHop

open RustStd ByteString Http List HeaderMap

/-! ## The code -/

def connectionHeader : Str := "connection"
def closeHeader : Str := "close"
def teHeader : Str := "te"

/-- The names that no message keeps. -/
def fixedNames : List Str :=
  [connectionHeader, "keep-alive", "proxy-authenticate", "proxy-authorization",
    "trailer", "transfer-encoding", "upgrade"]

def isHopByHopHeaderName (name : Str) : Bool := fixedNames.contains name || name == teHeader

variable (headers : HeaderMap)

def hasHopByHopHeaders : Bool :=
  headers.entries.any fun entry => isHopByHopHeaderName entry.1

/-- What the tokens of `Connection` ask for. -/
structure ConnectionScan where
  dynamicTokens : List Str
  removeCloseHeader : Bool
  removeTeHeader : Bool

def fixedConnectionToken (token : Str) (scan : ConnectionScan) : Bool × ConnectionScan :=
  if eqIgnoreAsciiCase token closeHeader then (true, { scan with removeCloseHeader := true })
  else if eqIgnoreAsciiCase token teHeader then (true, { scan with removeTeHeader := true })
  else if fixedNames.any (eqIgnoreAsciiCase token) then (true, scan)
  else (false, scan)

/-- `HeaderName::from_str`. -/
def headerNameFromStr (token : Str) : Option Str :=
  if isHeaderName (toAsciiLowercase token) then some (toAsciiLowercase token) else none

def scanToken (scan : ConnectionScan) (token : Str) : ConnectionScan :=
  match fixedConnectionToken token scan with
  | (true, scan) => scan
  | (false, scan) =>
    match headerNameFromStr token with
    | some name => { scan with dynamicTokens := scan.dynamicTokens ++ [name] }
    | none => scan

def connectionTokens : List Str :=
  ((((headers.getAll connectionHeader).filterMap HeaderValue.toStr).flatMap fun value =>
    value.splitOn ',').map trim).filter fun value => !value.isEmpty

/-- The first part of the function: the fields that `Connection` names. -/
def removeConnectionFields : HeaderMap :=
  if headers.containsKey connectionHeader then
    let scan := (connectionTokens headers).foldl scanToken ⟨[], false, false⟩
    let headers := scan.dynamicTokens.foldl HeaderMap.remove headers
    let headers := if scan.removeCloseHeader then headers.remove closeHeader else headers
    if scan.removeTeHeader then headers.remove teHeader else headers
  else headers

def isTrailers (text : Str) : Bool := eqIgnoreAsciiCase text "trailers"

def removeTe : Bool :=
  (((headers.get teHeader).bind HeaderValue.toStr).map fun value => !isTrailers value).getD false

def stripHopByHopHeaders : HeaderMap :=
  if !hasHopByHopHeaders headers then headers
  else
    let headers := fixedNames.foldl HeaderMap.remove (removeConnectionFields headers)
    if removeTe headers then headers.remove teHeader else headers

/-! ## What is left under each name -/

section Left

variable {headers : HeaderMap} {name : Str}

def listed (headers : HeaderMap) (name : Str) : Bool :=
  (connectionTokens headers).any fun token => name == toAsciiLowercase token

def ConnectionScan.removes (scan : ConnectionScan) (name : Str) : Bool :=
  scan.dynamicTokens.contains name || (name == closeHeader && scan.removeCloseHeader) ||
    (name == teHeader && scan.removeTeHeader)

theorem eqIgnoreAsciiCase_iff {token word : Str} (hw : toAsciiLowercase word = word) :
    eqIgnoreAsciiCase token word = true ↔ toAsciiLowercase token = word := by
  rw [eqIgnoreAsciiCase, hw, beq_iff_eq]

theorem lower_close : toAsciiLowercase closeHeader = closeHeader := by decide +kernel

theorem lower_te : toAsciiLowercase teHeader = teHeader := by decide +kernel

theorem any_fixedNames_iff {token : Str} :
    fixedNames.any (eqIgnoreAsciiCase token) = true ↔ toAsciiLowercase token ∈ fixedNames := by
  have ha : (fixedNames.all fun word => toAsciiLowercase word == word) = true := by decide +kernel
  have hl : ∀ word ∈ fixedNames, toAsciiLowercase word = word := by
    intro word hw
    exact beq_iff_eq.1 (all_eq_true.1 ha word hw)
  rw [any_eq_true]
  constructor
  · rintro ⟨word, hw, heq⟩
    rw [(eqIgnoreAsciiCase_iff (hl word hw)).1 heq]
    exact hw
  · intro hm
    exact ⟨_, hm, (eqIgnoreAsciiCase_iff (hl _ hm)).2 rfl⟩

/-- One token: a fixed name apart, a scan removes the fields it removed before and the one the token
names. -/
theorem removes_scanToken (scan : ConnectionScan) (token : Str) (hn : isHeaderName name = true)
    (hf : name ∉ fixedNames) :
    (scanToken scan token).removes name = (scan.removes name || name == toAsciiLowercase token) := by
  unfold scanToken fixedConnectionToken
  by_cases hc : toAsciiLowercase token = closeHeader
  · rw [if_pos ((eqIgnoreAsciiCase_iff lower_close).2 hc), hc]
    show (scan.dynamicTokens.contains name || (name == closeHeader && true) || _) = _
    rw [Bool.and_true, ConnectionScan.removes]
    cases name == closeHeader <;> simp
  rw [if_neg (mt (eqIgnoreAsciiCase_iff lower_close).1 hc)]
  by_cases hte : toAsciiLowercase token = teHeader
  · rw [if_pos ((eqIgnoreAsciiCase_iff lower_te).2 hte), hte]
    show (scan.dynamicTokens.contains name || _ || (name == teHeader && true)) = _
    rw [Bool.and_true, ConnectionScan.removes]
    cases name == teHeader <;> simp
  rw [if_neg (mt (eqIgnoreAsciiCase_iff lower_te).1 hte)]
  by_cases hm : toAsciiLowercase token ∈ fixedNames
  · rw [if_pos (any_fixedNames_iff.2 hm)]
    have hne : (name == toAsciiLowercase token) = false := by
      rw [beq_eq_false_iff_ne]
      rintro rfl
      exact hf hm
    rw [hne, Bool.or_false]
  rw [if_neg (mt any_fixedNames_iff.1 hm)]
  by_cases hv : isHeaderName (toAsciiLowercase token) = true
  · simp only [headerNameFromStr, if_pos hv]
    simp only [ConnectionScan.removes, contains_append, contains_cons, contains_nil, Bool.or_false]
    cases name == toAsciiLowercase token <;> simp
  have hne : (name == toAsciiLowercase token) = false := by
    rw [beq_eq_false_iff_ne]
    rintro rfl
    exact hv hn
  simp only [headerNameFromStr, if_neg hv]
  rw [hne, Bool.or_false]

theorem removes_foldl_scanToken (tokens : List Str) (scan : ConnectionScan)
    (hn : isHeaderName name = true) (hf : name ∉ fixedNames) :
    (tokens.foldl scanToken scan).removes name =
      (scan.removes name || tokens.any fun token => name == toAsciiLowercase token) := by
  induction tokens generalizing scan with
  | nil => simp
  | cons token tokens ih =>
    rw [foldl_cons, ih, removes_scanToken scan token hn hf, any_cons, Bool.or_assoc]

theorem connectionTokens_of_absent (h : headers.getAll connectionHeader = []) : connectionTokens headers = [] := by
  rw [connectionTokens, h]
  rfl

theorem containsKey_eq_false (h : headers.containsKey name = false) : headers.getAll name = [] := by
  by_contra hne
  rw [(headers.containsKey_iff name).2 hne] at h
  exact absurd h (by decide)

theorem getAll_removeIf (headers : HeaderMap) (test : Bool) (removed name : Str) :
    (if test then headers.remove removed else headers).getAll name =
      if name == removed && test then [] else headers.getAll name := by
  cases test with
  | false => rw [Bool.and_false]; rfl
  | true => rw [Bool.and_true, if_pos rfl, getAll_remove]

theorem getAll_removeConnectionFields (hf : name ∉ fixedNames) : (removeConnectionFields headers).getAll name =
      if listed headers name then [] else headers.getAll name := by
  by_cases hn : isHeaderName name = true
  · unfold removeConnectionFields
    cases hk : headers.containsKey connectionHeader with
    | false =>
      have hnn : listed headers name = false := by
        rw [listed, connectionTokens_of_absent (containsKey_eq_false hk)]
        rfl
      rw [if_neg (by decide), hnn, if_neg (by decide)]
    | true =>
      rw [if_pos rfl]
      have hr := removes_foldl_scanToken (connectionTokens headers) ⟨[], false, false⟩ hn hf
      have hs : (ConnectionScan.mk [] false false).removes name = false := by
        simp [ConnectionScan.removes]
      rw [hs, Bool.false_or] at hr
      unfold listed
      rw [← hr]
      generalize (connectionTokens headers).foldl scanToken ⟨[], false, false⟩ = scan
      dsimp only
      rw [getAll_removeIf, getAll_removeIf, getAll_foldl_remove, ConnectionScan.removes]
      cases scan.dynamicTokens.contains name <;> cases name == closeHeader && scan.removeCloseHeader <;>
        cases name == teHeader && scan.removeTeHeader <;> rfl
  · rw [Bool.not_eq_true] at hn
    rw [getAll_of_not_name _ hn, getAll_of_not_name _ hn, ite_self]

/-- The field lines under this name go. -/
def removed (headers : HeaderMap) (name : Str) : Bool :=
  fixedNames.contains name || listed headers name || (name == teHeader && removeTe headers)

theorem te_not_fixed : teHeader ∉ fixedNames := by decide +kernel

/-- Without hop-by-hop fields, there are none under their names. -/
theorem getAll_of_no_hopByHop (h : hasHopByHopHeaders headers = false)
    (hn : isHopByHopHeaderName name = true) : headers.getAll name = [] := by
  apply containsKey_eq_false
  rw [containsKey, any_eq_false]
  intro entry he heq
  rw [beq_iff_eq] at heq
  rw [hasHopByHopHeaders, any_eq_false] at h
  exact h entry he (heq ▸ hn)

theorem removeTe_removeFields (hl : listed headers teHeader = false) :
    removeTe (fixedNames.foldl remove (removeConnectionFields headers)) = removeTe headers := by
  have hte : fixedNames.contains teHeader = false := by decide +kernel
  have hs : (fixedNames.foldl remove (removeConnectionFields headers)).get teHeader = headers.get teHeader := by
    rw [get_eq_head?, get_eq_head?, getAll_foldl_remove, hte, getAll_removeConnectionFields te_not_fixed, hl]
    rfl
  rw [removeTe, removeTe, hs]

/-- **What is left under each name.** -/
theorem getAll_stripHopByHopHeaders (headers : HeaderMap) (name : Str) : (stripHopByHopHeaders headers).getAll name =
      if removed headers name then [] else headers.getAll name := by
  unfold stripHopByHopHeaders
  cases hh : hasHopByHopHeaders headers with
  | false =>
    rw [if_pos (by decide)]
    have hn : listed headers name = false := by
      have hc : headers.getAll connectionHeader = [] := getAll_of_no_hopByHop hh (by decide +kernel)
      rw [listed, connectionTokens_of_absent hc]
      rfl
    cases hr : removed headers name with
    | false => rw [if_neg (by decide)]
    | true =>
      rw [if_pos rfl]
      apply getAll_of_no_hopByHop hh
      rw [removed, hn, Bool.or_false, Bool.or_eq_true, Bool.and_eq_true] at hr
      rw [isHopByHopHeaderName, Bool.or_eq_true]
      exact hr.imp id And.left
  | true =>
    rw [if_neg (by decide), getAll_removeIf, getAll_foldl_remove, removed]
    by_cases hf : name ∈ fixedNames
    · simp [hf]
    have hcn : fixedNames.contains name = false := by simpa using hf
    rw [hcn, getAll_removeConnectionFields hf]
    rw [if_neg Bool.false_ne_true, Bool.false_or]
    cases hl : listed headers name with
    | true => simp
    | false =>
      by_cases hte : name = teHeader
      · -- the test on `TE` sees the lines that the first part has left
        subst hte
        rw [removeTe_removeFields hl]
        simp
      · have hne : (name == teHeader) = false := beq_eq_false_iff_ne.2 hte
        simp [hne]

end Left

/-! ## What a proxy must send on -/

section Spec

variable {headers : HeaderMap} {name : Str}

def isOws (c : Char) : Bool := c == ' ' || c == '\t'

/-- The elements of a field line that is a list of names, in lower case. -/
def elements (line : HeaderValue) : List Str :=
  ((textOfBytes line.bytes).splitOn ',').map fun element => toAsciiLowercase (trimMatches isOws element)

/-- An element of some `Connection` line names the field. -/
def Named (headers : HeaderMap) (name : Str) : Prop :=
  ∃ line ∈ headers.getAll connectionHeader, name ∈ elements line

/-- The message without its hop-by-hop fields. -/
structure Stripped (before after : HeaderMap) : Prop where
  named : ∀ name, Named before name → after.getAll name = []
  fixed : ∀ name ∈ fixedNames, after.getAll name = []
  te : ∀ line ∈ after.getAll teHeader, line.toStr.any isTrailers = true
  others : ∀ name, ¬ Named before name → name ∉ fixedNames → name ≠ teHeader →
    after.getAll name = before.getAll name

/-- An element of a `Connection` line of visible ASCII names the field. -/
def NamedReadably (headers : HeaderMap) (name : Str) : Prop :=
  ∃ line ∈ headers.getAll connectionHeader, line.toStr.isSome = true ∧ name ∈ elements line

/-- The first `TE` line is visible ASCII and is not `trailers`. -/
def FirstTeRefused (headers : HeaderMap) : Prop :=
  ∃ line ∈ (headers.getAll teHeader).head?, ∃ text ∈ line.toStr, isTrailers text = false

/-- No field depends on a line that is not looked at: what a `Connection` line outside visible ASCII
names is absent or removed for another reason, and `TE` is removed or has only `trailers` lines. -/
structure Handled (headers : HeaderMap) : Prop where
  connection : ∀ line ∈ headers.getAll connectionHeader, line.toStr = none → ∀ name ∈ elements line,
    headers.getAll name = [] ∨ name ∈ fixedNames ∨ NamedReadably headers name ∨
      (name = teHeader ∧ FirstTeRefused headers)
  te : NamedReadably headers teHeader ∨ FirstTeRefused headers ∨
    ∀ line ∈ headers.getAll teHeader, line.toStr.any isTrailers = true

theorem visible_whitespace (byte : UInt8) (h : isVisibleAscii byte = true) :
    isWhitespace (charOfByte byte) = isOws (charOfByte byte) := by
  have ha := @forall_byte (fun byte => !isVisibleAscii byte ||
    isWhitespace (charOfByte byte) == isOws (charOfByte byte)) (by decide +kernel) byte
  simpa [h] using ha

theorem elements_of_toStr {line : HeaderValue} {text : Str} (h : line.toStr = some text) :
    elements line = ((text.splitOn ',').map trim).map toAsciiLowercase := by
  obtain ⟨hv, rfl⟩ := HeaderValue.toStr_eq_some.1 h
  rw [elements, map_map]
  apply map_congr_left
  intro piece hp
  show toAsciiLowercase (trimMatches isOws piece) = toAsciiLowercase (trimMatches isWhitespace piece)
  congr 1
  apply trimMatches_congr
  intro c hc
  obtain ⟨byte, hb, rfl⟩ := mem_map.1 (mem_of_mem_splitOn hp hc)
  exact (visible_whitespace byte (all_eq_true.1 hv byte hb)).symm

/-- The tokens of the code are the elements of the readable lines. -/
theorem listed_iff (hne : name ≠ []) : listed headers name = true ↔ NamedReadably headers name := by
  have hlw : ∀ token : Str, toAsciiLowercase token = [] ↔ token = [] := by
    intro token
    rw [toAsciiLowercase, map_eq_nil_iff]
  rw [listed, any_eq_true]
  constructor
  · rintro ⟨token, ht, heq⟩
    obtain ⟨ht, -⟩ := mem_filter.1 ht
    obtain ⟨piece, hp, rfl⟩ := mem_map.1 ht
    obtain ⟨text, htx, hp⟩ := mem_flatMap.1 hp
    obtain ⟨line, hl, hts⟩ := mem_filterMap.1 htx
    refine ⟨line, hl, by rw [hts]; rfl, ?_⟩
    rw [elements_of_toStr hts, beq_iff_eq.1 heq]
    exact mem_map_of_mem (mem_map_of_mem hp)
  · rintro ⟨line, hl, hs, hm⟩
    obtain ⟨text, hts⟩ := Option.isSome_iff_exists.1 hs
    rw [elements_of_toStr hts] at hm
    obtain ⟨token, ht, rfl⟩ := mem_map.1 hm
    refine ⟨token, mem_filter.2 ⟨?_, ?_⟩, beq_self_eq_true _⟩
    · obtain ⟨piece, hp, rfl⟩ := mem_map.1 ht
      exact mem_map_of_mem (mem_flatMap.2 ⟨text, mem_filterMap.2 ⟨line, hl, hts⟩, hp⟩)
    · have ht : token ≠ [] := mt (hlw token).2 hne
      simpa using ht

theorem removeTe_iff : removeTe headers = true ↔ FirstTeRefused headers := by
  unfold removeTe FirstTeRefused
  rw [get_eq_head?]
  rcases (headers.getAll teHeader).head? with _ | line
  · simp
  rcases hl : line.toStr with _ | text
  · simp [hl]
  · simp [hl]

theorem getAll_empty_name (headers : HeaderMap) : headers.getAll [] = [] := headers.getAll_of_not_name (by decide)

theorem removed_iff (hne : name ≠ []) : removed headers name = true ↔
    name ∈ fixedNames ∨ NamedReadably headers name ∨ (name = teHeader ∧ FirstTeRefused headers) := by
  rw [removed, Bool.or_eq_true, Bool.or_eq_true, Bool.and_eq_true, listed_iff hne, removeTe_iff,
    contains_iff_mem, beq_iff_eq, or_assoc]

/-- What is left under a name that is removed, and under one that is not. -/
theorem strip_eq_nil_iff : (stripHopByHopHeaders headers).getAll name = [] ↔
    headers.getAll name = [] ∨ name ∈ fixedNames ∨ NamedReadably headers name ∨
      (name = teHeader ∧ FirstTeRefused headers) := by
  by_cases hne : name = []
  · simp [hne, getAll_empty_name]
  rw [getAll_stripHopByHopHeaders, ← removed_iff hne]
  cases removed headers name <;> simp

theorem te_ne_nil : teHeader ≠ [] := by decide

theorem handled_of_stripped (h : Stripped headers (stripHopByHopHeaders headers)) : Handled headers where
  connection line hln _ name hn := strip_eq_nil_iff.1 (h.named name ⟨line, hln, hn⟩)
  te := by
    cases hr : removed headers teHeader with
    | true =>
      rcases (removed_iff te_ne_nil).1 hr with hf | hrd | ⟨-, hrf⟩
      · exact absurd hf te_not_fixed
      · exact .inl hrd
      · exact .inr (.inl hrf)
    | false =>
      right; right
      have hl := h.te
      rw [getAll_stripHopByHopHeaders, hr] at hl
      exact hl

theorem stripped_of_handled (h : Handled headers) : Stripped headers (stripHopByHopHeaders headers) where
  named := by
    rintro name ⟨line, hl, hn⟩
    rw [strip_eq_nil_iff]
    cases hre : line.toStr with
    | none => exact h.connection line hl hre name hn
    | some text => exact .inr (.inr (.inl ⟨line, hl, by rw [hre]; rfl, hn⟩))
  fixed name hf := strip_eq_nil_iff.2 (.inr (.inl hf))
  te := by
    intro line hl
    rw [getAll_stripHopByHopHeaders] at hl
    cases hr : removed headers teHeader with
    | true =>
      rw [hr] at hl
      exact absurd hl (by simp)
    | false =>
      have hnt := mt (removed_iff te_ne_nil).2 (by rw [hr]; decide)
      rw [hr] at hl
      rcases h.te with hrd | hrf | ha
      · exact absurd (.inr (.inl hrd)) hnt
      · exact absurd (.inr (.inr ⟨rfl, hrf⟩)) hnt
      · exact ha line hl
  others := by
    intro name hnm hf hte
    by_cases hne : name = []
    · rw [hne, getAll_empty_name, getAll_empty_name]
    rw [getAll_stripHopByHopHeaders, if_neg]
    intro hr
    rcases (removed_iff hne).1 hr with h | ⟨line, hl, -, hm⟩ | ⟨h, -⟩
    · exact hf h
    · exact hnm ⟨line, hl, hm⟩
    · exact hte h

/-- **Hop-by-hop fields.**  The result is the message without its hop-by-hop fields exactly if no field
depends on a line that is not looked at. -/
theorem stripped_iff_handled (headers : HeaderMap) :
    Stripped headers (stripHopByHopHeaders headers) ↔ Handled headers :=
  ⟨handled_of_stripped, stripped_of_handled⟩

/-- `Connection: x-key` and a byte above 127, with `X-Key: 1`. -/
def unreadableConnection : HeaderMap :=
  ⟨[(connectionHeader, ⟨"x-key,".toList.map byteOfChar ++ [255], by decide +kernel⟩),
    ("x-key", .ofText "1" (by decide +kernel))], by decide +kernel⟩

/-- `TE: trailers` and `TE: gzip` on two lines. -/
def twoTeLines : HeaderMap :=
  ⟨[(teHeader, .ofText "trailers" (by decide +kernel)), (teHeader, .ofText "gzip" (by decide +kernel))],
    by decide +kernel⟩

/-- A field that an unreadable `Connection` line names is sent on, and so is a second `TE` line. -/
theorem stripHopByHopHeaders_leaves :
    ("x-key".toList ∈ (unreadableConnection.getAll connectionHeader).flatMap elements ∧
      (stripHopByHopHeaders unreadableConnection).getAll "x-key" =
        [.ofText "1" (by decide +kernel)]) ∧
      (stripHopByHopHeaders twoTeLines).getAll teHeader =
        [.ofText "trailers" (by decide +kernel), .ofText "gzip" (by decide +kernel)] := by
  refine ⟨⟨by decide +kernel, by decide +kernel⟩, by decide +kernel⟩

end Spec

end HopByHop
