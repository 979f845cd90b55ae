import OxiBelt.Http.HeaderMap
import OxiBelt.Lib.Chain

/-!
# Variants of a stored response (`cache/response_metadata.rs`)

When a response is stored, each field that its `Vary` names is recorded with the values the filling
request had for it (`varyMatchersResult`); a later request matches if it has the same recorded values
(`varyMatches`).  The recorded value joins the field lines with commas, but it drops the lines that
are not visible ASCII.

* `varyMatchersResult_eq_ok`: the matchers record exactly the named fields.
* `sameValues_of_readable`: requests whose lines are all readable and that match carry the same bytes.
* `headerValues_readablePart`, `not_sameValues_of_unreadable`: a request with an unreadable line is
  recorded like the same request without it, and the two carry different bytes.
-/

namespace Cache

open RustStd ByteString Http List

structure VaryMatcher where
  (name value : Str)
  deriving DecidableEq

/-- `header_values`: the readable field lines, joined with commas. -/
def headerValues (headers : HeaderMap) (name : Str) : Str :=
  if isHeaderName name then [','].intercalate ((headers.getAll name).filterMap HeaderValue.toStr)
  else []

/-- The limits on what is recorded, and the header that carries a forwarded certificate. -/
structure VaryLimits where
  certificateHeader : Option Str
  (maxFields maxValueBytes : Nat)

variable (limits : VaryLimits) (requestHeaders : HeaderMap)

/-- One name of the `Vary` list. -/
def varyName (result : List VaryMatcher) (name : Str) : Except Str (List VaryMatcher) :=
  if name == ['*'] then .error "Vary: * is not cacheable"
  else
    let lower := toAsciiLowercase name
    if limits.certificateHeader == some lower then .ok result
    else if limits.maxFields ≤ result.length then .error "too many Vary fields"
    else
      let value := headerValues requestHeaders lower
      if limits.maxValueBytes < (asBytes value).length then
        .error "Vary value material is too large"
      else .ok (result ++ [⟨lower, value⟩])

def varyLineNames (text : Str) : List Str :=
  ((text.splitOn ',').map trim).filter fun name => !name.isEmpty

/-- One field line of `Vary`. -/
def varyLine (result : List VaryMatcher) (line : HeaderValue) : Except Str (List VaryMatcher) :=
  match line.toStr with
  | none => .error "invalid Vary header"
  | some text => Chain.accept (varyName limits requestHeaders) result (varyLineNames text)

/-- `Vec::dedup_by` on names, behind an element that is kept. -/
def dedupFrom (kept : VaryMatcher) : List VaryMatcher → List VaryMatcher
  | [] => [kept]
  | m :: rest => if m.name = kept.name then dedupFrom kept rest else kept :: dedupFrom m rest

def dedupByName : List VaryMatcher → List VaryMatcher
  | [] => []
  | m :: rest => dedupFrom m rest

def varyHeader : Str := "vary"

def varyMatchersResult (responseHeaders requestHeaders : HeaderMap) : Except Str (List VaryMatcher) :=
  match Chain.accept (varyLine limits requestHeaders) [] (responseHeaders.getAll varyHeader) with
  | .error e => .error e
  | .ok result => .ok (dedupByName (result.mergeSort fun left right => strLe left.name right.name))

def varyMatches (vary : List VaryMatcher) (requestHeaders : HeaderMap) : Bool :=
  vary.all fun item => headerValues requestHeaders item.name == item.value

/-! ## What is recorded -/

/-- The names of a list in lower case, the certificate header aside. -/
def recordedNames (names : List Str) : List Str :=
  (names.map toAsciiLowercase).filter fun name => limits.certificateHeader != some name

def varyFieldNames (responseHeaders : HeaderMap) : List Str :=
  recordedNames limits
    (((responseHeaders.getAll varyHeader).filterMap HeaderValue.toStr).flatMap varyLineNames)

def matcherOf (name : Str) : VaryMatcher :=
  ⟨name, headerValues requestHeaders name⟩

theorem recordedNames_append (xs ys : List Str) :
    recordedNames limits (xs ++ ys) = recordedNames limits xs ++ recordedNames limits ys := by
  rw [recordedNames, map_append, filter_append]
  rfl

variable {request other response : HeaderMap} {limits : VaryLimits} {result' result : List VaryMatcher}
  {names : List Str}

theorem varyName_eq_ok {name : Str} (h : varyName limits request result name = .ok result') :
    result' = result ++ (recordedNames limits [name]).map (matcherOf request) := by
  unfold varyName at h
  split at h
  · contradiction
  simp only at h
  split at h
  · next hc =>
    cases h
    simpa [recordedNames] using hc
  next hc =>
  split at h
  · contradiction
  split at h
  · contradiction
  cases h
  have hne : (limits.certificateHeader != some (toAsciiLowercase name)) = true := by
    simpa using hc
  simp [recordedNames, hne, matcherOf]

theorem varyNames_eq_ok (h : Chain.accept (varyName limits request) result names = .ok result') :
    result' = result ++ (recordedNames limits names).map (matcherOf request) := by
  induction names generalizing result with
  | nil =>
    cases h
    simp [recordedNames]
  | cons name names ih =>
    obtain ⟨mid, hm, hr⟩ := Chain.accept_cons_eq_ok.1 h
    have hc : name :: names = [name] ++ names := rfl
    rw [ih hr, varyName_eq_ok hm, append_assoc, ← map_append, hc, recordedNames_append]

theorem varyLines_eq_ok {lines : List HeaderValue}
    (h : Chain.accept (varyLine limits request) result lines = .ok result') :
    result' = result ++ (recordedNames limits
      ((lines.filterMap HeaderValue.toStr).flatMap varyLineNames)).map (matcherOf request) := by
  induction lines generalizing result with
  | nil =>
    cases h
    simp [recordedNames]
  | cons line lines ih =>
    obtain ⟨mid, hm, hr⟩ := Chain.accept_cons_eq_ok.1 h
    unfold varyLine at hm
    split at hm
    · contradiction
    next text ht =>
    rw [ih hr, varyNames_eq_ok hm, filterMap_cons_some ht, flatMap_cons, recordedNames_append, map_append, append_assoc]

variable {m : VaryMatcher}

theorem dedupFrom_sublist (kept : VaryMatcher) (rest : List VaryMatcher) : dedupFrom kept rest <+ kept :: rest := by
  fun_induction dedupFrom kept rest with
  | case1 kept => exact .refl _
  | case2 kept x rest _ ih => exact ih.trans ((sublist_cons_self x rest).cons_cons kept)
  | case3 kept x rest _ ih => exact ih.cons_cons kept

/-- No name is lost when repeated ones are dropped. -/
theorem exists_mem_dedupFrom (kept : VaryMatcher) (rest : List VaryMatcher) :
    ∀ m ∈ kept :: rest, ∃ x ∈ dedupFrom kept rest, x.name = m.name := by
  fun_induction dedupFrom kept rest with
  | case1 kept => exact fun m hm => ⟨m, hm, rfl⟩
  | case2 kept x rest hn ih =>
    obtain ⟨hk, hr⟩ := forall_mem_cons.1 ih
    exact forall_mem_cons.2 ⟨hk, forall_mem_cons.2 ⟨hn ▸ hk, hr⟩⟩
  | case3 kept x rest _ ih =>
    refine forall_mem_cons.2 ⟨⟨kept, mem_cons_self, rfl⟩, fun m hm => ?_⟩
    obtain ⟨y, hy, hyn⟩ := ih m hm
    exact ⟨y, mem_cons_of_mem _ hy, hyn⟩

theorem mem_dedupByName {xs : List VaryMatcher} (h : m ∈ dedupByName xs) : m ∈ xs := by
  cases xs with
  | nil => exact h
  | cons x xs => exact (dedupFrom_sublist x xs).subset h

theorem exists_mem_dedupByName {xs : List VaryMatcher} (h : m ∈ xs) : ∃ x ∈ dedupByName xs, x.name = m.name := by
  cases xs with
  | nil => exact absurd h not_mem_nil
  | cons x xs => exact exists_mem_dedupFrom x xs m h

/-- **What is recorded.**  Each matcher holds the values of a field the response varies on, and each
such field has its matcher. -/
theorem varyMatchersResult_eq_ok {vary : List VaryMatcher} (h : varyMatchersResult limits response request = .ok vary) :
    (∀ item ∈ vary, item.name ∈ varyFieldNames limits response ∧
      item.value = headerValues request item.name) ∧
    ∀ name ∈ varyFieldNames limits response, ∃ item ∈ vary, item.name = name := by
  unfold varyMatchersResult at h
  split at h
  · contradiction
  next result hr =>
  cases h
  have hl := varyLines_eq_ok hr
  rw [nil_append] at hl
  constructor
  · intro item hi
    have hm := List.mem_mergeSort.1 (mem_dedupByName hi)
    rw [hl] at hm
    obtain ⟨name, hn, rfl⟩ := mem_map.1 hm
    exact ⟨hn, rfl⟩
  intro name hn
  have hm : matcherOf request name ∈ result := by
    rw [hl]
    exact mem_map_of_mem hn
  exact exists_mem_dedupByName (List.mem_mergeSort.2 hm)

/-- A request that matches has the recorded values of the filling request. -/
theorem varyMatches_iff {vary : List VaryMatcher} (h : varyMatchersResult limits response request = .ok vary) :
    varyMatches vary other = true ↔
      ∀ name ∈ varyFieldNames limits response, headerValues other name = headerValues request name := by
  obtain ⟨him, hnm⟩ := varyMatchersResult_eq_ok h
  unfold varyMatches
  simp only [all_eq_true, beq_iff_eq]
  constructor
  · intro ha name hn
    obtain ⟨item, hi, rfl⟩ := hnm name hn
    rw [ha item hi, (him item hi).2]
  intro ha item hi
  obtain ⟨hn, hv⟩ := him item hi
  rw [ha item.name hn, hv]

/-! ## What a match means -/

/-- All field lines of these names are visible ASCII. -/
def Readable (names : List Str) (headers : HeaderMap) : Prop :=
  ∀ name ∈ names, ∀ line ∈ headers.getAll name, line.toStr.isSome = true

variable (headers : HeaderMap)

/-- The bytes a request carries for a field, its lines joined with commas. -/
def joinedBytes (name : Str) : Bytes :=
  [44].intercalate ((headers.getAll name).map (·.bytes))

/-- The requests carry the same values for these fields, up to joining lines with commas. -/
def SameValues (names : List Str) (request other : HeaderMap) : Prop :=
  ∀ name ∈ names, joinedBytes other name = joinedBytes request name

theorem charOfByte_inj {a b : UInt8} (h : charOfByte a = charOfByte b) : a = b := by
  have hal : ∀ n : Fin 256, (Char.ofNat n).toNat = n := by decide +kernel
  have ha := hal ⟨a.toNat, a.toNat_lt⟩
  have hb := hal ⟨b.toNat, b.toNat_lt⟩
  have hn : a.toNat = b.toNat := ha.symm.trans ((congrArg Char.toNat h).trans hb)
  exact UInt8.toNat_inj.1 hn

/-- The recorded value of readable lines is the text of the bytes the request carries. -/
theorem headerValues_of_readable {headers : HeaderMap} {name : Str}
    (hr : ∀ line ∈ headers.getAll name, line.toStr.isSome = true) :
    headerValues headers name = textOfBytes (joinedBytes headers name) := by
  have htx : (headers.getAll name).filterMap HeaderValue.toStr =
      (headers.getAll name).map fun line => textOfBytes line.bytes := by
    rw [← filterMap_eq_map]
    apply filterMap_congr
    intro line hl
    obtain ⟨text, ht⟩ := Option.isSome_iff_exists.1 (hr line hl)
    rw [ht, (HeaderValue.toStr_eq_some.1 ht).2]
    rfl
  have hc : textOfBytes [44] = [','] := by decide
  unfold headerValues joinedBytes
  split
  · rw [htx, ← hc, textOfBytes, textOfBytes, map_intercalate, map_map]
    rfl
  next hn =>
  rw [headers.getAll_of_not_name (by simpa using hn)]
  rfl

/-- **Readable requests.**  A match between requests without unreadable lines is a match of bytes. -/
theorem sameValues_of_readable (hr : Readable names request) (ho : Readable names other)
    (hm : ∀ name ∈ names, headerValues other name = headerValues request name) :
    SameValues names request other := by
  intro name hn
  have h := hm name hn
  rw [headerValues_of_readable (ho name hn), headerValues_of_readable (hr name hn)] at h
  exact List.map_injective_iff.2 (fun _ _ => charOfByte_inj) h

/-! ## Unreadable lines -/

/-- The headers without the lines that are not visible ASCII. -/
def readablePart : HeaderMap :=
  headers.filter fun entry => entry.2.toStr.isSome

theorem getAll_readablePart (name : Str) :
    (readablePart headers).getAll name = (headers.getAll name).filter (·.toStr.isSome) :=
  headers.getAll_filter (fun _ value => value.toStr.isSome) name

theorem readable_readablePart (names : List Str) (headers : HeaderMap) : Readable names (readablePart headers) := by
  intro name _ line hl
  rw [getAll_readablePart] at hl
  exact (mem_filter.1 hl).2

/-- The recorded values do not see the lines that are left out. -/
theorem headerValues_readablePart (name : Str) :
    headerValues (readablePart headers) name = headerValues headers name := by
  unfold headerValues
  rw [getAll_readablePart, filterMap_filter]
  congr 2
  apply filterMap_congr
  intro line _
  cases line.toStr <;> rfl

/-- **Unreadable lines.**  A request with such a line carries other bytes than one without. -/
theorem not_sameValues_of_unreadable {headers : HeaderMap} (h : ¬ Readable names headers) (ho : Readable names other) :
    ¬ SameValues names headers other ∧ ¬ SameValues names other headers := by
  unfold Readable at h
  push Not at h
  obtain ⟨name, hn, line, hl, hbd⟩ := h
  have hnn : line.toStr = none := by simpa using hbd
  -- a byte of the line that is not visible ASCII is in the joined bytes of one side only
  obtain ⟨b, hb, hv⟩ : ∃ b ∈ line.bytes, isVisibleAscii b = false := by
    have ha := HeaderValue.toStr_eq_none.1 hnn
    rw [all_eq_true] at ha
    push Not at ha
    obtain ⟨b, hb, hne⟩ := ha
    exact ⟨b, hb, by simpa using hne⟩
  have hin : b ∈ joinedBytes headers name := mem_intercalate_of_mem (mem_map_of_mem hl) hb
  have hot : b ∉ joinedBytes other name := by
    intro hm
    rcases mem_intercalate hm with hsp | ⟨part, hp, hbp⟩
    · rw [mem_singleton] at hsp
      subst hsp
      exact absurd hv (by decide)
    obtain ⟨clean, hc, rfl⟩ := mem_map.1 hp
    obtain ⟨text, ht⟩ := Option.isSome_iff_exists.1 (ho name hn clean hc)
    have ha := all_eq_true.1 (HeaderValue.toStr_eq_some.1 ht).1 b hbp
    rw [hv] at ha
    contradiction
  constructor <;> exact fun hs => hot (hs name hn ▸ hin)

/-- Recording depends on the request only through the values of the named fields. -/
theorem varyMatchersResult_congr
    (h : ∀ name ∈ varyFieldNames limits response, headerValues other name = headerValues request name) :
    varyMatchersResult limits response other = varyMatchersResult limits response request := by
  unfold varyMatchersResult
  rw [Chain.accept_congr]
  intro line hl result
  unfold varyLine
  cases ht : line.toStr with
  | none => rfl
  | some text =>
    apply Chain.accept_congr
    intro name hn result
    unfold varyName
    simp only
    split
    · rfl
    split
    · rfl
    next hc =>
    have hf : toAsciiLowercase name ∈ varyFieldNames limits response := by
      refine mem_filter.2 ⟨mem_map_of_mem (mem_flatMap.2 ⟨text, ?_, hn⟩), ?_⟩
      · exact mem_filterMap.2 ⟨line, hl, ht⟩
      · simpa using hc
    rw [h _ hf]

end Cache
