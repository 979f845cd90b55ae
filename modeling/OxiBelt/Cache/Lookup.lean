import OxiBelt.Cache.Metadata

/-!
# Looking up a stored response (`cache/lookup.rs`)

A lookup selects a stored entry by its key and `Vary` record, drops it once it is past its retention,
and decides whether it is fresh, may be served stale, or has to be validated.

* `select_varyMatches`: a selected entry matches the `Vary` headers of the request.
* `lookup_of_select`: after the selection, the answer is `answer` on the entry and the time alone.
* `answer_unserved_iff`, `answer_unanswered_iff`: when entries that ask for validation, and requests
  that ask for it, are kept from being served without it.
-/

namespace Cache

open RustStd Http

structure StoredEntry where
  (lookupKey baseKey : Str)
  headers : HeaderMap
  metadata : ResponseMetadata
  dictionaryIdentity : Option Str
  queryTargetEpoch : Option Nat
  /-- `to_cache_entry` finds the body. -/
  bodyAvailable : Bool
  deriving DecidableEq

structure QueryIdentity where
  cacheViewHeaders : HeaderMap
  targetEpoch : Option Nat

structure CacheLookupContext where
  requestHeaders : HeaderMap
  queryIdentity : Option QueryIdentity := none
  originVaryHeaders : Option HeaderMap := none
  dictionaryIdentity : Option Str := none

/-- What `operation_context_with_dictionary` derives from policy and request. -/
structure Operation where
  (lookupKey baseKey : Str)
  backgroundRefresh : Bool
  deriving DecidableEq

/-- The answers of the runtime that a lookup asks before it looks for entries. -/
structure LookupGuards where
  (policyEnabled originPreconditionBypass : Bool)
  operation : Option Operation
  (queryTargetBypassed generationBound : Bool)

structure CacheInner where
  config : CacheConfig
  candidates : Str → Option (List Str)
  entries : List (Str × StoredEntry)
  groupEntryCurrent : StoredEntry → Bool
  nvsCurrent : StoredEntry → Bool

inductive CacheLookup where
  | fresh (entry : StoredEntry)
  | stale (entry : StoredEntry) (requestHeaders : List (Str × HeaderValue))
      (serveStaleOnError backgroundRefresh : Bool)
  | revalidate (entry : StoredEntry) (requestHeaders : List (Str × HeaderValue))
      (serveStaleOnError : Bool)

def cacheQueryDomain : Str := "\x00oxibelt-cache-query-v1\x00"

def groupQueryDomain : Str := "\x00oxibelt-cache-groups-query-v1\x00"

def isQueryV1BaseKey (baseKey : Str) : Bool :=
  (find cacheQueryDomain baseKey).isSome || (find groupQueryDomain baseKey).isSome

def cacheViewHeaders (ctx : CacheLookupContext) : HeaderMap :=
  match ctx.queryIdentity with
  | some identity => identity.cacheViewHeaders
  | none => ctx.requestHeaders

def originVaryHeaders (ctx : CacheLookupContext) : HeaderMap :=
  ctx.originVaryHeaders.getD (cacheViewHeaders ctx)

variable (entry : StoredEntry) (inner : CacheInner) (ctx : CacheLookupContext)

def cacheRequestBypassed (bypassHeaders : List Str) : Bool :=
  requestNoStore ctx.requestHeaders bypassHeaders ||
    ctx.queryIdentity.any fun identity => requestNoStore identity.cacheViewHeaders bypassHeaders

/-! ## Selection -/

def candidateMatches (operation : Operation) (entry : StoredEntry) : Bool :=
  inner.groupEntryCurrent entry && entry.dictionaryIdentity == ctx.dictionaryIdentity &&
    varyMatches entry.metadata.vary (originVaryHeaders ctx) && inner.nvsCurrent entry &&
    (!isQueryV1BaseKey operation.baseKey ||
      entry.queryTargetEpoch == ctx.queryIdentity.bind (·.targetEpoch))

def lookupCandidate (operation : Operation) : Option (Str × StoredEntry) :=
  ((inner.candidates operation.lookupKey).getD []).findSome? fun key =>
    (inner.entries.lookup key).bind fun entry =>
      if candidateMatches inner ctx operation entry then some (key, entry) else none

/-- The part of `lookup` up to the selected entry. -/
def select (guards : LookupGuards) (ctx : CacheLookupContext) : Option (Operation × Str × StoredEntry) :=
  if !guards.policyEnabled then none
  else if guards.originPreconditionBypass then none
  else if cacheRequestBypassed ctx inner.config.bypassRequestHeaders then none
  else
    match guards.operation with
    | none => none
    | some operation =>
      if guards.queryTargetBypassed then none
      else if !guards.generationBound then none
      else (lookupCandidate inner ctx operation).map fun (key, entry) => (operation, key, entry)

/-! ## The answer for an entry -/

def opensAfter (limit : Option SystemTime) (now : SystemTime) : Bool := limit.any (now < ·)

def retainUntil : SystemTime :=
  let m := entry.metadata
  let limit := m.staleIfErrorUntil.getD m.expiresAt
  if isQueryV1BaseKey entry.baseKey then max limit (m.staleWhileRevalidateUntil.getD m.expiresAt)
  else limit

def servableOnError (now : SystemTime) : Bool :=
  (!isQueryV1BaseKey entry.baseKey || !entry.metadata.mustRevalidate) &&
    opensAfter entry.metadata.staleIfErrorUntil now

def answerRetained (requestHeaders : HeaderMap) (backgroundRefresh : Bool) (now : SystemTime) : Option CacheLookup :=
  let m := entry.metadata
  if requestNoCache requestHeaders || m.mustRevalidate || decide (m.expiresAt ≤ now) then
    let validators := validatorHeaders entry.headers
    if !requestNoCache requestHeaders && !m.mustRevalidate && opensAfter m.staleWhileRevalidateUntil now
    then some (.stale entry validators (servableOnError entry now) backgroundRefresh)
    else if validators.isEmpty then
      if isQueryV1BaseKey entry.baseKey && (requestNoCache requestHeaders || m.mustRevalidate) then none
      else if opensAfter m.staleWhileRevalidateUntil now then
        some (.stale entry [] (servableOnError entry now)
          (opensAfter m.staleWhileRevalidateUntil now && backgroundRefresh))
      else if opensAfter m.staleIfErrorUntil now then some (.revalidate entry [] true)
      else none
    else some (.revalidate entry validators (servableOnError entry now))
  else some (.fresh entry)

def removeEntry (key : Str) : CacheInner :=
  { inner with
    candidates := fun lookupKey => (inner.candidates lookupKey).map (·.filter (· != key))
    entries := inner.entries.filter fun entry => entry.1 != key }

/-- `ResponseCache::lookup` on the local tier: the answer, and the cache after it. -/
def lookup (guards : LookupGuards) (ctx : CacheLookupContext) (now : SystemTime) : Option CacheLookup × CacheInner :=
  match select inner guards ctx with
  | none => (none, inner)
  | some (operation, key, entry) =>
    if retainUntil entry ≤ now then (none, removeEntry inner key)
    else if !entry.bodyAvailable then (none, removeEntry inner key)
    else (answerRetained entry (cacheViewHeaders ctx) operation.backgroundRefresh now, inner)

/-! ## What an answer lets happen -/

/-- The entry is handed out as stale content. -/
def isStale : Option CacheLookup → Bool
  | some (.stale ..) => true
  | _ => false

/-- The entry may be served if the origin fails. -/
def isServableOnError : Option CacheLookup → Bool
  | some (.stale _ _ serve _) => serve
  | some (.revalidate _ _ serve) => serve
  | _ => false

/-- The request is answered from the entry before the origin is asked. -/
def answersUnvalidated : Option CacheLookup → Bool
  | some (.fresh _) => true
  | some (.stale ..) => true
  | _ => false

section Answer

variable {entry : StoredEntry} {requestHeaders : HeaderMap} {backgroundRefresh : Bool}
  {now : SystemTime}

/-- An entry that has to be revalidated is neither stale content nor servable on error exactly if it
is a QUERY entry or its stale windows are closed; a validator also closes the first. -/
theorem answerRetained_mustRevalidate (hm : entry.metadata.mustRevalidate = true) :
    (isStale (answerRetained entry requestHeaders backgroundRefresh now) = false ∧
      isServableOnError (answerRetained entry requestHeaders backgroundRefresh now) = false) ↔
    isQueryV1BaseKey entry.baseKey = true ∨
      (opensAfter entry.metadata.staleIfErrorUntil now = false ∧
        (validatorHeaders entry.headers ≠ [] ∨
          opensAfter entry.metadata.staleWhileRevalidateUntil now = false)) := by
  unfold answerRetained servableOnError
  simp only [hm, Bool.or_true, Bool.true_or, if_true, Bool.not_true, Bool.and_false,
    Bool.false_and, Bool.false_eq_true, if_false, Bool.or_false, Bool.and_true]
  cases hv : validatorHeaders entry.headers with
  | nil =>
    simp only [List.isEmpty_nil, if_true]
    cases hq : isQueryV1BaseKey entry.baseKey with
    | true => simp [isStale, isServableOnError]
    | false =>
      cases hsw : opensAfter entry.metadata.staleWhileRevalidateUntil now with
      | true => simp [isStale]
      | false => cases hs : opensAfter entry.metadata.staleIfErrorUntil now <;>
          simp [isStale, isServableOnError]
  | cons v vs =>
    cases hq : isQueryV1BaseKey entry.baseKey <;>
      cases hs : opensAfter entry.metadata.staleIfErrorUntil now <;>
      simp [isStale, isServableOnError]

/-- A request that asks for validation is answered without it exactly from an entry without
validators, not of a QUERY, whose window for background refresh is open. -/
theorem answerRetained_noCache (hr : requestNoCache requestHeaders = true) :
    answersUnvalidated (answerRetained entry requestHeaders backgroundRefresh now) = false ↔
      isQueryV1BaseKey entry.baseKey = true ∨ validatorHeaders entry.headers ≠ [] ∨
        opensAfter entry.metadata.staleWhileRevalidateUntil now = false := by
  unfold answerRetained
  simp only [hr, Bool.true_or, if_true, Bool.not_true, Bool.false_and, Bool.false_eq_true, if_false, Bool.and_true]
  cases hv : validatorHeaders entry.headers with
  | nil =>
    simp only [List.isEmpty_nil, if_true]
    cases hq : isQueryV1BaseKey entry.baseKey with
    | true => simp [answersUnvalidated]
    | false =>
      cases hs : opensAfter entry.metadata.staleWhileRevalidateUntil now with
      | true => simp [answersUnvalidated]
      | false => cases hsi : opensAfter entry.metadata.staleIfErrorUntil now <;>
          simp [answersUnvalidated]
  | cons v vs => simp [answersUnvalidated]

end Answer

variable {ctx : CacheLookupContext} {operation : Operation} {guards : LookupGuards} {entry : StoredEntry}
  {inner : CacheInner} {headers : HeaderMap} {now : SystemTime} {key : Str}

def Held (entry : StoredEntry) (now : SystemTime) : Prop :=
  now < retainUntil entry ∧ entry.bodyAvailable = true

/-- A QUERY entry, one that is gone, or one whose window for origin errors is closed and that has a
validator or a closed window for background refresh. -/
def KeptForOrigin (entry : StoredEntry) (now : SystemTime) : Prop :=
  Held entry now → isQueryV1BaseKey entry.baseKey = true ∨
    (opensAfter entry.metadata.staleIfErrorUntil now = false ∧
      (validatorHeaders entry.headers ≠ [] ∨
        opensAfter entry.metadata.staleWhileRevalidateUntil now = false))

/-- A QUERY entry, one that is gone, one with a validator, or one whose window for background refresh
is closed. -/
def KeptFromNoCache (entry : StoredEntry) (now : SystemTime) : Prop :=
  Held entry now → isQueryV1BaseKey entry.baseKey = true ∨ validatorHeaders entry.headers ≠ [] ∨
    opensAfter entry.metadata.staleWhileRevalidateUntil now = false

open Classical in
/-- After the selection, the answer depends on the entry, the request and the time. -/
theorem lookup_of_select (h : select inner guards ctx = some (operation, key, entry)) :
    (lookup inner guards ctx now).1 = if Held entry now then
      answerRetained entry (cacheViewHeaders ctx) operation.backgroundRefresh now else none := by
  rw [lookup, h]
  by_cases hr : retainUntil entry ≤ now
  · simp [Held, hr, Nat.not_lt.2 hr]
  · cases hb : entry.bodyAvailable <;> simp [Held, hr, hb, Nat.lt_of_not_le hr]

/-- **Revalidation.**  A response stored with no-cache, must-revalidate or proxy-revalidate in force
is neither handed out as stale content nor marked servable on error exactly if it is kept for the
origin; and a request with no-cache is not answered before the origin is asked exactly if the entry
is kept from it. -/
theorem lookup_revalidation_iff (parseHttpDate : Str → Option SystemTime) (config : CacheConfig)
    (policy : CachePolicyRuntime) (fill response : HeaderMap) (certificate : Option Str) (status : Nat)
    (storedAt : SystemTime) (inner : CacheInner) (guards : LookupGuards) (ctx : CacheLookupContext)
    (now : SystemTime) (operation : Operation) (key : Str) (entry : StoredEntry)
    (hstored : cacheMetadata parseHttpDate config policy fill certificate status response storedAt =
      .ok entry.metadata)
    (hselect : select inner guards ctx = some (operation, key, entry)) :
    (asksRevalidation (cacheControlDirectives response) = true →
      surrogateInForce config response = none →
      ((isStale (lookup inner guards ctx now).1 = false ∧
        isServableOnError (lookup inner guards ctx now).1 = false) ↔ KeptForOrigin entry now)) ∧
    (requestNoCache (cacheViewHeaders ctx) = true →
      (answersUnvalidated (lookup inner guards ctx now).1 = false ↔ KeptFromNoCache entry now)) := by
  rw [lookup_of_select hselect]
  by_cases hh : Held entry now
  · rw [if_pos hh]
    constructor
    · intro ha hs
      have hm : entry.metadata.mustRevalidate = true := by
        rw [(cacheMetadata_eq_ok parseHttpDate hstored).1, ha, hs]
        rfl
      rw [answerRetained_mustRevalidate hm]
      exact ⟨fun h _ => h, fun h => h hh⟩
    · intro hr
      rw [answerRetained_noCache hr]
      exact ⟨fun h _ => h, fun h => h hh⟩
  · rw [if_neg hh]
    refine ⟨fun _ _ => ?_, fun _ => ?_⟩
    · exact ⟨fun _ h => absurd h hh, fun _ => ⟨rfl, rfl⟩⟩
    · exact ⟨fun _ h => absurd h hh, fun _ => rfl⟩

/-! ## One stored page -/

/-- A cache that stores for a minute and keeps no stale windows of its own. -/
def pageConfig : CacheConfig where
  surrogateEnabled := false
  respectCacheControl := true
  staleIfErrorSeconds := 0
  staleWhileRevalidateSeconds := 0

def pagePolicy : CachePolicyRuntime where
  defaultTtlSeconds := 60
  negativeStatuses := []
  negativeTtlSeconds := 0
  maxVaryFields := 8
  maxUpstreamStaleSeconds := 0
  backgroundRefresh := true

def pageOperation : Operation := ⟨"page", "page", true⟩

def pageGuards : LookupGuards := ⟨true, false, some pageOperation, false, true⟩

def pageInner (entry : StoredEntry) : CacheInner where
  config := pageConfig
  candidates := fun _ => some ["page"]
  entries := [("page", entry)]
  groupEntryCurrent := fun _ => true
  nvsCurrent := fun _ => true

def pageEntry (headers : HeaderMap) (metadata : ResponseMetadata) : StoredEntry where
  lookupKey := "page"
  baseKey := "page"
  headers := headers
  metadata := metadata
  dictionaryIdentity := none
  queryTargetEpoch := none
  bodyAvailable := true

def pageContext : CacheLookupContext := { requestHeaders := .empty }

/-- `Cache-Control: no-cache` with both stale windows, and no validator. -/
def stalePage : HeaderMap :=
  ⟨[(cacheControlHeader,
    .ofText "no-cache, max-age=60, stale-while-revalidate=30, stale-if-error=300" (by decide))],
    by decide⟩

def staleMetadata : ResponseMetadata where
  expiresAt := 0
  staleIfErrorUntil := some (300 * nanosPerSecond)
  staleWhileRevalidateUntil := some (30 * nanosPerSecond)
  mustRevalidate := true
  storedAt := 0
  vary := []

def queryEntry : StoredEntry := { pageEntry stalePage staleMetadata with baseKey := cacheQueryDomain }

def queryOperation : Operation := { pageOperation with baseKey := cacheQueryDomain }

def noCacheRequest : HeaderMap := ⟨[(cacheControlHeader, .ofText "no-cache, max-age=0" (by decide))], by decide⟩

def queryContext : CacheLookupContext :=
  { requestHeaders := noCacheRequest, queryIdentity := some ⟨noCacheRequest, none⟩ }

/-- With both windows open, the QUERY entry is kept for the origin, and from a request with no-cache. -/
theorem lookup_revalidation_query :
    let answer := (lookup (pageInner queryEntry) { pageGuards with operation := some queryOperation } queryContext
      nanosPerSecond).1
    Held queryEntry nanosPerSecond ∧ (isStale answer = false ∧ isServableOnError answer = false) ∧
      answersUnvalidated answer = false := by
  intro answer
  have hq : isQueryV1BaseKey queryEntry.baseKey = true := by decide +kernel
  obtain ⟨hs, hn⟩ := lookup_revalidation_iff (fun _ => none) pageConfig pagePolicy .empty stalePage none 200 0
    (pageInner queryEntry) { pageGuards with operation := some queryOperation } queryContext nanosPerSecond
    queryOperation "page" queryEntry (by decide +kernel) (by decide +kernel)
  refine ⟨⟨by decide +kernel, rfl⟩, (hs (by decide +kernel) rfl).2 ?_, (hn (by decide +kernel)).2 ?_⟩
  · exact fun _ => .inl hq
  · exact fun _ => .inl hq

/-- One second after it is stored, the page is handed out as stale content and marked servable on
error, to a plain request and to one that carries no-cache. -/
theorem lookup_serves_no_cache_page :
    cacheMetadata (fun _ => none) pageConfig pagePolicy .empty none 200 stalePage 0 = .ok staleMetadata ∧
    asksRevalidation (cacheControlDirectives stalePage) = true ∧
    isStale (lookup (pageInner (pageEntry stalePage staleMetadata)) pageGuards pageContext
      nanosPerSecond).1 = true ∧
    isServableOnError (lookup (pageInner (pageEntry stalePage staleMetadata)) pageGuards pageContext
      nanosPerSecond).1 = true ∧
    answersUnvalidated (lookup (pageInner (pageEntry stalePage staleMetadata)) pageGuards
      { requestHeaders := ⟨[(cacheControlHeader, .ofText "no-cache" (by decide))], by decide⟩ }
      nanosPerSecond).1 = true := by
  refine ⟨?_, ?_, ?_, ?_, ?_⟩ <;> decide +kernel

/-! ## The variant of a selected entry -/

theorem select_varyMatches (h : select inner guards ctx = some (operation, key, entry)) :
    varyMatches entry.metadata.vary (originVaryHeaders ctx) = true := by
  unfold select at h
  iterate 3
    split at h
    · contradiction
  split at h
  · contradiction
  iterate 2
    split at h
    · contradiction
  obtain ⟨⟨key', entry'⟩, hc, heq⟩ := Option.map_eq_some_iff.1 h
  cases heq
  obtain ⟨k, -, hk⟩ := List.exists_of_findSome?_eq_some hc
  obtain ⟨e, -, he⟩ := Option.bind_eq_some_iff.1 hk
  split at he
  · next hm =>
    cases he
    simp only [candidateMatches, Bool.and_eq_true] at hm
    exact hm.1.1.2
  · contradiction

/-- The same lookup with other headers for `Vary`. -/
def withVaryHeaders (ctx : CacheLookupContext) (headers : HeaderMap) : CacheLookupContext :=
  { ctx with originVaryHeaders := some headers }

/-- Headers with the same recorded values select the same entry. -/
theorem select_withVaryHeaders (inner : CacheInner) (guards : LookupGuards) (ctx : CacheLookupContext)
    (h : ∀ name, headerValues headers name = headerValues (originVaryHeaders ctx) name) :
    select inner guards (withVaryHeaders ctx headers) = select inner guards ctx := by
  have hv : ∀ vary, varyMatches vary headers = varyMatches vary (originVaryHeaders ctx) := by
    intro vary
    simp only [varyMatches, h]
  have hc : ∀ operation entry, candidateMatches inner (withVaryHeaders ctx headers) operation entry =
      candidateMatches inner ctx operation entry := by
    intro operation entry
    have ho : originVaryHeaders (withVaryHeaders ctx headers) = headers := rfl
    rw [candidateMatches, ho, hv]
    rfl
  unfold select lookupCandidate
  simp only [hc]
  rfl

/-- The headers, or what is left of them without their unreadable lines. -/
def LinesDropped (headers other : HeaderMap) : Prop := other = headers ∨ other = readablePart headers

theorem LinesDropped.headerValues_eq {other : HeaderMap} (h : LinesDropped headers other) (name : Str) :
    headerValues other name = headerValues headers name := by
  rcases h with rfl | rfl
  · rfl
  · exact headerValues_readablePart headers name

theorem LinesDropped.readable {names : List Str} {other : HeaderMap} (h : LinesDropped headers other)
    (hr : Readable names headers) : Readable names other := by
  rcases h with rfl | rfl
  · exact hr
  · exact readable_readablePart names headers

/-- **Variants.**  Let a lookup select an entry that another request filled.  Dropping unreadable lines
on either side leaves the recorded fields and the selection as they are.  The requests carry the same
values for the fields the response varies on, whether or not such lines are dropped, exactly if there
are none in either request. -/
theorem select_same_values_iff (parseHttpDate : Str → Option SystemTime) (config : CacheConfig)
    (policy : CachePolicyRuntime) (fill response : HeaderMap) (certificate : Option Str) (status : Nat)
    (storedAt : SystemTime) (inner : CacheInner) (guards : LookupGuards) (ctx : CacheLookupContext)
    (operation : Operation) (key : Str) (entry : StoredEntry)
    (hstored : cacheMetadata parseHttpDate config policy fill certificate status response storedAt =
      .ok entry.metadata)
    (hselect : select inner guards ctx = some (operation, key, entry)) :
    (∀ fill' request', LinesDropped fill fill' → LinesDropped (originVaryHeaders ctx) request' →
      varyMatchersResult (policyLimits policy certificate) response fill' = .ok entry.metadata.vary ∧
      select inner guards (withVaryHeaders ctx request') = some (operation, key, entry)) ∧
    ((∀ fill' request', LinesDropped fill fill' → LinesDropped (originVaryHeaders ctx) request' →
      SameValues (varyFieldNames (policyLimits policy certificate) response) fill' request') ↔
      Readable (varyFieldNames (policyLimits policy certificate) response) fill ∧
        Readable (varyFieldNames (policyLimits policy certificate) response) (originVaryHeaders ctx)) := by
  have hv := storable_eq_ok (cacheMetadata_eq_ok parseHttpDate hstored).2
  have hm := (varyMatches_iff hv).1 (select_varyMatches hselect)
  refine ⟨fun fill' request' hf hr => ⟨?_, ?_⟩, ?_, ?_⟩
  · rw [varyMatchersResult_congr fun name _ => hf.headerValues_eq name]
    exact hv
  · rw [select_withVaryHeaders inner guards ctx hr.headerValues_eq]
    exact hselect
  · intro ha
    constructor
    · by_contra hb
      exact (not_sameValues_of_unreadable hb (readable_readablePart _ _)).1
        (ha fill (readablePart (originVaryHeaders ctx)) (.inl rfl) (.inr rfl))
    by_contra hb
    exact (not_sameValues_of_unreadable hb (readable_readablePart _ _)).2
      (ha (readablePart fill) (originVaryHeaders ctx) (.inr rfl) (.inl rfl))
  · rintro ⟨hfl, hrq⟩ fill' request' hf hr
    refine sameValues_of_readable (hf.readable hfl) (hr.readable hrq) fun name hn => ?_
    rw [hf.headerValues_eq, hr.headerValues_eq]
    exact hm name hn

def tenantPage : HeaderMap := ⟨[(varyHeader, .ofText "X-Tenant" (by decide))], by decide⟩

theorem tenant_name : isHeaderName "x-tenant" = true := by decide +kernel

def tenantRequest (bytes : ByteString.Bytes) (h : bytes.all isValueByte = true) : HeaderMap where
  entries := [("x-tenant", ⟨bytes, h⟩)]
  names := by rw [List.all_cons, tenant_name]; rfl

def tenantMetadata (value : Str) : ResponseMetadata where
  expiresAt := 60 * nanosPerSecond
  staleIfErrorUntil := none
  staleWhileRevalidateUntil := none
  mustRevalidate := false
  storedAt := 0
  vary := [⟨"x-tenant", value⟩]

theorem select_same_values_tenant :
    SameValues ["x-tenant"] (tenantRequest [97] (by decide)) (tenantRequest [97] (by decide)) := by
  have h := (select_same_values_iff (fun _ => none) pageConfig pagePolicy
    (tenantRequest [97] (by decide)) tenantPage none 200 0
    (pageInner (pageEntry tenantPage (tenantMetadata ['a']))) pageGuards
    { requestHeaders := tenantRequest [97] (by decide) } pageOperation "page"
    (pageEntry tenantPage (tenantMetadata ['a'])) (by decide +kernel) (by decide +kernel)).2
  have hn : varyFieldNames (policyLimits pagePolicy none) tenantPage = ["x-tenant"] := by
    decide +kernel
  rw [hn] at h
  have hr : Readable ["x-tenant"] (tenantRequest [97] (by decide)) := by
    unfold Readable
    decide +kernel
  exact h.2 ⟨hr, hr⟩ _ _ (.inl rfl) (.inl rfl)

/-- Two tenants whose names are not ASCII: the page filled for one is selected for the other. -/
theorem select_mixes_tenants :
    cacheMetadata (fun _ => none) pageConfig pagePolicy (tenantRequest [0xc3, 0xa9] (by decide)) none
      200 tenantPage 0 = .ok (tenantMetadata []) ∧
    select (pageInner (pageEntry tenantPage (tenantMetadata []))) pageGuards
      { requestHeaders := tenantRequest [0xc3, 0xa8] (by decide) } =
      some (pageOperation, "page".toList, pageEntry tenantPage (tenantMetadata [])) ∧
    "x-tenant".toList ∈ varyFieldNames (policyLimits pagePolicy none) tenantPage ∧
    joinedBytes (tenantRequest [0xc3, 0xa8] (by decide)) "x-tenant" ≠
      joinedBytes (tenantRequest [0xc3, 0xa9] (by decide)) "x-tenant" := by
  refine ⟨?_, ?_, ?_, ?_⟩ <;> decide +kernel

end Cache
