import OxiBelt.Cache.Vary

/-!
# Freshness of a stored response (`cache/response_metadata.rs`)

The cache directives of requests and responses, and `cache_metadata`, which decides whether a response
may be stored and until when it is fresh, may be served while it is revalidated, and may be served
when the origin fails.  Times are nanoseconds since the epoch; adding past the range of `SystemTime`
aborts in the source and is an error of its own here.
-/

namespace Cache

open RustStd Http

/-! ## Directives -/

/-- The directives of `Cache-Control` in order; a later one replaces an earlier one. -/
structure CacheControl where
  values : List (Str × Option Str)

def CacheControl.has (directives : CacheControl) (name : Str) : Bool :=
  directives.values.any fun entry => entry.1 == name

def CacheControl.seconds (directives : CacheControl) (name : Str) : Option Nat :=
  ((directives.values.reverse.lookup name).bind id).bind parseU64

/-- One list item: its name in lower case, and its value without quotes. -/
def cacheControlItem (item : Str) : Option (Str × Option Str) :=
  let item := trim item
  if item.isEmpty then none
  else
    match splitOnce '=' item with
    | some (name, value) =>
      some (toAsciiLowercase (trim name), some (trimMatches (· == '"') (trim value)))
    | none => some (toAsciiLowercase item, none)

def cacheControlHeader : Str := "cache-control"

def cacheControlDirectives (headers : HeaderMap) : CacheControl where
  values := ((headers.getAll cacheControlHeader).filterMap HeaderValue.toStr).flatMap fun value =>
    (value.splitOn ',').filterMap cacheControlItem

structure SurrogateControl where
  noStore : Bool := false
  maxAge : Option Nat := none
  staleIfError : Option Nat := none
  staleWhileRevalidate : Option Nat := none

def surrogateItem (result : SurrogateControl) (item : Str) : SurrogateControl :=
  let (name, value) :=
    match splitOnce '=' item with
    | some (name, value) => (toAsciiLowercase (trim name), some (trim value))
    | none => (toAsciiLowercase item, none)
  if name == "no-store" then { result with noStore := true }
  else if name == "max-age" then { result with maxAge := value.bind parseU64 }
  else if name == "stale-if-error" then { result with staleIfError := value.bind parseU64 }
  else if name == "stale-while-revalidate" then
    { result with staleWhileRevalidate := value.bind parseU64 }
  else result

def surrogateControlHeader : Str := "surrogate-control"

def surrogateControlDirectives (headers : HeaderMap) : Option SurrogateControl :=
  let items := ((headers.getAll surrogateControlHeader).filterMap HeaderValue.toStr).flatMap
    fun value => (((value.splitOn ',').flatMap (·.splitOn ';')).map trim).filter (!·.isEmpty)
  if items.isEmpty then none else some (items.foldl surrogateItem {})

def requestNoStore (headers : HeaderMap) (bypassHeaders : List Str) : Bool :=
  bypassHeaders.any headers.containsKey || (cacheControlDirectives headers).has "no-store"

def pragmaHeader : Str := "pragma"

def requestNoCache (headers : HeaderMap) : Bool :=
  (match (headers.get pragmaHeader).bind HeaderValue.toStr with
    | some value => eqIgnoreAsciiCase value "no-cache"
    | none => false) ||
  (cacheControlDirectives headers).has "no-cache"

/-- `validator_headers`: the request fields that ask the origin to validate the entry. -/
def validatorHeaders (headers : HeaderMap) : List (Str × HeaderValue) :=
  ((headers.get "etag".toList).map fun etag => ("if-none-match".toList, etag)).toList ++
    ((headers.get "last-modified".toList).map fun time => ("if-modified-since".toList, time)).toList

/-! ## Metadata of a response -/

abbrev SystemTime := Nat

def nanosPerSecond : Nat := 1000000000

/-- `SystemTime + Duration::from_secs`; the seconds of a `SystemTime` are a 64-bit signed number. -/
def addSecs (time : SystemTime) (seconds : Nat) : Option SystemTime :=
  let sum := time + seconds * nanosPerSecond
  if sum / nanosPerSecond < 2 ^ 63 then some sum else none

inductive CacheFillSuppressionReason where
  | unknown
  | setCookie
  | responseNoStore
  | responsePrivate
  | varyRejected
  deriving DecidableEq, Repr

/-- Why there is no metadata: the response is not stored, or a time addition aborts. -/
inductive MetadataError where
  | suppressed (reason : CacheFillSuppressionReason)
  | overflow
  deriving DecidableEq, Repr

structure CacheConfig where
  (surrogateEnabled respectCacheControl : Bool)
  (staleIfErrorSeconds staleWhileRevalidateSeconds : Nat)
  bypassRequestHeaders : List Str := []

structure CachePolicyRuntime where
  defaultTtlSeconds : Nat
  negativeStatuses : List Nat
  (negativeTtlSeconds maxVaryFields maxUpstreamStaleSeconds : Nat)
  backgroundRefresh : Bool

structure ResponseMetadata where
  expiresAt : SystemTime
  (staleIfErrorUntil staleWhileRevalidateUntil : Option SystemTime)
  mustRevalidate : Bool
  storedAt : SystemTime
  vary : List VaryMatcher
  deriving DecidableEq

def cacheableStatus (policy : CachePolicyRuntime) (status : Nat) : Bool :=
  [200, 203, 204, 301, 308].contains status || policy.negativeStatuses.contains status

def responseHasSetCookie (headers : HeaderMap) : Bool := headers.containsKey "set-cookie"

def hasNonIdentityContentEncoding (headers : HeaderMap) : Bool :=
  (headers.getAll "content-encoding").any fun value =>
    match value.toStr with
    | some text => !eqIgnoreAsciiCase (trim text) "identity"
    | none => true

def responseVariesAcceptEncoding (headers : HeaderMap) : Bool :=
  ((((headers.getAll varyHeader).filterMap HeaderValue.toStr).flatMap (·.splitOn ',')).map trim).any
    fun item => item == ['*'] || eqIgnoreAsciiCase item "accept-encoding"

section Metadata

-- the parser of HTTP dates (`httpdate::parse_http_date`)
variable (parseHttpDate : Str → Option SystemTime)

def expiresTtl (headers : HeaderMap) (now : SystemTime) : Option Nat :=
  (((headers.get "expires").bind HeaderValue.toStr).bind parseHttpDate).map fun expires =>
    (expires - now) / nanosPerSecond

def maxVaryValueBytes : Nat := 8192

variable (config : CacheConfig) (policy : CachePolicyRuntime)

variable (requestHeaders : HeaderMap) (certificateHeader : Option Str) (surrogate : Option SurrogateControl)

/-- The limits under which the fields of a response are recorded. -/
def policyLimits : VaryLimits :=
  ⟨certificateHeader, policy.maxVaryFields, maxVaryValueBytes⟩

/-- The lifetime of a response: the first of surrogate, shared, private and `Expires` lifetimes. -/
def responseTtl (directives : CacheControl) (responseHeaders : HeaderMap) (status : Nat) (now : SystemTime) : Nat :=
  let ttl := (surrogate.bind (·.maxAge)).getD <|
    if config.respectCacheControl then
      (((directives.seconds "s-maxage").or (directives.seconds "max-age")).or
        (expiresTtl parseHttpDate responseHeaders now)).getD policy.defaultTtlSeconds
    else policy.defaultTtlSeconds
  if policy.negativeStatuses.contains status then policy.negativeTtlSeconds else ttl

/-- A stale window: the surrogate's, the response's or the configured one. -/
def staleSeconds (surrogate : Option Nat) (directive : Option Nat) (configured : Nat) : Nat :=
  surrogate.getD (if config.respectCacheControl then directive.getD configured else configured)

def staleIfErrorSeconds (config : CacheConfig) (policy : CachePolicyRuntime)
    (surrogate : Option SurrogateControl) (directives : CacheControl) : Nat :=
  let seconds := staleSeconds config (surrogate.bind (·.staleIfError))
    (directives.seconds "stale-if-error") config.staleIfErrorSeconds
  if 0 < policy.maxUpstreamStaleSeconds then min seconds policy.maxUpstreamStaleSeconds else seconds

def staleWhileRevalidateSeconds (config : CacheConfig) (surrogate : Option SurrogateControl)
    (directives : CacheControl) : Nat :=
  staleSeconds config (surrogate.bind (·.staleWhileRevalidate))
    (directives.seconds "stale-while-revalidate") config.staleWhileRevalidateSeconds

/-- The directives of a response that ask for validation before every use. -/
def asksRevalidation (directives : CacheControl) : Bool :=
  directives.has "no-cache" || directives.has "must-revalidate" ||
    directives.has "proxy-revalidate"

def surrogateInForce (responseHeaders : HeaderMap) : Option SurrogateControl :=
  if config.surrogateEnabled then surrogateControlDirectives responseHeaders else none

/-- A window of this many seconds behind `start`, if there is one. -/
def windowUntil (start : SystemTime) (seconds : Nat) : Except MetadataError (Option SystemTime) :=
  if 0 < seconds then
    match addSecs start seconds with
    | some limit => .ok (some limit)
    | none => .error .overflow
  else .ok none

/-- The checks before any time is computed. -/
def storable (status : Nat) (responseHeaders : HeaderMap) : Except MetadataError (List VaryMatcher) :=
  let directives := cacheControlDirectives responseHeaders
  let surrogate := surrogateInForce config responseHeaders
  if status = 206 then .error (.suppressed .unknown)
  else if !cacheableStatus policy status then .error (.suppressed .unknown)
  else if responseHasSetCookie responseHeaders then .error (.suppressed .setCookie)
  else if (cacheControlDirectives requestHeaders).has "no-store" then
    .error (.suppressed .unknown)
  else if surrogate.any (·.noStore) then .error (.suppressed .responseNoStore)
  else if surrogate.isNone && config.respectCacheControl && directives.has "no-store" then
    .error (.suppressed .responseNoStore)
  else if surrogate.isNone && config.respectCacheControl && directives.has "private" then
    .error (.suppressed .responsePrivate)
  else
    match varyMatchersResult (policyLimits policy certificateHeader) responseHeaders requestHeaders with
    | .error _ => .error (.suppressed .varyRejected)
    | .ok vary =>
      if hasNonIdentityContentEncoding responseHeaders && !responseVariesAcceptEncoding responseHeaders
      then .error (.suppressed .varyRejected)
      else .ok vary

def expiresAt (mustRevalidate : Bool) (ttl : Nat) (now : SystemTime) : Except MetadataError SystemTime :=
  if mustRevalidate then .ok now
  else
    match addSecs now ttl with
    | some time => .ok time
    | none => .error .overflow

/-- The times of a response with this lifetime. -/
def metadataTimes (directives : CacheControl) (vary : List VaryMatcher)
    (ttl : Nat) (now : SystemTime) : Except MetadataError ResponseMetadata :=
  let mustRevalidate := surrogate.isNone && asksRevalidation directives
  match expiresAt mustRevalidate ttl now with
  | .error e => .error e
  | .ok expiresAt =>
    match windowUntil expiresAt (staleIfErrorSeconds config policy surrogate directives),
        windowUntil expiresAt (staleWhileRevalidateSeconds config surrogate directives) with
    | .ok staleIfErrorUntil, .ok staleWhileRevalidateUntil =>
      .ok { expiresAt, staleIfErrorUntil, staleWhileRevalidateUntil, mustRevalidate, storedAt := now,
            vary }
    | .error e, _ => .error e
    | _, .error e => .error e

def cacheMetadata (status : Nat) (responseHeaders : HeaderMap) (now : SystemTime) :
    Except MetadataError ResponseMetadata :=
  match storable config policy requestHeaders certificateHeader status responseHeaders with
  | .error e => .error e
  | .ok vary =>
    let directives := cacheControlDirectives responseHeaders
    let surrogate := surrogateInForce config responseHeaders
    let ttl := responseTtl parseHttpDate config policy surrogate directives responseHeaders status now
    if ttl = 0 then .error (.suppressed .unknown)
    else metadataTimes config policy surrogate directives vary ttl now

variable {policy : CachePolicyRuntime} {config : CacheConfig}

/-- What the stored flags and matchers come from. -/
theorem cacheMetadata_eq_ok {request response : HeaderMap} {certificate : Option Str} {status : Nat} {now : SystemTime}
    {m : ResponseMetadata}
    (h : cacheMetadata parseHttpDate config policy request certificate status response now = .ok m) :
    m.mustRevalidate = ((surrogateInForce config response).isNone &&
        asksRevalidation (cacheControlDirectives response)) ∧
      storable config policy request certificate status response = .ok m.vary := by
  unfold cacheMetadata at h
  split at h
  · contradiction
  next vary hv =>
  dsimp only at h
  split at h
  · contradiction
  unfold metadataTimes at h
  dsimp only at h
  split at h
  · contradiction
  split at h
  · cases h
    exact ⟨rfl, hv⟩
  · contradiction
  · contradiction

/-- A stored response has its fields recorded from the request that filled it. -/
theorem storable_eq_ok {request response : HeaderMap} {certificate : Option Str} {status : Nat}
    {vary : List VaryMatcher} (h : storable config policy request certificate status response = .ok vary) :
    varyMatchersResult (policyLimits policy certificate) response request = .ok vary := by
  unfold storable at h
  dsimp only at h
  -- seven refusals come before the fields are recorded
  iterate 7
    split at h
    · contradiction
  split at h
  · contradiction
  next recorded hr =>
  split at h
  · contradiction
  · cases h
    exact hr

/-! ## Times -/

section Times

variable {start now seconds ttl : Nat} {surrogate : Option SurrogateControl} {directives : CacheControl}

/-- The end of what a `SystemTime` holds. -/
def endOfTime : Nat := 2 ^ 63 * nanosPerSecond

theorem addSecs_eq : addSecs start seconds =
    if start + seconds * nanosPerSecond < endOfTime then some (start + seconds * nanosPerSecond) else none :=
  if_congr (Nat.div_lt_iff_lt_mul (by decide)) rfl rfl

theorem windowUntil_eq (h : start < endOfTime) : windowUntil start seconds =
    if start + seconds * nanosPerSecond < endOfTime then
      .ok (if 0 < seconds then some (start + seconds * nanosPerSecond) else none) else .error .overflow := by
  rw [windowUntil, addSecs_eq]
  by_cases hs : 0 < seconds
  · simp only [hs, if_true]
    split_ifs <;> rfl
  · obtain rfl : seconds = 0 := by omega
    simp [h]

theorem expiresAt_eq {mustRevalidate : Bool} (h : now < endOfTime) : expiresAt mustRevalidate ttl now =
    if now + (if mustRevalidate then 0 else ttl) * nanosPerSecond < endOfTime then
      .ok (now + (if mustRevalidate then 0 else ttl) * nanosPerSecond) else .error .overflow := by
  rw [expiresAt, addSecs_eq]
  cases mustRevalidate with
  | true => simp [h]
  | false => simp only [Bool.false_eq_true, if_false]; split_ifs <;> rfl

/-- The times can be added up, and are in order, exactly if the last of them is one. -/
theorem metadataTimes_in_order (vary : List VaryMatcher) (hnow : now < endOfTime) :
    (∃ m, metadataTimes config policy surrogate directives vary ttl now = .ok m ∧
      m.expiresAt = (if m.mustRevalidate then now else now + ttl * nanosPerSecond) ∧
      m.storedAt ≤ m.expiresAt ∧ (∀ time ∈ m.staleIfErrorUntil, m.expiresAt ≤ time) ∧
      ∀ time ∈ m.staleWhileRevalidateUntil, m.expiresAt ≤ time) ↔
    now + ((if surrogate.isNone && asksRevalidation directives then 0 else ttl) +
      max (staleIfErrorSeconds config policy surrogate directives)
        (staleWhileRevalidateSeconds config surrogate directives)) * nanosPerSecond < endOfTime := by
  simp only [metadataTimes]
  generalize (surrogate.isNone && asksRevalidation directives) = mustRevalidate
  generalize staleIfErrorSeconds config policy surrogate directives = error
  generalize staleWhileRevalidateSeconds config surrogate directives = revalidate
  rw [expiresAt_eq hnow]
  have hpast : (if mustRevalidate then now else now + ttl * nanosPerSecond) =
      now + (if mustRevalidate then 0 else ttl) * nanosPerSecond := by
    cases mustRevalidate <;> simp
  generalize (if mustRevalidate then 0 else ttl) = past at hpast ⊢
  have hsum : now + (past + max error revalidate) * nanosPerSecond < endOfTime ↔
      now + past * nanosPerSecond < endOfTime ∧ now + past * nanosPerSecond + error * nanosPerSecond < endOfTime ∧
        now + past * nanosPerSecond + revalidate * nanosPerSecond < endOfTime := by
    simp only [nanosPerSecond]
    omega
  rw [hsum]
  have hle := Nat.le_add_right now (past * nanosPerSecond)
  generalize now + past * nanosPerSecond = start at hpast hle ⊢
  have hwindow : ∀ {seconds time : Nat},
      time ∈ (if 0 < seconds then some (start + seconds * nanosPerSecond) else none) → start ≤ time := by
    intro seconds time ht
    rw [Option.mem_def, Option.ite_none_right_eq_some, Option.some.injEq] at ht
    exact ht.2 ▸ Nat.le_add_right ..
  by_cases hp : start < endOfTime
  · simp only [if_pos hp, windowUntil_eq hp]
    by_cases he : start + error * nanosPerSecond < endOfTime
    · by_cases hr : start + revalidate * nanosPerSecond < endOfTime
      · rw [if_pos he, if_pos hr]
        exact iff_of_true ⟨_, rfl, hpast.symm, hle, fun _ => hwindow, fun _ => hwindow⟩ ⟨hp, he, hr⟩
      · simp [he, hr]
    · simp [he]
  · simp [hp]

/-- **Times of a response.**  The lifetime is the first that is there, and the times are in order, if and only if none
of the times that are added up is past what a `SystemTime` holds.  A response that has to be revalidated expires at
once. -/
theorem cacheMetadata_times (config : CacheConfig) (policy : CachePolicyRuntime) (request response : HeaderMap)
    (certificate : Option Str) (status now : Nat) {vary : List VaryMatcher}
    (hv : storable config policy request certificate status response = .ok vary) (hnow : now < endOfTime) :
    let directives := cacheControlDirectives response
    let surrogate := surrogateInForce config response
    let lifetime := if policy.negativeStatuses.contains status then policy.negativeTtlSeconds
      else ((surrogate.bind (·.maxAge) :: if config.respectCacheControl then
        [directives.seconds "s-maxage", directives.seconds "max-age",
          expiresTtl parseHttpDate response now]
        else []).findSome? id).getD policy.defaultTtlSeconds
    lifetime ≠ 0 →
    ((∃ m, cacheMetadata parseHttpDate config policy request certificate status response now = .ok m ∧
      m.expiresAt = (if m.mustRevalidate then now else now + lifetime * nanosPerSecond) ∧
      m.storedAt ≤ m.expiresAt ∧ (∀ time ∈ m.staleIfErrorUntil, m.expiresAt ≤ time) ∧
      ∀ time ∈ m.staleWhileRevalidateUntil, m.expiresAt ≤ time) ↔
    now + ((if surrogate.isNone && asksRevalidation directives then 0 else lifetime) +
      max (staleIfErrorSeconds config policy surrogate directives)
        (staleWhileRevalidateSeconds config surrogate directives)) * nanosPerSecond < endOfTime) := by
  intro directives surrogate lifetime h0
  have hl : responseTtl parseHttpDate config policy surrogate directives response status now = lifetime := by
    refine if_congr Iff.rfl rfl ?_
    cases surrogate.bind (·.maxAge) with
    | some age => rfl
    | none =>
      cases config.respectCacheControl with
      | false => rfl
      | true =>
        cases directives.seconds "s-maxage" <;> cases directives.seconds "max-age" <;>
          cases expiresTtl parseHttpDate response now <;> rfl
  simp only [cacheMetadata, hv]
  rw [hl, if_neg h0]
  exact metadataTimes_in_order vary hnow

end Times

end Metadata

def plainConfig : CacheConfig := ⟨false, true, 0, 0, []⟩

def plainPolicy : CachePolicyRuntime := ⟨60, [], 0, 8, 0, false⟩

def directed (value : HeaderValue) : HeaderMap := ⟨[(cacheControlHeader, value)], rfl⟩

/-- A lifetime that is not added, as the response has to be revalidated. -/
theorem cacheMetadata_times_noCache : ∃ m, cacheMetadata (fun _ => none) plainConfig plainPolicy .empty none 200
    (directed (.ofText "no-cache, max-age=18446744073709551615" (by decide))) 0 = .ok m ∧ m.storedAt ≤ m.expiresAt := by
  obtain ⟨m, hm, -, hs, -⟩ := (@cacheMetadata_times (fun _ => none) plainConfig plainPolicy .empty
    (directed (.ofText "no-cache, max-age=18446744073709551615" (by decide))) none 200 0 [] (by decide +kernel)
    (by decide) (by decide +kernel)).2 (by decide +kernel)
  exact ⟨m, hm, hs⟩

/-- A lifetime that no time can hold. -/
theorem cacheMetadata_overflows :
    let response := directed (.ofText "max-age=18446744073709551615" (by decide))
    storable plainConfig plainPolicy .empty none 200 response = .ok [] ∧
      cacheMetadata (fun _ => none) plainConfig plainPolicy .empty none 200 response 0 = .error .overflow := by
  decide +kernel

end Cache
