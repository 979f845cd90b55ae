import Mathlib.Data.List.TakeWhile
import OxiBelt.Cache.Vary
import OxiBelt.Lib.BracePass

/-!
# Expansion of cache-key templates (`cache/key.rs`)

`expanded_cache_key` rewrites the template in eight passes over the whole text.  `substituteTokens` is
what a template stands for: its own tokens are replaced at once, from left to right, and the inserted
text is not looked at again.

* `expandedCacheKey_eq_substituteTokens`: for every template the two agree unless one of the passes finds
  a token of its kind that is not a token of the template.
* `expandedCacheKey_expands_path`: text from the request is expanded.

The URI is given by the texts the `http` crate has for it; the parser of form-encoded queries is the
parameter `parseForm`.
-/

namespace Cache

open RustStd Http BracePass List

structure Uri where
  (text path : Str)
  query : Option Str

/-- `url::form_urlencoded::parse`: names and values, decoded. -/
abbrev FormParser := Str → List (Str × Str)

/-- `str::replace`. -/
def replaceAll (pattern value : Str) (s : Str) : Str :=
  match s with
  | [] => []
  | x :: rest =>
    if pattern.isPrefixOf (x :: rest) then value ++ replaceAll pattern value (rest.drop (pattern.length - 1))
    else x :: replaceAll pattern value rest
termination_by s.length
decreasing_by
  · rw [length_drop, length_cons]
    omega
  · simp

def dynamicPrefixOf (kind : Str) : Str := '{' :: (kind ++ [':'])

def replaceDynamicTokens (kind : Str) (value : Str → Str) (input : Str) : Str :=
  match input with
  | [] => []
  | x :: rest =>
    if (dynamicPrefixOf kind).isPrefixOf (x :: rest) then
      let tokenRest := (x :: rest).drop (dynamicPrefixOf kind).length
      if tokenRest.contains '}' then
        value (tokenRest.takeWhile (· != '}')) ++
          replaceDynamicTokens kind value ((tokenRest.dropWhile (· != '}')).drop 1)
      else x :: rest
    else x :: replaceDynamicTokens kind value rest
termination_by input.length
decreasing_by
  · have hle := (dropWhile_suffix (· != '}') (l := (x :: rest).drop (dynamicPrefixOf kind).length)).length_le
    simp only [dynamicPrefixOf, length_drop, length_cons] at hle ⊢
    omega
  · simp

variable (name : String) (parseForm : FormParser) (request : KeyRequest)

def queryValue (uri : Uri) (name : Str) : Str :=
  (uri.query.bind fun query =>
    ((parseForm query).find? fun pair => pair.1 == name).map (·.2)).getD []

def cookieHeader : Str := "cookie"

def cookieValue (headers : HeaderMap) (name : Str) : Str :=
  ((headers.get cookieHeader).bind fun value =>
    value.toStr.bind fun text =>
      ((((text.splitOn ';').map trim).filterMap (splitOnce '=')).find? fun item => item.1 == name).map
        (·.2)).getD []

/-- The parts of a request that a cache key may contain. -/
structure KeyRequest where
  (scheme host : Str)
  uri : Uri
  headers : HeaderMap

def fixedToken : Str := '{' :: (name.toList ++ ['}'])

def expandedCacheKey (template : Str) (request : KeyRequest) : Str :=
  let key := replaceAll (fixedToken "scheme") request.scheme template
  let key := replaceAll (fixedToken "host") request.host key
  let key := replaceAll (fixedToken "uri") request.uri.text key
  let key := replaceAll (fixedToken "path") request.uri.path key
  let key := replaceAll (fixedToken "query") (request.uri.query.getD []) key
  let key := replaceDynamicTokens "query" (queryValue parseForm request.uri) key
  let key := replaceDynamicTokens "header"
    (fun name => headerValues request.headers (toAsciiLowercase name)) key
  replaceDynamicTokens "cookie" (cookieValue request.headers) key

/-! ## What the template stands for -/

def fixedValue (value : Str) (body : Str) : Option Str :=
  if body = name.toList then some value else none

/-- The value of a token `kind:name`. -/
def dynamicValue (kind : String) (value : Str → Str) (body : Str) : Option Str :=
  if (kind.toList ++ [':']).isPrefixOf body then some (value (body.drop (kind.toList.length + 1)))
  else none

def fixedPass (value : Str) : Pass Char :=
  ⟨replaceAll (fixedToken name) value, fixedValue name value, (fixedToken name).isPrefixOf⟩

/-- The pass for the tokens of one kind.  A start that no closing brace follows is left alone. -/
def dynamicPass (kind : String) (value : Str → Str) : Pass Char :=
  ⟨replaceDynamicTokens kind.toList value, dynamicValue kind value,
    fun s => (dynamicPrefixOf kind.toList).isPrefixOf s && s.contains '}'⟩

/-- The passes of `expandedCacheKey`, in their order. -/
def tokenPasses : List (Pass Char) :=
  [fixedPass "scheme" request.scheme, fixedPass "host" request.host, fixedPass "uri" request.uri.text,
    fixedPass "path" request.uri.path, fixedPass "query" (request.uri.query.getD []),
    dynamicPass "query" (queryValue parseForm request.uri),
    dynamicPass "header" fun name => headerValues request.headers (toAsciiLowercase name),
    dynamicPass "cookie" (cookieValue request.headers)]

/-- What the request has for the body of a token; `none` if it is not a token. -/
def tokenValue (body : Str) : Option Str :=
  (tokenPasses parseForm request).findSome? (·.value body)

/-- The tokens of a template replaced from left to right, at once.  A token is an opening brace, a body
with a value and the next closing brace. -/
def substituteTokens (value : Str → Option Str) (template : Str) : Str :=
  match template with
  | [] => []
  | x :: rest =>
    if x = '{' ∧ rest.contains '}' = true then
      match value (rest.takeWhile (· != '}')) with
      | some inserted => inserted ++ substituteTokens value ((rest.dropWhile (· != '}')).drop 1)
      | none => x :: substituteTokens value rest
    else x :: substituteTokens value rest
termination_by template.length
decreasing_by
  · have hle := (dropWhile_suffix (· != '}') (l := rest)).length_le
    rw [length_drop, length_cons]
    omega
  · simp
  · simp

/-- A template as the letters and the tokens that `substituteTokens` reads. -/
def templatePieces (value : Str → Option Str) (template : Str) : List (Piece '}') :=
  match template with
  | [] => []
  | x :: rest =>
    if x = '{' ∧ rest.contains '}' = true ∧ (value (rest.takeWhile (· != '}'))).isSome then
      .group (rest.takeWhile (· != '}')) (fun hm => by simpa using mem_takeWhile_imp hm) ::
        templatePieces value ((rest.dropWhile (· != '}')).drop 1)
    else .letter x :: templatePieces value rest
termination_by template.length
decreasing_by
  · have hle := (dropWhile_suffix (· != '}') (l := rest)).length_le
    rw [length_drop, length_cons]
    omega
  · simp

theorem templatePieces_render (value : Str → Option Str) (template : Str) :
    renderAll '{' (fun _ => none) (templatePieces value template) = template ∧
      renderAll '{' value (templatePieces value template) = substituteTokens value template := by
  fun_induction templatePieces value template with
  | case1 => exact ⟨rfl, by rw [substituteTokens]; rfl⟩
  | case2 x rest h ih =>
    obtain ⟨rfl, hc, hv⟩ := h
    obtain ⟨v, hv⟩ := Option.isSome_iff_exists.1 hv
    obtain ⟨body, tail, rfl, hb⟩ := List.eq_append_cons_of_mem (contains_iff_mem.1 hc)
    obtain ⟨ht, hd⟩ := ByteString.cut_append hb tail
    rw [substituteTokens, if_pos ⟨rfl, hc⟩, hv]
    simp only [renderAll, flatMap_cons, Piece.render, ht, hd, drop_one, tail_cons] at hv ih ⊢
    rw [ih.1, ih.2, hv]
    simp
  | case3 x rest h ih =>
    have hs : substituteTokens value (x :: rest) = x :: substituteTokens value rest := by
      rw [substituteTokens]
      split
      · next hx =>
        have hn : value (rest.takeWhile (· != '}')) = none :=
          Option.not_isSome_iff_eq_none.1 fun hv => h ⟨hx.1, hx.2, hv⟩
        rw [hn]
      · rfl
    simp only [renderAll, flatMap_cons, Piece.render, singleton_append] at ih ⊢
    rw [ih.1, ih.2, hs]
    exact ⟨rfl, rfl⟩

/-! ## The passes -/

theorem replaceAll_hit {pattern value s : Str} (hne : pattern ≠ []) :
    replaceAll pattern value (pattern ++ s) = value ++ replaceAll pattern value s := by
  obtain ⟨x, rest, rfl⟩ := exists_cons_of_ne_nil hne
  have hs : (x :: rest).isPrefixOf (x :: (rest ++ s)) = true :=
    List.isPrefixOf_iff_prefix.2 (prefix_append (x :: rest) s)
  rw [cons_append, replaceAll, if_pos hs]
  simp

theorem replaceAll_miss {pattern value s : Str} {x : Char} (h : ¬ pattern.isPrefixOf (x :: s) = true) :
    replaceAll pattern value (x :: s) = x :: replaceAll pattern value s := by
  rw [replaceAll, if_neg h]

theorem fixedPass_lawful (value : Str) : (fixedPass name value).Lawful '{' '}' where
  nil := by simp only [fixedPass, replaceAll]
  copy x s h := replaceAll_miss (Bool.eq_false_iff.1 h)
  hit body v s _ hv := by
    simp only [fixedPass, fixedValue, Option.ite_none_right_eq_some, Option.some.injEq] at hv
    obtain ⟨rfl, rfl⟩ := hv
    simpa [fixedPass, fixedToken] using
      @replaceAll_hit (fixedToken name) value s (by simp [fixedToken])

theorem replaceDynamicTokens_open (kind : Str) (value : Str → Str) (input : Str) (h : '}' ∉ input) :
    replaceDynamicTokens kind value input = input := by
  fun_induction replaceDynamicTokens kind value input with
  | case1 => rfl
  | case2 x rest hp tokenRest hc ih =>
    exact absurd (mem_of_mem_drop (contains_iff_mem.1 hc)) h
  | case3 x rest hp tokenRest hc => rfl
  | case4 x rest hp ih => rw [ih fun hm => h (mem_cons_of_mem _ hm)]

theorem dynamicPass_lawful (kind : String) (value : Str → Str) :
    (dynamicPass kind value).Lawful '{' '}' where
  nil := by simp only [dynamicPass, replaceDynamicTokens]
  copy x s h := by
    simp only [dynamicPass, Bool.and_eq_false_iff] at h ⊢
    by_cases hp : (dynamicPrefixOf kind.toList).isPrefixOf (x :: s) = true
    · have hn : '}' ∉ x :: s := by simpa [hp] using h
      rw [replaceDynamicTokens_open _ _ _ hn, replaceDynamicTokens_open _ _ _ fun hm => hn (mem_cons_of_mem _ hm)]
    · rw [replaceDynamicTokens, if_neg hp]
  hit body v s hb hv := by
    simp only [dynamicPass, dynamicValue, Option.ite_none_right_eq_some, Option.some.injEq] at hv ⊢
    obtain ⟨hpre, rfl⟩ := hv
    obtain ⟨name, rfl⟩ := List.isPrefixOf_iff_prefix.1 hpre
    obtain ⟨ht, hn⟩ := ByteString.cut_append (fun hx => hb (mem_append_right _ hx)) s
    have hs : (dynamicPrefixOf kind.toList).isPrefixOf
        ('{' :: (kind.toList ++ [':'] ++ name ++ '}' :: s)) = true := by
      simp [dynamicPrefixOf]
    have hr : ('{' :: (kind.toList ++ [':'] ++ name ++ '}' :: s)).drop
        (dynamicPrefixOf kind.toList).length = name ++ '}' :: s := by
      simp [dynamicPrefixOf]
    have hd : (kind.toList ++ [':'] ++ name).drop (kind.toList.length + 1) = name := by
      exact drop_left' (by simp)
    rw [replaceDynamicTokens, if_pos hs]
    simp only [hr]
    rw [if_pos (by simp), ht, hn, hd]
    rfl

theorem tokenPasses_lawful : ∀ pass ∈ tokenPasses parseForm request, pass.Lawful '{' '}' := by
  simp only [tokenPasses, forall_mem_cons, not_mem_nil, false_implies, implies_true, and_true]
  exact ⟨fixedPass_lawful _ _, fixedPass_lawful _ _, fixedPass_lawful _ _, fixedPass_lawful _ _, fixedPass_lawful _ _,
    dynamicPass_lawful _ _, dynamicPass_lawful _ _, dynamicPass_lawful _ _⟩

/-- **No token but the template's own.**  The eight passes are the substitution of the tokens of the
template, for every template, if no pass finds a token of its kind in the text before it except where the
template has that token. -/
theorem expandedCacheKey_eq_substituteTokens (parseForm : FormParser) (request : KeyRequest) (template : Str)
    (hown : allUntouched '{' (templatePieces (tokenValue parseForm request) template) (fun _ => none)
      (tokenPasses parseForm request) = true) :
    expandedCacheKey parseForm template request =
      substituteTokens (tokenValue parseForm request) template := by
  obtain ⟨htext, hvalue⟩ := templatePieces_render (tokenValue parseForm request) template
  have h := runAll_render (tokenPasses_lawful parseForm request) hown
  rw [htext] at h
  exact h.trans hvalue

/-- A path with braces that are no token. -/
theorem expandedCacheKey_eq_substituteTokens_braces :
    let request : KeyRequest := ⟨"http", "a.example",
      ⟨"/a\x7bb\x7dc", "/a\x7bb\x7dc", none⟩, HeaderMap.empty⟩
    expandedCacheKey (fun _ => []) "\x7bscheme\x7d:\x7bhost\x7d:\x7buri\x7d" request =
      substituteTokens (tokenValue (fun _ => []) request) "\x7bscheme\x7d:\x7bhost\x7d:\x7buri\x7d" :=
  expandedCacheKey_eq_substituteTokens _ _ _ (by decide +kernel)

/-- The path is expanded, although the template has only the token of the path. -/
theorem expandedCacheKey_expands_path : ∃ request : KeyRequest, request.uri.path = "/\x7bheader:x\x7d" ∧
      expandedCacheKey (fun _ => []) "\x7bpath\x7d" request = "/v" ∧
      substituteTokens (tokenValue (fun _ => []) request) "\x7bpath\x7d" = "/\x7bheader:x\x7d" :=
  ⟨⟨"http", "a.example", ⟨"/\x7bheader:x\x7d", "/\x7bheader:x\x7d", none⟩,
    ⟨[("x", .ofText "v" (by decide))], by decide +kernel⟩⟩, rfl, by decide +kernel, by decide +kernel⟩

end Cache
