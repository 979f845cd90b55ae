import Mathlib.Data.List.MinMax
import Mathlib.Data.Prod.Lex
import OxiBelt.Lib.Trie
import OxiBelt.Routes.Host

/-!
# Route resolution (`routes.rs`)

The routes of a table are found through their host patterns: exact names in a map, wildcards in a trie of labels that is
walked from the last label of the host on, and catch-all patterns in a list.  Each route that is found, and whose path
and matcher fit, replaces the best one so far if it is better.

* `resolve_greatest`: of the routes that accept a request the greatest is returned, and none only if there is none; the
  shortcut for exact hosts returns no other.
-/

namespace Routes

open RustStd List

/-! ## The table -/

structure RouteMatchContext (Metadata : Type) where
  path : Str
  metadata : Metadata

/-- The conditions on a request other than its host and path are a parameter, with the texts that the expression for
the path captures. -/
structure CompiledRouteMatcher (Metadata : Type) where
  (valid prefixOnly : Bool)
  specificity : Nat
  conditions : RouteMatchContext Metadata → Option (List Str)
  /-- The specificity counts the conditions, of which there are none. -/
  specificity_eq_zero : prefixOnly = true → specificity = 0

namespace CompiledRouteMatcher

variable {Metadata : Type} (matcher : CompiledRouteMatcher Metadata)

def matchRequest (context : RouteMatchContext Metadata) : Option (List Str) :=
  if !matcher.valid then none
  else if matcher.prefixOnly then some []
  else matcher.conditions context

def isPrefixOnly : Bool := matcher.valid && matcher.prefixOnly

end CompiledRouteMatcher

inductive HostPattern where
  | catchAll
  | wildcard (suffix : Str)
  | exact (host : Str)

def HostPattern.parse (raw : Str) : HostPattern :=
  let pattern := normalizeHost raw
  if pattern = ['*'] then .catchAll
  else
    match stripPrefix ['*', '.'] pattern with
    | some suffix => .wildcard suffix
    | none => .exact pattern

def labels (name : Str) : List Str := name.splitOn '.'

/-- No label of the name behind a wildcard is empty. -/
def HostPattern.isDns : HostPattern → Bool
  | .wildcard suffix => !(labels suffix).any List.isEmpty
  | _ => true

structure RouteConfig (Metadata : Type) where
  hosts : List Str
  effectivePathPrefix : Str
  priority : Int
  matcher : CompiledRouteMatcher Metadata
  /-- By `validate_route_host_pattern`. -/
  hosts_dns : ∀ pattern ∈ hosts.map HostPattern.parse, pattern.isDns = true

structure WildcardHostEntry where
  (suffixLen routeIndex : Nat)

abbrev WildcardHostTrie := Trie Str WildcardHostEntry

namespace WildcardHostTrie

def insert (trie : WildcardHostTrie) (suffix : Str) (routeIndex : Nat) : WildcardHostTrie :=
  Trie.insert ⟨(asBytes suffix).length, routeIndex⟩ (labels suffix).reverse trie

/-- The entries that `for_each_match` visits. -/
def forEachMatch (trie : WildcardHostTrie) (host : Str) : List WildcardHostEntry :=
  if (labels host).any List.isEmpty then [] else trie.valuesAlong (labels host).length 0 (labels host).reverse

def isEmpty (trie : WildcardHostTrie) : Bool := trie.values.isEmpty && trie.children.isEmpty

end WildcardHostTrie

structure RouteTable (Metadata : Type) where
  routes : List (RouteConfig Metadata)
  exactHosts : Str → Option (List Nat)
  simpleExactHosts : Str → Option (List Nat)
  wildcardHosts : WildcardHostTrie
  catchAllHosts : List Nat

structure RouteMatch where
  routeIndex : Nat
  pathCaptures : List Str
  priority : Int
  (hostScore pathLen matcherSpecificity : Nat)
  deriving DecidableEq

def RouteMatch.isBetterThan (self current : RouteMatch) : Bool :=
  self.priority > current.priority ||
    (self.priority == current.priority && self.hostScore > current.hostScore) ||
    (self.priority == current.priority && self.hostScore == current.hostScore && self.pathLen > current.pathLen) ||
    (self.priority == current.priority && self.hostScore == current.hostScore && self.pathLen == current.pathLen &&
      self.matcherSpecificity > current.matcherSpecificity) ||
    (self.priority == current.priority && self.hostScore == current.hostScore && self.pathLen == current.pathLen &&
      self.matcherSpecificity == current.matcherSpecificity && self.routeIndex < current.routeIndex)

/-- The end of `consider_route`. -/
def keepBetter (best : Option RouteMatch) (candidate : RouteMatch) : Option RouteMatch :=
  if best.all candidate.isBetterThan then some candidate else best

def pathPrefixMatches (front path : Str) : Bool :=
  front == ['/'] || path == front || (stripPrefix front path).any (·.head? == some '/')

namespace RouteTable

variable {Metadata : Type}

def empty : RouteTable Metadata := ⟨[], fun _ => none, fun _ => none, Trie.empty, []⟩

variable (table : RouteTable Metadata)

def indexPattern (routeIndex : Nat) : HostPattern → RouteTable Metadata
  | .catchAll => { table with catchAllHosts := table.catchAllHosts ++ [routeIndex] }
  | .wildcard suffix => { table with wildcardHosts := table.wildcardHosts.insert suffix routeIndex }
  | .exact host =>
    { table with
      exactHosts := Function.update table.exactHosts host
        (some ((table.exactHosts host).getD [] ++ [routeIndex])) }

def pushRoute (route : RouteConfig Metadata) : RouteTable Metadata :=
  let indexed := (route.hosts.map HostPattern.parse).foldl (·.indexPattern table.routes.length ·) table
  { indexed with routes := table.routes ++ [route] }

def rebuildSimpleExactHosts : RouteTable Metadata :=
  { table with
    simpleExactHosts := fun host =>
      if table.wildcardHosts.isEmpty && table.catchAllHosts.isEmpty then
        (table.exactHosts host).filter
          (·.all fun index => table.routes[index]?.any (·.matcher.isPrefixOnly))
      else none }

def new (routes : List (RouteConfig Metadata)) : RouteTable Metadata :=
  (routes.foldl pushRoute empty).rebuildSimpleExactHosts

variable (table : RouteTable Metadata) (context : RouteMatchContext Metadata)

/-- The candidate of `consider_route`, if the path and the matcher of the route fit. -/
def candidate (routeIndex hostScore : Nat) : Option RouteMatch := do
  let entry ← table.routes[routeIndex]?
  if !pathPrefixMatches entry.effectivePathPrefix context.path then none
  else
    let pathCaptures ← entry.matcher.matchRequest context
    return {
      routeIndex
      pathCaptures
      priority := entry.priority
      hostScore
      pathLen := (asBytes entry.effectivePathPrefix).length
      matcherSpecificity := entry.matcher.specificity }

def considerRoute (best : Option RouteMatch) (routeIndex hostScore : Nat) : Option RouteMatch :=
  (table.candidate context routeIndex hostScore).elim best (keepBetter best)

def resolveNormalizedHostWithContext (normalizedHost : Str) : Option RouteMatch :=
  let exact := ((table.exactHosts normalizedHost).getD []).foldl
    (table.considerRoute context · · (10000 + (asBytes normalizedHost).length)) none
  let wildcard := (table.wildcardHosts.forEachMatch normalizedHost).foldl
    (fun best entry => table.considerRoute context best entry.routeIndex (1000 + entry.suffixLen)) exact
  table.catchAllHosts.foldl (table.considerRoute context · · 1) wildcard

/-- The body of the loop of `try_resolve_simple_exact_host`. -/
def considerSimple (normalizedHost path : Str) (best : Option RouteMatch) (routeIndex : Nat) :
    Option (Option RouteMatch) := do
  let entry ← table.routes[routeIndex]?
  if !pathPrefixMatches entry.effectivePathPrefix path then return best
  else return keepBetter best {
    routeIndex
    pathCaptures := []
    priority := entry.priority
    hostScore := 10000 + (asBytes normalizedHost).length
    pathLen := (asBytes entry.effectivePathPrefix).length
    matcherSpecificity := 0 }

def tryResolveSimpleExactHost (normalizedHost path : Str) : Option RouteMatch :=
  (table.simpleExactHosts normalizedHost).bind fun routeIndices =>
    (routeIndices.foldlM (table.considerSimple normalizedHost path) none).join

end RouteTable

/-! ## What a route accepts -/

/-- A wildcard stands for at least one label. -/
def HostPattern.Accepts (host : Str) : HostPattern → Prop
  | .catchAll => True
  | .wildcard suffix => ∃ further, further ≠ [] ∧ [] ∉ further ∧ labels host = further ++ labels suffix
  | .exact name => host = name

/-- Exact names come before wildcards, longer wildcards before shorter ones. -/
def HostPattern.rank : HostPattern → ℕ ×ₗ ℕ
  | .catchAll => toLex (0, 0)
  | .wildcard suffix => toLex (1, (asBytes suffix).length)
  | .exact _ => toLex (2, 0)

variable {Metadata : Type}

/-- The route at an index accepts a request through one of its patterns. -/
structure Accepts (routes : List (RouteConfig Metadata)) (host : Str) (context : RouteMatchContext Metadata)
    (index : Nat) (route : RouteConfig Metadata) (pattern : HostPattern) : Prop where
  get : routes[index]? = some route
  mem : pattern ∈ route.hosts.map HostPattern.parse
  host : pattern.Accepts host
  path : pathPrefixMatches route.effectivePathPrefix context.path = true
  matcher : (route.matcher.matchRequest context).isSome = true

def precedence (index : Nat) (route : RouteConfig Metadata) (pattern : HostPattern) :
    ℤ ×ₗ (ℕ ×ₗ ℕ) ×ₗ ℕ ×ₗ ℕ ×ₗ ℕᵒᵈ :=
  toLex (route.priority, toLex (pattern.rank, toLex ((asBytes route.effectivePathPrefix).length,
    toLex (route.matcher.specificity, OrderDual.toDual index))))

/-! ## The index of the patterns -/

variable {table : RouteTable Metadata} {has : Nat → HostPattern → Prop}
  {routes : List (RouteConfig Metadata)} {host : Str}

structure RouteTable.Indexed (table : RouteTable Metadata) (has : Nat → HostPattern → Prop) : Prop where
  exact : ∀ host index, index ∈ (table.exactHosts host).getD [] ↔ has index (.exact host)
  wildcard : ∀ path entry, entry ∈ table.wildcardHosts.valuesAt path ↔
    ∃ suffix index, has index (.wildcard suffix) ∧ path = (labels suffix).reverse ∧
      entry = ⟨(asBytes suffix).length, index⟩
  catchAll : ∀ index, index ∈ table.catchAllHosts ↔ has index .catchAll

namespace RouteTable.Indexed

theorem indexPattern (h : table.Indexed has) (routeIndex : Nat) (pattern : HostPattern) :
    (table.indexPattern routeIndex pattern).Indexed fun index other =>
      has index other ∨ index = routeIndex ∧ other = pattern := by
  cases pattern with
  | catchAll =>
    refine ⟨fun host index => ?_, fun path entry => ?_, fun index => ?_⟩
    · simpa [RouteTable.indexPattern] using h.exact host index
    · simpa [RouteTable.indexPattern] using h.wildcard path entry
    · simpa [RouteTable.indexPattern] using or_congr_left (h.catchAll index)
  | wildcard suffix =>
    refine ⟨fun host index => ?_, fun path entry => ?_, fun index => ?_⟩
    · simpa [RouteTable.indexPattern] using h.exact host index
    · show entry ∈ (table.wildcardHosts.insert suffix routeIndex).valuesAt path ↔ _
      rw [WildcardHostTrie.insert, Trie.valuesAt_insert]
      split
      · next hp =>
        subst hp
        rw [mem_append, h.wildcard, mem_singleton]
        constructor
        · rintro (⟨other, index, hh, hp, he⟩ | he)
          · exact ⟨other, index, .inl hh, hp, he⟩
          · exact ⟨suffix, routeIndex, .inr ⟨rfl, rfl⟩, rfl, he⟩
        rintro ⟨other, index, hh | ⟨rfl, hh⟩, hp, he⟩
        · exact .inl ⟨other, index, hh, hp, he⟩
        · cases hh
          exact .inr he
      · next hp =>
        rw [h.wildcard]
        refine exists₂_congr fun other index => and_congr_left fun he => (or_iff_left ?_).symm
        rintro ⟨-, hh⟩
        cases hh
        exact hp he.1
    · simpa [RouteTable.indexPattern] using h.catchAll index
  | exact name =>
    refine ⟨fun host index => ?_, fun path entry => ?_, fun index => ?_⟩
    · show index ∈ (Function.update table.exactHosts name _ host).getD [] ↔ _
      by_cases hn : host = name
      · subst hn
        simpa using or_congr_left (h.exact host index)
      · simpa [hn] using h.exact host index
    · simpa [RouteTable.indexPattern] using h.wildcard path entry
    · simpa [RouteTable.indexPattern] using h.catchAll index

theorem foldl_indexPattern (h : table.Indexed has) (routeIndex : Nat) (patterns : List HostPattern) :
    (patterns.foldl (·.indexPattern routeIndex ·) table).Indexed fun index other =>
      has index other ∨ index = routeIndex ∧ other ∈ patterns := by
  induction patterns generalizing table has with
  | nil => simpa using h
  | cons pattern patterns ih =>
    have hi := ih (h.indexPattern routeIndex pattern)
    simp only [or_assoc, ← and_or_left, ← mem_cons] at hi
    exact hi

end RouteTable.Indexed

open RouteTable

def HasPattern (routes : List (RouteConfig Metadata)) (index : Nat) (pattern : HostPattern) : Prop :=
  ∃ route, routes[index]? = some route ∧ pattern ∈ route.hosts.map HostPattern.parse

theorem hasPattern_append (route : RouteConfig Metadata) (index : Nat) (pattern : HostPattern) :
    HasPattern (routes ++ [route]) index pattern ↔
      HasPattern routes index pattern ∨ index = routes.length ∧ pattern ∈ route.hosts.map HostPattern.parse := by
  rcases Nat.lt_trichotomy index routes.length with hi | rfl | hi
  · simp only [HasPattern, getElem?_append_left hi, hi.ne, false_and, or_false]
  · simp [HasPattern]
  have hn : (routes ++ [route])[index]? = none := by
    rw [List.getElem?_eq_none_iff, length_append]
    exact hi
  simp [HasPattern, hn, hi.ne', hi.le]

theorem pushAll_indexed (h : table.Indexed (HasPattern table.routes)) (more : List (RouteConfig Metadata)) :
    (more.foldl pushRoute table).Indexed (HasPattern (table.routes ++ more)) ∧
      (more.foldl pushRoute table).routes = table.routes ++ more := by
  induction more generalizing table with
  | nil => simpa using h
  | cons route more ih =>
    have hp : (table.pushRoute route).Indexed (HasPattern (table.routes ++ [route])) := by
      obtain ⟨he, hw, hc⟩ := h.foldl_indexPattern table.routes.length (route.hosts.map HostPattern.parse)
      simp only [← hasPattern_append] at he hw hc
      exact ⟨he, hw, hc⟩
    have hi := @ih (table.pushRoute route) hp
    rw [show (table.pushRoute route).routes = table.routes ++ [route] from rfl, append_assoc] at hi
    exact hi

theorem new_indexed (routes : List (RouteConfig Metadata)) :
    (new routes).Indexed (HasPattern routes) ∧ (new routes).routes = routes := by
  have he : (empty : RouteTable Metadata).Indexed (@HasPattern Metadata []) := by
    refine ⟨?_, ?_, ?_⟩ <;> simp [empty, HasPattern, Trie.valuesAt_empty]
  obtain ⟨⟨hx, hw, hc⟩, hr⟩ := pushAll_indexed he routes
  exact ⟨⟨hx, hw, hc⟩, hr⟩

theorem any_isEmpty {names : List Str} : names.any List.isEmpty = true ↔ [] ∈ names := by
  simp [any_eq_true, List.isEmpty_iff]

/-- **Wildcards.**  The walk visits the entries of the wildcards that accept the host. -/
theorem mem_forEachMatch (entry : WildcardHostEntry) : entry ∈ (new routes).wildcardHosts.forEachMatch host ↔
      ∃ suffix index, HasPattern routes index (.wildcard suffix) ∧ (HostPattern.wildcard suffix).Accepts host ∧
        entry = ⟨(asBytes suffix).length, index⟩ := by
  have hw := (new_indexed routes).1.wildcard
  rw [WildcardHostTrie.forEachMatch]
  constructor
  · split
    · exact fun h => absurd h not_mem_nil
    next hn =>
    rw [Trie.mem_valuesAlong]
    rintro ⟨path, -, hp, hl, he⟩
    obtain ⟨suffix, index, hh, rfl, rfl⟩ := (hw _ _).1 he
    obtain ⟨further, hf⟩ := List.reverse_prefix.1 hp
    refine ⟨suffix, index, hh, ⟨further, ?_, ?_, hf.symm⟩, rfl⟩
    · rintro rfl
      rw [← hf, Nat.zero_add, length_reverse] at hl
      exact lt_irrefl _ hl
    · exact fun hm => hn (any_isEmpty.2 (hf ▸ mem_append_left _ hm))
  · rintro ⟨suffix, index, hh, ⟨further, hne, hnf, hf⟩, rfl⟩
    have hn : ¬(labels host).any List.isEmpty = true := by
      obtain ⟨route, -, hm⟩ := hh
      rw [hf, any_append, Bool.or_eq_true, any_isEmpty]
      exact not_or.2 ⟨hnf, Bool.eq_false_iff.1 (Bool.not_eq_eq_eq_not.1 (route.hosts_dns _ hm))⟩
    rw [if_neg hn, Trie.mem_valuesAlong]
    refine ⟨(labels suffix).reverse, ?_, ?_, ?_, (hw _ _).2 ⟨suffix, index, hh, rfl, rfl⟩⟩
    · exact fun h => splitOn_ne_nil '.' suffix (List.reverse_eq_nil_iff.1 h)
    · rw [hf]
      exact List.reverse_prefix.2 (suffix_append _ _)
    rw [hf, length_reverse, length_append]
    have hp := length_pos_of_ne_nil hne
    omega

/-! ## The search -/

def HostPattern.score (host : Str) : HostPattern → Nat
  | .catchAll => 1
  | .wildcard suffix => 1000 + (asBytes suffix).length
  | .exact _ => 10000 + (asBytes host).length

def RouteTable.considered (table : RouteTable Metadata) (host : Str) : List (Nat × Nat) :=
  ((table.exactHosts host).getD []).map (·, 10000 + (asBytes host).length) ++
    (table.wildcardHosts.forEachMatch host).map (fun entry => (entry.routeIndex, 1000 + entry.suffixLen)) ++
    table.catchAllHosts.map (·, 1)

theorem mem_considered {index score : Nat} : (index, score) ∈ (new routes).considered host ↔
      ∃ pattern, HasPattern routes index pattern ∧ pattern.Accepts host ∧ score = pattern.score host := by
  have hi := (new_indexed routes).1
  simp only [considered, mem_append, mem_map, Prod.mk.injEq]
  constructor
  · rintro ((⟨index, hm, rfl, rfl⟩ | ⟨entry, hm, rfl, rfl⟩) | ⟨index, hm, rfl, rfl⟩)
    · exact ⟨.exact host, (hi.exact host _).1 hm, rfl, rfl⟩
    · obtain ⟨suffix, index, hh, ha, rfl⟩ := (mem_forEachMatch entry).1 hm
      exact ⟨.wildcard suffix, hh, ha, rfl⟩
    · exact ⟨.catchAll, (hi.catchAll _).1 hm, trivial, rfl⟩
  rintro ⟨pattern, hh, ha, rfl⟩
  cases pattern with
  | catchAll => exact .inr ⟨index, (hi.catchAll _).2 hh, rfl, rfl⟩
  | wildcard suffix => exact .inl (.inr ⟨_, (mem_forEachMatch _).2 ⟨suffix, index, hh, ha, rfl⟩, rfl, rfl⟩)
  | exact name =>
    cases ha
    exact .inl (.inl ⟨index, (hi.exact _ _).2 hh, rfl, rfl⟩)

def RouteMatch.standing (found : RouteMatch) : ℤ ×ₗ ℕ ×ₗ ℕ ×ₗ ℕ ×ₗ ℕᵒᵈ :=
  toLex (found.priority, toLex (found.hostScore, toLex (found.pathLen,
    toLex (found.matcherSpecificity, OrderDual.toDual found.routeIndex))))

theorem isBetterThan_iff {a b : RouteMatch} : a.isBetterThan b = true ↔ b.standing < a.standing := by
  simp only [RouteMatch.isBetterThan, RouteMatch.standing, Prod.Lex.toLex_lt_toLex, OrderDual.toDual_lt_toDual,
    Bool.or_eq_true, Bool.and_eq_true, decide_eq_true_eq, beq_iff_eq]
  omega

theorem foldl_keepBetter (candidates : List RouteMatch) :
    candidates.foldl keepBetter none = candidates.argmax RouteMatch.standing := by
  refine congrArg (candidates.foldl · none) ?_
  funext best candidate
  cases best with
  | none => rfl
  | some best =>
    show (if candidate.isBetterThan best = true then _ else _) = if best.standing < candidate.standing then _ else _
    exact if_congr isBetterThan_iff rfl rfl

theorem foldl_considerRoute {α : Type} (context : RouteMatchContext Metadata) (pair : α → Nat × Nat) (found : List α)
    (best : Option RouteMatch) :
    found.foldl (fun best x => table.considerRoute context best (pair x).1 (pair x).2) best =
      ((found.map pair).filterMap fun x => table.candidate context x.1 x.2).foldl keepBetter best := by
  induction found generalizing best with
  | nil => rfl
  | cons x found ih =>
    rw [foldl_cons, ih, map_cons, filterMap_cons, considerRoute]
    cases table.candidate context (pair x).1 (pair x).2 <;> rfl

/-- The loops take the first of the best candidates. -/
theorem resolve_eq (table : RouteTable Metadata) (context : RouteMatchContext Metadata) (host : Str) :
    table.resolveNormalizedHostWithContext context host =
      ((table.considered host).filterMap fun x => table.candidate context x.1 x.2).argmax RouteMatch.standing := by
  rw [← foldl_keepBetter, considered, filterMap_append, filterMap_append, foldl_append,
    foldl_append, ← foldl_considerRoute, ← foldl_considerRoute, ← foldl_considerRoute]
  rfl

/-! ## Scores -/

theorem intercalate_append_lt {further rest : List Str} (hf : further ≠ []) (hr : rest ≠ []) :
    (asBytes (['.'].intercalate rest)).length < (asBytes (['.'].intercalate (further ++ rest))).length := by
  have hd : (asBytes ['.']).length = 1 := rfl
  rw [ByteString.intercalate_append _ hf hr, asBytes_append, asBytes_append, length_append, length_append]
  omega

theorem wildcard_shorter {suffix : Str} (h : (HostPattern.wildcard suffix).Accepts host) :
    (asBytes suffix).length < (asBytes host).length := by
  obtain ⟨further, hne, -, hf⟩ := h
  have hlt := intercalate_append_lt hne (splitOn_ne_nil '.' suffix)
  rwa [← labels, ← hf, labels, labels, intercalate_splitOn, intercalate_splitOn] at hlt

/-- The scores of the patterns for a host are in the order of their ranks, as long as the host is short. -/
theorem score_lt_iff (hl : (asBytes host).length < 9000) {a b : HostPattern} (ha : a.Accepts host)
    (hb : b.Accepts host) : a.score host < b.score host ↔ a.rank < b.rank := by
  -- scores are 1 for a catch-all, from 1000 to 9999 for a wildcard and above for an exact name
  cases a <;> cases b <;> simp [HostPattern.score, HostPattern.rank, Prod.Lex.toLex_lt_toLex]
  case catchAll.wildcard => omega
  case catchAll.exact => omega
  case wildcard.exact =>
    have hw := wildcard_shorter ha
    omega
  case exact.wildcard =>
    have hw := wildcard_shorter hb
    omega

theorem score_eq_iff (hl : (asBytes host).length < 9000) {a b : HostPattern} (ha : a.Accepts host)
    (hb : b.Accepts host) : a.score host = b.score host ↔ a.rank = b.rank := by
  rw [← not_iff_not, ← ne_eq, ← ne_eq, ne_iff_lt_or_gt, ne_iff_lt_or_gt, score_lt_iff hl ha hb, score_lt_iff hl hb ha]

/-! ## The greatest route -/

def RouteConfig.found (route : RouteConfig Metadata) (index hostScore : Nat) (pathCaptures : List Str) : RouteMatch :=
  ⟨index, pathCaptures, route.priority, hostScore, (asBytes route.effectivePathPrefix).length,
    route.matcher.specificity⟩

variable {context : RouteMatchContext Metadata} {index hostScore : Nat} {route : RouteConfig Metadata}

theorem candidate_eq (h : table.routes[index]? = some route) : table.candidate context index hostScore =
      if pathPrefixMatches route.effectivePathPrefix context.path then
        (route.matcher.matchRequest context).map (route.found index hostScore)
      else none := by
  rw [candidate, h]
  show (if (!_) = true then _ else _) = _
  cases pathPrefixMatches route.effectivePathPrefix context.path with
  | false => rfl
  | true =>
    rw [if_neg (by simp), if_pos rfl]
    cases route.matcher.matchRequest context <;> rfl

theorem mem_candidates {found : RouteMatch} : found ∈ ((new routes).considered host).filterMap
        (fun x => (new routes).candidate context x.1 x.2) ↔
      ∃ index route pattern pathCaptures, Accepts routes host context index route pattern ∧
        route.matcher.matchRequest context = some pathCaptures ∧
        found = route.found index (pattern.score host) pathCaptures := by
  simp only [mem_filterMap, Prod.exists, mem_considered]
  constructor
  · rintro ⟨index, _, ⟨pattern, ⟨route, hg, hp⟩, ha, rfl⟩, hc⟩
    rw [candidate_eq ((new_indexed routes).2 ▸ hg), Option.ite_none_right_eq_some, Option.map_eq_some_iff] at hc
    obtain ⟨hpath, pathCaptures, hm, rfl⟩ := hc
    exact ⟨index, route, pattern, pathCaptures, ⟨hg, hp, ha, hpath, Option.isSome_iff_exists.2 ⟨_, hm⟩⟩, hm, rfl⟩
  · rintro ⟨index, route, pattern, pathCaptures, ⟨hg, hp, ha, hpath, -⟩, hm, rfl⟩
    refine ⟨index, _, ⟨pattern, ⟨route, hg, hp⟩, ha, rfl⟩, ?_⟩
    rw [candidate_eq ((new_indexed routes).2 ▸ hg), if_pos hpath, hm]
    rfl

theorem precedence_le (hl : (asBytes host).length < 9000) {i j : Nat} {a b : RouteConfig Metadata} {p q : HostPattern}
    {c d : List Str} (hp : p.Accepts host) (hq : q.Accepts host)
    (h : (a.found i (p.score host) c).standing ≤ (b.found j (q.score host) d).standing) :
    precedence i a p ≤ precedence j b q := by
  rw [← not_lt] at h ⊢
  refine fun hlt => h ?_
  simp only [precedence, Prod.Lex.toLex_lt_toLex] at hlt
  simpa only [RouteMatch.standing, RouteConfig.found, Prod.Lex.toLex_lt_toLex, score_lt_iff hl hq hp,
    score_eq_iff hl hq hp] using hlt

/-! ## The shortcut -/

theorem foldlM_eq_foldl {α β : Type} {f : β → α → Option β} {g : β → α → β} {l : List α}
    (h : ∀ a ∈ l, ∀ b, f b a = some (g b a)) (b : β) : l.foldlM f b = some (l.foldl g b) := by
  induction l generalizing b with
  | nil => rfl
  | cons a l ih =>
    rw [foldlM_cons, h a mem_cons_self]
    exact ih (fun x hx => h x (mem_cons_of_mem a hx)) (g b a)

theorem forEachMatch_isEmpty {trie : WildcardHostTrie} (h : trie.isEmpty = true) : trie.forEachMatch host = [] := by
  rw [WildcardHostTrie.isEmpty, Bool.and_eq_true, List.isEmpty_iff, List.isEmpty_iff] at h
  rw [WildcardHostTrie.forEachMatch]
  split
  · rfl
  cases (labels host).reverse with
  | nil => rfl
  | cons label path =>
    rw [Trie.valuesAlong, h.2]
    rfl

/-- The shortcut makes the comparisons for the exact name, where there is nothing else to compare. -/
theorem tryResolve_eq (hc : table.catchAllHosts = []) (hw : table.wildcardHosts.isEmpty = true) {indices : List Nat}
    (he : table.exactHosts host = some indices) (hs : table.simpleExactHosts host = some indices)
    (hp : ∀ index ∈ indices, ∃ route, table.routes[index]? = some route ∧ route.matcher.isPrefixOnly = true) :
    table.tryResolveSimpleExactHost host context.path = table.resolveNormalizedHostWithContext context host := by
  have hb : ∀ index ∈ indices, ∀ best, table.considerSimple host context.path best index =
      some (table.considerRoute context best index (10000 + (asBytes host).length)) := by
    intro index hi best
    obtain ⟨route, hg, hp⟩ := hp index hi
    obtain ⟨hv, hp⟩ := Bool.and_eq_true_iff.1 hp
    have hm : route.matcher.matchRequest context = some [] := by
      rw [CompiledRouteMatcher.matchRequest, hv, hp]
      rfl
    rw [considerRoute, candidate_eq hg, hm, considerSimple, hg]
    cases hpath : pathPrefixMatches route.effectivePathPrefix context.path with
    | false => simp [hpath]
    | true => simp [hpath, RouteConfig.found, route.matcher.specificity_eq_zero hp]
  rw [tryResolveSimpleExactHost, hs, Option.bind_some, foldlM_eq_foldl hb, Option.join_some,
    resolveNormalizedHostWithContext, forEachMatch_isEmpty hw, he, hc]
  rfl

theorem shortcut_agrees (routes : List (RouteConfig Metadata)) {found : RouteMatch}
    (h : (new routes).tryResolveSimpleExactHost host context.path = some found) :
    (new routes).resolveNormalizedHostWithContext context host = some found := by
  obtain ⟨indices, hs, -⟩ := Option.bind_eq_some_iff.1 h
  obtain ⟨hb, hf⟩ := Option.ite_none_right_eq_some.1 hs
  obtain ⟨he, ha⟩ := Option.filter_eq_some_iff.1 hf
  obtain ⟨hw, hc⟩ := Bool.and_eq_true_iff.1 hb
  rw [← h]
  symm
  refine tryResolve_eq (List.isEmpty_iff.1 hc) hw he hs fun index hi => ?_
  exact (Option.any_eq_true _ _).1 (all_eq_true.1 ha index hi)

/-- **Resolution.**  Of the routes that accept a request the first by precedence is returned, and none only if there is
none; the wildcards that are found are those that accept the host; the shortcut agrees where it returns a route. -/
theorem resolve_greatest (routes : List (RouteConfig Metadata)) (host : Str) (context : RouteMatchContext Metadata)
    (hl : (asBytes host).length < 9000) :
    (∀ found, (RouteTable.new routes).resolveNormalizedHostWithContext context host = some found →
      ∃ route pattern, Accepts routes host context found.routeIndex route pattern ∧
        route.matcher.matchRequest context = some found.pathCaptures ∧
        ∀ index other otherPattern, Accepts routes host context index other otherPattern →
          precedence index other otherPattern ≤ precedence found.routeIndex route pattern) ∧
    ((RouteTable.new routes).resolveNormalizedHostWithContext context host = none →
      ∀ index route pattern, ¬Accepts routes host context index route pattern) ∧
    (∀ entry, entry ∈ (RouteTable.new routes).wildcardHosts.forEachMatch host ↔
      ∃ suffix index, HasPattern routes index (.wildcard suffix) ∧ (HostPattern.wildcard suffix).Accepts host ∧
        entry = ⟨(asBytes suffix).length, index⟩) ∧
    (∀ found, (RouteTable.new routes).tryResolveSimpleExactHost host context.path = some found →
      (RouteTable.new routes).resolveNormalizedHostWithContext context host = some found) := by
  refine ⟨fun found hf => ?_, fun hn index route pattern ha => ?_, mem_forEachMatch, fun _ => shortcut_agrees routes⟩
  · rw [resolve_eq] at hf
    obtain ⟨index, route, pattern, pathCaptures, ha, hm, rfl⟩ := mem_candidates.1 (argmax_mem hf)
    refine ⟨route, pattern, ha, hm, fun other route' pattern' ha' => ?_⟩
    obtain ⟨captures', hm'⟩ := Option.isSome_iff_exists.1 ha'.matcher
    exact precedence_le hl ha'.host ha.host
      (le_of_mem_argmax (mem_candidates.2 ⟨other, route', pattern', captures', ha', hm', rfl⟩) hf)
  rw [resolve_eq, argmax_eq_none] at hn
  obtain ⟨captures, hm⟩ := Option.isSome_iff_exists.1 ha.matcher
  have hc := mem_candidates.2 ⟨index, route, pattern, captures, ha, hm, rfl⟩
  rw [hn] at hc
  cases hc

/-- A route for every host, and one for the hosts of a domain. -/
def sampleRoutes : List (RouteConfig Unit) :=
  let matcher := ⟨true, true, 0, fun _ => none, fun _ => rfl⟩
  [⟨["*"], ['/'], 0, matcher, by decide +kernel⟩,
    ⟨["*.example.com"], ['/'], 0, matcher, by decide +kernel⟩]

theorem resolve_greatest_wildcard :
    ∃ route pattern, Accepts sampleRoutes "www.example.com" ⟨['/'], ()⟩ 1 route pattern ∧
      ∀ index other otherPattern, Accepts sampleRoutes "www.example.com" ⟨['/'], ()⟩ index other otherPattern →
        precedence index other otherPattern ≤ precedence 1 route pattern := by
  obtain ⟨route, pattern, ha, -, hg⟩ := (resolve_greatest sampleRoutes "www.example.com" ⟨['/'], ()⟩
    (by decide)).1 ⟨1, [], 0, 1011, 1, 0⟩ (by decide +kernel)
  exact ⟨route, pattern, ha, hg⟩

end Routes
