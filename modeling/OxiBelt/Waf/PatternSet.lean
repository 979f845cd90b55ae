import OxiBelt.Waf.Prefilter

/-!
# Sets of patterns (`waf/pattern_set.rs`)

The linear patterns of a set are asked together; a combined index of the literals that the advanced patterns need says
which of these a text can match.  The index gives up on a text with too many occurrences, and is not built at all for
few or too many literals; each pattern is then asked with its own prefilter.

The engines, the joint search of the linear patterns and the search for several literals are third-party code.  They are
taken as correct: `SetRegex.agrees`, the list of matchers for the joint search, and `AhoCorasick.correct`.

* `set_eq_oneByOne`: the answers are those of the patterns one by one with their engines exactly if no pattern that is
  reached matches without its literals.
* `scan_hides_match`: with a prefilter that asks for a literal the match does not have, the scan misses it.
-/

namespace Waf

open RustStd List HybridRegex

/-! ## Expressions with their search -/

/-- An expression with its text and the search of its engine for the first and last byte of the leftmost match. -/
structure SetRegex (ε : Type) extends HybridRegex ε where
  pattern : Str
  search : Str → Except ε (Option (Nat × Nat))
  agrees : ∀ text, toHybridRegex.isMatchEngine text = ((search text).map Option.isSome).mapError .matcher
  literals_eq : requiredLiterals = compileRequiredLiterals pattern false
  prefilter_eq : prefilter = compilePrefilter requiredLiterals

abbrev Answer (ε α : Type) := Except (AdvancedRegexEvaluationError ε) α

variable {ε : Type}

namespace SetRegex

variable (regex : SetRegex ε) (text : Str)

def findEngine : Answer ε (Option (Nat × Nat)) := (regex.search text).mapError .matcher

def find : Answer ε (Option (Nat × Nat)) := do
  regex.checkAdvancedSubject text
  if !regex.prefilterMatches text then pure none else regex.findEngine text

end SetRegex

/-! ## The combined index -/

structure AhoCorasick where
  /-- The patterns of the overlapping matches, and how much memory the automaton takes if it can be built. -/
  findOverlapping : List (List UInt8) → List UInt8 → List Nat
  memoryUsage : List (List UInt8) → Option Nat
  correct : ∀ patterns haystack k, k ∈ findOverlapping patterns haystack ↔
    ∃ pattern, patterns[k]? = some pattern ∧ pattern <:+: haystack

namespace CompiledLiteralIndex

variable (automaton : AhoCorasick) (index : CompiledLiteralIndex)

def nonEmptyPatternCount : Nat := index.searcher.patterns.length

def memoryUsage : Option Nat :=
  let unique := index.searcher.patterns
  let shared := (unique.map (·.1.length)).sum + (unique.map (·.2.length * 8)).sum
  match index.searcher with
  | .multi automata => (automaton.memoryUsage (automata.map (·.1))).map (shared + ·)
  | _ => some shared

/-- The flags that are set. -/
def markTargets (matched : Nat → Bool) (targets : List Nat) : Nat → Bool :=
  fun target => matched target || targets.contains target

/-- The step of the loop over the occurrences. -/
def markFound (unique : List (List UInt8 × List Nat)) (maxMatchWork : Nat) (state : (Nat → Bool) × Nat) (found : Nat) :
    Option ((Nat → Bool) × Nat) :=
  let targets := (unique[found]?.map (·.2)).getD []
  if maxMatchWork < state.2 + targets.length then none
  else some (markTargets state.1 targets, state.2 + targets.length)

def matchingTargetsBounded (haystack : Str) (maxMatchWork : Nat) : Option (Nat → Bool) :=
  let matched := fun target => index.firstEmptyTarget == some target
  match index.searcher with
  | .empty => some matched
  | .byte needle targets =>
    if needle ∈ asBytes haystack then some (markTargets matched targets) else some matched
  | .substring finder targets =>
    if finder <:+: asBytes haystack then some (markTargets matched targets) else some matched
  | .multi unique =>
    ((automaton.findOverlapping (unique.map (·.1)) (asBytes haystack)).foldlM (markFound unique maxMatchWork)
      (matched, 0)).map (·.1)

end CompiledLiteralIndex

/-! ## The set -/

structure WafLimits where
  maxHelperPatternCount : Nat
  maxMemoryBytes : Nat

structure BodyScanResult where
  matched : Bool
  pattern : Option Str
  offset : Option Nat
  matchedText : Option (List UInt8)
  isTruncated : Bool
  deriving DecidableEq

def BodyScanResult.noMatch (isTruncated : Bool) : BodyScanResult := ⟨false, none, none, none, isTruncated⟩

def BodyScanResult.found (pattern text : Str) (bounds : Nat × Nat) (isTruncated : Bool) : BodyScanResult :=
  ⟨true, some pattern, some bounds.1, some (((asBytes text).take bounds.2).drop bounds.1), isTruncated⟩

def maxAdvancedPrefilterMatchWork : Nat := 4096

structure CompiledRegexPatternSet (ε : Type) where
  patterns : List (SetRegex ε)
  /-- The matchers of the joint search. -/
  linearSet : List (Str → Bool)
  linearSetIndices : List (Option Nat)
  advancedPrefilter : Option CompiledLiteralIndex

/-- The literals of the advanced patterns with the places of these. -/
def advancedLiterals (patterns : List (SetRegex ε)) : List (Nat × List UInt8) :=
  patterns.zipIdx.flatMap fun (pattern, index) =>
    if pattern.isAdvanced then pattern.requiredLiterals.map (index, ·) else []

/-- `CompiledAdvancedRegexPrefilter::new`. -/
def advancedPrefilter (automaton : AhoCorasick) (limits : WafLimits) (patterns : List (SetRegex ε)) :
    Option CompiledLiteralIndex :=
  let advanced := patterns.filter (·.isAdvanced)
  let indexedPatternCount := advanced.countP (!·.requiredLiterals.isEmpty)
  let uniqueLiterals := (advanced.flatMap (·.requiredLiterals)).dedup
  if indexedPatternCount < 2 ∨ uniqueLiterals = [] ∨ limits.maxHelperPatternCount < uniqueLiterals.length ∨
      limits.maxMemoryBytes < (uniqueLiterals.map (·.length)).sum then none
  else
    let index := CompiledLiteralIndex.new (advancedLiterals patterns)
    (index.memoryUsage automaton).bind fun memoryUsage =>
      if limits.maxHelperPatternCount < index.nonEmptyPatternCount ∨ limits.maxMemoryBytes < memoryUsage then none
      else some index

namespace CompiledRegexPatternSet

def linearMatcher (pattern : SetRegex ε) : Option (Str → Bool) :=
  match pattern.engine with
  | .linear isMatch => some isMatch
  | .advanced _ => none

/-- The places of the linear patterns in the joint search. -/
def linearIndices : Nat → List (SetRegex ε) → List (Option Nat)
  | _, [] => []
  | index, pattern :: patterns =>
    if pattern.isAdvanced then none :: linearIndices index patterns
    else some index :: linearIndices (index + 1) patterns

def new (automaton : AhoCorasick) (limits : WafLimits) (patterns : List (SetRegex ε)) : CompiledRegexPatternSet ε where
  patterns
  linearSet := patterns.filterMap linearMatcher
  linearSetIndices := linearIndices 0 patterns
  advancedPrefilter := Waf.advancedPrefilter automaton limits patterns

variable (automaton : AhoCorasick) (set : CompiledRegexPatternSet ε) (text : Str)

/-- What the joint search says of a pattern; `none` for one that is not in it. -/
def linearMatched (patternIndex : Nat) : Option Bool :=
  (set.linearSetIndices[patternIndex]?.join).map fun linearIndex =>
    (set.linearSet[linearIndex]?).any (· text)

/-- A pattern in the loops of `is_match` and `scan`, which differ in what they ask the expression for.  The candidates
are computed once in the source, when they are first needed. -/
def askAt {α : Type} (pattern : SetRegex ε) (patternIndex : Nat) (linear : Bool → Answer ε α)
    (engine prefiltered : Answer ε α) (noMatch : α) : Answer ε α :=
  match set.linearMatched text patternIndex, set.advancedPrefilter with
  | some matched, _ => linear matched
  | none, some prefilter => do
    pattern.checkAdvancedSubject text
    if pattern.requiredLiterals.isEmpty then engine
    else
      match prefilter.matchingTargetsBounded automaton text maxAdvancedPrefilterMatchWork with
      | some candidates => if candidates patternIndex then engine else pure noMatch
      | none => prefiltered
  | none, none => prefiltered

def isMatchAt (pattern : SetRegex ε) (patternIndex : Nat) : Answer ε Bool :=
  set.askAt automaton text pattern patternIndex pure (pattern.isMatchEngine text) (pattern.isMatch text) false

def isMatch : Answer ε Bool :=
  set.patterns.zipIdx.anyM fun (pattern, patternIndex) => set.isMatchAt automaton text pattern patternIndex

def findAt (pattern : SetRegex ε) (patternIndex : Nat) : Answer ε (Option (Nat × Nat)) :=
  set.askAt automaton text pattern patternIndex (fun matched => if matched then pattern.find text else pure none)
    (pattern.findEngine text) (pattern.find text) none

def scan (isTruncated : Bool) : Answer ε BodyScanResult := do
  let found ← set.patterns.zipIdx.findSomeM? fun (pattern, patternIndex) => do
    return (← set.findAt automaton text pattern patternIndex).map
      (BodyScanResult.found pattern.pattern text · isTruncated)
  return found.getD (.noMatch isTruncated)

end CompiledRegexPatternSet

/-! ## One by one -/

/-- A pattern is asked with its own engine, if the text is not too long for it. -/
def SetRegex.ask (text : Str) (pattern : SetRegex ε) : Answer ε (Option (Nat × Nat)) := do
  pattern.checkAdvancedSubject text
  pattern.findEngine text

def matchOneByOne (patterns : List (SetRegex ε)) (text : Str) : Answer ε Bool :=
  patterns.anyM fun pattern => (pattern.ask text).map Option.isSome

/-- The first pattern with a match, and the match, by a way of asking. -/
def scanBy (ask : SetRegex ε → Answer ε (Option (Nat × Nat))) (patterns : List (SetRegex ε)) (text : Str)
    (isTruncated : Bool) : Answer ε BodyScanResult := do
  let found ← patterns.findSomeM? fun pattern => do
    return (← ask pattern).map (BodyScanResult.found pattern.pattern text · isTruncated)
  return found.getD (.noMatch isTruncated)

def scanOneByOne (patterns : List (SetRegex ε)) (text : Str) (isTruncated : Bool) : Answer ε BodyScanResult :=
  scanBy (·.ask text) patterns text isTruncated

/-- In a text that is not too long and has no literal of the pattern there is nothing for its engine to find. -/
def SetRegex.NeedsLiteral (pattern : SetRegex ε) (text : Str) : Prop :=
  pattern.checkAdvancedSubject text = .ok () → pattern.requiredLiterals ≠ [] →
    (∀ literal ∈ pattern.requiredLiterals, ¬literal <:+: asBytes text) → pattern.findEngine text = .ok none

/-- Each pattern needs its literals, up to the first that has an answer. -/
def ReachedNeedLiterals (text : Str) : List (SetRegex ε) → Prop
  | [] => True
  | pattern :: patterns =>
    pattern.NeedsLiteral text ∧ (pattern.ask text = .ok none → ReachedNeedLiterals text patterns)

/-! ## The literals -/

theorem requiredLiteralAlternatives_ne_nil {pattern literal : Str} (h : literal ∈ requiredLiteralAlternatives pattern) :
    literal ≠ [] := by
  unfold requiredLiteralAlternatives at h
  dsimp only at h
  split at h
  · cases hf : exactLiterals [] (splitTopLevelAlternatives pattern) with
    | none =>
      rw [hf] at h
      cases h
    | some found =>
      rw [hf] at h
      obtain ⟨hb, hl⟩ := exactLiterals_spec hf
      obtain ⟨branch, hm, he⟩ := ((hl literal).1 h).resolve_left not_mem_nil
      obtain ⟨other, hne, ho⟩ := hb branch hm
      rwa [Option.some.inj (he.symm.trans ho)]
  · rw [Option.mem_toList] at h
    obtain ⟨-, h⟩ := Option.ite_none_left_eq_some.1 h
    split at h
    · cases h
    obtain ⟨hne, he⟩ := Option.ite_none_right_eq_some.1 h
    cases he
    exact hne

variable {pattern : SetRegex ε} {patterns : List (SetRegex ε)} {text : Str} {index : CompiledLiteralIndex}
  {target : Nat} {literal : List UInt8}

theorem SetRegex.literal_ne_nil (h : literal ∈ pattern.requiredLiterals) : literal ≠ [] := by
  rw [pattern.literals_eq, compileRequiredLiterals, if_neg (by simp)] at h
  obtain ⟨text, ht, rfl⟩ := mem_map.1 h
  intro hn
  exact requiredLiteralAlternatives_ne_nil ht (asBytes_injective (hn.trans rfl))

/-! ## The candidates -/

variable {isMatch : Str → Bool} {maxMatchWork : Nat}

namespace CompiledLiteralIndex

theorem markFound_foldlM {unique : List (List UInt8 × List Nat)} {found : List Nat} {state after : (Nat → Bool) × Nat}
    (h : found.foldlM (markFound unique maxMatchWork) state = some after) :
    after.1 target = true ↔ state.1 target = true ∨
      ∃ k ∈ found, ∃ entry, unique[k]? = some entry ∧ target ∈ entry.2 := by
  induction found generalizing state with
  | nil =>
    cases h
    simp
  | cons k found ih =>
    obtain ⟨next, hn, h⟩ := Option.bind_eq_some_iff.1 h
    obtain ⟨-, hn⟩ := Option.ite_none_left_eq_some.1 hn
    cases hn
    rw [ih h]
    simp only [markTargets, Bool.or_eq_true, contains_iff_mem, exists_mem_cons_iff, or_assoc]
    refine or_congr_right (or_congr_left ?_)
    cases unique[k]? <;> simp

/-- The candidates are the targets with a literal that occurs in the text. -/
theorem candidates_iff (automaton : AhoCorasick) {candidates : Nat → Bool} (hf : index.firstEmptyTarget = none)
    (h : index.matchingTargetsBounded automaton text maxMatchWork = some candidates) :
    candidates target = true ↔
      ∃ literal, Enters index.searcher.patterns target literal ∧ literal <:+: asBytes text := by
  obtain ⟨firstEmptyTarget, searcher⟩ := index
  cases hf
  unfold matchingTargetsBounded at h
  cases searcher with
  | empty =>
    cases h
    simp [Enters, LiteralSearcher.patterns]
  | byte needle targets =>
    dsimp only at h
    split at h <;> next hi => cases h; simp [Enters, LiteralSearcher.patterns, markTargets, singleton_infix_iff, hi]
  | substring finder targets =>
    dsimp only at h
    split at h <;> next hi => cases h; simp [Enters, LiteralSearcher.patterns, markTargets, hi]
  | multi unique =>
    obtain ⟨after, ha, rfl⟩ := Option.map_eq_some_iff.1 h
    rw [markFound_foldlM ha]
    simp only [automaton.correct, Enters, LiteralSearcher.patterns]
    constructor
    · rintro (hn | ⟨k, ⟨literal, hl, hi⟩, entry, he, ht⟩)
      · cases hn
      rw [getElem?_map, he] at hl
      cases hl
      exact ⟨_, ⟨entry, mem_of_getElem? he, rfl, ht⟩, hi⟩
    · rintro ⟨literal, ⟨entry, hm, rfl, ht⟩, hi⟩
      obtain ⟨k, hk⟩ := List.mem_iff_getElem?.1 hm
      exact .inr ⟨k, ⟨entry.1, by rw [getElem?_map, hk]; rfl, hi⟩, _, hk, ht⟩

end CompiledLiteralIndex

theorem mem_advancedLiterals : (target, literal) ∈ advancedLiterals patterns ↔
      ∃ pattern, patterns[target]? = some pattern ∧ pattern.isAdvanced = true ∧ literal ∈ pattern.requiredLiterals := by
  simp only [advancedLiterals, mem_flatMap, Prod.exists, mk_mem_zipIdx_iff_getElem?]
  constructor
  · rintro ⟨pattern, place, hg, hm⟩
    split at hm
    · next ha =>
      obtain ⟨_, hl, he⟩ := mem_map.1 hm
      cases he
      exact ⟨pattern, hg, ha, hl⟩
    · cases hm
  · rintro ⟨pattern, hg, ha, hl⟩
    exact ⟨pattern, target, hg, by rw [if_pos ha]; exact mem_map_of_mem hl⟩

theorem advancedPrefilter_eq {automaton : AhoCorasick} {limits : WafLimits}
    (h : advancedPrefilter automaton limits patterns = some index) : index = .new (advancedLiterals patterns) := by
  obtain ⟨-, h⟩ := Option.ite_none_left_eq_some.1 h
  obtain ⟨_, -, h⟩ := Option.bind_eq_some_iff.1 h
  obtain ⟨-, h⟩ := Option.ite_none_left_eq_some.1 h
  cases h
  rfl

/-- The combined index has an advanced pattern for a candidate if one of its literals occurs. -/
theorem candidate_iff {automaton : AhoCorasick} {limits : WafLimits} {candidates : Nat → Bool}
    (hp : advancedPrefilter automaton limits patterns = some index) (hg : patterns[target]? = some pattern)
    (ha : pattern.isAdvanced = true) (h : index.matchingTargetsBounded automaton text maxMatchWork = some candidates) :
    candidates target = true ↔ ∃ literal ∈ pattern.requiredLiterals, literal <:+: asBytes text := by
  have hne : ∀ entry ∈ advancedLiterals patterns, entry.2 ≠ [] := by
    rintro ⟨target, literal⟩ hm
    obtain ⟨pattern, -, -, hl⟩ := mem_advancedLiterals.1 hm
    exact pattern.literal_ne_nil hl
  cases advancedPrefilter_eq hp
  obtain ⟨hf, he, -⟩ := new_spec (advancedLiterals patterns)
  rw [CompiledLiteralIndex.candidates_iff automaton (hf.2 fun _ hm => hne _ hm rfl) h]
  refine exists_congr fun literal => and_congr_left fun _ => ?_
  rw [he, mem_advancedLiterals]
  constructor
  · rintro ⟨-, other, ho, -, hl⟩
    cases hg.symm.trans ho
    exact hl
  · exact fun hl => ⟨pattern.literal_ne_nil hl, pattern, hg, ha, hl⟩

/-! ## The joint search -/

namespace CompiledRegexPatternSet

theorem isAdvanced_of_linear (h : pattern.engine = .linear isMatch) : pattern.isAdvanced = false := by
  rw [isAdvanced, h]

/-- The joint search has an answer for the linear patterns and for no other; the matchers before are those that the
indices start after. -/
theorem linearIndices_get {place : Nat} (hg : patterns[place]? = some pattern) (before : List (Str → Bool)) :
    ((linearIndices before.length patterns)[place]?.join).map
        (fun k => (before ++ patterns.filterMap linearMatcher)[k]?.any (· text)) =
      (linearMatcher pattern).map (· text) := by
  induction patterns generalizing place before with
  | nil => cases hg
  | cons first patterns ih =>
    cases he : first.engine with
    | advanced _ =>
      have hf : linearMatcher first = none := by rw [linearMatcher, he]
      rw [linearIndices, isAdvanced, he, if_pos rfl, filterMap_cons_none hf]
      cases place with
      | zero =>
        cases hg
        rw [hf]
        rfl
      | succ place => exact ih hg before
    | linear matcher =>
      have hf : linearMatcher first = some matcher := by rw [linearMatcher, he]
      rw [linearIndices, isAdvanced_of_linear he, if_neg Bool.false_ne_true, filterMap_cons_some hf]
      cases place with
      | zero =>
        cases hg
        simp [hf]
      | succ place =>
        have hl := ih hg (before ++ [matcher])
        rwa [length_append, append_assoc] at hl

variable {automaton : AhoCorasick} {limits : WafLimits} {place : Nat}

theorem linearMatched_eq (hg : patterns[place]? = some pattern) :
    (new automaton limits patterns).linearMatched text place = (linearMatcher pattern).map (· text) :=
  linearIndices_get hg []

theorem linearMatched_linear (hg : patterns[place]? = some pattern) (h : pattern.engine = .linear isMatch) :
    (new automaton limits patterns).linearMatched text place = some (isMatch text) := by
  rw [linearMatched_eq hg, linearMatcher, h]
  rfl

end CompiledRegexPatternSet

/-! ## Single patterns -/

namespace SetRegex

theorem isMatchEngine_eq : pattern.isMatchEngine text = (pattern.findEngine text).map Option.isSome := by
  rw [pattern.agrees, findEngine]
  cases pattern.search text <;> rfl

theorem prefilterMatches_iff : pattern.prefilterMatches text = true ↔
    pattern.requiredLiterals = [] ∨ ∃ literal ∈ pattern.requiredLiterals, literal <:+: asBytes text := by
  rw [prefilterMatches, pattern.prefilter_eq, compilePrefilter_all]

/-- The prefilter changes the answer of a pattern if that matches without its literals, and else not. -/
theorem find_eq_iff : pattern.find text = pattern.ask text ↔ pattern.NeedsLiteral text := by
  have hl : (pattern.requiredLiterals ≠ [] → (∀ literal ∈ pattern.requiredLiterals, ¬literal <:+: asBytes text) →
      pattern.findEngine text = .ok none) ↔
      (pattern.prefilterMatches text = false → pattern.findEngine text = .ok none) := by
    rw [← Bool.not_eq_true, prefilterMatches_iff]
    simp only [not_or, not_exists, not_and, and_imp, ne_eq]
  rw [NeedsLiteral, hl, find, ask]
  cases pattern.checkAdvancedSubject text with
  | error _ => exact iff_of_true rfl nofun
  | ok _ =>
    show (if _ then _ else _) = pattern.findEngine text ↔ _
    cases pattern.prefilterMatches text with
    | true => exact iff_of_true rfl fun _ => nofun
    | false => exact ⟨fun h _ _ => h.symm, fun h => (h rfl rfl).symm⟩

theorem find_cases : pattern.find text = pattern.ask text ∨
    pattern.find text = .ok none ∧ pattern.prefilterMatches text = false := by
  rw [find, ask]
  cases pattern.checkAdvancedSubject text with
  | error _ => exact .inl rfl
  | ok _ =>
    cases pattern.prefilterMatches text with
    | true => exact .inl rfl
    | false => exact .inr ⟨rfl, rfl⟩

theorem find_of_ask_none (h : pattern.ask text = .ok none) : pattern.find text = .ok none :=
  find_cases.elim (·.trans h) (·.1)

theorem isMatch_eq : pattern.isMatch text = (pattern.find text).map Option.isSome := by
  rw [isMatch, isMatchEngine_eq, find]
  cases pattern.checkAdvancedSubject text with
  | error _ => rfl
  | ok _ => cases pattern.prefilterMatches text <;> rfl

end SetRegex

namespace CompiledRegexPatternSet

variable {automaton : AhoCorasick} {limits : WafLimits} {place : Nat} {matcher : Str → Except ε Bool}

theorem ask_linear (h : pattern.engine = .linear isMatch) (text : Str) :
    ∃ found, pattern.ask text = .ok found ∧ found.isSome = isMatch text := by
  have hc : pattern.checkAdvancedSubject text = .ok () := by
    rw [checkAdvancedSubject, isAdvanced_of_linear h]
    rfl
  have hm : (pattern.findEngine text).map Option.isSome = .ok (isMatch text) := by
    rw [← pattern.isMatchEngine_eq, isMatchEngine, h]
  cases hf : pattern.findEngine text with
  | error _ =>
    rw [hf] at hm
    cases hm
  | ok found =>
    rw [hf] at hm
    exact ⟨found, by rw [SetRegex.ask, hc, hf]; rfl, Except.ok.inj hm⟩

/-- For an advanced pattern the combined index and the pattern's own prefilter are the same. -/
theorem askAt_advanced {α : Type} (hg : patterns[place]? = some pattern) (h : pattern.engine = .advanced matcher)
    {linear : Bool → Answer ε α} {engine prefiltered : Answer ε α} {noMatch : α}
    (hp : prefiltered = do
      pattern.checkAdvancedSubject text
      if !pattern.prefilterMatches text then pure noMatch else engine) :
    (new automaton limits patterns).askAt automaton text pattern place linear engine prefiltered noMatch =
      prefiltered := by
  have ha : pattern.isAdvanced = true := by rw [isAdvanced, h]
  rw [askAt, linearMatched_eq hg, linearMatcher, h, Option.map_none]
  cases hi : (new automaton limits patterns).advancedPrefilter with
  | none => rfl
  | some prefilter =>
    dsimp only
    rw [hp]
    cases pattern.checkAdvancedSubject text with
    | error _ => rfl
    | ok _ =>
      show (if _ then _ else _) = if _ then _ else _
      have hpm := @SetRegex.prefilterMatches_iff _ pattern text
      split
      · next hne =>
        rw [hpm.2 (.inl (List.isEmpty_iff.1 hne))]
        rfl
      next hne =>
      rw [or_iff_right (mt List.isEmpty_iff.2 hne)] at hpm
      split
      · next candidates hc =>
        rw [← candidate_iff hi hg ha hc, Bool.coe_iff_coe] at hpm
        rw [hpm]
        cases candidates place <;> rfl
      · rfl

/-- The loop of `scan` asks each pattern with its prefilter. -/
theorem findAt_eq (hg : patterns[place]? = some pattern) :
    (new automaton limits patterns).findAt automaton text pattern place = pattern.find text := by
  cases he : pattern.engine with
  | linear isMatch =>
    obtain ⟨found, hf, hs⟩ := ask_linear he text
    rw [findAt, askAt, linearMatched_linear hg he, ← hs]
    cases found with
    | none => exact (pattern.find_of_ask_none hf).symm
    | some _ => rfl
  | advanced _ => exact askAt_advanced hg he rfl

/-- The loop of `is_match` does so too, except for the linear patterns. -/
theorem isMatchAt_eq (hg : patterns[place]? = some pattern) :
    (new automaton limits patterns).isMatchAt automaton text pattern place =
      (if pattern.isAdvanced then pattern.find text else pattern.ask text).map Option.isSome := by
  cases he : pattern.engine with
  | linear isMatch =>
    obtain ⟨found, hf, hs⟩ := ask_linear he text
    rw [isMatchAt, askAt, linearMatched_linear hg he, isAdvanced_of_linear he, if_neg Bool.false_ne_true, hf, ← hs]
    rfl
  | advanced _ =>
    rw [isAdvanced, he, if_pos rfl, ← pattern.isMatch_eq]
    exact askAt_advanced hg he rfl

end CompiledRegexPatternSet

/-! ## The set against its patterns -/

section Loops

variable {α β ρ : Type} {l : List α} {start : Nat}

theorem anyM_zipIdx {f : α × Nat → Except ρ Bool} {g : α → Except ρ Bool} (h : ∀ e ∈ l.zipIdx start, f e = g e.1) :
    (l.zipIdx start).anyM f = l.anyM g := by
  induction l generalizing start with
  | nil => rfl
  | cons a l ih =>
    obtain ⟨ha, hl⟩ := forall_mem_cons.1 h
    rw [zipIdx_cons, List.anyM, List.anyM, ha, ih hl]

theorem findSomeM_zipIdx {f : α × Nat → Except ρ (Option β)} {g : α → Except ρ (Option β)}
    (h : ∀ e ∈ l.zipIdx start, f e = g e.1) : (l.zipIdx start).findSomeM? f = l.findSomeM? g := by
  induction l generalizing start with
  | nil => rfl
  | cons a l ih =>
    obtain ⟨ha, hl⟩ := forall_mem_cons.1 h
    rw [zipIdx_cons, List.findSomeM?, List.findSomeM?, ha, ih hl]

end Loops

section Scan

variable {isTruncated : Bool} {ask : SetRegex ε → Answer ε (Option (Nat × Nat))}

theorem scanBy_cons : scanBy ask (pattern :: patterns) text isTruncated =
    match ask pattern with
    | .error e => .error e
    | .ok (some bounds) => .ok (.found pattern.pattern text bounds isTruncated)
    | .ok none => scanBy ask patterns text isTruncated := by
  rw [scanBy, List.findSomeM?]
  rcases ask pattern with _ | _ | _ <;> rfl

/-- A match that is reported is one of the patterns'. -/
theorem exists_of_scanBy {name : Str} {bounds : Nat × Nat}
    (h : scanBy ask patterns text isTruncated = .ok (.found name text bounds isTruncated)) :
    ∃ pattern ∈ patterns, pattern.pattern = name ∧ ∃ found, ask pattern = .ok (some found) := by
  induction patterns with
  | nil => cases h
  | cons pattern patterns ih =>
    rw [scanBy_cons] at h
    split at h
    · cases h
    · next found hf =>
      exact ⟨pattern, mem_cons_self, Option.some.inj (congrArg BodyScanResult.pattern (Except.ok.inj h)), found, hf⟩
    · obtain ⟨other, hm, ho⟩ := ih h
      exact ⟨other, mem_cons_of_mem _ hm, ho⟩

theorem scanBy_find (h : ReachedNeedLiterals text patterns) :
    scanBy (·.find text) patterns text isTruncated = scanBy (·.ask text) patterns text isTruncated := by
  induction patterns with
  | nil => rfl
  | cons pattern patterns ih =>
    rw [scanBy_cons, scanBy_cons, SetRegex.find_eq_iff.2 h.1]
    rcases ha : pattern.ask text with _ | _ | _
    · rfl
    · exact ih (h.2 ha)
    · rfl

/-- A match that is hidden is not made up for. -/
theorem reachedNeedLiterals_of_scanBy (hengines : ∀ pattern ∈ patterns, ∃ found, pattern.search text = .ok found)
    (h : scanBy (·.find text) patterns text isTruncated = scanBy (·.ask text) patterns text isTruncated) :
    ReachedNeedLiterals text patterns := by
  induction patterns with
  | nil => trivial
  | cons pattern patterns ih =>
    obtain ⟨⟨found, he⟩, hs⟩ := forall_mem_cons.1 hengines
    rw [scanBy_cons, scanBy_cons] at h
    rcases ha : pattern.ask text with e | _ | bounds
    · -- the engine does not fail, so the text is too long
      refine ⟨fun hc => ?_, fun hn => by cases ha.symm.trans hn⟩
      rw [SetRegex.ask, hc, SetRegex.findEngine, he] at ha
      cases ha
    · rw [ha, SetRegex.find_of_ask_none ha] at h
      exact ⟨SetRegex.find_eq_iff.1 ((SetRegex.find_of_ask_none ha).trans ha.symm), fun _ => ih hs h⟩
    · refine ⟨SetRegex.find_eq_iff.1 ?_, fun hn => by cases ha.symm.trans hn⟩
      rcases @SetRegex.find_cases _ pattern text with hf | ⟨hf, hp⟩
      · exact hf
      -- what is found instead has another pattern, as one with this pattern has the same literals
      rw [ha, hf] at h
      obtain ⟨other, -, hn, found, ho⟩ := exists_of_scanBy h
      have hop : other.prefilterMatches text = pattern.prefilterMatches text := by
        rw [Bool.eq_iff_iff, SetRegex.prefilterMatches_iff, SetRegex.prefilterMatches_iff, other.literals_eq, hn,
          pattern.literals_eq]
      rw [SetRegex.find, hop, hp] at ho
      cases hc : other.checkAdvancedSubject text with
      | error _ => rw [hc] at ho; cases ho
      | ok _ => rw [hc] at ho; cases ho

end Scan

theorem anyM_find (h : ReachedNeedLiterals text patterns) :
    (patterns.anyM fun pattern =>
        (if pattern.isAdvanced then pattern.find text else pattern.ask text).map Option.isSome) =
      matchOneByOne patterns text := by
  unfold matchOneByOne
  induction patterns with
  | nil => rfl
  | cons pattern patterns ih =>
    rw [List.anyM, List.anyM, SetRegex.find_eq_iff.2 h.1, ite_self]
    rcases ha : pattern.ask text with _ | _ | _
    · rfl
    · exact ih (h.2 ha)
    · rfl

/-- **A set is its patterns one by one**, if no pattern that is reached matches without a literal that its prefilter
asks for; and only then, as long as no engine fails on the text. -/
theorem set_eq_oneByOne (automaton : AhoCorasick) (limits : WafLimits) (patterns : List (SetRegex ε)) (text : Str)
    (isTruncated : Bool) :
    let set := CompiledRegexPatternSet.new automaton limits patterns
    let agrees := set.isMatch automaton text = matchOneByOne patterns text ∧
      set.scan automaton text isTruncated = scanOneByOne patterns text isTruncated
    (ReachedNeedLiterals text patterns → agrees) ∧
      ((∀ pattern ∈ patterns, ∃ found, pattern.search text = .ok found) →
        (agrees ↔ ReachedNeedLiterals text patterns)) := by
  intro set agrees
  have hz : ∀ entry ∈ patterns.zipIdx, patterns[entry.2]? = some entry.1 :=
    fun _ hm => mk_mem_zipIdx_iff_getElem?.1 hm
  have hm : set.isMatch automaton text = patterns.anyM fun pattern =>
      (if pattern.isAdvanced then pattern.find text else pattern.ask text).map Option.isSome :=
    anyM_zipIdx fun entry hm => CompiledRegexPatternSet.isMatchAt_eq (hz entry hm)
  have hs : set.scan automaton text isTruncated = scanBy (·.find text) patterns text isTruncated := by
    unfold CompiledRegexPatternSet.scan scanBy
    congr 1
    refine findSomeM_zipIdx ?_
    rintro ⟨pattern, place⟩ hm
    dsimp only
    rw [CompiledRegexPatternSet.findAt_eq (hz _ hm)]
  have hsuf : ReachedNeedLiterals text patterns → agrees := fun h =>
    ⟨hm.trans (anyM_find h), hs.trans (scanBy_find h)⟩
  exact ⟨hsuf, fun he => ⟨fun ha => reachedNeedLiterals_of_scanBy he (hs.symm.trans ha.2), hsuf⟩⟩

/-! ### Samples -/

/-- An automaton that tries the patterns in turn. -/
def trying : AhoCorasick where
  findOverlapping patterns haystack :=
    (List.range patterns.length).filter fun k => patterns[k]?.any fun pattern => decide (pattern <:+: haystack)
  memoryUsage _ := some 0
  correct patterns haystack k := by
    simp [Option.any_eq_true]
    exact fun pattern hk _ => (List.getElem?_eq_some_iff.1 hk).1

/-- The first place that fits, by the character before it and the text from there on, and two bytes. -/
def searchFrom (fits : Option Char → Str → Bool) (before : Option Char) (offset : Nat) : Str → Option (Nat × Nat)
  | [] => none
  | c :: rest =>
    if fits before (c :: rest) then some (offset, offset + 2) else searchFrom fits (some c) (offset + c.utf8Size) rest

def sampleRegex (pattern : String) (advanced : Bool) (fits : Option Char → Str → Bool) : SetRegex Unit where
  engine :=
    if advanced then .advanced fun text => .ok (searchFrom fits none 0 text).isSome
    else .linear fun text => (searchFrom fits none 0 text).isSome
  prefilter := compilePrefilter (compileRequiredLiterals pattern.toList false)
  requiredLiterals := compileRequiredLiterals pattern.toList false
  maxAdvancedSubjectBytes := 16
  pattern := pattern.toList
  search text := .ok (searchFrom fits none 0 text)
  agrees text := by cases advanced <;> rfl
  literals_eq := rfl
  prefilter_eq := rfl

def lookaheads : List (SetRegex Unit) :=
  [sampleRegex "cd(?=e)" true fun _ s => "cde".toList.isPrefixOf s,
    sampleRegex "ab(?=c)" true fun _ s => "abc".toList.isPrefixOf s]

/-- Two patterns with a combined index; the second one is found behind a letter. -/
theorem set_eq_oneByOne_lookaheads :
    (CompiledRegexPatternSet.new trying ⟨8, 64⟩ lookaheads).advancedPrefilter.isSome = true ∧
      (CompiledRegexPatternSet.new trying ⟨8, 64⟩ lookaheads).scan trying "xabc" false =
        .ok (.found "ab(?=c)" "xabc" (1, 3) false) := by
  refine ⟨by decide +kernel, ((set_eq_oneByOne trying ⟨8, 64⟩ lookaheads "xabc" false).1 ?_).2.trans rfl⟩
  refine ⟨fun _ _ _ => rfl, fun _ => ⟨fun _ _ hl => ?_, fun _ => trivial⟩⟩
  exact absurd (by decide +kernel) (hl (asBytes "ab") (by decide +kernel))

/-- A word that starts with `ad`; the prefilter asks for `<ad`. -/
def wordStart : SetRegex Unit :=
  sampleRegex "\\<ad" false fun before s => !before.any (decide <| asciiWord ·) && "ad".toList.isPrefixOf s

theorem scan_hides_match :
    (CompiledRegexPatternSet.new trying ⟨8, 64⟩ [wordStart]).isMatch trying "ad" = .ok true ∧
      (CompiledRegexPatternSet.new trying ⟨8, 64⟩ [wordStart]).scan trying "ad" false = .ok (.noMatch false) ∧
      scanOneByOne [wordStart] "ad" false = .ok (.found wordStart.pattern "ad" (0, 2) false) := by
  refine ⟨rfl, rfl, rfl⟩

end Waf
