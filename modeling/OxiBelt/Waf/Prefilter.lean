import OxiBelt.Waf.PatternScan

/-!
# The literal prefilter against the engines

* `isMatch_new`: the literal index finds a text if and only if one of its patterns occurs in it.
* `requiredLiterals_occur`: a text that a readable pattern matches contains one of its literals.
* `quantified_hides`, `boundary_hides`: what is not readable and why.
-/

namespace Waf

open RustStd Regex List Piece HybridRegex

/-! ## The literal index -/

section Index

/-- The patterns that a search looks for, with their targets. -/
def LiteralSearcher.patterns : LiteralSearcher → List (List UInt8 × List Nat)
  | .empty => []
  | .byte needle targets => [([needle], targets)]
  | .substring finder targets => [(finder, targets)]
  | .multi automaton => automaton

variable {unique : List (List UInt8 × List Nat)} {target t : Nat} {pattern p : List UInt8}

/-- The target is entered for the pattern. -/
def Enters (unique : List (List UInt8 × List Nat)) (target : Nat) (pattern : List UInt8) : Prop :=
  ∃ entry ∈ unique, entry.1 = pattern ∧ target ∈ entry.2

theorem enters_known (h : unique.any (·.1 == pattern) = true) :
    Enters (unique.map fun entry => if entry.1 = pattern then (entry.1, entry.2 ++ [target]) else entry) t p ↔
      Enters unique t p ∨ pattern = p ∧ t = target := by
  simp only [any_eq_true, beq_iff_eq] at h
  simp only [Enters, mem_map, exists_exists_and_eq_and]
  grind

theorem enters_new :
    Enters (unique ++ [(pattern, [target])]) t p ↔ Enters unique t p ∨ pattern = p ∧ t = target := by
  simp only [Enters, mem_append, mem_singleton, or_and_right, exists_or, exists_eq_left]

variable (patterns : List (Nat × List UInt8)) (found : Option Nat × List (List UInt8 × List Nat))

theorem collectPatterns_spec :
    ((collectPatterns patterns found).1 = none ↔ found.1 = none ∧ ∀ target, (target, []) ∉ patterns) ∧
    ∀ target pattern, Enters (collectPatterns patterns found).2 target pattern ↔
      Enters found.2 target pattern ∨ pattern ≠ [] ∧ (target, pattern) ∈ patterns := by
  fun_induction collectPatterns patterns found with
  | case1 => simp
  | case2 => grind
  | case3 _ _ _ _ _ _ hk ih =>
    simp only [enters_known hk] at ih
    grind
  | case4 _ _ _ _ _ _ _ ih =>
    simp only [enters_new] at ih
    grind

theorem collectPatterns_targets (h : ∀ entry ∈ found.2, entry.2 ≠ []) :
    ∀ entry ∈ (collectPatterns patterns found).2, entry.2 ≠ [] := by
  fun_induction collectPatterns patterns found with
  | case1 => exact h
  | case2 => grind
  | case3 _ _ _ _ _ _ _ ih =>
    refine ih (forall_mem_map.2 fun entry he => ?_)
    split
    · simp
    · exact h entry he
  | case4 => grind

/-- What the search looks for: the patterns that are not empty, each for its targets. -/
theorem new_spec :
    let index := CompiledLiteralIndex.new patterns
    (index.firstEmptyTarget = none ↔ ∀ target, (target, []) ∉ patterns) ∧
      (∀ target pattern, Enters index.searcher.patterns target pattern ↔ pattern ≠ [] ∧ (target, pattern) ∈ patterns) ∧
      ∀ entry ∈ index.searcher.patterns, entry.2 ≠ [] := by
  intro index
  obtain ⟨hf, he⟩ := collectPatterns_spec patterns (none, [])
  have hne := collectPatterns_targets patterns (none, []) nofun
  have hp : index.searcher.patterns = (collectPatterns patterns (none, [])).2.map fun entry =>
      (entry.1, (entry.2.insertionSort (· ≤ ·)).dedup) := by
    simp only [index, CompiledLiteralIndex.new]
    split <;> simp [*, LiteralSearcher.patterns]
  refine ⟨hf.trans (and_iff_right rfl), fun target pattern => ?_, ?_⟩
  · have hs : Enters index.searcher.patterns target pattern ↔
        Enters (collectPatterns patterns (none, [])).2 target pattern := by simp [Enters, hp]
    rw [hs, he]
    simp [Enters]
  · rw [hp]
    refine forall_mem_map.2 fun entry hm => ?_
    obtain ⟨target, ht⟩ := exists_mem_of_ne_nil _ (hne entry hm)
    exact ne_nil_of_mem (List.mem_dedup.2 ((mem_insertionSort _).2 ht))

theorem isMatch_iff (index : CompiledLiteralIndex) (haystack : Str) : index.isMatch haystack = true ↔
    index.firstEmptyTarget.isSome = true ∨ ∃ entry ∈ index.searcher.patterns, entry.1 <:+: asBytes haystack := by
  rw [CompiledLiteralIndex.isMatch, Bool.or_eq_true]
  cases index.searcher <;> simp [LiteralSearcher.patterns, singleton_infix_iff]

/-- Whichever search is chosen, it is for an occurrence of one of the patterns. -/
theorem isMatch_new (haystack : Str) : (CompiledLiteralIndex.new patterns).isMatch haystack = true ↔
      ∃ entry ∈ patterns, entry.2 <:+: asBytes haystack := by
  obtain ⟨hf, he, hne⟩ := new_spec patterns
  rw [isMatch_iff, ← Option.ne_none_iff_isSome, ne_eq, hf]
  constructor
  · rintro (hn | ⟨entry, hm, hi⟩)
    · obtain ⟨target, ht⟩ := not_forall_not.1 hn
      exact ⟨_, ht, nil_infix⟩
    · obtain ⟨target, ht⟩ := exists_mem_of_ne_nil _ (hne entry hm)
      exact ⟨_, ((he target entry.1).1 ⟨entry, hm, rfl, ht⟩).2, hi⟩
  · rintro ⟨⟨target, pattern⟩, hm, hi⟩
    by_cases hem : pattern = []
    · exact .inl fun h => h target (hem ▸ hm)
    · obtain ⟨entry, hen, rfl, -⟩ := (he target pattern).2 ⟨hem, hm⟩
      exact .inr ⟨entry, hen, hi⟩

end Index

/-! ## Patterns that the scan reads right -/

/-- A single branch: what the scan takes for a literal is one.  Several: the scan sees that there are
several, and if all of them pass for literals, none has a word boundary. -/
def Readable : Pattern → Bool
  | .last branch => scansFaithfully (skipAnchor branch.pieces)
  | .alt branch rest =>
    branchTracked branch &&
      (!((Pattern.alt branch rest).branches.all fun branch => isLiteral branch.pieces) ||
        (Pattern.alt branch rest).branches.all fun branch => !hasBoundary branch.pieces)

section Sound

variable {word : Char → Prop} {text : Str}

variable {pattern : Pattern} {caseInsensitive : Bool} {limit : Nat}

/-- If the scan takes what it sees for literals, it takes every branch for one. -/
theorem exactLiterals_branch {found : List Str}
    (hf : exactLiterals [] (splitTopLevelAlternatives pattern.render) = some found) {branch : Branch}
    (hb : branch ∈ pattern.branches) :
    ∃ literal ∈ found, exactLiteralPattern (branch.pieces.flatMap render) = some literal := by
  have hm : branch.render ∈ splitTopLevelAlternatives pattern.render := by
    rw [splitTopLevelAlternatives, (exactLiterals_render pattern hf).2]
    exact mem_map_of_mem hb
  obtain ⟨hb, hl⟩ := exactLiterals_spec hf
  obtain ⟨literal, -, he⟩ := hb branch.render hm
  exact ⟨literal, (hl literal).2 (.inr ⟨_, hm, he⟩), branch.render_pieces ▸ he⟩

/-- If the branches all pass for literals, a readable pattern has no word boundary. -/
theorem readable_boundaries (hr : Readable pattern = true) {found : List Str}
    (hs : 1 < (splitTopLevelAlternatives pattern.render).length)
    (hf : exactLiterals [] (splitTopLevelAlternatives pattern.render) = some found) :
    ∀ branch ∈ pattern.branches, hasBoundary branch.pieces = false := by
  cases pattern with
  | last branch =>
    rw [splitTopLevelAlternatives, (exactLiterals_render _ hf).2] at hs
    exact absurd hs (by simp [Pattern.branches])
  | alt first rest =>
    have hl : ∀ branch ∈ (Pattern.alt first rest).branches, isLiteral branch.pieces = true := by
      intro branch hb
      obtain ⟨literal, -, he⟩ := exactLiterals_branch hf hb
      exact exactLiteralPattern_isLiteral he
    rw [Readable, Bool.and_eq_true, Bool.or_eq_true] at hr
    rcases hr.2 with hn | hnn
    · rw [all_eq_true.2 hl] at hn
      cases hn
    · intro branch hb
      simpa using all_eq_true.1 hnn branch hb

theorem requiredLiterals_occur (hr : Readable pattern = true) (hm : pattern.Matches word text)
    (hne : requiredLiteralAlternatives pattern.render ≠ []) :
    ∃ literal ∈ requiredLiteralAlternatives pattern.render, literal <:+: text := by
  unfold requiredLiteralAlternatives at hne ⊢
  dsimp only at hne ⊢
  by_cases hs : 1 < (splitTopLevelAlternatives pattern.render).length
  · rw [if_pos hs] at hne ⊢
    cases hf : exactLiterals [] (splitTopLevelAlternatives pattern.render) with
    | none =>
      rw [hf] at hne
      exact absurd rfl hne
    | some found =>
      obtain ⟨i, j, hi, hsp⟩ := hm
      obtain ⟨branch, hb, hsp⟩ := (pattern.spans_iff i j).1 hsp
      obtain ⟨literal, hl, he⟩ := exactLiterals_branch hf hb
      have hw := readable_boundaries hr hs hf branch hb
      exact ⟨literal, hl, exactLiteralPattern_infix he hw ((branch.spans_pieces i j).1 hsp)⟩
  rw [if_neg hs] at hne ⊢
  cases pattern with
  | alt branch rest =>
    rw [Readable, Bool.and_eq_true] at hr
    exact absurd (split_alternatives hr.1 rest) hs
  | last branch =>
    cases hl : requiredLiteralPrefix (Pattern.last branch).render with
    | none =>
      rw [hl] at hne
      exact absurd rfl hne
    | some literal =>
      refine ⟨literal, by simp, ?_⟩
      obtain ⟨i, j, hi, hsp⟩ := hm
      rw [Pattern.render, branch.render_pieces] at hl
      exact requiredLiteralPrefix_infix hr hl ((branch.spans_pieces i j).1 hsp)

theorem asBytes_infix {s t : Str} (h : s <:+: t) : asBytes s <:+: asBytes t := by
  obtain ⟨before, after, rfl⟩ := h
  exact ⟨asBytes before, asBytes after, by simp [asBytes]⟩

variable {ε : Type}

variable {engines : Engines ε}

theorem compile_prefilter {pattern : Str} {regex : HybridRegex ε}
    (h : compile engines pattern caseInsensitive limit = .ok regex) :
    regex.prefilter = compilePrefilter (compileRequiredLiterals pattern caseInsensitive) := by
  unfold compile at h
  dsimp only at h
  split at h
  · cases h
    rfl
  split at h
  · cases h
    rfl
  · cases h

theorem compilePrefilter_all (literals : List (List UInt8)) (text : Str) :
    (compilePrefilter literals).all (·.isMatch text) = true ↔
      literals = [] ∨ ∃ literal ∈ literals, literal <:+: asBytes text := by
  cases literals with
  | nil => simp [compilePrefilter]
  | cons literal literals =>
    rw [compilePrefilter, isEmpty_cons, if_neg (by simp), Option.all_some, isMatch_new]
    simp

theorem prefilterMatches_iff {pattern : Str} {regex : HybridRegex ε}
    (h : compile engines pattern caseInsensitive limit = .ok regex) (text : Str) :
    regex.prefilterMatches text = true ↔
      compileRequiredLiterals pattern caseInsensitive = [] ∨
        ∃ literal ∈ compileRequiredLiterals pattern caseInsensitive, literal <:+: asBytes text := by
  rw [prefilterMatches, compile_prefilter h, compilePrefilter_all]

theorem prefilter_passes {regex : HybridRegex ε} (hc : compile engines pattern.render caseInsensitive limit = .ok regex)
    (hr : caseInsensitive = true ∨ Readable pattern = true) (hm : pattern.Matches word text) :
    regex.prefilterMatches text = true := by
  rw [prefilterMatches_iff hc, compileRequiredLiterals]
  split
  · exact .inl rfl
  next hci =>
  replace hr := hr.resolve_left hci
  by_cases hne : requiredLiteralAlternatives pattern.render = []
  · exact .inl (by rw [hne]; rfl)
  · obtain ⟨literal, hmm, hi⟩ := requiredLiterals_occur hr hm hne
    exact .inr ⟨asBytes literal, mem_map_of_mem hmm, asBytes_infix hi⟩

end Sound

/-! ## Runs that the scan reads wrong -/

section Gaps

variable {word : Char → Prop} {text : Str}

variable {run : List Piece} {chars : Str} {piece : Piece} {c : Char} {base : Atom}

/-- What the scan takes for a character is neither an anchor nor a class. -/
theorem scanned_plain (hs : scannedAs base = some c) : isAnchor base = false ∧ base.isClass = false := by
  cases base <;> first | exact ⟨rfl, rfl⟩ | cases hs

theorem split_flat {pieces : List Piece} (hf : ∀ piece ∈ pieces, isFlat piece = true) :
    splitTopLevelAlternatives (pieces.flatMap render) = [pieces.flatMap render] := by
  have hl : Lexed Inert (pieces.flatMap render) := by
    induction pieces with
    | nil => exact .nil
    | cons piece rest ih =>
      rw [flatMap_cons]
      exact (isFlat_lexed (hf piece mem_cons_self)).append (ih fun piece hm => hf piece (mem_cons_of_mem _ hm))
  have hs := splitFrom_inert hl [] []
  rw [append_nil] at hs
  rw [splitTopLevelAlternatives, hs]
  rfl

theorem stripAnchor_scanned (hc : piece.core = some base) (hs : scannedAs base = some c) (rest : Str) :
    stripAnchor (piece.render ++ rest) = piece.render ++ rest := by
  rw [piece.render_of_core hc, append_assoc, stripAnchor_atom, (scanned_plain hs).1]
  rfl

/-- The literal of a single branch of flat pieces without an anchor. -/
theorem required_of_run {pieces : List Piece} (hf : ∀ piece ∈ pieces, isFlat piece = true)
    (hst : stripAnchor (pieces.flatMap render) = pieces.flatMap render) {literal after : Str}
    (hp : parseLiteralRun false (pieces.flatMap render) = some (literal, after))
    (hne : kept literal after ≠ []) :
    requiredLiteralAlternatives (Pattern.last (.ofPieces pieces)).render = [kept literal after] := by
  have hr : (Pattern.last (.ofPieces pieces)).render = pieces.flatMap render := by
    rw [Pattern.render, Branch.render_pieces, Branch.pieces_ofPieces]
  have hs := split_flat hf
  have hl : requiredLiteralPrefix (pieces.flatMap render) = some (kept literal after) := by
    rw [requiredLiteralPrefix, hs, if_neg (by simp), hst, hp]
    exact if_pos hne
  rw [hr, requiredLiteralAlternatives, hs, if_neg (by simp), hl]
  rfl

theorem parseLiteralRun_chars (h : Spells run chars) (rest : Str) : parseLiteralRun false (run.flatMap render ++ rest) =
      (parseLiteralRun false rest).map fun (literal, after) => (chars ++ literal, after) := by
  induction h with
  | nil => simp
  | cons hc _ ih =>
    rw [flatMap_cons, append_assoc, render, parseLiteralRun_scanned hc, ih, Option.map_map]
    rfl

variable {ε : Type} {engines : Engines ε} {limit : Nat} {regex : HybridRegex ε}

/-- A text that the pattern matches and the prefilter keeps from the engine. -/
def Hides (word : Char → Prop) (regex : HybridRegex ε) (pattern : Pattern) : Prop :=
  ∃ text, pattern.Matches word text ∧ regex.prefilterMatches text = false

theorem prefilter_rejects {pattern literal : Str} (hc : compile engines pattern false limit = .ok regex)
    (hr : requiredLiteralAlternatives pattern = [literal])
    (hn : ¬asBytes literal <:+: asBytes text) : regex.prefilterMatches text = false := by
  rw [← Bool.not_eq_true, prefilterMatches_iff hc]
  simpa [compileRequiredLiterals, hr] using hn

theorem asBytes_concat_length (s : Str) (c : Char) : (asBytes s).length < (asBytes (s ++ [c])).length := by
  have hp := c.utf8Size_pos
  simp only [asBytes, flatMap_append, flatMap_cons, flatMap_nil, append_nil,
    length_append, String.length_utf8EncodeChar]
  omega

theorem spansAll_chars {run : List Piece} {chars : Str} (h : Spells run chars) (hw : hasBoundary run = false)
    (before after : Str) :
    SpansAll word (before ++ (chars ++ after)) run before.length (before.length + chars.length) := by
  induction h generalizing before with
  | nil => rfl
  | @cons base c run chars hc _ ih =>
    simp only [hasBoundary, any_cons, core, Option.any_some, Bool.or_eq_false_iff] at hw
    have hr := ih hw.2 (before ++ [c])
    rw [length_append, append_assoc] at hr
    refine ⟨before.length + 1, (scanned_spans hc hw.1 _ _).2 ⟨by simp, rfl⟩, ?_⟩
    rw [length_cons, Nat.add_comm chars.length, ← Nat.add_assoc]
    exact hr

theorem scansFaithfully_append (h : Spells run chars) (rest : List Piece) :
    scansFaithfully (run ++ rest) = (!hasBoundary run && scansFaithfully rest) := by
  induction h with
  | nil => rfl
  | cons hc _ ih =>
    rw [cons_append, scansFaithfully]
    simp only [core, hc, repeats, ih, hasBoundary, any_cons]
    simp [Bool.and_assoc]

theorem skipAnchor_scanned (hc : piece.core = some base) (hs : scannedAs base = some c) (rest : List Piece) :
    skipAnchor (piece :: rest) = piece :: rest := by
  cases piece with
  | atom base' =>
    cases hc
    rw [skipAnchor_atom, (scanned_plain hs).1]
    rfl
  | _ => rfl

theorem run_flat (h : Spells run chars) : ∀ piece ∈ run, isFlat piece = true := by
  induction h with
  | nil => simp
  | cons hc _ ih => exact forall_mem_cons.2 ⟨by simp [isFlat, core, scanned_plain hc], ih⟩

/-- A repeated character that may be left out and that the scan keeps: the characters before it are a
match without the literal. -/
theorem quantified_hides (hrn : Spells run chars) (hw : hasBoundary run = false)
    (hc : piece.core = some base) (hs : scannedAs base = some c) (hb : isBoundary base = false)
    (hr : piece.repeats ≠ []) (ha : ∀ times ∈ piece.repeats, times.quantifier.Allows times.quantifier.least)
    (hcm : compile engines (Pattern.last (.ofPieces (run ++ [piece]))).render false limit = .ok regex)
    (hrd : Readable (.last (.ofPieces (run ++ [piece]))) = false) :
    Hides word regex (.last (.ofPieces (run ++ [piece]))) := by
  obtain ⟨inner, outer, hr⟩ := exists_cons_of_ne_nil hr
  have hfl : ∀ piece' ∈ run ++ [piece], isFlat piece' = true := by
    intro piece' hm
    rcases mem_append.1 hm with hm | hm
    · exact run_flat hrn piece' hm
    · rw [mem_singleton.1 hm]
      simp [isFlat, hc, scanned_plain hs]
  -- No piece is an anchor, so the scan starts with the first.
  obtain ⟨hst, hsk⟩ : stripAnchor ((run ++ [piece]).flatMap render) = (run ++ [piece]).flatMap render ∧
      skipAnchor (run ++ [piece]) = run ++ [piece] := by
    cases hrn with
    | nil => exact ⟨stripAnchor_scanned hc hs _, skipAnchor_scanned hc hs _⟩
    | cons hc' _ => exact ⟨stripAnchor_scanned rfl hc' _, skipAnchor_scanned rfl hc' _⟩
  have hpr : parseLiteralRun false ((run ++ [piece]).flatMap render) =
      some (chars ++ [c], piece.repeats.flatMap Repeat.render) := by
    rw [flatMap_append, parseLiteralRun_chars hrn, flatMap_cons, flatMap_nil,
      append_nil, piece.render_of_core hc, parseLiteralRun_scanned hs, hr,
      flatMap_cons, parseLiteralRun_repeat]
    rfl
  rw [Readable, Branch.pieces_ofPieces, hsk, scansFaithfully_append hrn, hw, scansFaithfully] at hrd
  simp only [hc, hs, hr, hb, Bool.not_false, Bool.true_and, reduceCtorEq, if_false, Bool.or_eq_false_iff] at hrd
  obtain ⟨hd, hl⟩ := hrd
  have hk : kept (chars ++ [c]) (piece.repeats.flatMap Repeat.render) = chars ++ [c] := by
    rw [kept, hr, flatMap_cons, dropsLast_repeat, hd]
    rfl
  have hrq := required_of_run hfl hst hpr (by rw [hk]; simp)
  rw [hk] at hrq
  refine ⟨chars, ?_, prefilter_rejects hcm hrq ?_⟩
  · -- The characters match, and the piece matches the empty span behind them.
    have hz : ∃ times ∈ piece.repeats, times.quantifier.least = 0 := by
      rw [hr]
      obtain ⟨times, hm, hn⟩ := List.all_eq_false.1 hl
      exact ⟨times, hm, by simpa using hn⟩
    have hch := @spansAll_chars word run chars hrn hw [] []
    rw [append_nil, nil_append] at hch
    refine ⟨0, 0 + chars.length, Nat.zero_le _, ?_⟩
    rw [Pattern.Spans, Branch.spans_pieces, Branch.pieces_ofPieces]
    exact spansAll_append.2 ⟨_, hch, _, piece.spans_empty ha hz, rfl⟩
  · intro hi
    have hle := hi.length_le
    have hln := asBytes_concat_length chars c
    omega

/-! ### Word boundaries -/

def bare (run : List Piece) : Str :=
  (run.filter fun piece => !piece.core.any isBoundary).filterMap literalChar

def WordLast (word : Char → Prop) (s : Str) : Prop := ∃ c, s.getLast? = some c ∧ word c

def WordFirst (word : Char → Prop) (s : Str) : Prop := ∃ c, s.head? = some c ∧ word c

theorem wordBefore_append (before after : Str) :
    WordBefore word (before ++ after) before.length ↔ WordLast word before := by
  rw [WordBefore, take_left]
  rfl

theorem wordAfter_append (before after : Str) :
    WordAfter word (before ++ after) before.length ↔ WordFirst word after := by
  rw [WordAfter, WordFirst, getElem?_append_right (le_refl _), Nat.sub_self, head?_eq_getElem?]

/-- A word boundary matches wherever what stands before and after is a word character or not in the same way. -/
theorem boundary_moved (hb : isBoundary base = true) {before after before₁ after₁ : Str} {k : Nat}
    (hl : WordLast word before ↔ WordLast word before₁) (hf : WordFirst word after ↔ WordFirst word after₁)
    (h : base.Spans word (before ++ after) before.length k) :
    k = before.length ∧ base.Spans word (before₁ ++ after₁) before₁.length before₁.length := by
  cases base with
  | wordStart | wordEnd =>
    obtain ⟨rfl, h⟩ := h
    rw [wordBefore_append, wordAfter_append, hl, hf, ← wordBefore_append before₁ after₁,
      ← wordAfter_append before₁ after₁] at h
    exact ⟨rfl, rfl, h⟩
  | _ => cases hb

/-- The characters stand for themselves, and the boundaries for nothing. -/
theorem bare_cons (hc : scannedAs base = some c) (run : List Piece) :
    bare (.atom base :: run) = if isBoundary base then bare run else c :: bare run := by
  cases hb : isBoundary base <;> simp [bare, core, hb, literalChar, hc]

/-- A run matches its bare characters, wherever what stands before and after them is a word character or
not in the same way. -/
theorem spansAll_moved (h : Spells run chars) {before after : Str} {j : Nat}
    (hs : SpansAll word (before ++ after) run before.length j) :
    ∃ after', after = bare run ++ after' ∧ ∀ before₁ after₁ : Str,
      (WordLast word before ↔ WordLast word before₁) → (WordFirst word after' ↔ WordFirst word after₁) →
        SpansAll word (before₁ ++ (bare run ++ after₁)) run before₁.length
          (before₁.length + (bare run).length) := by
  induction h generalizing before after with
  | nil => exact ⟨after, rfl, fun _ _ _ _ => rfl⟩
  | @cons base c run chars hc _ ih =>
    obtain ⟨k, hp, hrs⟩ := hs
    rw [bare_cons hc]
    cases hb : isBoundary base with
    | false =>
      -- A character moves on by itself.
      obtain ⟨hg, rfl⟩ := (scanned_spans hc hb _ _).1 hp
      rw [getElem?_append_right (le_refl _), Nat.sub_self, ← head?_eq_getElem?] at hg
      obtain ⟨after', rfl⟩ := head?_eq_some_iff.1 hg
      have hsh : before ++ c :: after' = (before ++ [c]) ++ after' := by simp
      have hln : before.length + 1 = (before ++ [c]).length := by simp
      rw [hsh, hln] at hrs
      obtain ⟨after'', rfl, hm⟩ := ih hrs
      refine ⟨after'', rfl, fun before₁ after₁ _ ha => ?_⟩
      have hmv := hm (before₁ ++ [c]) after₁ (by simp [WordLast]) ha
      rw [length_append, append_assoc] at hmv
      rw [if_neg Bool.false_ne_true, length_cons, Nat.add_comm (bare run).length, ← Nat.add_assoc]
      exact ⟨before₁.length + 1, (scanned_spans hc hb _ _).2 ⟨by simp, rfl⟩, hmv⟩
    | true =>
      obtain ⟨rfl, -⟩ := boundary_moved hb Iff.rfl Iff.rfl hp
      obtain ⟨after', rfl, hm⟩ := ih hrs
      refine ⟨after', rfl, fun before₁ after₁ hbf ha => ?_⟩
      refine ⟨before₁.length, (boundary_moved hb hbf ?_ hp).2, hm before₁ after₁ hbf ha⟩
      cases bare run with
      | nil => exact ha
      | cons => exact Iff.rfl

/-- A byte below 128 stands for the character it is, and for no part of another. -/
theorem count_utf8EncodeChar {a : Char} (ha : a.val.toNat < 128) (c : Char) :
    (String.utf8EncodeChar c).count (UInt8.ofNat a.val.toNat) = if c = a then 1 else 0 := by
  have hb : ∀ n < 256, n ≠ a.val.toNat → (UInt8.ofNat n == UInt8.ofNat a.val.toNat) = false := by
    intro n hn hne
    rw [beq_eq_false_iff_ne, ne_eq, ← UInt8.toNat_inj, UInt8.toNat_ofNat', UInt8.toNat_ofNat']
    omega
  have hv : c = a ↔ c.val.toNat = a.val.toNat := by rw [Char.ext_iff, ← UInt32.toNat_inj]
  by_cases hc : c.val.toNat = a.val.toNat
  · rw [if_pos (hv.2 hc), hv.2 hc, String.utf8EncodeChar, if_pos (by omega)]
    exact count_singleton_self
  · rw [if_neg (mt hv.1 hc), String.utf8EncodeChar]
    split_ifs <;> simp (disch := omega) only [count_cons, count_nil, hb, Bool.false_eq_true, if_false]

theorem count_asBytes {a : Char} (ha : a.val.toNat < 128) (s : Str) :
    (asBytes s).count (UInt8.ofNat a.val.toNat) = s.count a := by
  induction s with
  | nil => rfl
  | cons c s ih =>
    rw [asBytes, flatMap_cons, count_append, count_utf8EncodeChar ha, count_cons]
    rw [asBytes] at ih
    rw [ih]
    simp only [beq_iff_eq]
    omega

/-- The literal has the characters of the run, and those of the boundaries besides. -/
theorem count_bare (h : Spells run chars) (a : Char) : (bare run).count a +
      run.countP (fun piece => piece.core.any isBoundary && literalChar piece == some a) = chars.count a := by
  induction h with
  | nil => rfl
  | @cons base c run chars hc _ ih =>
    rw [countP_cons, count_cons, ← ih, bare_cons hc]
    cases hb : isBoundary base with
    | false =>
      rw [if_neg Bool.false_ne_true, count_cons]
      simp only [core, hb, Option.any_some, Bool.false_and, Bool.false_eq_true, if_false]
      omega
    | true =>
      rw [if_pos rfl]
      simp only [core, hb, Option.any_some, Bool.true_and, literalChar, hc, Option.some_beq_some]
      omega

/-- The scan takes some word boundary of the run for one of these two characters. -/
theorem exists_boundary (h : Spells run chars) (hb : hasBoundary run = true) : ∃ a, (a = '<' ∨ a = '>') ∧
    0 < run.countP fun piece => piece.core.any isBoundary && literalChar piece == some a := by
  induction h with
  | nil => cases hb
  | @cons base c run chars _ _ ih =>
    cases base with
    | wordStart => exact ⟨'<', .inl rfl, by simp [core, isBoundary, literalChar, scannedAs]⟩
    | wordEnd => exact ⟨'>', .inr rfl, by simp [core, isBoundary, literalChar, scannedAs]⟩
    | _ =>
      obtain ⟨a, ha, hp⟩ := ih hb
      exact ⟨a, ha, hp.trans_le (sublist_cons_self _ _).countP_le⟩

theorem exists_word (o : Option Char) : ∃ t : Str, (∀ c ∈ t, word c) ∧
    ((∃ c, o = some c ∧ word c) ↔ WordLast word t) ∧ ((∃ c, o = some c ∧ word c) ↔ WordFirst word t) := by
  by_cases h : ∃ c, o = some c ∧ word c
  · obtain ⟨c, hl, hc⟩ := h
    have hw : ∃ c, o = some c ∧ word c := ⟨c, hl, hc⟩
    exact ⟨[c], by simpa using hc, iff_of_true hw ⟨c, rfl, hc⟩, iff_of_true hw ⟨c, rfl, hc⟩⟩
  · refine ⟨[], by simp, iff_of_false h ?_, iff_of_false h ?_⟩ <;> simp [WordLast, WordFirst]

/-- A run with a word boundary that matches anything at all: it matches a text with fewer of the
characters for which the scan takes the boundary. -/
theorem boundary_hides (han : ¬word '<' ∧ ¬word '>') (hr : Spells run chars) (hb : hasBoundary run = true)
    (hcm : compile engines (Pattern.last (.ofPieces run)).render false limit = .ok regex)
    (hmt : (Pattern.last (.ofPieces run)).Matches word text) :
    Hides word regex (.last (.ofPieces run)) := by
  obtain ⟨a, hag, hps⟩ := exists_boundary hr hb
  have hac : a.val.toNat < 128 := by rcases hag with rfl | rfl <;> decide
  have hw : ¬word a := by
    rcases hag with rfl | rfl
    · exact han.1
    · exact han.2
  -- Cut the match down to the bare characters and a word character on either side.
  obtain ⟨i, j, hi, hs⟩ := hmt
  rw [Pattern.Spans, Branch.spans_pieces, Branch.pieces_ofPieces] at hs
  obtain ⟨before, after, rfl, rfl⟩ : ∃ before after, text = before ++ after ∧ i = before.length :=
    ⟨text.take i, text.drop i, (take_append_drop i text).symm, by simp [hi]⟩
  obtain ⟨after', -, hmv⟩ := spansAll_moved hr hs
  obtain ⟨before₁, hbf, hl, -⟩ := @exists_word word before.getLast?
  obtain ⟨after₁, haf, -, hf⟩ := @exists_word word after'.head?
  have hspans₁ := hmv before₁ after₁ hl hf
  -- The scan takes the whole run for its literal.
  have hpr : parseLiteralRun false (run.flatMap render) = some (chars, []) := by
    have hc := parseLiteralRun_chars hr []
    rw [append_nil] at hc
    rw [hc]
    simp [parseLiteralRun]
  have hrq : requiredLiteralAlternatives (Pattern.last (.ofPieces run)).render = [chars] := by
    refine required_of_run (run_flat hr) ?_ hpr ?_
    · cases hr with
      | nil => rfl
      | cons hc _ => exact stripAnchor_scanned rfl hc _
    · cases hr with
      | nil => cases hb
      | cons _ _ => exact cons_ne_nil _ _
  refine ⟨before₁ ++ (bare run ++ after₁), ?_, prefilter_rejects hcm hrq ?_⟩
  · refine ⟨before₁.length, before₁.length + (bare run).length, by simp, ?_⟩
    rw [Pattern.Spans, Branch.spans_pieces, Branch.pieces_ofPieces]
    exact hspans₁
  intro hin
  have hcn := hin.sublist.count_le (UInt8.ofNat a.val.toNat)
  rw [count_asBytes hac, count_asBytes hac, count_append, count_append] at hcn
  have hbefore₀ : before₁.count a = 0 := count_eq_zero.2 fun hm => hw (hbf a hm)
  have hafter₀ : after₁.count a = 0 := count_eq_zero.2 fun hm => hw (haf a hm)
  have hbr := count_bare hr a
  omega

theorem readable_run (h : Spells run chars) : Readable (.last (.ofPieces run)) = !hasBoundary run := by
  have hs : skipAnchor run = run := by
    cases h with
    | nil => rfl
    | cons hc _ => exact skipAnchor_scanned rfl hc _
  have ha := scansFaithfully_append h []
  rw [append_nil] at ha
  rw [Readable, Branch.pieces_ofPieces, hs, ha, scansFaithfully, Bool.and_true]

end Gaps

/-! ## The prefilter and the engines -/

/-- The prefilter of a pattern that is readable or asked without case lets every text pass that the pattern matches.
What is not readable is so for a reason: a run of characters with a quantified one behind it, and a run with word
boundaries, hide a match if they are not readable and can match at all. -/
theorem prefilter_never_hides (word : Char → Prop) (hangles : ¬word '<' ∧ ¬word '>') {ε : Type}
    (engines : Engines ε) (limit : Nat) :
    (∀ (pattern : Pattern) (caseInsensitive : Bool) (regex : HybridRegex ε),
      HybridRegex.compile engines pattern.render caseInsensitive limit = .ok regex →
      caseInsensitive = true ∨ Readable pattern = true → ∀ text, pattern.Matches word text →
        regex.prefilterMatches text = true) ∧
    (∀ (run : List Piece) (chars : Str) (piece : Piece) (base : Atom) (c : Char) (regex : HybridRegex ε),
      run.map literalChar = chars.map some → hasBoundary run = false →
      piece.core = some base → scannedAs base = some c → isBoundary base = false → piece.repeats ≠ [] →
      (∀ times ∈ piece.repeats, times.quantifier.Allows times.quantifier.least) →
      HybridRegex.compile engines (Pattern.last (.ofPieces (run ++ [piece]))).render false limit = .ok regex →
      (Readable (.last (.ofPieces (run ++ [piece]))) = true ↔
        ∀ text, (Pattern.last (.ofPieces (run ++ [piece]))).Matches word text →
          regex.prefilterMatches text = true)) ∧
    ∀ (run : List Piece) (chars : Str) (regex : HybridRegex ε),
      run.map literalChar = chars.map some →
      HybridRegex.compile engines (Pattern.last (.ofPieces run)).render false limit = .ok regex →
      (∃ text, (Pattern.last (.ofPieces run)).Matches word text) →
      (Readable (.last (.ofPieces run)) = true ↔
        ∀ text, (Pattern.last (.ofPieces run)).Matches word text → regex.prefilterMatches text = true) := by
  have hs : ∀ {regex : HybridRegex ε} {pattern : Pattern},
      (∀ text, pattern.Matches word text → regex.prefilterMatches text = true) →
        ¬Hides word regex pattern := by
    rintro regex pattern ha ⟨text, hm, hrj⟩
    rw [ha text hm] at hrj
    cases hrj
  refine ⟨fun pattern _ regex hc hr text hm => prefilter_passes hc hr hm, ?_, ?_⟩
  · intro run chars piece base c regex hrn hw hcr hsc hb hrp hal hc
    refine ⟨fun hr text => prefilter_passes hc (.inr hr), fun ha => ?_⟩
    rw [← Bool.not_eq_false]
    intro hr
    exact hs ha (quantified_hides (spells_of_map hrn) hw hcr hsc hb hrp hal hc hr)
  intro run chars regex hrn hc hm
  refine ⟨fun hr text => prefilter_passes hc (.inr hr), fun ha => ?_⟩
  rw [← Bool.not_eq_false]
  intro hr
  obtain ⟨text, hm⟩ := hm
  rw [readable_run (spells_of_map hrn), Bool.not_eq_false'] at hr
  exact hs ha (boundary_hides hangles (spells_of_map hrn) hr hc hm)

def asciiWord (c : Char) : Prop := (c.isAlphanum || c == '_') = true

instance (c : Char) : Decidable (asciiWord c) := inferInstanceAs (Decidable (_ = true))

/-- A linear engine that accepts every pattern and matches every text. -/
def matchAll : Engines Unit where
  linear _ _ := .ok fun _ => true
  advanced _ _ := .ok fun _ => .ok true

def compiled (pattern : Pattern) : HybridRegex Unit where
  engine := .linear fun _ => true
  prefilter := compilePrefilter (compileRequiredLiterals pattern.render false)
  requiredLiterals := compileRequiredLiterals pattern.render false
  maxAdvancedSubjectBytes := 0

def letters (s : List { c : Char // c ∉ metaCharacters }) : List Piece :=
  s.map fun c => .atom (.char c.val c.property)

/-- `ab(?=c)` -/
def lookingAhead : Pattern :=
  .last (.ofPieces (letters [⟨'a', by decide⟩, ⟨'b', by decide⟩] ++
    [.group (.ahead false) (.last (.ofPieces (letters [⟨'c', by decide⟩])))]))

/-- `\<ad` -/
def atWordStart : Pattern :=
  .last (.ofPieces (.atom .wordStart :: letters [⟨'a', by decide⟩, ⟨'d', by decide⟩]))

def three : Digits where
  text := ['3']
  nonempty := by decide
  digits c hc := by
    rw [mem_singleton.1 hc]
    decide

/-- `ab{,3}` -/
def atMostThree : Pattern :=
  .last (.ofPieces (letters [⟨'a', by decide⟩] ++
    [.repeated (.atom (.char 'b' (by decide))) ⟨.atMost three, false⟩]))

/-- `a[](]|b` -/
def bracketFirst : Pattern :=
  .alt (.ofPieces (letters [⟨'a', by decide⟩] ++
      [.atom (.charClass [.plain ']' (by decide), .plain '(' (by decide)] fun c => c = ']' ∨ c = '(')]))
    (.last (.ofPieces (letters [⟨'b', by decide⟩])))

theorem prefilter_examples : (Readable lookingAhead = true ∧ lookingAhead.Matches asciiWord "abc" ∧
      (compiled lookingAhead).requiredLiterals = [asBytes "ab"] ∧
      (compiled lookingAhead).prefilterMatches "abc" = true) ∧
    (¬∀ text, atMostThree.Matches asciiWord text → (compiled atMostThree).prefilterMatches text = true) ∧
    ¬∀ text, atWordStart.Matches asciiWord text → (compiled atWordStart).prefilterMatches text = true := by
  have hm : lookingAhead.Matches asciiWord "abc" :=
    ⟨0, 2, by decide, 1, ⟨rfl, rfl⟩, 2, ⟨rfl, rfl⟩, 2, ⟨rfl, 3, 3, ⟨rfl, rfl⟩, rfl⟩, rfl⟩
  have hs : atWordStart.Matches asciiWord "ad" := by
    refine ⟨0, 2, by decide, 0, ⟨rfl, ?_, 'a', rfl, by decide⟩, 1, ⟨rfl, rfl⟩, 2, ⟨rfl, rfl⟩, rfl⟩
    rintro ⟨c, hc, -⟩
    cases hc
  obtain ⟨hp, hq, hb⟩ := prefilter_never_hides asciiWord (by decide) matchAll 0
  refine ⟨⟨by decide, hm, by decide, ?_⟩, fun ha => ?_, fun ha => ?_⟩
  · exact hp lookingAhead false (compiled lookingAhead) rfl (.inr (by decide)) "abc" hm
  · have hr := (hq (letters [⟨'a', by decide⟩]) ['a'] (.repeated (.atom (.char 'b' (by decide))) ⟨.atMost three, false⟩)
      (.char 'b' (by decide)) 'b' (compiled atMostThree) rfl rfl rfl rfl rfl (by simp [repeats])
      (by simp [repeats, Quantifier.Allows, Quantifier.least]) rfl).2 ha
    revert hr
    decide
  · have hr := (hb (.atom .wordStart :: letters [⟨'a', by decide⟩, ⟨'d', by decide⟩])
      ['<', 'a', 'd'] (compiled atWordStart) rfl rfl ⟨_, hs⟩).2 ha
    revert hr
    decide

-- The scan asks for `<ad`, for `ab` and for `a`.
theorem prefilter_hides_matches : (atWordStart.render = "\\<ad" ∧ atWordStart.Matches asciiWord "ad" ∧
      (compiled atWordStart).prefilterMatches "ad" = false) ∧
    (atMostThree.render = "ab\x7b,3\x7d" ∧ atMostThree.Matches asciiWord "a" ∧
      (compiled atMostThree).prefilterMatches "a" = false) ∧
    (bracketFirst.render = "a[](]|b" ∧ bracketFirst.Matches asciiWord "b" ∧
      (compiled bracketFirst).prefilterMatches "b" = false) := by
  refine ⟨⟨by decide, ⟨0, 2, by decide, 0, ⟨rfl, ?_, ?_⟩, 1, ⟨rfl, rfl⟩, 2, ⟨rfl, rfl⟩, rfl⟩, by decide +kernel⟩,
    ⟨by decide, ⟨0, 1, by decide, 1, ⟨rfl, rfl⟩, 1, ⟨0, ⟨by decide, by decide⟩, rfl⟩, rfl⟩, by decide +kernel⟩,
    ⟨by decide, ⟨0, 1, by decide, .inr ⟨1, ⟨rfl, rfl⟩, rfl⟩⟩, by decide +kernel⟩⟩
  · rintro ⟨c, hc, -⟩
    cases hc
  · exact ⟨'a', rfl, by decide⟩

end Waf
