import OxiBelt.Lib.Regex
import OxiBelt.Waf.HybridRegex

/-!
# The scan of a pattern for literals

The scan of `split_top_level_alternatives` and `parse_literal_run` knows less of the pattern syntax than
the engines do.  Here its reading of a pattern is compared with the pattern.

* `requiredLiteralPrefix_infix`: the literal at the start of a single branch stands in every match, if
  `scansFaithfully`.
* `exactLiterals_render`: if the branches that the scan sees are all literals, they are the branches of
  the pattern.
* `exactLiteralPattern_infix`: a branch that passes for a literal stands in every match of it, unless it
  has a word boundary.
* `split_alternatives`: the scan sees that there are alternatives, if `branchTracked`.
-/

namespace Waf

open RustStd Regex List Piece Scan

/-! ## What the scan takes for a literal -/

/-- The character for which the scan takes an atom. -/
def scannedAs : Atom → Option Char
  | .char c _ => some c
  | .escaped c _ => some c
  | .wordStart => some '<'
  | .wordEnd => some '>'
  | _ => none

def isBoundary : Atom → Bool
  | .wordStart => true
  | .wordEnd => true
  | _ => false

/-- The quantifiers at which the scan gives up the character before them. -/
def mayDrop : Quantifier → Bool
  | .star => true
  | .optional => true
  | .exactly count => count.text.head? == some '0'
  | .atLeast least => least.text.head? == some '0'
  | .between least _ => least.text.head? == some '0'
  | .plus => false
  | .atMost _ => false

/-- The pieces that the scan takes for a literal stand for their characters, and the last of them is
given up if its quantifiers allow that it is left out. -/
def scansFaithfully : List Piece → Bool
  | [] => true
  | piece :: rest =>
    match piece.core with
    | none => true
    | some base =>
      if scannedAs base = none then true
      else
        match piece.repeats with
        | [] => !isBoundary base && scansFaithfully rest
        | inner :: outer =>
          mayDrop inner.quantifier ||
            (!isBoundary base && (inner :: outer).all fun times => decide (1 ≤ times.quantifier.least))

def skipAnchor : List Piece → List Piece
  | .atom .lineStart :: rest => rest
  | .atom .textStart :: rest => rest
  | pieces => pieces

section Run

variable {complete : Bool} {base : Atom} {rest : Str} {c ch : Char} {pieces : List Piece}

theorem parseLiteralRun_cons (hc : c ≠ '\\') : parseLiteralRun complete (c :: rest) =
      if c ∈ runEnds then if complete then none else some ([], c :: rest)
      else (parseLiteralRun complete rest).map fun (literal, after) => (c :: literal, after) := by
  rw [parseLiteralRun]
  · intro h _
    exact hc h
  · intro _ _ h _
    exact hc h

theorem parseLiteralRun_end (hc : c ∈ runEnds) :
    parseLiteralRun complete (c :: rest) = if complete then none else some ([], c :: rest) := by
  rw [parseLiteralRun_cons, if_pos hc]
  rintro rfl
  revert hc
  decide

theorem isAlphanumeric_eq (c : Char) : isAlphanumeric c = isAsciiAlphanumeric c := rfl

theorem parseLiteralRun_scanned (h : scannedAs base = some c) : parseLiteralRun complete (base.render ++ rest) =
      (parseLiteralRun complete rest).map fun (literal, after) => (c :: literal, after) := by
  cases base with
  | char d hd =>
    cases h
    have he : c ∉ runEnds := by
      intro hm
      apply hd
      simp only [runEnds, metaCharacters, mem_cons, not_mem_nil, or_false] at hm ⊢
      tauto
    have hne : c ≠ '\\' := by
      rintro rfl
      exact hd (by decide)
    show parseLiteralRun complete (c :: rest) = _
    rw [parseLiteralRun_cons hne, if_neg he]
  | escaped d hd =>
    cases h
    show parseLiteralRun complete ('\\' :: c :: rest) = _
    rw [parseLiteralRun, ← isAlphanumeric_eq, hd.1]
    rfl
  | wordStart | wordEnd =>
    cases h
    rfl
  | _ => cases h

theorem parseLiteralRun_unscanned (h : scannedAs base = none) : parseLiteralRun complete (base.render ++ rest) =
      if complete then none else some ([], base.render ++ rest) := by
  cases base with
  | charClass body accepts =>
    have he : '[' ∈ runEnds := by decide
    exact parseLiteralRun_end he
  | any | lineStart | lineEnd => exact parseLiteralRun_end (by decide)
  | textStart => rfl
  | escape c tail hc accepts =>
    show parseLiteralRun complete ('\\' :: c :: (tail ++ rest)) = _
    rw [parseLiteralRun, ← isAlphanumeric_eq, hc.1]
    rfl
  | _ => cases h

theorem repeat_render (times : Repeat) : ∃ ch ∈ ['*', '+', '?', '{'], ∃ s, times.render = ch :: s := by
  obtain ⟨quantifier, isLazy⟩ := times
  cases quantifier <;> exact ⟨_, by decide, _, rfl⟩

theorem runEnds_of_quantifier (h : ch ∈ ['*', '+', '?', '{']) : ch ∈ runEnds ∧ ch ≠ '$' := by
  simp only [mem_cons, not_mem_nil, or_false] at h
  rcases h with rfl | rfl | rfl | rfl <;> decide

theorem parseLiteralRun_repeat (times : Repeat) : parseLiteralRun complete (times.render ++ rest) =
      if complete then none else some ([], times.render ++ rest) := by
  obtain ⟨ch, hch, s, hs⟩ := repeat_render times
  rw [hs]
  exact parseLiteralRun_end (runEnds_of_quantifier hch).1

theorem dropsLast_brace (c : Char) : dropsLast ('{' :: c :: rest) = (c == '0') := by
  by_cases h : c = '0'
  · subst h
    rfl
  rw [beq_eq_false_iff_ne.2 h]
  unfold dropsLast
  split
  · next heq => cases heq
  · next heq => cases heq
  · next heq =>
    cases heq
    exact absurd rfl h
  · rfl

theorem dropsLast_digits (digits : Digits) :
    dropsLast ('{' :: (digits.text ++ rest)) = (digits.text.head? == some '0') := by
  obtain ⟨text, hne, hd⟩ := digits
  cases text with
  | nil => exact absurd rfl hne
  | cons c text =>
    rw [cons_append, dropsLast_brace]
    rfl

/-- The scan gives up a character exactly at the quantifiers said to do so. -/
theorem dropsLast_repeat (times : Repeat) : dropsLast (times.render ++ rest) = mayDrop times.quantifier := by
  obtain ⟨quantifier, isLazy⟩ := times
  cases quantifier with
  | exactly least | atLeast least | between least =>
    simp only [Repeat.render, Quantifier.render, cons_append, append_assoc, mayDrop]
    exact dropsLast_digits least
  | _ => rfl

/-! ### The run of a branch -/

variable {word : Char → Prop} {text : List Char}

theorem scanned_spans (h : scannedAs base = some c) (hw : isBoundary base = false) (i j : Nat) :
    base.Spans word text i j ↔ text[i]? = some c ∧ j = i + 1 := by
  cases base with
  | char | escaped =>
    cases h
    exact Iff.rfl
  | wordStart | wordEnd => cases hw
  | _ => cases h

/-- What is left of a run when the scan has given up its last character, if it does. -/
def kept (literal after : Str) : Str := if dropsLast after then literal.dropLast else literal

theorem kept_cons_le (c : Char) (literal after : Str) : kept (c :: literal) after <+: c :: kept literal after := by
  unfold kept
  split
  · cases literal with
    | nil => exact nil_prefix
    | cons d literal => exact prefix_refl _
  · exact prefix_refl _

theorem kept_nil (after : Str) : kept [] after = [] := by
  unfold kept
  split <;> rfl

/-- The text goes on with the literal of the run wherever the pieces match. -/
theorem run_leads (hf : scansFaithfully pieces = true) {literal after : Str}
    (hp : parseLiteralRun false (pieces.flatMap render) = some (literal, after)) {i j : Nat}
    (hsp : SpansAll word text pieces i j) : kept literal after <+: text.drop i := by
  induction pieces generalizing literal after i with
  | nil =>
    cases hp
    exact nil_prefix
  | cons piece rest ih =>
    obtain ⟨k, hpc, hrs⟩ := hsp
    rw [flatMap_cons] at hp
    rw [scansFaithfully] at hf
    cases hcr : piece.core with
    | none =>
      obtain ⟨s, hs⟩ := piece.render_of_group hcr
      rw [hs, cons_append, parseLiteralRun_end (by decide)] at hp
      cases hp
      rw [kept_nil]
      exact nil_prefix
    | some base =>
      rw [hcr] at hf
      dsimp only at hf
      rw [piece.render_of_core hcr, append_assoc] at hp
      cases hsc : scannedAs base with
      | none =>
        rw [parseLiteralRun_unscanned hsc] at hp
        cases hp
        rw [kept_nil]
        exact nil_prefix
      | some c =>
        rw [hsc, if_neg (by simp)] at hf
        rw [parseLiteralRun_scanned hsc] at hp
        cases hr : piece.repeats with
        | nil =>
          -- The piece is the character, and the run goes on.
          rw [hr] at hf hp
          simp only [Bool.and_eq_true, Bool.not_eq_true'] at hf
          rw [flatMap_nil, nil_append] at hp
          obtain ⟨⟨literal', after'⟩, hrn, heq⟩ := Option.map_eq_some_iff.1 hp
          cases heq
          rw [eq_atom hcr hr, Piece.Spans] at hpc
          obtain ⟨hc, rfl⟩ := (scanned_spans hsc hf.1 _ _).1 hpc
          exact (kept_cons_le c literal' _).trans (cons_prefix_drop hc (ih hf.2 hrn hrs))
        | cons inner outer =>
          -- The run ends with the character, and the quantifiers decide whether it is kept.
          rw [hr] at hf hp
          rw [flatMap_cons, append_assoc, parseLiteralRun_repeat] at hp
          cases hp
          unfold kept
          rw [dropsLast_repeat]
          by_cases hd : mayDrop inner.quantifier = true
          · rw [if_pos hd]
            exact nil_prefix
          rw [if_neg hd]
          simp only [hd, Bool.false_or, Bool.and_eq_true, Bool.not_eq_true', all_eq_true, decide_eq_true_eq] at hf
          obtain ⟨hw, hl⟩ := hf
          have hc : text[i]? = some c := piece.spans_start (fun i j h => ((scanned_spans hsc hw i j).1 h).1) hcr
              (by rw [hr]; exact hl) hpc
          exact cons_prefix_drop hc nil_prefix

/-! ### The literal at the start of a branch -/

def isAnchor : Atom → Bool
  | .lineStart => true
  | .textStart => true
  | _ => false

theorem stripAnchor_plain (hc : c ≠ '^') (he : c ≠ '\\') : stripAnchor (c :: rest) = c :: rest := by
  unfold stripAnchor
  split
  · next heq => cases heq; exact absurd rfl hc
  · next heq => cases heq; exact absurd rfl he
  · rfl

theorem stripAnchor_escaped (hc : c ≠ 'A') : stripAnchor ('\\' :: c :: rest) = '\\' :: c :: rest := by
  unfold stripAnchor
  split
  · next heq => cases heq
  · next heq => cases heq; exact absurd rfl hc
  · rfl

theorem stripAnchor_atom (base : Atom) (rest : Str) :
    stripAnchor (base.render ++ rest) = if isAnchor base then rest else base.render ++ rest := by
  cases base with
  | char c hc =>
    refine stripAnchor_plain ?_ ?_
    · rintro rfl
      exact hc (by decide)
    · rintro rfl
      exact hc (by decide)
  | escaped c hc =>
    refine stripAnchor_escaped ?_
    rintro rfl
    exact absurd hc.1 (by decide)
  | escape c tail hc accepts => exact stripAnchor_escaped hc.2.1
  | charClass body accepts => exact stripAnchor_plain (by decide) (by decide)
  | _ => rfl

theorem skipAnchor_atom (base : Atom) (rest : List Piece) :
    skipAnchor (.atom base :: rest) = if isAnchor base then rest else .atom base :: rest := by
  cases base <;> rfl

theorem skipAnchor_other {piece : Piece} (h : ∀ base, piece ≠ .atom base) (rest : List Piece) :
    skipAnchor (piece :: rest) = piece :: rest := by
  cases piece with
  | atom base => exact absurd rfl (h base)
  | _ => rfl

/-- The scan skips the anchor that stands first, or finds a quantifier behind it. -/
theorem stripAnchor_render (pieces : List Piece) :
    stripAnchor (pieces.flatMap render) = (skipAnchor pieces).flatMap render ∨
      ∃ after, parseLiteralRun false (stripAnchor (pieces.flatMap render)) = some ([], after) := by
  cases pieces with
  | nil => exact .inl rfl
  | cons piece rest =>
    rw [flatMap_cons]
    cases hc : piece.core with
    | none =>
      left
      obtain ⟨s, hs⟩ := piece.render_of_group hc
      have hg : ∀ base, piece ≠ .atom base := by
        rintro base rfl
        cases hc
      rw [skipAnchor_other hg, flatMap_cons, hs]
      exact stripAnchor_plain (by decide) (by decide)
    | some base =>
      cases hr : piece.repeats with
      | nil =>
        left
        rw [eq_atom hc hr, skipAnchor_atom, render, stripAnchor_atom]
        split
        · rfl
        · rw [flatMap_cons, render]
      | cons inner outer =>
        have ho : ∀ base, piece ≠ .atom base := by
          rintro base rfl
          cases hr
        rw [skipAnchor_other ho, flatMap_cons, piece.render_of_core hc, append_assoc, stripAnchor_atom]
        split
        · right
          rw [hr, flatMap_cons, append_assoc, parseLiteralRun_repeat]
          exact ⟨_, rfl⟩
        · exact .inl rfl

theorem skipAnchor_suffix (pieces : List Piece) : skipAnchor pieces <:+ pieces := by
  unfold skipAnchor
  split
  · exact suffix_cons _ _
  · exact suffix_cons _ _
  · exact suffix_refl _

theorem requiredLiteralPrefix_infix (hf : scansFaithfully (skipAnchor pieces) = true) {literal : Str}
    (hl : requiredLiteralPrefix (pieces.flatMap render) = some literal) {i j : Nat}
    (hs : SpansAll word text pieces i j) : literal <:+: text := by
  unfold requiredLiteralPrefix at hl
  split at hl
  · cases hl
  split at hl
  · cases hl
  next run after hp =>
  change (if kept run after ≠ [] then some (kept run after) else none) = some literal at hl
  split at hl
  · next hne =>
    cases hl
    rcases stripAnchor_render pieces with hst | ⟨after', he⟩
    · rw [hst] at hp
      obtain ⟨k, _, hs'⟩ := spansAll_infix (skipAnchor_suffix pieces).isInfix hs
      exact (run_leads hf hp hs').isInfix.trans (drop_suffix k text).isInfix
    rw [he] at hp
    cases hp
    exact absurd (kept_nil _) hne
  · cases hl

end Run

/-! ## How the scan cuts a pattern -/

section Split

variable {branch rest s : Str} {scan : Scan} {c ch : Char} {piece : Piece}

theorem splitFrom_head (branch : Str) (scan : Scan) (rest : Str) :
    ∃ more branches, splitFrom branch scan rest = (branch ++ more) :: branches := by
  induction rest generalizing branch scan with
  | nil => exact ⟨[], [], by rw [splitFrom, append_nil]⟩
  | cons ch rest ih =>
    rw [splitFrom]
    cases scan.next ch with
    | none => exact ⟨[], _, by rw [append_nil]⟩
    | some scan' =>
      obtain ⟨more, branches, heq⟩ := ih (branch ++ [ch]) scan'
      exact ⟨ch :: more, branches, by simp [heq]⟩

def Scan.outside (depth : Nat) : Scan := { depth, escaped := false, inClass := false }

theorem next_inert (hc : Inert c) (depth : Nat) : (Scan.outside depth).next c = some (.outside depth) := by
  simp only [Inert, mem_cons, not_mem_nil, or_false, not_or] at hc
  obtain ⟨h1, h2, h3, h4, h5⟩ := hc
  simp [Scan.next, Scan.outside, h1, h2, h3, h4, h5]

theorem splitFrom_inert (hs : Lexed Inert s) (branch rest : Str) :
    splitFrom branch .start (s ++ rest) = splitFrom (branch ++ s) .start rest := by
  induction hs generalizing branch with
  | nil => simp
  | plain hc _ ih =>
    have hn : start.next _ = some .start := next_inert hc 0
    rw [cons_append, splitFrom, hn]
    dsimp only
    rw [ih, append_assoc, singleton_append]
  | escaped c _ ih =>
    rw [cons_append, cons_append, splitFrom]
    show splitFrom _ { start with escaped := true } _ = _
    rw [splitFrom]
    show splitFrom _ .start _ = _
    rw [ih]
    simp

theorem parseLiteralRun_open (hs : Lexed Inert s) (hch : ch ∈ ['[', '(']) :
    parseLiteralRun true (s ++ ch :: rest) = none := by
  induction hs with
  | nil =>
    have he : ch ∈ runEnds := by
      simp only [mem_cons, not_mem_nil, or_false] at hch
      rcases hch with rfl | rfl <;> decide
    exact parseLiteralRun_end he
  | @plain c s hc _ ih =>
    have hne : c ≠ '\\' := by
      rintro rfl
      exact hc (by decide)
    rw [cons_append, parseLiteralRun_cons hne, ih]
    split <;> rfl
  | escaped c _ ih =>
    rw [cons_append, cons_append, parseLiteralRun, ih]
    split <;> rfl

theorem stripStart_plain (hc : c ≠ '^') : stripStart (c :: rest) = c :: rest := by
  unfold stripStart
  split
  · next heq =>
    cases heq
    exact absurd rfl hc
  · rfl

theorem stripStart_open (hs : Lexed Inert s) (hch : ch ∈ ['[', '(']) :
    ∃ s', Lexed Inert s' ∧ stripStart (s ++ ch :: rest) = s' ++ ch :: rest := by
  cases hs with
  | nil =>
    refine ⟨[], .nil, ?_⟩
    simp only [mem_cons, not_mem_nil, or_false] at hch
    rcases hch with rfl | rfl <;> rfl
  | @plain c s hc hs =>
    by_cases hcr : c = '^'
    · subst hcr
      exact ⟨s, hs, rfl⟩
    exact ⟨c :: s, .plain hc hs, stripStart_plain hcr⟩
  | escaped c hs => exact ⟨_, .escaped c hs, rfl⟩

theorem stripEnd_open (hch : ch ≠ '$') : ∃ rest', stripEnd (s ++ ch :: rest) = s ++ ch :: rest' := by
  unfold stripEnd
  split
  · next hl =>
    cases hr : rest with
    | nil =>
      rw [hr, getLast?_concat] at hl
      cases hl
      exact absurd rfl hch
    | cons d rest =>
      refine ⟨(d :: rest).dropLast, ?_⟩
      rw [dropLast_append_of_ne_nil (by simp), dropLast_cons_of_ne_nil (by simp)]
  · exact ⟨rest, rfl⟩

theorem parseLiteralRun_stripEnd (he : ch ∈ runEnds) (hd : ch ≠ '$') :
    parseLiteralRun true (stripEnd (ch :: rest)) = none := by
  obtain ⟨rest', hr⟩ := @stripEnd_open rest [] ch hd
  rw [nil_append, nil_append] at hr
  rw [hr]
  exact parseLiteralRun_end he

theorem exactLiteralPattern_open (hs : Lexed Inert s) (hch : ch ∈ ['[', '(']) :
    exactLiteralPattern (s ++ ch :: rest) = none := by
  have hd : ch ≠ '$' := by
    rintro rfl
    exact absurd hch (by decide)
  obtain ⟨s', hs', hst⟩ := stripStart_open hs hch
  obtain ⟨rest', he⟩ := @stripEnd_open rest s' ch hd
  rw [exactLiteralPattern, hst, he, parseLiteralRun_open hs' hch]
  rfl

def isFlat (piece : Piece) : Bool := piece.core.any fun base => !base.isClass

theorem isFlat_lexed (h : isFlat piece = true) : Lexed Inert piece.render := by
  cases hc : piece.core with
  | none => simp [isFlat, hc] at h
  | some base =>
    refine piece.lexed hc ?_
    simpa [isFlat, hc] using h

theorem not_isFlat_render (h : isFlat piece = false) : ∃ ch ∈ ['[', '('], ∃ s, piece.render = ch :: s := by
  cases hc : piece.core with
  | none =>
    obtain ⟨s, hs⟩ := piece.render_of_group hc
    exact ⟨'(', by decide, s, hs⟩
  | some base =>
    cases base with
    | charClass body accepts =>
      have hr := piece.render_of_core hc
      exact ⟨'[', by decide, _, hr⟩
    | _ => simp [isFlat, hc, Atom.isClass] at h

theorem next_open (hch : ch ∈ ['[', '(']) : ∃ scan, start.next ch = some scan := by
  simp only [mem_cons, not_mem_nil, or_false] at hch
  rcases hch with rfl | rfl <;> exact ⟨_, rfl⟩

/-- The scan reads the pieces of a branch, up to the first that opens something. -/
theorem splitFrom_pieces (pieces : List Piece) {branch : Str} (hb : Lexed Inert branch) (rest : Str) :
    ((∀ piece ∈ pieces, isFlat piece = true) ∧
      splitFrom branch .start (pieces.flatMap render ++ rest) =
        splitFrom (branch ++ pieces.flatMap render) .start rest) ∨
    ∃ s, Lexed Inert s ∧ ∃ ch ∈ ['[', '('], ∃ more branches,
      splitFrom branch .start (pieces.flatMap render ++ rest) = (s ++ ch :: more) :: branches := by
  induction pieces generalizing branch with
  | nil => exact .inl ⟨by simp, by simp⟩
  | cons piece pieces ih =>
    rw [flatMap_cons, append_assoc]
    cases hf : isFlat piece with
    | true =>
      have hl := isFlat_lexed hf
      rw [splitFrom_inert hl]
      rcases ih (hb.append hl) with ⟨ha, hsp⟩ | ho
      · left
        exact ⟨forall_mem_cons.2 ⟨hf, ha⟩, by rw [hsp, append_assoc]⟩
      · exact .inr ho
    | false =>
      right
      obtain ⟨ch, hch, s, hs⟩ := not_isFlat_render hf
      obtain ⟨scan, hn⟩ := next_open hch
      obtain ⟨more, branches, heq⟩ := splitFrom_head (branch ++ [ch]) scan (s ++ (pieces.flatMap render ++ rest))
      refine ⟨branch, hb, ch, hch, more, branches, ?_⟩
      rw [hs, cons_append, splitFrom, hn]
      simp [heq]

theorem exactLiterals_spec {branches literals found : List Str} (h : exactLiterals literals branches = some found) :
    (∀ branch ∈ branches, ∃ literal ≠ [], exactLiteralPattern branch = some literal) ∧
      ∀ literal, literal ∈ found ↔
        literal ∈ literals ∨ ∃ branch ∈ branches, exactLiteralPattern branch = some literal := by
  induction branches generalizing literals with
  | nil =>
    cases h
    simp
  | cons branch branches ih =>
    rw [exactLiterals] at h
    obtain ⟨literal, he, h⟩ := Option.bind_eq_some_iff.1 h
    obtain ⟨hne, h⟩ := Option.ite_none_left_eq_some.1 h
    obtain ⟨hb, hf⟩ := ih h
    refine ⟨forall_mem_cons.2 ⟨⟨literal, hne, he⟩, hb⟩, fun other => ?_⟩
    rw [hf, exists_mem_cons_iff, he, ← or_assoc]
    refine or_congr_left ?_
    grind

/-- If every branch that the scan sees is a literal, then the branches it sees are those of the
pattern: whatever else it could have mistaken opens a class or a group, and that is no literal. -/
theorem exactLiterals_render : ∀ (pattern : Pattern) {literals found : List Str},
    exactLiterals literals (splitFrom [] .start pattern.render) = some found →
    (∀ branch ∈ pattern.branches, ∀ piece ∈ branch.pieces, isFlat piece = true) ∧
      splitFrom [] .start pattern.render = pattern.branches.map Branch.render
  | .last branch, literals, found, h => by
    rw [Pattern.render, branch.render_pieces] at h ⊢
    rcases splitFrom_pieces branch.pieces .nil [] with ⟨hf, hsp⟩ | ⟨s, hs, ch, hch, more, branches, hsp⟩
    · rw [append_nil] at hsp
      refine ⟨?_, ?_⟩
      · simpa [Pattern.branches] using hf
      · rw [hsp]
        simp [splitFrom, Pattern.branches, branch.render_pieces]
    · rw [append_nil] at hsp
      rw [hsp, exactLiterals, exactLiteralPattern_open hs hch] at h
      cases h
  | .alt branch rest, literals, found, h => by
    rw [Pattern.render, branch.render_pieces] at h ⊢
    rcases splitFrom_pieces branch.pieces .nil ('|' :: rest.render) with
      ⟨hf, hsp⟩ | ⟨s, hs, ch, hch, more, branches, hsp⟩
    · have hc : splitFrom [] .start (branch.pieces.flatMap render ++ '|' :: rest.render) =
          branch.pieces.flatMap render :: splitFrom [] .start rest.render := hsp
      rw [hc] at h ⊢
      rw [exactLiterals] at h
      obtain ⟨literal, -, h⟩ := Option.bind_eq_some_iff.1 h
      split at h
      · cases h
      obtain ⟨hr, hb⟩ := exactLiterals_render rest h
      refine ⟨forall_mem_cons.2 ⟨hf, hr⟩, ?_⟩
      rw [hb, Pattern.branches, map_cons, branch.render_pieces]
    · rw [hsp, exactLiterals, exactLiteralPattern_open hs hch] at h
      cases h

end Split

/-! ## Branches that are literals -/

section Literal

variable {c : Char} {s literal after chars : Str} {piece : Piece} {pieces run : List Piece}

/-- The character of a piece that the scan takes for one, without quantifiers. -/
def literalChar : Piece → Option Char
  | .atom base => scannedAs base
  | _ => none

/-- A run of pieces and the characters for which the scan takes them. -/
inductive Spells : List Piece → Str → Prop
  | nil : Spells [] []
  | cons {base : Atom} {c : Char} {run : List Piece} {chars : Str} (hc : scannedAs base = some c)
      (hr : Spells run chars) : Spells (.atom base :: run) (c :: chars)

theorem spells_cons (hc : literalChar piece = some c) (hr : Spells run chars) : Spells (piece :: run) (c :: chars) := by
  cases piece with
  | atom base => exact .cons hc hr
  | _ => cases hc

theorem spells_of_map (h : run.map literalChar = chars.map some) : Spells run chars := by
  induction run generalizing chars with
  | nil =>
    rw [map_eq_nil_iff.1 h.symm]
    exact .nil
  | cons piece run ih =>
    cases chars with
    | nil => cases h
    | cons c chars => exact spells_cons (List.cons.inj h).1 (ih (List.cons.inj h).2)

def dropStart : List Piece → List Piece
  | .atom .lineStart :: rest => rest
  | pieces => pieces

def dropEnd : List Piece → List Piece
  | [] => []
  | [.atom .lineEnd] => []
  | piece :: rest => piece :: dropEnd rest

/-- An anchor at either end, and between them what the scan takes for characters. -/
def isLiteral (pieces : List Piece) : Bool :=
  (dropEnd (dropStart pieces)).all fun piece => (literalChar piece).isSome

def hasBoundary (pieces : List Piece) : Bool := pieces.any fun piece => piece.core.any isBoundary

variable {rest : Str}

theorem parseLiteralRun_piece (h : literalChar piece = some c) (complete : Bool) :
    parseLiteralRun complete (piece.render ++ rest) =
      (parseLiteralRun complete rest).map fun (literal, after) => (c :: literal, after) := by
  cases piece with
  | atom base =>
    rw [render]
    exact parseLiteralRun_scanned h
  | _ => cases h

theorem parseLiteralRun_other (h : literalChar piece = none) : parseLiteralRun true (piece.render ++ rest) = none := by
  cases hc : piece.core with
  | none =>
    obtain ⟨s, hs⟩ := piece.render_of_group hc
    rw [hs]
    exact parseLiteralRun_end (by decide)
  | some base =>
    cases hr : piece.repeats with
    | nil =>
      rw [eq_atom hc hr] at h ⊢
      exact parseLiteralRun_unscanned h
    | cons inner outer =>
      rw [piece.render_of_core hc, append_assoc]
      cases hsc : scannedAs base with
      | none => exact parseLiteralRun_unscanned hsc
      | some c =>
        rw [parseLiteralRun_scanned hsc, hr, flatMap_cons, append_assoc, parseLiteralRun_repeat]
        rfl

theorem stripEnd_append {t : Str} (ht : t ≠ []) : stripEnd (s ++ t) = s ++ stripEnd t := by
  unfold stripEnd
  rw [getLast?_append_of_ne_nil _ ht]
  split
  · rw [dropLast_append_of_ne_nil ht]
  · rfl

theorem stripEnd_of_last (h : ∀ c ∈ s.getLast?, c ≠ '$') : stripEnd s = s := by
  unfold stripEnd
  split
  · next hl => exact absurd rfl (h '$' hl)
  · rfl

theorem getLast_repeats {times : Repeat} {more : List Repeat}
    (h : ((times :: more).flatMap Repeat.render).getLast? = some c) : QuantifierChar c := by
  have hm := mem_of_getLast? h
  obtain ⟨times', -, hc⟩ := mem_flatMap.1 hm
  exact times'.chars c hc

/-- A piece that stands last and is no character ends the attempt, also if the scan has cut a `$` off
it: an escaped `$` leaves its backslash. -/
theorem parseLiteralRun_last (he : piece ≠ .atom .lineEnd) : parseLiteralRun true (stripEnd piece.render) =
        (literalChar piece).map (fun c => ([c], [])) ∨
      parseLiteralRun true (stripEnd piece.render) = none := by
  by_cases hst : stripEnd piece.render = piece.render
  · rw [hst, ← append_nil piece.render]
    cases hch : literalChar piece with
    | none => exact .inr (parseLiteralRun_other hch)
    | some c =>
      left
      rw [parseLiteralRun_piece hch]
      rfl
  · right
    cases hcr : piece.core with
    | none =>
      obtain ⟨s, hs⟩ := piece.render_of_group hcr
      rw [hs]
      exact parseLiteralRun_stripEnd (by decide) (by decide)
    | some base =>
      cases hr : piece.repeats with
      | cons inner outer =>
        -- The last character belongs to a quantifier.
        exfalso
        apply hst
        apply stripEnd_of_last
        intro c hc
        have hne : (inner :: outer).flatMap Repeat.render ≠ [] := by
          obtain ⟨ch, -, s, hs⟩ := repeat_render inner
          simp [hs]
        rw [piece.render_of_core hcr, hr, getLast?_append_of_ne_nil _ hne] at hc
        exact (getLast_repeats hc).ne (by decide)
      | nil =>
        have ha := eq_atom hcr hr
        subst ha
        rw [render] at hst ⊢
        cases base with
        | char c hc =>
          exfalso
          apply hst
          apply stripEnd_of_last
          rintro d hd rfl
          cases hd
          exact hc (by decide)
        | escaped c hc =>
          by_cases hdl : c = '$'
          · subst hdl
            rfl
          · exact absurd (stripEnd_of_last (by rintro d hd rfl; cases hd; exact hdl rfl)) hst
        | charClass body accepts =>
          rw [Atom.render]
          exact parseLiteralRun_stripEnd (by decide) (by decide)
        | lineEnd => exact absurd rfl he
        | escape c tail hc accepts =>
          have hk : ∃ tail', stripEnd ('\\' :: c :: tail) = '\\' :: c :: tail' := by
            cases tail with
            | nil =>
              refine ⟨[], stripEnd_of_last ?_⟩
              rintro d hd rfl
              cases hd
              exact absurd hc.1 (by decide)
            | cons d tail =>
              exact ⟨stripEnd (d :: tail), @stripEnd_append ['\\', c] (d :: tail) (by simp)⟩
          obtain ⟨tail', ht⟩ := hk
          rw [Atom.render, ht, parseLiteralRun, ← isAlphanumeric_eq, hc.1]
          rfl
        | _ => exact absurd rfl hst

theorem render_ne_nil (piece : Piece) : piece.render ≠ [] := by
  cases hc : piece.core with
  | none =>
    obtain ⟨s, hs⟩ := piece.render_of_group hc
    rw [hs]
    simp
  | some base =>
    rw [piece.render_of_core hc]
    cases base <;> simp [Atom.render]

theorem exact_pieces (h : parseLiteralRun true (stripEnd (pieces.flatMap render)) = some (literal, after)) :
    Spells (dropEnd pieces) literal := by
  fun_induction dropEnd pieces generalizing literal after with
  | case1 | case2 =>
    cases h
    exact .nil
  | case3 piece rest hl ih =>
    rw [flatMap_cons] at h
    cases rest with
    | nil =>
      rw [flatMap_nil, append_nil] at h
      rcases parseLiteralRun_last fun he => hl he rfl with hp | hp
      · rw [hp] at h
        obtain ⟨c, hc, heq⟩ := Option.map_eq_some_iff.1 h
        cases heq
        exact spells_cons hc .nil
      · rw [hp] at h
        cases h
    | cons next rest =>
      have hne : (next :: rest).flatMap render ≠ [] := by
        rw [flatMap_cons]
        simp [render_ne_nil next]
      rw [stripEnd_append hne] at h
      cases hch : literalChar piece with
      | none =>
        rw [parseLiteralRun_other hch] at h
        cases h
      | some c =>
        rw [parseLiteralRun_piece hch] at h
        obtain ⟨⟨literal', after'⟩, hp, heq⟩ := Option.map_eq_some_iff.1 h
        cases heq
        exact spells_cons hch (ih hp)

theorem render_caret (h : piece.render = '^' :: s) : piece.core = some .lineStart := by
  cases hcr : piece.core with
  | none =>
    obtain ⟨s', hs'⟩ := piece.render_of_group hcr
    rw [hs'] at h
    cases h
  | some base =>
    rw [piece.render_of_core hcr] at h
    cases base with
    | char c hc =>
      cases h
      exact absurd (by decide) hc
    | lineStart => rfl
    | _ => cases h

theorem dropStart_other (h : piece ≠ .atom .lineStart) (rest : List Piece) :
    dropStart (piece :: rest) = piece :: rest := by
  unfold dropStart
  split
  · next heq =>
    cases heq
    exact absurd rfl h
  · rfl

theorem stripStart_render (pieces : List Piece) :
    stripStart (pieces.flatMap render) = (dropStart pieces).flatMap render ∨
      ∃ (times : Repeat) (s : Str), stripStart (pieces.flatMap render) = times.render ++ s := by
  cases pieces with
  | nil => exact .inl rfl
  | cons piece rest =>
    rw [flatMap_cons]
    by_cases hc : piece.core = some .lineStart
    · cases hr : piece.repeats with
      | nil =>
        left
        rw [eq_atom hc hr]
        rfl
      | cons inner outer =>
        right
        refine ⟨inner, outer.flatMap Repeat.render ++ rest.flatMap render, ?_⟩
        rw [piece.render_of_core hc, hr, flatMap_cons, append_assoc, append_assoc]
        rfl
    · left
      have ho : piece ≠ .atom .lineStart := by
        rintro rfl
        exact hc rfl
      rw [dropStart_other ho, flatMap_cons]
      cases hrn : piece.render with
      | nil => exact absurd hrn (render_ne_nil piece)
      | cons c s =>
        refine stripStart_plain ?_
        rintro rfl
        exact hc (render_caret hrn)

/-- A branch that passes for a literal is an anchor at either end around the pieces of the literal. -/
theorem exactLiteralPattern_pieces (h : exactLiteralPattern (pieces.flatMap render) = some literal) :
    Spells (dropEnd (dropStart pieces)) literal := by
  unfold exactLiteralPattern at h
  obtain ⟨⟨literal', after⟩, hp, heq⟩ := Option.map_eq_some_iff.1 h
  cases heq
  have hp := (Option.filter_eq_some_iff.1 hp).1
  rcases stripStart_render pieces with hst | ⟨times, s, hst⟩
  · rw [hst] at hp
    exact exact_pieces hp
  rw [hst] at hp
  have hn : parseLiteralRun true (stripEnd (times.render ++ s)) = none := by
    obtain ⟨ch, hch, more, hm⟩ := repeat_render times
    obtain ⟨he, hd⟩ := runEnds_of_quantifier hch
    rw [hm, cons_append, parseLiteralRun_stripEnd he hd]
  rw [hn] at hp
  cases hp

variable {word : Char → Prop} {text : List Char}

theorem literal_leads (hch : Spells pieces literal)
    (hw : hasBoundary pieces = false) {i j : Nat} (hs : SpansAll word text pieces i j) :
    literal <+: text.drop i := by
  induction hch generalizing i with
  | nil => exact nil_prefix
  | cons hc _ ih =>
    obtain ⟨k, hp, hr⟩ := hs
    simp only [hasBoundary, any_cons, core, Option.any_some, Bool.or_eq_false_iff] at hw
    obtain ⟨ht, rfl⟩ := (scanned_spans hc hw.1 _ _).1 hp
    exact cons_prefix_drop ht (ih hw.2 hr)

theorem dropStart_suffix (pieces : List Piece) : dropStart pieces <:+ pieces := by
  unfold dropStart
  split
  · exact suffix_cons _ _
  · exact suffix_refl _

theorem dropEnd_isPrefix (pieces : List Piece) : dropEnd pieces <+: pieces := by
  fun_induction dropEnd pieces with
  | case1 | case2 => exact nil_prefix
  | case3 _ _ _ ih => exact cons_prefix_cons.2 ⟨rfl, ih⟩

theorem exactLiteralPattern_isLiteral
    (h : exactLiteralPattern (pieces.flatMap render) = some literal) : isLiteral pieces = true := by
  have hch := exactLiteralPattern_pieces h
  clear h
  rw [isLiteral]
  generalize dropEnd (dropStart pieces) = run at hch ⊢
  induction hch with
  | nil => rfl
  | cons hc _ ih =>
    rw [all_cons, ih, literalChar, hc]
    rfl

theorem exactLiteralPattern_infix (h : exactLiteralPattern (pieces.flatMap render) = some literal)
    (hw : hasBoundary pieces = false) {i j : Nat} (hs : SpansAll word text pieces i j) :
    literal <:+: text := by
  have hin : dropEnd (dropStart pieces) <:+: pieces :=
    (dropEnd_isPrefix _).isInfix.trans (dropStart_suffix pieces).isInfix
  obtain ⟨k, _, he⟩ := spansAll_infix hin hs
  have hw' : hasBoundary (dropEnd (dropStart pieces)) = false := by
    rw [hasBoundary, any_eq_false] at hw ⊢
    exact fun piece hm => hw piece (hin.subset hm)
  exact (literal_leads (exactLiteralPattern_pieces h) hw' he).isInfix.trans (drop_suffix k text).isInfix

end Literal

/-! ## Classes that the scan leaves at the right depth -/

section Depth

def opensGroup : ClassChar → Bool
  | .plain c _ => c == '('
  | .escaped _ => false

def closesClass : ClassChar → Bool
  | .plain c _ => c == ']'
  | .escaped _ => false

/-- The scan takes the first unescaped `]` for the end of the class, and an unescaped `(` after it for
the start of a group. -/
def bodyTracked : List ClassChar → Bool
  | [] => true
  | item :: rest => if closesClass item then rest.all fun item => !opensGroup item else bodyTracked rest

def atomTracked : Atom → Bool
  | .charClass body _ => bodyTracked body
  | _ => true

mutual

def pieceTracked : Piece → Bool
  | .atom base => atomTracked base
  | .group _ body => patternTracked body
  | .repeated piece _ => pieceTracked piece

def branchTracked : Branch → Bool
  | .nil => true
  | .cons piece rest => pieceTracked piece && branchTracked rest

def patternTracked : Pattern → Bool
  | .last branch => branchTracked branch
  | .alt branch rest => branchTracked branch && patternTracked rest

end

/-- The state of the scan after a text, whether or not it cuts there. -/
def Scan.over (scan : Scan) (s : Str) : Scan := s.foldl (fun scan ch => (scan.next ch).getD scan) scan

theorem Scan.over_append (scan : Scan) (s t : Str) : scan.over (s ++ t) = (scan.over s).over t := foldl_append

def Scan.inside (depth : Nat) : Scan := { depth, escaped := false, inClass := true }

theorem over_inert {s : Str} (hs : Lexed Inert s) (depth : Nat) : (outside depth).over s = .outside depth := by
  induction hs with
  | nil => rfl
  | plain hc _ ih =>
    rw [Scan.over, foldl_cons, next_inert hc]
    exact ih
  | escaped c _ ih => exact ih

theorem over_inside (item : ClassChar) (depth : Nat) : (Scan.inside depth).over item.render =
      if closesClass item then .outside depth else .inside depth := by
  cases item with
  | escaped c => rfl
  | plain c hc =>
    by_cases hcl : c = ']'
    · subst hcl
      rfl
    have hn : (Scan.inside depth).next c = some (.inside depth) := by
      simp [Scan.next, Scan.inside, hc, hcl]
    simp [ClassChar.render, Scan.over, hn, closesClass, hcl]

/-- A character that opens no group leaves the scan at most as deep as it was. -/
theorem over_outside {item : ClassChar} (ho : opensGroup item = false) (depth : Nat) :
    ∃ depth' ≤ depth, (outside depth).over item.render = .outside depth' ∨
      (Scan.outside depth).over item.render = .inside depth' := by
  cases item with
  | escaped c => exact ⟨depth, le_refl _, .inl rfl⟩
  | plain c hc =>
    have ho : c ≠ '(' := by simpa [opensGroup] using ho
    by_cases hb : c = '['
    · subst hb
      exact ⟨depth, le_refl _, .inr rfl⟩
    by_cases hcl : c = ')'
    · subst hcl
      exact ⟨depth - 1, Nat.sub_le _ _, .inl rfl⟩
    refine ⟨depth, le_refl _, .inl ?_⟩
    have hn : (outside depth).next c = some (.outside depth) ∨ (outside depth).next c = none := by
      simp [Scan.next, Scan.outside, hc, ho, hb, hcl]
      tauto
    rcases hn with hn | hn <;> simp [ClassChar.render, Scan.over, hn]

theorem over_items {items : List ClassChar} (ho : ∀ item ∈ items, opensGroup item = false)
    {scan : Scan} {depth : Nat} (hs : scan = .outside depth ∨ scan = .inside depth) :
    ∃ depth' ≤ depth, scan.over (items.flatMap ClassChar.render) = .outside depth' ∨
      scan.over (items.flatMap ClassChar.render) = .inside depth' := by
  induction items generalizing scan depth with
  | nil => exact ⟨depth, le_refl _, hs⟩
  | cons item items ih =>
    have hst : ∃ depth' ≤ depth, scan.over item.render = .outside depth' ∨ scan.over item.render = .inside depth' := by
      rcases hs with rfl | rfl
      · exact over_outside (ho item mem_cons_self) depth
      refine ⟨depth, le_refl _, ?_⟩
      rw [over_inside]
      split
      · exact .inl rfl
      · exact .inr rfl
    obtain ⟨depth', hle, hs'⟩ := hst
    obtain ⟨depth'', hle', hr⟩ := ih (fun item hm => ho item (mem_cons_of_mem _ hm)) hs'
    rw [flatMap_cons, over_append]
    exact ⟨depth'', hle'.trans hle, hr⟩

theorem over_class {body : List ClassChar} (h : bodyTracked body = true) (depth : Nat) : ∃ depth' ≤ depth,
      (inside depth).over (body.flatMap ClassChar.render ++ [']']) = .outside depth' := by
  induction body with
  | nil => exact ⟨depth, le_refl _, rfl⟩
  | cons item rest ih =>
    rw [bodyTracked] at h
    rw [flatMap_cons, append_assoc, over_append, over_inside]
    split at h
    · next hc =>
      rw [if_pos hc, over_append]
      obtain ⟨depth', hle, hs⟩ := @over_items rest (by simpa using h) _ depth (.inl rfl)
      refine ⟨depth', hle, ?_⟩
      rcases hs with hs | hs <;> rw [hs] <;> rfl
    · next hc =>
      rw [if_neg hc]
      exact ih h

/-- The scan comes out of a text outside of classes, and no deeper than it went in. -/
def Level (s : Str) : Prop := ∀ depth, ∃ depth' ≤ depth, (outside depth).over s = .outside depth'

theorem Level.of_inert {s : Str} (hs : Lexed Inert s) : Level s := fun depth => ⟨depth, le_refl _, over_inert hs depth⟩

theorem Level.append {s t : Str} (hs : Level s) (ht : Level t) : Level (s ++ t) := by
  intro depth
  obtain ⟨inner, hle, hi⟩ := hs depth
  obtain ⟨final, hle', hf⟩ := ht inner
  refine ⟨final, hle'.trans hle, ?_⟩
  rw [over_append, hi, hf]

theorem level_atom {base : Atom} (h : atomTracked base = true) : Level base.render := by
  cases hc : base.isClass with
  | false => exact .of_inert (Atom.lexed hc)
  | true =>
    cases base with
    | charClass body accepts => exact over_class h
    | _ => cases hc

theorem kind_inert (kind : GroupKind) : Lexed Inert kind.render := by
  cases kind with
  | capturing => exact .nil
  | plain => exact .plain (by decide) (.plain (by decide) .nil)
  | ahead negated => cases negated <;> exact .plain (by decide) (.plain (by decide) .nil)
  | behind negated =>
    cases negated <;> exact .plain (by decide) (.plain (by decide) (.plain (by decide) .nil))

theorem level_bar : Level ['|'] := fun depth => ⟨depth, le_refl _, by cases depth <;> rfl⟩

mutual

theorem level_piece : ∀ (piece : Piece), pieceTracked piece = true → Level piece.render
  | .atom base, h => by
    rw [render]
    exact level_atom h
  | .group kind body, h => by
    intro depth
    obtain ⟨inner, hle, hb⟩ := (Level.of_inert (kind_inert kind)).append (level_pattern body h) (depth + 1)
    refine ⟨inner - 1, by omega, ?_⟩
    rw [render]
    show (outside (depth + 1)).over (kind.render ++ (body.render ++ [')'])) = _
    rw [← append_assoc, over_append, hb]
    rfl
  | .repeated piece times, h => by
    rw [render]
    exact (level_piece piece h).append (.of_inert (lexed_of_forall fun c hc => (times.chars c hc).inert))

theorem level_branch : ∀ (branch : Branch), branchTracked branch = true → Level branch.render
  | .nil, _ => by
    rw [Branch.render]
    exact .of_inert .nil
  | .cons piece rest, h => by
    rw [branchTracked, Bool.and_eq_true] at h
    rw [Branch.render]
    exact (level_piece piece h.1).append (level_branch rest h.2)

theorem level_pattern : ∀ (pattern : Pattern), patternTracked pattern = true → Level pattern.render
  | .last branch, h => by
    rw [Pattern.render]
    exact level_branch branch h
  | .alt branch rest, h => by
    rw [patternTracked, Bool.and_eq_true] at h
    rw [Pattern.render]
    exact (level_branch branch h.1).append (level_bar.append (level_pattern rest h.2))

end

theorem splitFrom_ne_nil (branch : Str) (scan : Scan) (rest : Str) : 0 < (splitFrom branch scan rest).length := by
  obtain ⟨more, branches, heq⟩ := splitFrom_head branch scan rest
  rw [heq]
  simp

theorem splitFrom_cut {scan : Scan} {s : Str} (hc : (scan.over s).next '|' = none) (branch rest : Str) :
    1 < (splitFrom branch scan (s ++ '|' :: rest)).length := by
  induction s generalizing scan branch with
  | nil =>
    have hc : scan.next '|' = none := hc
    have hr := splitFrom_ne_nil [] scan rest
    rw [nil_append, splitFrom, hc, length_cons]
    omega
  | cons ch s ih =>
    rw [cons_append, splitFrom]
    rw [Scan.over, foldl_cons] at hc
    cases hn : scan.next ch with
    | none =>
      have hr := splitFrom_ne_nil [] scan (s ++ '|' :: rest)
      rw [length_cons]
      omega
    | some scan' =>
      rw [hn] at hc
      exact ih hc _

theorem split_alternatives {branch : Branch} (h : branchTracked branch = true) (rest : Pattern) :
    1 < (splitTopLevelAlternatives (Pattern.alt branch rest).render).length := by
  rw [Pattern.render]
  obtain ⟨depth, hle, ho⟩ := level_branch branch h 0
  obtain rfl : depth = 0 := by omega
  refine splitFrom_cut ?_ [] rest.render
  show ((outside 0).over branch.render).next '|' = none
  rw [ho]
  rfl

end Depth

end Waf
