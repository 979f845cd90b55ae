import Mathlib.Tactic

/-!
# Patterns of a backtracking engine

The syntax of a pattern, the text it is written as, and the spans of a subject that it matches.  The
layers of the grammar are types of their own (a pattern is made of branches, a branch of pieces), so
that a pattern reads back as it was built.

What an engine makes of a character class or of an escape such as `\d` is left open: a class comes with
the set of characters that it stands for, an escape with the spans that it matches, and everything
below holds whatever these are.
-/

namespace Regex

open List

/-! ## Syntax -/

def metaCharacters : List Char := ['\\', '.', '*', '+', '?', '{', '[', '(', ')', '|', '$', '^']

def isAlphanumeric (c : Char) : Bool :=
  ('0' ≤ c && c ≤ '9') || ('A' ≤ c && c ≤ 'Z') || ('a' ≤ c && c ≤ 'z')

/-- A bound of a repetition as it is written, leading zeros included. -/
structure Digits where
  text : List Char
  nonempty : text ≠ []
  digits : ∀ c ∈ text, '0' ≤ c ∧ c ≤ '9'

def Digits.value (digits : Digits) : Nat :=
  digits.text.foldl (fun value c => 10 * value + (c.toNat - 48)) 0

inductive Quantifier where
  | star
  | plus
  | optional
  | exactly (count : Digits)
  | atLeast (least : Digits)
  | atMost (most : Digits)
  | between (least most : Digits)

/-- A quantifier and whether a `?` makes it lazy, which changes the match that is found first and not
which spans match. -/
structure Repeat where
  quantifier : Quantifier
  isLazy : Bool

inductive ClassChar where
  | plain (c : Char) (h : c ≠ '\\')
  | escaped (c : Char)

/-- The text that may follow the letter of an escape, as in `\x{41}` or `\p{Greek}`. -/
def inertCharacters (tail : List Char) : Bool :=
  tail.all fun c => !(['\\', '[', ']', '(', ')', '|'].contains c)

inductive Atom where
  | char (c : Char) (h : c ∉ metaCharacters)
  | escaped (c : Char) (h : isAlphanumeric c = false ∧ c ≠ '<' ∧ c ≠ '>')
  | wordStart
  | wordEnd
  | any
  | charClass (body : List ClassChar) (accepts : Char → Prop)
  | lineStart
  | lineEnd
  | textStart
  | escape (c : Char) (tail : List Char)
      (h : isAlphanumeric c = true ∧ c ≠ 'A' ∧ inertCharacters tail = true)
      (accepts : List Char → Nat → Nat → Prop)

inductive GroupKind where
  | capturing
  | plain
  | ahead (negated : Bool)
  | behind (negated : Bool)

mutual

inductive Piece where
  | atom (atom : Atom)
  | group (kind : GroupKind) (body : Pattern)
  | repeated (piece : Piece) (times : Repeat)

inductive Branch where
  | nil
  | cons (piece : Piece) (rest : Branch)

inductive Pattern where
  | last (branch : Branch)
  | alt (branch : Branch) (rest : Pattern)

end

def Branch.pieces : Branch → List Piece
  | .nil => []
  | .cons piece rest => piece :: rest.pieces

def Pattern.branches : Pattern → List Branch
  | .last branch => [branch]
  | .alt branch rest => branch :: rest.branches

/-! ## The text of a pattern -/

def Quantifier.render : Quantifier → List Char
  | star => ['*']
  | plus => ['+']
  | optional => ['?']
  | exactly count => '{' :: (count.text ++ ['}'])
  | atLeast least => '{' :: (least.text ++ [',', '}'])
  | atMost most => '{' :: ',' :: (most.text ++ ['}'])
  | between least most => '{' :: (least.text ++ ',' :: (most.text ++ ['}']))

def Repeat.render (times : Repeat) : List Char :=
  times.quantifier.render ++ if times.isLazy then ['?'] else []

def ClassChar.render : ClassChar → List Char
  | plain c _ => [c]
  | escaped c => ['\\', c]

def Atom.render : Atom → List Char
  | char c _ => [c]
  | escaped c _ => ['\\', c]
  | wordStart => ['\\', '<']
  | wordEnd => ['\\', '>']
  | any => ['.']
  | charClass body _ => '[' :: (body.flatMap ClassChar.render ++ [']'])
  | lineStart => ['^']
  | lineEnd => ['$']
  | textStart => ['\\', 'A']
  | escape c tail _ _ => '\\' :: c :: tail

def GroupKind.render : GroupKind → List Char
  | capturing => []
  | plain => ['?', ':']
  | ahead negated => ['?', if negated then '!' else '=']
  | behind negated => ['?', '<', if negated then '!' else '=']

mutual

def Piece.render : Piece → List Char
  | .atom atom => atom.render
  | .group kind body => '(' :: (kind.render ++ (body.render ++ [')']))
  | .repeated piece times => piece.render ++ times.render

def Branch.render : Branch → List Char
  | .nil => []
  | .cons piece rest => piece.render ++ rest.render

def Pattern.render : Pattern → List Char
  | .last branch => branch.render
  | .alt branch rest => branch.render ++ '|' :: rest.render

end

/-! ## The spans that a pattern matches -/

def Quantifier.least : Quantifier → Nat
  | star => 0
  | plus => 1
  | optional => 0
  | exactly count => count.value
  | atLeast least => least.value
  | atMost _ => 0
  | between least _ => least.value

def Quantifier.most : Quantifier → Option Nat
  | star => none
  | plus => none
  | optional => some 1
  | exactly count => some count.value
  | atLeast _ => none
  | atMost most => some most.value
  | between _ most => some most.value

def Quantifier.Allows (quantifier : Quantifier) (count : Nat) : Prop :=
  quantifier.least ≤ count ∧ ∀ most ∈ quantifier.most, count ≤ most

def Times (R : Nat → Nat → Prop) : Nat → Nat → Nat → Prop
  | 0, i, j => i = j
  | count + 1, i, j => ∃ k, R i k ∧ Times R count k j

section Spans

variable (word : Char → Prop) (text : List Char)

def WordBefore (i : Nat) : Prop := ∃ c, (text.take i).getLast? = some c ∧ word c

def WordAfter (i : Nat) : Prop := ∃ c, text[i]? = some c ∧ word c

def Atom.Spans : Atom → Nat → Nat → Prop
  | char c _, i, j => text[i]? = some c ∧ j = i + 1
  | escaped c _, i, j => text[i]? = some c ∧ j = i + 1
  | wordStart, i, j => j = i ∧ ¬WordBefore word text i ∧ WordAfter word text i
  | wordEnd, i, j => j = i ∧ WordBefore word text i ∧ ¬WordAfter word text i
  | any, i, j => (∃ c, text[i]? = some c ∧ c ≠ '\n') ∧ j = i + 1
  | charClass _ accepts, i, j => (∃ c, text[i]? = some c ∧ accepts c) ∧ j = i + 1
  | lineStart, i, j => j = i ∧ i = 0
  | lineEnd, i, j => j = i ∧ i = text.length
  | textStart, i, j => j = i ∧ i = 0
  | escape _ _ _ accepts, i, j => accepts text i j

def GroupKind.Spans (R : Nat → Nat → Prop) : GroupKind → Nat → Nat → Prop
  | capturing, i, j => R i j
  | plain, i, j => R i j
  | ahead false, i, j => j = i ∧ ∃ k, R i k
  | ahead true, i, j => j = i ∧ ¬∃ k, R i k
  | behind false, i, j => j = i ∧ ∃ k, R k i
  | behind true, i, j => j = i ∧ ¬∃ k, R k i

mutual

def Piece.Spans : Piece → Nat → Nat → Prop
  | .atom atom, i, j => atom.Spans word text i j
  | .group kind body, i, j => kind.Spans (fun i j => body.Spans i j) i j
  | .repeated piece times, i, j =>
    ∃ count, times.quantifier.Allows count ∧ Times (fun i j => piece.Spans i j) count i j

def Branch.Spans : Branch → Nat → Nat → Prop
  | .nil, i, j => i = j
  | .cons piece rest, i, j => ∃ k, piece.Spans i k ∧ rest.Spans k j

def Pattern.Spans : Pattern → Nat → Nat → Prop
  | .last branch, i, j => branch.Spans i j
  | .alt branch rest, i, j => branch.Spans i j ∨ rest.Spans i j

end

def Pattern.Matches (pattern : Pattern) : Prop :=
  ∃ i j, i ≤ text.length ∧ pattern.Spans word text i j

variable {word text}

theorem Pattern.spans_iff : ∀ (pattern : Pattern) (i j : Nat),
    pattern.Spans word text i j ↔ ∃ branch ∈ pattern.branches, branch.Spans word text i j
  | .last branch, i, j => by simp [Pattern.Spans, Pattern.branches]
  | .alt branch rest, i, j => by
    rw [Pattern.Spans, Pattern.spans_iff rest]
    simp [Pattern.branches]

end Spans

/-! ## Texts in which escapes are complete -/

/-- A text of escaped characters and of characters with a property. -/
inductive Lexed (P : Char → Prop) : List Char → Prop where
  | nil : Lexed P []
  | plain {c : Char} {s : List Char} (h : P c) (hs : Lexed P s) : Lexed P (c :: s)
  | escaped (c : Char) {s : List Char} (hs : Lexed P s) : Lexed P ('\\' :: c :: s)

variable {c : Char}

section Lexed

variable {P Q : Char → Prop} {s t : List Char}

theorem Lexed.append (hs : Lexed P s) (ht : Lexed P t) : Lexed P (s ++ t) := by
  induction hs with
  | nil => exact ht
  | plain h _ ih => exact .plain h ih
  | escaped c _ ih => exact .escaped c ih

theorem lexed_of_forall (h : ∀ c ∈ s, P c) : Lexed P s := by
  induction s with
  | nil => exact .nil
  | cons c s ih =>
    exact .plain (h c (mem_cons_self)) (ih fun d hd => h d (mem_cons_of_mem _ hd))

/-- Neither escapes nor opens, closes or separates anything. -/
def Inert (c : Char) : Prop := c ∉ ['\\', '[', '(', ')', '|']

instance (c : Char) : Decidable (Inert c) := inferInstanceAs (Decidable (c ∉ _))

def QuantifierChar (c : Char) : Prop := c ∈ ['*', '+', '?', '{', ',', '}'] ∨ '0' ≤ c ∧ c ≤ '9'

theorem Quantifier.chars (quantifier : Quantifier) : ∀ c ∈ quantifier.render, QuantifierChar c := by
  intro c hc
  have hd : ∀ digits : Digits, c ∈ digits.text → QuantifierChar c := by
    intro digits hm
    exact .inr (digits.digits c hm)
  have ho : c = '*' ∨ c = '+' ∨ c = '?' ∨ c = '{' ∨ c = ',' ∨ c = '}' → QuantifierChar c := by
    intro h
    left
    simpa using h
  generalize QuantifierChar c = P at hd ho ⊢
  cases quantifier <;> simp only [Quantifier.render, mem_cons, mem_append, not_mem_nil,
    or_false] at hc <;> tauto

theorem Repeat.chars (times : Repeat) : ∀ c ∈ times.render, QuantifierChar c := by
  intro c hc
  rcases mem_append.1 hc with hc | hc
  · exact times.quantifier.chars c hc
  split at hc
  · rw [mem_singleton.1 hc]
    exact .inl (by decide)
  · cases hc

theorem QuantifierChar.ne {d : Char} (h : QuantifierChar c)
    (hd : d ∉ ['*', '+', '?', '{', ',', '}'] ∧ ¬('0' ≤ d ∧ d ≤ '9')) : c ≠ d := by
  rintro rfl
  rcases h with h | h
  · exact hd.1 h
  · exact hd.2 h

theorem QuantifierChar.inert (h : QuantifierChar c) : Inert c := by
  intro hm
  simp only [mem_cons, not_mem_nil, or_false] at hm
  rcases hm with hc | hc | hc | hc | hc <;> exact h.ne (by decide) hc

end Lexed

/-! ## Pieces and their quantifiers -/

section Pieces

def Piece.core : Piece → Option Atom
  | .atom base => some base
  | .group _ _ => none
  | .repeated piece _ => piece.core

def Piece.repeats : Piece → List Repeat
  | .atom _ => []
  | .group _ _ => []
  | .repeated piece times => piece.repeats ++ [times]

theorem Piece.render_of_core : ∀ (piece : Piece) {base : Atom}, piece.core = some base →
    piece.render = base.render ++ piece.repeats.flatMap Repeat.render
  | .atom _, _, h => by
    cases h
    simp [Piece.render, Piece.repeats]
  | .group _ _, _, h => by cases h
  | .repeated piece times, base, h => by
    have ih := Piece.render_of_core piece h
    simp [Piece.render, Piece.repeats, ih]

theorem Piece.render_of_group : ∀ (piece : Piece), piece.core = none → ∃ s, piece.render = '(' :: s
  | .atom _, h => by cases h
  | .group kind body, _ => ⟨_, Piece.render.eq_2 kind body⟩
  | .repeated piece times, h => by
    obtain ⟨s, hs⟩ := Piece.render_of_group piece h
    exact ⟨s ++ times.render, by rw [Piece.render, hs, cons_append]⟩

variable {base : Atom}

theorem Piece.eq_atom {piece : Piece} (hc : piece.core = some base) (hr : piece.repeats = []) : piece = .atom base := by
  cases piece with
  | atom base' =>
    cases hc
    rfl
  | group kind body => cases hc
  | repeated piece times => simp [Piece.repeats] at hr

def Atom.isClass : Atom → Bool
  | charClass _ _ => true
  | _ => false

theorem Atom.lexed {atom : Atom} (h : atom.isClass = false) : Lexed Inert atom.render := by
  cases atom with
  | char c hc =>
    refine .plain (fun hm => hc ?_) .nil
    simp only [mem_cons, not_mem_nil, or_false, metaCharacters] at hm ⊢
    tauto
  | escaped c _ => exact .escaped c .nil
  | wordStart => exact .escaped '<' .nil
  | wordEnd => exact .escaped '>' .nil
  | charClass body accepts => cases h
  | any | lineStart | lineEnd => exact .plain (by decide) .nil
  | textStart => exact .escaped 'A' .nil
  | escape c tail ht _ =>
    refine .escaped c (lexed_of_forall fun d hd hm => ?_)
    have hi := all_eq_true.1 ht.2.2 d hd
    simp only [mem_cons, not_mem_nil, or_false] at hm
    rcases hm with rfl | rfl | rfl | rfl | rfl <;> revert hi <;> decide

theorem Piece.lexed {piece : Piece} (h : piece.core = some base) (hcl : base.isClass = false) :
    Lexed Inert piece.render := by
  rw [piece.render_of_core h]
  refine (Atom.lexed hcl).append (lexed_of_forall fun c hc => ?_)
  obtain ⟨times, -, hc⟩ := mem_flatMap.1 hc
  exact (times.chars c hc).inert

variable {word : Char → Prop} {text : List Char}

/-- A piece that cannot be left out starts as its atom does. -/
theorem Piece.spans_start {Q : Nat → Prop} (hb : ∀ i j, base.Spans word text i j → Q i) :
    ∀ (piece : Piece) {i j : Nat}, piece.core = some base →
      (∀ times ∈ piece.repeats, 1 ≤ times.quantifier.least) → piece.Spans word text i j → Q i
  | .atom _, i, j, hc, _, hs => by
    cases hc
    exact hb i j hs
  | .group _ _, _, _, hc, _, _ => by cases hc
  | .repeated piece times, i, j, hc, hl, hs => by
    obtain ⟨count, ⟨hcn, -⟩, ht⟩ := hs
    have ho : 1 ≤ times.quantifier.least := hl times (by simp [Piece.repeats])
    obtain ⟨count, rfl⟩ : ∃ n, count = n + 1 := ⟨count - 1, by omega⟩
    obtain ⟨k, hf, -⟩ := ht
    exact Piece.spans_start hb piece hc (fun times' hm => hl times' (by simp [Piece.repeats, hm])) hf

def SpansAll (word : Char → Prop) (text : List Char) : List Piece → Nat → Nat → Prop
  | [], i, j => i = j
  | piece :: rest, i, j => ∃ k, piece.Spans word text i k ∧ SpansAll word text rest k j

theorem Branch.spans_pieces : ∀ (branch : Branch) (i j : Nat),
    branch.Spans word text i j ↔ SpansAll word text branch.pieces i j
  | .nil, _, _ => Iff.rfl
  | .cons piece rest, i, j => by
    rw [Branch.Spans, Branch.pieces, SpansAll]
    exact exists_congr fun k => and_congr_right fun _ => rest.spans_pieces k j

theorem Branch.render_pieces : ∀ (branch : Branch), branch.render = branch.pieces.flatMap Piece.render
  | .nil => rfl
  | .cons piece rest => by rw [Branch.render, Branch.pieces, flatMap_cons, rest.render_pieces]

variable {i : Nat}

theorem cons_prefix_drop {l : List Char} (hc : text[i]? = some c) (hl : l <+: text.drop (i + 1)) :
    c :: l <+: text.drop i := by
  obtain ⟨hi, hg⟩ := List.getElem?_eq_some_iff.1 hc
  rw [drop_eq_getElem_cons hi, hg]
  exact cons_prefix_cons.2 ⟨rfl, hl⟩

def Branch.ofPieces : List Piece → Branch
  | [] => .nil
  | piece :: rest => .cons piece (ofPieces rest)

@[simp] theorem Branch.pieces_ofPieces (pieces : List Piece) : (Branch.ofPieces pieces).pieces = pieces := by
  induction pieces with
  | nil => rfl
  | cons piece rest ih => rw [Branch.ofPieces, Branch.pieces, ih]

theorem spansAll_append {pieces more : List Piece} {k : Nat} : SpansAll word text (pieces ++ more) i k ↔
    ∃ j, SpansAll word text pieces i j ∧ SpansAll word text more j k := by
  induction pieces generalizing i with
  | nil => simp [SpansAll]
  | cons piece rest ih => grind [SpansAll]

theorem spansAll_infix {run pieces : List Piece} {j : Nat} (hr : run <:+: pieces) (h : SpansAll word text pieces i j) :
    ∃ i' j', SpansAll word text run i' j' := by
  obtain ⟨front, back, rfl⟩ := hr
  obtain ⟨j', hf, -⟩ := spansAll_append.1 h
  obtain ⟨i', -, hr⟩ := spansAll_append.1 hf
  exact ⟨i', j', hr⟩

theorem times_refl {R : Nat → Nat → Prop} (h : R i i) (count : Nat) : Times R count i i := by
  induction count with
  | zero => rfl
  | succ count ih => exact ⟨i, h, ih⟩

/-- A piece one of whose quantifiers allows none matches the empty span. -/
theorem Piece.spans_empty : ∀ (piece : Piece) {i : Nat},
    (∀ times ∈ piece.repeats, times.quantifier.Allows times.quantifier.least) →
      (∃ times ∈ piece.repeats, times.quantifier.least = 0) → piece.Spans word text i i
  | .atom _, _, _, hz => by
    obtain ⟨times, hm, -⟩ := hz
    cases hm
  | .group _ _, _, _, hz => by
    obtain ⟨times, hm, -⟩ := hz
    cases hm
  | .repeated piece times, i, ha, hz => by
    have ho := ha times (by simp [Piece.repeats])
    refine ⟨times.quantifier.least, ho, ?_⟩
    by_cases hl : times.quantifier.least = 0
    · rw [hl]
      rfl
    -- The empty span is repeated as often as the outer quantifier asks.
    have hi : ∃ times' ∈ piece.repeats, times'.quantifier.least = 0 := by
      obtain ⟨times', hm, hz'⟩ := hz
      rw [Piece.repeats, mem_append, mem_singleton] at hm
      rcases hm with hm | rfl
      · exact ⟨times', hm, hz'⟩
      · exact absurd hz' hl
    exact times_refl (piece.spans_empty (fun times' hm => ha times' (by simp [Piece.repeats, hm])) hi) _

end Pieces

end Regex
