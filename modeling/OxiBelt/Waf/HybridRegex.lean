import OxiBelt.RustStd.Text
import OxiBelt.RustStd.Result

/-!
# Regular expressions of the firewall and their literal prefilters

`waf/hybrid_regex.rs` with the index of `waf/literal_index.rs` behind it.  A policy's pattern is compiled
by the linear engine or, failing that, by the advanced one; before either is asked, a text is searched
for literals that a hand-written scan of the pattern finds it must contain.  The two engines are
parameters.  A position in the pattern is modelled by the text that starts there.
-/

namespace Waf

open RustStd

/-! ## The literals of a pattern -/

structure Scan where
  depth : Nat
  escaped : Bool
  inClass : Bool

/-- One character of `split_top_level_alternatives`; `none` where a branch ends. -/
def Scan.next (scan : Scan) (ch : Char) : Option Scan :=
  if scan.escaped then some { scan with escaped := false }
  else if ch == '\\' then some { scan with escaped := true }
  else if ch == '[' && !scan.inClass then some { scan with inClass := true }
  else if ch == ']' && scan.inClass then some { scan with inClass := false }
  else if ch == '(' && !scan.inClass then some { scan with depth := scan.depth + 1 }
  else if ch == ')' && !scan.inClass then some { scan with depth := scan.depth - 1 }
  else if ch == '|' && !scan.inClass && scan.depth == 0 then none
  else some scan

def splitFrom : Str → Scan → Str → List Str
  | branch, _, [] => [branch]
  | branch, scan, ch :: rest =>
    match scan.next ch with
    | none => branch :: splitFrom [] scan rest
    | some scan => splitFrom (branch ++ [ch]) scan rest

def Scan.start : Scan := { depth := 0, escaped := false, inClass := false }

variable (pattern : Str)

def splitTopLevelAlternatives : List Str := splitFrom [] .start pattern

def runEnds : List Char := ['.', '*', '+', '?', '{', '[', '(', '|', '$', '^']

def parseLiteralRun (requireComplete : Bool) : Str → Option (Str × Str)
  | [] => some ([], [])
  | ['\\'] => none
  | '\\' :: escaped :: rest =>
    if isAsciiAlphanumeric escaped then
      if requireComplete then none else some ([], '\\' :: escaped :: rest)
    else (parseLiteralRun requireComplete rest).map fun (literal, after) => (escaped :: literal, after)
  | ch :: rest =>
    if ch ∈ runEnds then if requireComplete then none else some ([], ch :: rest)
    else (parseLiteralRun requireComplete rest).map fun (literal, after) => (ch :: literal, after)

def stripStart : Str :=
  match pattern with
  | '^' :: rest => rest
  | pattern => pattern

def stripEnd : Str :=
  if pattern.getLast? = some '$' then pattern.dropLast else pattern

def exactLiteralPattern : Option Str :=
  let pattern := stripEnd (stripStart pattern)
  ((parseLiteralRun true pattern).filter fun (_, after) => after == []).map (·.1)

def stripAnchor : Str :=
  match pattern with
  | '^' :: rest => rest
  | '\\' :: 'A' :: rest => rest
  | pattern => pattern

/-- The character after the run may do without the last character of the run. -/
def dropsLast (after : Str) : Bool :=
  match after with
  | '*' :: _ => true
  | '?' :: _ => true
  | '{' :: '0' :: _ => true
  | _ => false

def requiredLiteralPrefix : Option Str :=
  if 1 < (splitTopLevelAlternatives pattern).length then none
  else
    match parseLiteralRun false (stripAnchor pattern) with
    | none => none
    | some (literal, after) =>
      let literal := if dropsLast after then literal.dropLast else literal
      if literal ≠ [] then some literal else none

/-- The literals of branches that are literals, without repetitions; `none` if a branch is not one. -/
def exactLiterals : List Str → List Str → Option (List Str)
  | literals, [] => some literals
  | literals, branch :: branches =>
    (exactLiteralPattern branch).bind fun literal =>
      if literal = [] then none
      else exactLiterals (if literals.contains literal then literals else literals ++ [literal]) branches

def requiredLiteralAlternatives : List Str :=
  let branches := splitTopLevelAlternatives pattern
  if 1 < branches.length then (exactLiterals [] branches).getD []
  else (requiredLiteralPrefix pattern).toList

def compileRequiredLiterals (caseInsensitive : Bool) : List (List UInt8) :=
  if caseInsensitive then [] else (requiredLiteralAlternatives pattern).map asBytes

/-! ## The literal index -/

/-- `memchr`, `memmem` and Aho–Corasick, each by what it looks for, with the targets of what it finds. -/
inductive LiteralSearcher where
  | empty
  | byte (needle : UInt8) (targets : List Nat)
  | substring (finder : List UInt8) (targets : List Nat)
  | multi (automaton : List (List UInt8 × List Nat))

structure CompiledLiteralIndex where
  firstEmptyTarget : Option Nat
  searcher : LiteralSearcher

/-- The smallest target of an empty pattern, and the other patterns without repetitions, each with its targets. -/
def collectPatterns : List (Nat × List UInt8) → Option Nat × List (List UInt8 × List Nat) →
    Option Nat × List (List UInt8 × List Nat)
  | [], found => found
  | (target, pattern) :: patterns, (firstEmpty, unique) =>
    if pattern = [] then
      collectPatterns patterns (some (firstEmpty.elim target fun current => min current target), unique)
    else if unique.any (·.1 == pattern) then
      collectPatterns patterns (firstEmpty, unique.map fun entry =>
        if entry.1 = pattern then (entry.1, entry.2 ++ [target]) else entry)
    else collectPatterns patterns (firstEmpty, unique ++ [(pattern, [target])])

def CompiledLiteralIndex.new (patterns : List (Nat × List UInt8)) : CompiledLiteralIndex :=
  let (firstEmptyTarget, unique) := collectPatterns patterns (none, [])
  { firstEmptyTarget
    searcher :=
      match unique.map fun entry => (entry.1, (entry.2.insertionSort (· ≤ ·)).dedup) with
      | [] => .empty
      | [([needle], targets)] => .byte needle targets
      | [(pattern, targets)] => .substring pattern targets
      | patterns => .multi patterns }

def CompiledLiteralIndex.isMatch (index : CompiledLiteralIndex) (haystack : Str) : Bool :=
  index.firstEmptyTarget.isSome ||
    match index.searcher with
    | .empty => false
    | .byte needle _ => (asBytes haystack).contains needle
    | .substring finder _ => decide (finder <:+: asBytes haystack)
    | .multi automaton => automaton.any fun entry => decide (entry.1 <:+: asBytes haystack)

def compilePrefilter (literals : List (List UInt8)) : Option CompiledLiteralIndex :=
  if literals.isEmpty then none else some (.new (literals.map fun literal => (0, literal)))

/-! ## The expression -/

inductive AdvancedRegexEvaluationError (ε : Type) where
  | subjectTooLarge (limit : Nat)
  | matcher (error : ε)

inductive HybridRegexEngine (ε : Type) where
  | linear (isMatch : Str → Bool)
  | advanced (isMatch : Str → Except ε Bool)

/-- The builders of the two engines: the pattern, whether case counts, and the error or the matcher. -/
structure Engines (ε : Type) where
  linear : Str → Bool → Result (Str → Bool)
  advanced : Str → Bool → Result (Str → Except ε Bool)

structure HybridRegex (ε : Type) where
  engine : HybridRegexEngine ε
  prefilter : Option CompiledLiteralIndex
  requiredLiterals : List (List UInt8)
  maxAdvancedSubjectBytes : Nat

variable {ε : Type}

def HybridRegex.compile (engines : Engines ε) (pattern : Str) (caseInsensitive : Bool)
    (maxAdvancedRegexSubjectBytes : Nat) : Result (HybridRegex ε) := do
  let requiredLiterals := compileRequiredLiterals pattern caseInsensitive
  let engine ←
    match engines.linear pattern caseInsensitive with
    | .ok regex => pure (.linear regex)
    | .error linearError =>
      match engines.advanced pattern caseInsensitive with
      | .ok regex => pure (.advanced regex)
      | .error _ => .error ("regex pattern is unsupported by both the linear engine (" ++
          linearError ++ ") and the advanced engine")
  pure { engine, prefilter := compilePrefilter requiredLiterals, requiredLiterals,
         maxAdvancedSubjectBytes := maxAdvancedRegexSubjectBytes }

variable (regex : HybridRegex ε) (text : Str)

def HybridRegex.isAdvanced : Bool :=
  match regex.engine with
  | .linear _ => false
  | .advanced _ => true

def HybridRegex.checkAdvancedSubject : Except (AdvancedRegexEvaluationError ε) Unit :=
  if regex.isAdvanced && decide (regex.maxAdvancedSubjectBytes < (asBytes text).length) then
    .error (.subjectTooLarge regex.maxAdvancedSubjectBytes)
  else .ok ()

def HybridRegex.prefilterMatches : Bool :=
  regex.prefilter.all (·.isMatch text)

def HybridRegex.isMatchEngine : Except (AdvancedRegexEvaluationError ε) Bool :=
  match regex.engine with
  | .linear isMatch => .ok (isMatch text)
  | .advanced isMatch => (isMatch text).mapError .matcher

def HybridRegex.isMatch : Except (AdvancedRegexEvaluationError ε) Bool := do
  regex.checkAdvancedSubject text
  if !regex.prefilterMatches text then pure false else regex.isMatchEngine text

end Waf
