import OxiBelt.RustStd.Text

/-!
# Quoted arguments of CRS directives (`waf/crs/syntax.rs`)

A directive is cut at a `#` outside quotes and then into sections.  Both scanners end a quoted text at the next quote of
its kind: neither knows an escape.

* `sections_written`: the arguments are read back exactly if none of them has a double quote.
* `sections_escaped_quote`: an escaped quote ends its argument.
-/

namespace Waf.Crs

open RustStd List

def isQuote (ch : Char) : Bool := ch == '"' || ch == '\''

/-- The loop of `strip_comment`, with the quote that is open. -/
def stripFrom : Option Char → Str → Str
  | _, [] => []
  | some quote, ch :: rest => ch :: stripFrom (if ch = quote then none else some quote) rest
  | none, ch :: rest =>
    if isQuote ch then ch :: stripFrom (some ch) rest
    else if ch = '#' then []
    else ch :: stripFrom none rest

def stripComment (line : Str) : Str := stripFrom none line

/-- Where the loops of `parse_quoted_sections` stand, with what they have of a section. -/
inductive Scan where
  | between
  | quoted (quote : Char) (text : Str)
  | bare (text : Str)

def sectionsFrom : Scan → Str → List Str
  | .between, [] => []
  | .between, ch :: rest =>
    if isWhitespace ch then sectionsFrom .between rest
    else sectionsFrom (if isQuote ch then .quoted ch [] else .bare [ch]) rest
  | .quoted _ text, [] => [text]
  | .quoted quote text, ch :: rest =>
    if ch = quote then text :: sectionsFrom .between rest
    else sectionsFrom (.quoted quote (text ++ [ch])) rest
  | .bare text, [] => [text]
  | .bare text, ch :: rest =>
    if isWhitespace ch then text :: sectionsFrom .between rest
    else sectionsFrom (.bare (text ++ [ch])) rest

def parseQuotedSections (raw : Str) : List Str := sectionsFrom .between (trim raw)

/-! ## Lines of quoted arguments -/

def escapeQuotes (argument : Str) : Str := argument.flatMap fun ch => if ch = '"' then ['\\', ch] else [ch]

def quoteArgument (argument : Str) : Str := '"' :: (escapeQuotes argument ++ ['"'])

/-- The arguments in quotes, with whitespace between them. -/
inductive Written : List Str → Str → Prop
  | nil : Written [] []
  | one (argument : Str) : Written [argument] (quoteArgument argument)
  | cons (argument gap : Str) {next line : Str} {arguments : List Str} (hg : ∀ ch ∈ gap, isWhitespace ch = true)
    (h : Written (next :: arguments) line) :
    Written (argument :: next :: arguments) (quoteArgument argument ++ (gap ++ line))

variable {argument gap rest text line : Str} {arguments : List Str}

theorem escapeQuotes_eq (h : '"' ∉ argument) : escapeQuotes argument = argument := by
  rw [escapeQuotes, flatMap_congr fun ch hc => if_neg (ne_of_mem_of_not_mem hc h), flatMap_singleton']

theorem stripFrom_quoted (h : '"' ∉ argument) :
    stripFrom (some '"') (argument ++ '"' :: rest) = argument ++ '"' :: stripFrom none rest := by
  induction argument with
  | nil => rfl
  | cons ch argument ih =>
    obtain ⟨hc, ha⟩ := ne_and_not_mem_of_not_mem_cons h
    rw [cons_append, stripFrom, if_neg (Ne.symm hc), ih ha, cons_append]

theorem sectionsFrom_quoted (h : '"' ∉ argument) :
    sectionsFrom (.quoted '"' text) (argument ++ '"' :: rest) = (text ++ argument) :: sectionsFrom .between rest := by
  induction argument generalizing text with
  | nil => simp [sectionsFrom]
  | cons ch argument ih =>
    obtain ⟨hc, ha⟩ := ne_and_not_mem_of_not_mem_cons h
    rw [cons_append, sectionsFrom, if_neg (Ne.symm hc), ih ha, append_assoc, singleton_append]

theorem stripFrom_gap (h : ∀ ch ∈ gap, isWhitespace ch = true) :
    stripFrom none (gap ++ rest) = gap ++ stripFrom none rest := by
  induction gap with
  | nil => rfl
  | cons ch gap ih =>
    obtain ⟨hc, hg⟩ := forall_mem_cons.1 h
    have hn : ch ≠ '"' ∧ ch ≠ '\'' ∧ ch ≠ '#' := by refine ⟨?_, ?_, ?_⟩ <;> rintro rfl <;> cases hc
    simp [stripFrom, isQuote, hn, ih hg]

theorem sectionsFrom_gap (h : ∀ ch ∈ gap, isWhitespace ch = true) :
    sectionsFrom .between (gap ++ rest) = sectionsFrom .between rest := by
  induction gap with
  | nil => rfl
  | cons ch gap ih =>
    obtain ⟨hc, hg⟩ := forall_mem_cons.1 h
    rw [cons_append, sectionsFrom, if_pos hc, ih hg]

theorem trimEnd_quote (front : Str) : trimEndMatches isWhitespace (front ++ '"' :: rest) =
    front ++ '"' :: trimEndMatches isWhitespace rest := by
  have ho : isWhitespace '"' = false := by decide
  rw [trimEndMatches, reverse_append, reverse_cons, append_assoc, singleton_append, dropWhile_append]
  split
  · next he => simp [trimEndMatches, List.isEmpty_iff.1 he, ho]
  · simp [trimEndMatches]

/-- The sections of what is left of a line without its comment and the blanks at its end. -/
def sectionsOf (line : Str) : List Str := sectionsFrom .between (trimEndMatches isWhitespace (stripFrom none line))

/-- The first section ends at the first double quote behind the opening one. -/
theorem sectionsOf_quote (h : '"' ∉ argument) :
    sectionsOf ('"' :: (argument ++ '"' :: rest)) = argument :: sectionsOf rest := by
  have ho : isWhitespace '"' = false := by decide
  have hs : stripFrom none ('"' :: (argument ++ '"' :: rest)) = '"' :: (argument ++ '"' :: stripFrom none rest) := by
    simp [stripFrom, isQuote, stripFrom_quoted h]
  rw [sectionsOf, hs, ← cons_append, trimEnd_quote, cons_append]
  simp [sectionsFrom, isQuote, ho, sectionsFrom_quoted h, sectionsOf]

theorem sectionsOf_plain (h : '"' ∉ argument) :
    sectionsOf (quoteArgument argument ++ rest) = argument :: sectionsOf rest := by
  rw [← sectionsOf_quote h]
  simp [quoteArgument, escapeQuotes_eq h]

/-- An argument with a double quote is cut behind the backslash. -/
theorem sectionsOf_escaped (h : '"' ∈ argument) :
    ∃ front more, '"' ∉ front ∧ sectionsOf (quoteArgument argument ++ rest) = front :: more := by
  obtain ⟨front, back, rfl, hf⟩ := List.eq_append_cons_of_mem h
  refine ⟨front ++ ['\\'], sectionsOf (escapeQuotes back ++ '"' :: rest), by simp [hf], ?_⟩
  have he : escapeQuotes (front ++ '"' :: back) = front ++ '\\' :: '"' :: escapeQuotes back := by
    rw [escapeQuotes, flatMap_append, ← escapeQuotes, escapeQuotes_eq hf]
    rfl
  rw [← sectionsOf_quote (by simp [hf])]
  simp [quoteArgument, he]

theorem sectionsOf_gap (h : ∀ ch ∈ gap, isWhitespace ch = true) :
    sectionsOf (gap ++ '"' :: rest) = sectionsOf ('"' :: rest) := by
  have hs : stripFrom none ('"' :: rest) = [] ++ '"' :: stripFrom (some '"') rest := rfl
  rw [sectionsOf, sectionsOf, stripFrom_gap h, hs, trimEnd_quote [], nil_append, trimEnd_quote gap, sectionsFrom_gap h,
    nil_append]

def ReadBack (argument part : Str) : Prop := part = argument ∨ part = escapeQuotes argument

theorem readBack_quote {part : Str} (h : '"' ∈ argument) (hp : '"' ∉ part) : ¬ ReadBack argument part := by
  rintro (rfl | rfl)
  · exact hp h
  · exact hp (mem_flatMap.2 ⟨'"', h, by simp⟩)

theorem Written.starts {next : Str} (h : Written (next :: arguments) line) : ∃ rest, line = '"' :: rest := by
  cases h <;> exact ⟨_, rfl⟩

theorem Written.sectionsOf_iff (h : Written arguments line) :
    Forall₂ ReadBack arguments (sectionsOf line) ↔ ∀ argument ∈ arguments, '"' ∉ argument := by
  have hstep : ∀ {argument rest : Str} {arguments : List Str},
      (Forall₂ ReadBack arguments (sectionsOf rest) ↔ ∀ argument ∈ arguments, '"' ∉ argument) →
      (Forall₂ ReadBack (argument :: arguments) (sectionsOf (quoteArgument argument ++ rest)) ↔
        ∀ a ∈ argument :: arguments, '"' ∉ a) := by
    intro argument rest arguments ih
    rw [forall_mem_cons]
    by_cases ha : '"' ∈ argument
    · obtain ⟨front, more, hf, heq⟩ := @sectionsOf_escaped _ rest ha
      rw [heq, forall₂_cons]
      exact iff_of_false (fun hb => readBack_quote ha hf hb.1) fun hb => hb.1 ha
    · rw [sectionsOf_plain ha, forall₂_cons, ih]
      exact and_congr_left fun _ => iff_of_true (.inl rfl) ha
  induction h with
  | nil => exact iff_of_true .nil (by simp)
  | one argument =>
    have hn : Forall₂ ReadBack [] (sectionsOf []) ↔ ∀ argument ∈ ([] : List Str), '"' ∉ argument :=
      iff_of_true .nil (by simp)
    rw [← append_nil (quoteArgument argument)]
    exact hstep hn
  | cons argument gap hg h ih =>
    obtain ⟨rest, rfl⟩ := h.starts
    rw [← sectionsOf_gap hg] at ih
    exact hstep ih

/-- **Quoted arguments.**  The arguments are read back, as they were or with their escapes, if and only if none of them
has a double quote; hash signs, single quotes and backslashes do no harm. -/
theorem sections_written (arguments : List Str) (line : Str) (h : Written arguments line) :
    Forall₂ ReadBack arguments (parseQuotedSections (stripComment line)) ↔ ∀ argument ∈ arguments, '"' ∉ argument := by
  have htrim : trimStartMatches isWhitespace (stripFrom none line) = stripFrom none line := by
    rcases arguments with _ | ⟨next, arguments⟩
    · cases h
      rfl
    · obtain ⟨rest, rfl⟩ := h.starts
      rfl
  rw [← h.sectionsOf_iff, sectionsOf, parseQuotedSections, trim, trimMatches, stripComment, htrim]

theorem sections_written_hash : Forall₂ ReadBack ["@rx a#'b", "id:1"]
    (parseQuotedSections (stripComment "\"@rx a#'b\" \"id:1\"")) :=
  (sections_written _ _ (.cons _ [' '] (List.forall_mem_singleton.2 (by decide)) (.one _))).2 (by decide)

/-- The argument `a"b` is read as two. -/
theorem sections_escaped_quote : Written ["a\"b"] "\"a\\\"b\"" ∧
    parseQuotedSections (stripComment "\"a\\\"b\"") = ["a\\".toList, "b\"".toList] :=
  ⟨.one _, by decide⟩

end Waf.Crs
