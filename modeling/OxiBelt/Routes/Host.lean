import OxiBelt.RustStd.Text

/-!
# Hosts as routing keys (`routes.rs`)

`normalizeHost` trims whitespace, then trailing dots, then takes a bracketed literal apart or removes a port, and
writes what is left in lower case.

* `spellings_sameKey`: two spellings of a host name have one key, which is its own, exactly if no dot stands before a
  port.
* `dot_before_port`: with such a dot the key is another one, and normalising it once more changes it.
-/

namespace Routes

open RustStd List

def asciiLowerCow (value : Str) : Str := if value.any isAsciiUppercase then toAsciiLowercase value else value

def normalizeHost (raw : Str) : Str :=
  let trimmed := trimEndMatches (· == '.') (trim raw)
  if trimmed.head? = some '[' ∧ ']' ∈ trimmed then asciiLowerCow (trimmed.tail.takeWhile (· != ']'))
  else
    match rsplitOnce ':' trimmed with
    | some (host, port) =>
      if ':' ∉ host ∧ port ≠ [] ∧ port.all isAsciiDigit then asciiLowerCow host else asciiLowerCow trimmed
    | none => asciiLowerCow trimmed

/-! ## Spellings -/

structure HostName (name : Str) : Prop where
  plain : ∀ c ∈ name, c ≠ ':' ∧ c ≠ '[' ∧ c ≠ ']'
  first : ∀ c ∈ name.head?, isWhitespace c = false
  last : ∀ c ∈ name.getLast?, isWhitespace c = false ∧ c ≠ '.'

structure Spelling (name : Str) where
  before : Str
  host : Str
  dots : Nat
  port : Option Str
  endDots : Nat
  after : Str
  before_space : ∀ c ∈ before, isWhitespace c = true
  after_space : ∀ c ∈ after, isWhitespace c = true
  host_eq : toAsciiLowercase host = toAsciiLowercase name
  port_digits : ∀ port' ∈ port, port' ≠ [] ∧ ∀ c ∈ port', isAsciiDigit c = true

namespace Spelling

variable {name : Str} (s : Spelling name)

def tail : Str := List.replicate s.dots '.' ++ s.port.elim [] (':' :: ·) ++ List.replicate s.endDots '.'

def text : Str := s.before ++ (s.host ++ s.tail) ++ s.after

def PortPlain : Prop := s.port = none ∨ s.dots = 0

end Spelling

/-! ## Case -/

theorem exists_eq_ofNat {first last c : Char} (h : (decide (first ≤ c) && decide (c ≤ last)) = true) :
    ∃ k : Fin (last.toNat + 1 - first.toNat), c = Char.ofNat (first.toNat + k) := by
  rw [Bool.and_eq_true, decide_eq_true_eq, decide_eq_true_eq, Char.le_def, Char.le_def, UInt32.le_iff_toNat_le,
    UInt32.le_iff_toNat_le] at h
  have hn : first.toNat ≤ c.toNat ∧ c.toNat ≤ last.toNat := h
  refine ⟨⟨c.toNat - first.toNat, by omega⟩, ?_⟩
  rw [Nat.add_sub_cancel' hn.1, Char.ofNat_toNat]

theorem toAsciiLowercaseChar_keeps (c : Char) : isWhitespace (toAsciiLowercaseChar c) = isWhitespace c ∧
      (∀ mark ∈ ['.', ':', '[', ']'], toAsciiLowercaseChar c = mark ↔ c = mark) ∧
      toAsciiLowercaseChar (toAsciiLowercaseChar c) = toAsciiLowercaseChar c := by
  by_cases h : isAsciiUppercase c = true
  · obtain ⟨k, rfl⟩ := exists_eq_ofNat h
    clear h
    simp only [forall_mem_cons, not_mem_nil, false_imp_iff, implies_true, and_true]
    revert k
    decide
  · have hc : toAsciiLowercaseChar c = c := if_neg h
    simp [hc]

theorem toAsciiLowercase_idem (s : Str) : toAsciiLowercase (toAsciiLowercase s) = toAsciiLowercase s := by
  rw [toAsciiLowercase, toAsciiLowercase, map_map]
  exact map_congr_left fun c _ => (toAsciiLowercaseChar_keeps c).2.2

theorem asciiLowerCow_eq (value : Str) : asciiLowerCow value = toAsciiLowercase value := by
  rw [asciiLowerCow]
  split
  · rfl
  next h =>
  have hc : ∀ c ∈ value, toAsciiLowercaseChar c = c := by
    intro c hm
    exact if_neg fun hu => h (any_eq_true.2 ⟨c, hm, hu⟩)
  rw [toAsciiLowercase, map_congr_left hc, map_id']

variable {s : Str}

theorem hostName_toAsciiLowercase : HostName (toAsciiLowercase s) ↔ HostName s := by
  have hk := fun c => (toAsciiLowercaseChar_keeps c).2.1
  simp only [forall_mem_cons, not_mem_nil, false_imp_iff, implies_true, and_true] at hk
  have hp : ∀ c, isWhitespace (toAsciiLowercaseChar c) = isWhitespace c := fun c => (toAsciiLowercaseChar_keeps c).1
  have hi : ∀ s, HostName s ↔ _ ∧ _ ∧ _ := fun s => ⟨fun h => ⟨h.1, h.2, h.3⟩, fun h => ⟨h.1, h.2.1, h.2.2⟩⟩
  simp only [hi, toAsciiLowercase, mem_map, forall_exists_index, and_imp, forall_apply_eq_imp_iff₂, head?_map,
    getLast?_map, Option.mem_map, ne_eq, hk, hp]

/-! ## Trimming and the port -/

theorem trimEndMatches_append {p : Char → Bool} {t : Str} (h : ∀ c ∈ t, p c = true) :
    trimEndMatches p (s ++ t) = trimEndMatches p s := by
  rw [trimEndMatches, reverse_append, dropWhile_append_of_pos fun c hc => h c (mem_reverse.1 hc)]
  rfl

theorem trimEndMatches_last {p : Char → Bool} (h : ∀ c ∈ s.getLast?, p c = false) : trimEndMatches p s = s := by
  rw [trimEndMatches]
  cases hs : s.reverse with
  | nil => rw [dropWhile_nil, ← hs, reverse_reverse]
  | cons c t =>
    rw [dropWhile_cons_of_neg (by simp [h c (by simp [getLast?_eq_head?_reverse, hs])]), ← hs, reverse_reverse]

theorem trim_surrounded {before after : Str} (hb : ∀ c ∈ before, isWhitespace c = true)
    (ha : ∀ c ∈ after, isWhitespace c = true) (hf : ∀ c ∈ s.head?, isWhitespace c = false)
    (hl : ∀ c ∈ s.getLast?, isWhitespace c = false) : trim (before ++ s ++ after) = s := by
  rw [trim, trimMatches, trimStartMatches, append_assoc, dropWhile_append_of_pos hb]
  cases s with
  | nil =>
    rw [nil_append, ← append_nil after, dropWhile_append_of_pos ha]
    rfl
  | cons c t =>
    rw [cons_append, dropWhile_cons_of_neg (by simp [hf c rfl]), ← cons_append,
      trimEndMatches_append ha, trimEndMatches_last hl]

theorem rsplitOnce_append {sep : Char} {before after : Str} (h : sep ∉ after) :
    rsplitOnce sep (before ++ sep :: after) = some (before, after) := by
  rw [rsplitOnce, reverse_append, reverse_cons, append_assoc, singleton_append, splitOnce_append (by simpa using h)]
  simp

theorem rsplitOnce_none {sep : Char} (h : sep ∉ s) : rsplitOnce sep s = none := by
  rw [rsplitOnce, splitOnce, if_neg (by simpa using h)]
  rfl

/-- A digit is neither a dot, nor a colon, nor whitespace. -/
theorem isAsciiDigit_plain {c : Char} (h : isAsciiDigit c = true) : c ≠ '.' ∧ c ≠ ':' ∧ isWhitespace c = false := by
  obtain ⟨k, rfl⟩ := exists_eq_ofNat h
  clear h
  revert k
  decide

/-! ## Keys -/

namespace Spelling

variable {name : Str} (s : Spelling name)

theorem tail_not_space : ∀ c ∈ s.tail, isWhitespace c = false := by
  intro c hc
  rw [tail, mem_append, mem_append, mem_replicate, mem_replicate] at hc
  rcases hc with (⟨-, rfl⟩ | hc) | ⟨-, rfl⟩
  · decide
  · cases hp : s.port with
    | none =>
      rw [hp] at hc
      cases hc
    | some port =>
      rw [hp] at hc
      rcases mem_cons.1 hc with rfl | hc
      · decide
      · exact (isAsciiDigit_plain ((s.port_digits port hp).2 c hc)).2.2
  · decide

def keptDots : Nat := if s.port.isSome then s.dots else 0

theorem keptDots_eq_zero : s.keptDots = 0 ↔ s.PortPlain := by
  cases hp : s.port <;> simp [keptDots, PortPlain, hp]

theorem trim_text (hh : HostName s.host) : trim s.text = s.host ++ s.tail := by
  refine trim_surrounded s.before_space s.after_space (fun c hc => ?_) fun c hc => ?_
  · rw [head?_append, Option.mem_def, Option.or_eq_some_iff] at hc
    rcases hc with hc | ⟨-, hc⟩
    · exact hh.first c hc
    · exact s.tail_not_space c (mem_of_mem_head? hc)
  · rw [getLast?_append, Option.mem_def, Option.or_eq_some_iff] at hc
    rcases hc with hc | ⟨-, hc⟩
    · exact s.tail_not_space c (mem_of_mem_getLast? hc)
    · exact (hh.last c hc).1

theorem normalizeHost_text (hn : HostName name) :
    normalizeHost s.text = toAsciiLowercase name ++ List.replicate s.keptDots '.' := by
  have hh : HostName s.host := by
    rw [← hostName_toAsciiLowercase, s.host_eq, hostName_toAsciiLowercase]
    exact hn
  have htr := s.trim_text hh
  have hdt : ∀ count, ∀ c ∈ List.replicate count '.', (c == '.') = true := by
    intro count c hc
    rw [eq_of_mem_replicate hc]
    rfl
  have hcl : ':' ∉ s.host := fun hm => (hh.plain ':' hm).1 rfl
  have hb : '[' ∉ s.host := fun hm => (hh.plain '[' hm).2.1 rfl
  cases hpr : s.port with
  | none =>
    have ht : trimEndMatches (· == '.') (trim s.text) = s.host := by
      rw [htr, tail, hpr, Option.elim_none, append_nil, ← append_assoc, trimEndMatches_append (hdt _),
        trimEndMatches_append (hdt _)]
      exact trimEndMatches_last fun c hc => beq_eq_false_iff_ne.2 (hh.last c hc).2
    rw [normalizeHost, ht, if_neg fun h => hb (mem_of_mem_head? h.1), rsplitOnce_none hcl]
    simp only [asciiLowerCow_eq, s.host_eq, keptDots, hpr, Option.isSome_none, Bool.false_eq_true, if_false,
      replicate_zero, append_nil]
  | some port =>
    obtain ⟨hne, hd⟩ := s.port_digits port hpr
    have hpl := fun c hc => isAsciiDigit_plain (hd c hc)
    let host := s.host ++ List.replicate s.dots '.'
    have ht : trimEndMatches (· == '.') (trim s.text) = host ++ ':' :: port := by
      rw [htr, tail, hpr, Option.elim_some, ← append_assoc, ← append_assoc, trimEndMatches_append (hdt _)]
      refine trimEndMatches_last fun c hc => beq_eq_false_iff_ne.2 ?_
      rw [← singleton_append, ← append_assoc, getLast?_append_of_ne_nil _ hne] at hc
      exact (hpl c (mem_of_mem_getLast? hc)).1
    have hcl' : ':' ∉ host := by simp [host, hcl, mem_replicate]
    have hb' : '[' ∉ host ++ ':' :: port := by
      simp only [host, mem_append, mem_cons, mem_replicate]
      rintro ((hm | hm) | hm | hm)
      · exact hb hm
      · cases hm.2
      · cases hm
      · exact absurd (hd _ hm) (by decide)
    rw [normalizeHost, ht, if_neg fun h => hb' (mem_of_mem_head? h.1), rsplitOnce_append fun hm => (hpl _ hm).2.1 rfl]
    dsimp only
    rw [if_pos ⟨hcl', hne, all_eq_true.2 hd⟩, asciiLowerCow_eq, keptDots, hpr]
    have hdot : toAsciiLowercaseChar '.' = '.' := by decide
    simp only [toAsciiLowercase, host, map_append, map_replicate, hdot, Option.isSome_some, if_true]
    exact congrArg (· ++ _) s.host_eq

def ofKey (name : Str) (dots : Nat) : Spelling name where
  before := []
  host := toAsciiLowercase name
  dots := dots
  port := none
  endDots := 0
  after := []
  before_space := by simp
  after_space := by simp
  host_eq := toAsciiLowercase_idem name
  port_digits := by simp

end Spelling

/-- **One key for two spellings.**  They have the same key, and normalising it again does not change it, if and only if
no dot stands before a port in either of them. -/
theorem spellings_sameKey {name : Str} (hname : HostName name) (s s' : Spelling name) :
    (normalizeHost s.text = normalizeHost s'.text ∧ normalizeHost (normalizeHost s.text) = normalizeHost s.text) ↔
      s.PortPlain ∧ s'.PortPlain := by
  have hk := (Spelling.ofKey name s.keptDots).normalizeHost_text hname
  have ht : (Spelling.ofKey name s.keptDots).text = toAsciiLowercase name ++ List.replicate s.keptDots '.' := by
    simp [Spelling.text, Spelling.tail, Spelling.ofKey]
  have hz : (Spelling.ofKey name s.keptDots).keptDots = 0 := rfl
  rw [ht, hz, replicate_zero, append_nil] at hk
  rw [s.normalizeHost_text hname, s'.normalizeHost_text hname, hk, ← s.keptDots_eq_zero, ← s'.keptDots_eq_zero,
    append_cancel_left_eq, replicate_left_inj, self_eq_append_right, replicate_eq_nil_iff]
  omega

theorem spellings_sameKey_example : normalizeHost " EXAMPLE.com:8080\t" = normalizeHost "example.Com.." ∧
      normalizeHost (normalizeHost " EXAMPLE.com:8080\t") = normalizeHost " EXAMPLE.com:8080\t" :=
  (@spellings_sameKey "example.com" ⟨by simp, by simp; decide, by simp; decide⟩
    ⟨" ", "EXAMPLE.com", 0, some "8080", 0, "\t", by simp; decide, by simp; decide,
      by decide, by simp; decide⟩
    ⟨[], "example.Com", 2, none, 0, [], by simp, by simp, by decide, by simp⟩).2 ⟨.inr rfl, .inl rfl⟩

/-- The dot of a fully qualified name is kept when a port follows. -/
theorem dot_before_port : normalizeHost "example.com.:8080" = "example.com." ∧
      normalizeHost "example.com:8080" = "example.com" ∧
      normalizeHost "example.com." = "example.com" := by
  decide +kernel

end Routes
