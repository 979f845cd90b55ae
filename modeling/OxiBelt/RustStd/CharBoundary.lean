import OxiBelt.RustStd.Text

/-!
# Boundaries between characters

Where the bytes of a text may be cut.  `isCharBoundary_asBytes` says what a boundary is, and `take_charBoundary` what
is left of a text that is cut at the last one up to a limit.
-/

namespace RustStd

open List

def startsChar (byte : UInt8) : Bool := byte < 128 || 192 ≤ byte

theorem startsChar_ofNat {n : Nat} (h : n < 256) : startsChar (UInt8.ofNat n) = (n < 128 || 192 ≤ n) := by
  have hn : (UInt8.ofNat n).toNat = n := by rw [UInt8.toNat_ofNat', Nat.mod_eq_of_lt h]
  simp only [startsChar, UInt8.lt_iff_toNat_lt, UInt8.le_iff_toNat_le, hn]
  rfl

theorem utf8EncodeChar_eq (c : Char) : ∃ first others, String.utf8EncodeChar c = first :: others ∧
    startsChar first = true ∧ ∀ byte ∈ others, startsChar byte = false := by
  have hc : ∀ n, startsChar (UInt8.ofNat (n % 64 + 128)) = false := by
    intro n
    have hm : n % 64 < 64 := Nat.mod_lt n (by decide)
    rw [startsChar_ofNat (by omega)]
    simp only [Bool.or_eq_false_iff, decide_eq_false_iff_not]
    omega
  have hs : ∀ n, n < 128 ∨ 192 ≤ n → n < 256 → startsChar (UInt8.ofNat n) = true := by
    intro n hn hlt
    rw [startsChar_ofNat hlt]
    simpa using hn
  rw [String.utf8EncodeChar]
  split_ifs with ho htw ht
  · exact ⟨_, [], rfl, hs _ (by omega) (by omega), forall_mem_nil _⟩
  · refine ⟨_, _, rfl, hs _ (by omega) (by omega), ?_⟩
    exact forall_mem_cons.2 ⟨hc _, forall_mem_nil _⟩
  · refine ⟨_, _, rfl, hs _ (by omega) (by omega), ?_⟩
    exact forall_mem_cons.2 ⟨hc _, forall_mem_cons.2 ⟨hc _, forall_mem_nil _⟩⟩
  refine ⟨_, _, rfl, hs _ (by omega) (by omega), ?_⟩
  exact forall_mem_cons.2 ⟨hc _, forall_mem_cons.2 ⟨hc _, forall_mem_cons.2 ⟨hc _, forall_mem_nil _⟩⟩⟩

/-- `str::is_char_boundary`, on the bytes of the text. -/
def isCharBoundary (text : List UInt8) (index : Nat) : Bool :=
  index == 0 || index == text.length || text[index]?.any startsChar

def charBoundary (text : List UInt8) : Nat → Nat
  | 0 => 0
  | index + 1 => if isCharBoundary text (index + 1) then index + 1 else charBoundary text index

theorem charBoundary_eq_findGreatest (text : List UInt8) (index : Nat) :
    charBoundary text index = Nat.findGreatest (isCharBoundary text · = true) index := by
  induction index with
  | zero => rfl
  | succ index ih => rw [charBoundary, Nat.findGreatest_succ, ih]

variable {index : Nat}

theorem asBytes_cons (c : Char) (s : Str) : asBytes (c :: s) = String.utf8EncodeChar c ++ asBytes s := flatMap_cons

/-- Behind the first character the boundaries are those of the rest. -/
theorem isCharBoundary_cons (c : Char) (s : Str) (index : Nat) :
    isCharBoundary (asBytes (c :: s)) ((String.utf8EncodeChar c).length + index) =
      isCharBoundary (asBytes s) index := by
  obtain ⟨first, others, hc, -, -⟩ := utf8EncodeChar_eq c
  have hg : (asBytes (c :: s))[(String.utf8EncodeChar c).length + index]? = (asBytes s)[index]? := by
    rw [asBytes_cons, getElem?_append_right (Nat.le_add_right _ _), Nat.add_sub_cancel_left]
  have hz : ((String.utf8EncodeChar c).length + index == 0) = false := by
    rw [hc]
    simp
  have he : ((String.utf8EncodeChar c).length + index == (asBytes (c :: s)).length) =
      (index == (asBytes s).length) := by
    rw [asBytes_cons, length_append, Bool.eq_iff_iff, beq_iff_eq, beq_iff_eq, Nat.add_left_cancel_iff]
  rw [isCharBoundary, isCharBoundary, hg, hz, he, Bool.false_or]
  cases index with
  | succ index => rfl
  | zero =>
    -- where a character ends, the text ends or the next character starts
    cases s with
    | nil => rfl
    | cons d s =>
      obtain ⟨first', others', hd, hs, -⟩ := utf8EncodeChar_eq d
      rw [asBytes_cons, hd]
      simp [hs]

theorem isCharBoundary_inside {c : Char} {s : Str} (hp : 0 < index) (hlt : index < (String.utf8EncodeChar c).length) :
    isCharBoundary (asBytes (c :: s)) index = false := by
  obtain ⟨first, others, hc, -, ho⟩ := utf8EncodeChar_eq c
  obtain ⟨index, rfl⟩ := Nat.exists_eq_add_one_of_ne_zero hp.ne'
  rw [hc, length_cons] at hlt
  have hg : (asBytes (c :: s))[index + 1]? = others[index]? := by
    rw [asBytes_cons, hc, cons_append, getElem?_cons_succ, getElem?_append_left (by omega)]
  have he : (index + 1 == (asBytes (c :: s)).length) = false := by
    rw [asBytes_cons, hc, length_append, length_cons, beq_eq_false_iff_ne]
    omega
  rw [isCharBoundary, hg, he]
  cases hb : others[index]? with
  | none => rfl
  | some byte =>
    rw [Option.any_some, ho byte (mem_of_getElem? hb)]
    rfl

theorem isCharBoundary_asBytes {s : Str} :
    isCharBoundary (asBytes s) index = true ↔ ∃ start, start <+: s ∧ index = (asBytes start).length := by
  induction s generalizing index with
  | nil =>
    constructor
    · intro h
      have hz : index = 0 := by simpa [isCharBoundary, asBytes] using h
      exact ⟨[], nil_prefix, hz⟩
    rintro ⟨start, hs, rfl⟩
    rw [List.prefix_nil.1 hs]
    rfl
  | cons c s ih =>
    constructor
    · intro h
      by_cases hz : index = 0
      · exact ⟨[], nil_prefix, hz⟩
      by_cases hin : index < (String.utf8EncodeChar c).length
      · rw [isCharBoundary_inside (Nat.pos_of_ne_zero hz) hin] at h
        exact absurd h (by decide)
      obtain ⟨rest, rfl⟩ := Nat.exists_eq_add_of_le (Nat.le_of_not_lt hin)
      rw [isCharBoundary_cons] at h
      obtain ⟨start, hs, rfl⟩ := ih.1 h
      exact ⟨c :: start, cons_prefix_cons.2 ⟨rfl, hs⟩, by rw [asBytes_cons, length_append]⟩
    · rintro ⟨start, hs, rfl⟩
      cases start with
      | nil => rfl
      | cons d start =>
        obtain ⟨rfl, hr⟩ := cons_prefix_cons.1 hs
        rw [asBytes_cons d start, length_append, isCharBoundary_cons]
        exact ih.2 ⟨start, hr, rfl⟩

/-- What is kept of a text that is cut at the last boundary up to a limit: the longest start that fits. -/
theorem take_charBoundary (s : Str) (limit : Nat) :
    ∃ start, start <+: s ∧ (asBytes s).take (charBoundary (asBytes s) limit) = asBytes start ∧
      (asBytes start).length ≤ limit ∧ ∀ other, other <+: s → (asBytes other).length ≤ limit → other <+: start := by
  rw [charBoundary_eq_findGreatest]
  have hle := Nat.findGreatest_le (P := (isCharBoundary (asBytes s) · = true)) limit
  have hb := Nat.findGreatest_spec (P := (isCharBoundary (asBytes s) · = true)) (Nat.zero_le limit) rfl
  obtain ⟨start, hs, hi⟩ := isCharBoundary_asBytes.1 hb
  rw [hi] at hle ⊢
  refine ⟨start, hs, ?_, hle, fun other ho hl => ?_⟩
  · obtain ⟨rest, rfl⟩ := hs
    rw [asBytes_append, take_left]
  have hb := Nat.le_findGreatest (P := (isCharBoundary (asBytes s) · = true)) hl
    (isCharBoundary_asBytes.2 ⟨other, ho, rfl⟩)
  rw [hi] at hb
  obtain hp | ⟨rest, rfl⟩ := prefix_or_prefix_of_prefix ho hs
  · exact hp
  cases rest with
  | nil => rw [append_nil]
  | cons c rest =>
    obtain ⟨first, others, hc, -, -⟩ := utf8EncodeChar_eq c
    rw [asBytes_append, asBytes_cons, hc, length_append, length_append, length_cons] at hb
    omega

end RustStd
