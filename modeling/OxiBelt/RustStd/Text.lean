import OxiBelt.Lib.Bytes
import OxiBelt.Lib.Search

/-!
# Text and integer parsing of the Rust standard library

A `str` is modelled by its characters.  Only what the modelled code calls is here, under the names
of `core`: trimming, splitting once, ASCII case, and the integer parsers with their sign and
overflow rules.
-/

namespace RustStd

open List

abbrev Str := List Char

/-- A literal is written as it is where a text is expected. -/
instance : Coe String Str := ⟨String.toList⟩

/-- `char::is_whitespace`: the Unicode property `White_Space`. -/
def isWhitespace (c : Char) : Bool :=
  let n := c.toNat
  (9 ≤ n && n ≤ 13) || n == 32 || n == 0x85 || n == 0xA0 || n == 0x1680 ||
    (0x2000 ≤ n && n ≤ 0x200A) || n == 0x2028 || n == 0x2029 || n == 0x202F || n == 0x205F ||
    n == 0x3000

/-- `char::is_control`: the Unicode category `Cc`. -/
def isControlChar (c : Char) : Bool := c.toNat < 32 || (127 ≤ c.toNat && c.toNat ≤ 159)

variable (p : Char → Bool) (s : Str)

def trimStartMatches : Str := s.dropWhile p

def trimEndMatches : Str := (s.reverse.dropWhile p).reverse

def trimMatches : Str := trimEndMatches p (trimStartMatches p s)

/-- `str::trim`. -/
def trim : Str := trimMatches isWhitespace s

variable {s : Str}

/-- Trimming depends on the test only at the characters of the text. -/
theorem trimMatches_congr {p q : Char → Bool} (h : ∀ c ∈ s, p c = q c) : trimMatches p s = trimMatches q s := by
  have hdr : ∀ t : Str, (∀ c ∈ t, p c = q c) → t.dropWhile p = t.dropWhile q := by
    intro t
    induction t with
    | nil => intro _; rfl
    | cons c t ih =>
      intro ht
      rw [dropWhile_cons, dropWhile_cons, ht c mem_cons_self, ih fun d hd => ht d (mem_cons_of_mem c hd)]
  have hr : ∀ c ∈ (s.dropWhile q).reverse, p c = q c := by
    intro c hc
    exact h c ((dropWhile_suffix q).subset (mem_reverse.1 hc))
  unfold trimMatches trimStartMatches trimEndMatches
  rw [hdr s h, hdr _ hr]

variable (c : Char)

def isAsciiDigit : Bool := '0' ≤ c && c ≤ '9'

def isAsciiUppercase : Bool := 'A' ≤ c && c ≤ 'Z'

def isAsciiLowercase : Bool := 'a' ≤ c && c ≤ 'z'

def isAsciiAlphanumeric : Bool := isAsciiDigit c || isAsciiUppercase c || isAsciiLowercase c

def toAsciiLowercaseChar : Char :=
  if isAsciiUppercase c then Char.ofNat (c.toNat + 32) else c

def toAsciiLowercase (s : Str) : Str := s.map toAsciiLowercaseChar

def eqIgnoreAsciiCase (a b : Str) : Bool := toAsciiLowercase a == toAsciiLowercase b

/-- The order of `str`: by characters, a text before its extensions. -/
def strLe : Str → Str → Bool
  | [], _ => true
  | _ :: _, [] => false
  | a :: as, b :: bs => a.toNat < b.toNat || (a == b && strLe as bs)

/-- `str::find` of a text: what stands before its leftmost occurrence, and after it. -/
def find (part : Str) : Str → Option (Str × Str)
  | [] => if part.isEmpty then some ([], []) else none
  | c :: s =>
    if part.isPrefixOf (c :: s) then some ([], (c :: s).drop part.length)
    else (find part s).map fun (before, after) => (c :: before, after)

variable {before after part : Str}

theorem find_eq (part s : Str) :
    find part s = (Search.find part s).map fun i => (s.take i, s.drop (i + part.length)) := by
  induction s with
  | nil => cases part <;> simp [find, Search.find]
  | cons c s ih =>
    rw [find, Search.find, ih]
    split
    · simp
    · simp [Function.comp_def, Nat.add_right_comm _ 1]

theorem find_eq_some (h : find part s = some (before, after)) :
    s = before ++ (part ++ after) ∧ ∀ j < before.length, ¬ Search.At part s j := by
  rw [find_eq] at h
  obtain ⟨i, hi, heq⟩ := Option.map_eq_some_iff.1 h
  cases heq
  obtain ⟨hp, hl⟩ := Search.find_eq_some_iff.1 hi
  refine ⟨?_, fun j hj => hl j (hj.trans_le (length_take_le i s))⟩
  rw [← drop_drop, List.prefix_iff_eq_append.1 hp, take_append_drop]

theorem find_eq_append (h : find part s = some (before, after)) : s = before ++ (part ++ after) := (find_eq_some h).1

theorem at_append {a v : Str} : Search.At part (a ++ (part ++ v)) a.length := by
  rw [Search.At, drop_left]
  exact prefix_append _ _

theorem find_leftmost (h : find part s = some (before, after)) {a v : Str} (hs : s = a ++ (part ++ v)) :
    before.length ≤ a.length := by
  by_contra hlt
  exact (find_eq_some h).2 a.length (Nat.lt_of_not_le hlt) (hs ▸ at_append)

theorem find_ne_none_of_occurrence {a v : Str} : find part (a ++ (part ++ v)) ≠ none := by
  rw [find_eq, Ne, Option.map_eq_none_iff, Search.find_eq_none_iff]
  exact fun h => h _ at_append

/-- `str::rfind` of a text: what stands before its rightmost occurrence, and after it. -/
def rfind (part s : Str) : Option (Str × Str) :=
  (find part.reverse s.reverse).map fun (after, before) => (before.reverse, after.reverse)

theorem rfind_eq_append (h : rfind part s = some (before, after)) : s = before ++ (part ++ after) := by
  obtain ⟨⟨a, b⟩, hf, heq⟩ := Option.map_eq_some_iff.1 h
  simp only [Prod.mk.injEq] at heq
  obtain ⟨rfl, rfl⟩ := heq
  have hs := congrArg List.reverse (find_eq_append hf)
  simpa using hs

/-- `str::strip_prefix`. -/
def stripPrefix (start s : Str) : Option Str := if start.isPrefixOf s then some (s.drop start.length) else none

theorem stripPrefix_eq_some {start rest : Str} : stripPrefix start s = some rest ↔ s = start ++ rest := by
  unfold stripPrefix
  split
  · next h =>
    obtain ⟨tail, rfl⟩ := List.isPrefixOf_iff_prefix.1 h
    simp [eq_comm]
  next h =>
  refine ⟨nofun, ?_⟩
  rintro rfl
  exact absurd (List.isPrefixOf_iff_prefix.2 (prefix_append start rest)) h

/-- `str::lines`: cut at line feeds, without a carriage return before them; a last piece without line feed is kept as
it is, unless it is empty. -/
def lines (s : Str) : List Str :=
  let pieces := s.splitOn '\n'
  pieces.dropLast.map (fun line => if line.getLast? == some '\r' then line.dropLast else line) ++
    pieces.getLast?.toList.filter (· != [])

variable {sep c : Char} {max n : Nat}

theorem mem_of_mem_splitOn {piece : Str} (hp : piece ∈ s.splitOn sep) (hc : c ∈ piece) : c ∈ s := by
  have hj : c ∈ [sep].intercalate (s.splitOn sep) := ByteString.mem_intercalate_of_mem hp hc
  rwa [intercalate_splitOn] at hj

/-- `str::split_once` on one character: at its first occurrence. -/
def splitOnce (sep : Char) (s : Str) : Option (Str × Str) :=
  if sep ∈ s then some (s.takeWhile (· != sep), (s.dropWhile (· != sep)).tail) else none

theorem splitOnce_append (h : sep ∉ before) : splitOnce sep (before ++ sep :: after) = some (before, after) := by
  obtain ⟨ht, hd⟩ := ByteString.cut_append h after
  rw [splitOnce, if_pos (by simp), ht, hd]
  rfl

theorem splitOnce_eq_append (h : splitOnce sep s = some (before, after)) : s = before ++ sep :: after := by
  by_cases hm : sep ∈ s
  · obtain ⟨front, back, rfl, hf⟩ := eq_append_cons_of_mem hm
    rw [splitOnce_append hf] at h
    cases h
    rfl
  · rw [splitOnce, if_neg hm] at h
    cases h

/-- `str::rsplit_once` on one character: at its last occurrence. -/
def rsplitOnce (sep : Char) (s : Str) : Option (Str × Str) :=
  (splitOnce sep s.reverse).map fun (tail, head) => (head.reverse, tail.reverse)

/-- `str::splitn(n, sep)`: at most `n` pieces, the last one uncut. -/
def splitn (sep : Char) : Nat → Str → List Str
  | 0, _ => []
  | 1, s => [s]
  | n + 2, s =>
    match splitOnce sep s with
    | none => [s]
    | some (head, tail) => head :: splitn sep (n + 1) tail

/-- `str::as_bytes`: the UTF-8 encoding. -/
def asBytes (s : Str) : List UInt8 := s.flatMap String.utf8EncodeChar

theorem asBytes_append (s t : Str) : asBytes (s ++ t) = asBytes s ++ asBytes t := flatMap_append

theorem asBytes_length_of_ascii (h : ∀ c ∈ s, c.toNat < 128) : (asBytes s).length = s.length := by
  induction s with
  | nil => rfl
  | cons c s ih =>
    obtain ⟨hc, hs⟩ := forall_mem_cons.1 h
    have hsz : c.utf8Size = 1 := Char.utf8Size_eq_one_iff.2 (UInt32.le_iff_toNat_le.2 (Nat.le_of_lt_succ hc))
    rw [asBytes, flatMap_cons, length_append, ← asBytes, ih hs, String.length_utf8EncodeChar, hsz,
      length_cons, Nat.add_comm]

/-- `str::from_utf8`. -/
def fromUtf8 (bytes : List UInt8) : Option Str := (String.fromUTF8? bytes.toByteArray).map String.toList

theorem fromUtf8_asBytes (s : Str) : fromUtf8 (asBytes s) = some s := by
  have hb : (asBytes s).toByteArray = s.utf8Encode := rfl
  have hv : s.utf8Encode.IsValidUTF8 := ⟨s, rfl⟩
  have hs : String.fromUTF8 s.utf8Encode hv = String.ofList s := by
    apply String.toByteArray_inj.1
    rw [String.toByteArray_ofList]
    rfl
  rw [fromUtf8, hb, String.fromUTF8?, dif_pos hv, hs, Option.map_some, String.toList_ofList]

theorem eq_asBytes_of_fromUtf8 {bytes : List UInt8} (h : fromUtf8 bytes = some s) : bytes = asBytes s := by
  unfold fromUtf8 String.fromUTF8? at h
  split at h
  · next hv =>
    cases h
    have hb : bytes.toByteArray = (asBytes (String.fromUTF8 bytes.toByteArray hv).toList).toByteArray := by
      exact (String.utf8Encode_toList (b := String.fromUTF8 bytes.toByteArray hv)).symm
    exact List.toByteArray_inj.1 hb
  · cases h

theorem asBytes_injective {t : Str} (h : asBytes s = asBytes t) : s = t := by
  have hu : ∀ u : Str, u.utf8Encode = (asBytes u).toByteArray := fun u => rfl
  have hs : String.ofList s = String.ofList t := by
    apply String.toByteArray_inj.1
    rw [String.toByteArray_ofList, String.toByteArray_ofList, hu, hu, h]
  have hl := congrArg String.toList hs
  rwa [String.toList_ofList, String.toList_ofList] at hl

/-- `char::to_digit`. -/
def toDigit (radix : Nat) (c : Char) : Option Nat :=
  let d :=
    if isAsciiDigit c then some (c.toNat - 48)
    else if isAsciiLowercase c then some (c.toNat - 97 + 10)
    else if isAsciiUppercase c then some (c.toNat - 65 + 10)
    else none
  d.filter (· < radix)

/-- The digits read left to right; `none` on a foreign character or once the value passes `max`. -/
def digitsValue (radix max : Nat) : Nat → Str → Option Nat
  | acc, [] => some acc
  | acc, c :: cs =>
    match toDigit radix c with
    | none => none
    | some d => if acc * radix + d ≤ max then digitsValue radix max (acc * radix + d) cs else none

/-- `from_str_radix` of an unsigned type with greatest value `max`: one leading `+` is allowed. -/
def fromStrRadix (radix max : Nat) (s : Str) : Option Nat :=
  match s with
  | [] => none
  | ['+'] => none
  | ['-'] => none
  | '+' :: digits => digitsValue radix max 0 digits
  | digits => digitsValue radix max 0 digits

def parseU8 (s : Str) : Option Nat := fromStrRadix 10 (2 ^ 8 - 1) s

def parseU64 (s : Str) : Option Nat := fromStrRadix 10 (2 ^ 64 - 1) s

/-- `str::parse::<i64>`. -/
def parseI64 (s : Str) : Option Int :=
  match s with
  | [] => none
  | ['+'] => none
  | ['-'] => none
  | '+' :: digits => (digitsValue 10 (2 ^ 63 - 1) 0 digits).map Int.ofNat
  | '-' :: digits => (digitsValue 10 (2 ^ 63) 0 digits).map fun n => -Int.ofNat n
  | digits => (digitsValue 10 (2 ^ 63 - 1) 0 digits).map Int.ofNat

def decimal (n : Nat) : Str := (Nat.toDigits 10 n)

def hexadecimal (n : Nat) : Str := (Nat.toDigits 16 n)

/-! ## Decimal numbers -/

theorem toDigit_of_isAsciiDigit (h : isAsciiDigit c = true) : toDigit 10 c = some (c.toNat - '0'.toNat) := by
  have hr : '0'.toNat ≤ c.toNat ∧ c.toNat ≤ '9'.toNat := by
    simp only [isAsciiDigit, Bool.and_eq_true, decide_eq_true_eq] at h
    exact h
  simp only [toDigit, h, if_true]
  have h0 : '0'.toNat = 48 := rfl
  have h9 : '9'.toNat = 57 := rfl
  rw [Option.filter_some, if_pos (decide_eq_true (by omega)), h0]

theorem le_ofDigitChars (digits : Str) (acc : Nat) : acc ≤ Nat.ofDigitChars 10 digits acc := by
  induction digits generalizing acc with
  | nil => simp
  | cons c digits ih =>
    rw [Nat.ofDigitChars_cons]
    have := ih (10 * acc + (c.toNat - '0'.toNat))
    omega

theorem digitsValue_eq {acc : Nat} {digits : Str} (hd : ∀ c ∈ digits, isAsciiDigit c = true)
    (hm : Nat.ofDigitChars 10 digits acc ≤ max) :
    digitsValue 10 max acc digits = some (Nat.ofDigitChars 10 digits acc) := by
  induction digits generalizing acc with
  | nil => simp [digitsValue]
  | cons c digits ih =>
    obtain ⟨hc, hd⟩ := forall_mem_cons.1 hd
    rw [Nat.ofDigitChars_cons, Nat.mul_comm] at hm ⊢
    have hle := le_ofDigitChars digits (acc * 10 + (c.toNat - '0'.toNat))
    rw [digitsValue, toDigit_of_isAsciiDigit hc]
    simp only [if_pos (hle.trans hm)]
    exact ih hd hm

theorem isAsciiDigit_of_mem_decimal (h : c ∈ decimal n) : isAsciiDigit c = true := by
  have hd := Nat.isDigit_of_mem_toDigits (by decide) (by decide) h
  simp only [Char.isDigit, Bool.and_eq_true, decide_eq_true_eq] at hd
  simp only [isAsciiDigit, Bool.and_eq_true, decide_eq_true_eq]
  exact hd

/-- The parsers give the number that digits stand for. -/
theorem fromStrRadix_eq {digits : Str} (hd : ∀ c ∈ digits, isAsciiDigit c = true) (hne : digits ≠ [])
    (hm : Nat.ofDigitChars 10 digits 0 ≤ max) :
    fromStrRadix 10 max digits = some (Nat.ofDigitChars 10 digits 0) := by
  rw [← digitsValue_eq hd hm]
  unfold fromStrRadix
  split
  · exact absurd rfl hne
  · exact absurd (hd '+' (by simp)) (by decide)
  · exact absurd (hd '-' (by simp)) (by decide)
  · exact absurd (hd '+' (by simp)) (by decide)
  · rfl

theorem eq_zero_of_decimal_head (h : (decimal n).head? = some '0') : n = 0 := by
  induction n using Nat.strong_induction_on with
  | _ n ih =>
    by_cases hn : n < 10
    · rw [decimal, Nat.toDigits_of_lt_base hn] at h
      interval_cases n <;> first | rfl | (exact absurd h (by decide))
    rw [decimal, Nat.toDigits_of_base_le (by decide) (by omega), head?_append_of_ne_nil _ Nat.toDigits_ne_nil] at h
    have := ih (n / 10) (by omega) h
    omega

/-- The parsers read a decimal text back. -/
theorem fromStrRadix_decimal (h : n ≤ max) : fromStrRadix 10 max (decimal n) = some n := by
  have hv : Nat.ofDigitChars 10 (decimal n) 0 = n := Nat.ofDigitChars_ten_toDigits
  refine (fromStrRadix_eq (fun c => isAsciiDigit_of_mem_decimal) Nat.toDigits_ne_nil ?_).trans (congrArg some hv)
  rwa [hv]

/-- A decimal text has digits, no others and no zero in front of them. -/
theorem decimal_canonical (n : Nat) :
    ((decimal n).isEmpty || (1 < (decimal n).length && (decimal n).head? == some '0') ||
      !(decimal n).all isAsciiDigit) = false := by
  have hne : (decimal n).isEmpty = false := by
    rw [isEmpty_eq_false_iff]
    exact Nat.toDigits_ne_nil
  have hd : (decimal n).all isAsciiDigit = true := all_eq_true.2 fun c => isAsciiDigit_of_mem_decimal
  have hl : (decide (1 < (decimal n).length) && (decimal n).head? == some '0') = false := by
    by_contra hz
    rw [Bool.not_eq_false, Bool.and_eq_true, beq_iff_eq, decide_eq_true_eq] at hz
    rw [eq_zero_of_decimal_head hz.2] at hz
    exact absurd hz.1 (by decide)
  rw [hne, hd, hl]
  rfl

end RustStd
