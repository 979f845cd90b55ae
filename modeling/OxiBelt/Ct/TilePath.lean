import OxiBelt.RustStd.Result
import OxiBelt.RustStd.Text

/-!
# Paths of tiles (`oxibelt-ct/src/static_ct.rs`)

The index of a tile is written in groups of three digits, each a component of the path, with an `x` before every group
but the last; a partial tile has `.p` after the last group and its width as one more component.  `parse` renders what
it has read and compares, so an accepted path is the rendering of its value; that every rendering is accepted is
`parse_components`.
-/

namespace Ct

open RustStd List

def maxTileLevel : UInt8 := 5

inductive TileKind where
  | hashes (level : UInt8)
  | data
  deriving DecidableEq

structure TilePath where
  kind : TileKind
  index : UInt64
  partialWidth : Option UInt8
  deriving DecidableEq

/-! ## Rendering -/

/-- `format!("{index:0width$}")`. -/
def zeroPadded (width n : Nat) : Str := List.replicate (width - (decimal n).length) '0' ++ decimal n

/-- The slices of three characters that start at `0`, `3`, … -/
def groupsOfThree (padded : Str) : List Str :=
  (List.range (padded.length / 3)).map fun group => (padded.drop (3 * group)).take 3

/-- An `x` before every group but the one at the position `last`. -/
def markGroups (last : Nat) (groups : List Str) : List Str :=
  groups.mapIdx fun position group => if position == last then group else 'x' :: group

def indexGroups (index : UInt64) : List Str :=
  let decimal := decimal index.toNat
  let paddedLength := (decimal.length + 2) / 3 * 3
  let groups := groupsOfThree (zeroPadded paddedLength index.toNat)
  markGroups (groups.length - 1) groups

def renderTileIndex (index : UInt64) : Str := ['/'].intercalate (indexGroups index)

namespace TilePath

def kindText : TileKind → Str
  | .hashes level => decimal level.toNat
  | .data => "data"

def suffixText : Option UInt8 → Str
  | none => []
  | some width => ".p/" ++ decimal width.toNat

def tooDeep : TileKind → Bool
  | .hashes level => maxTileLevel < level
  | .data => false

def render (value : TilePath) : Result Str :=
  if tooDeep value.kind then .error "Static CT tile level exceeds 5"
  else if value.partialWidth = some 0 then .error "Static CT partial tile width must be positive"
  else
    .ok ("tile/" ++ kindText value.kind ++ '/' :: renderTileIndex value.index ++ suffixText value.partialWidth)

end TilePath

/-! ## Parsing -/

/-- The loop of `parse_tile_index`: the digits of all groups.  The texts are compared by character; a group with other
than ASCII characters fails the second check. -/
def indexDigits : List Str → Result Str
  | [] => .ok []
  | group :: groups => do
    let digits ←
      if groups.isEmpty then Except.ok group
      else
        match group with
        | 'x' :: digits => .ok digits
        | _ => .error "Static CT tile index prefix is missing"
    if digits.length ≠ 3 || !digits.all isAsciiDigit then
      .error "Static CT tile index group is not three decimal digits"
    else do
      let rest ← indexDigits groups
      return digits ++ rest

def parseTileIndex (groups : List Str) : Result UInt64 :=
  if groups.isEmpty then .error "Static CT tile index is missing"
  else do
    let decimal ← indexDigits groups
    match parseU64 decimal with
    | none => .error "Static CT tile index overflows u64"
    | some index => return UInt64.ofNat index

def parseCanonicalDecimalU8 (value : Str) : Result UInt8 :=
  if value.isEmpty || (1 < value.length && value.head? == some '0') || !value.all isAsciiDigit then
    .error "Static CT decimal value is not canonical"
  else
    match parseU8 value with
    | none => .error "Static CT decimal value overflows u8"
    | some n => .ok (UInt8.ofNat n)

namespace TilePath

def parseKind (component : Str) : Result TileKind :=
  if component == "data" then .ok .data
  else do
    let level ← parseCanonicalDecimalU8 component
    if maxTileLevel < level then .error "Static CT tile level exceeds 5" else return .hashes level

def marker : Str := ".p"

def isMarked (component : Str) : Bool := marker.isSuffixOf component

def parsePartial (components : List Str) : Result (List Str × Option UInt8) :=
  match components.findIdx? isMarked with
  | none => .ok (components.drop 2, none)
  | some position =>
    if position < 2 || position + 2 ≠ components.length then .error "invalid Static CT partial tile suffix"
    else
      let marked := components.getD position []
      if marked == marker || !isMarked marked then .error "invalid Static CT partial tile marker"
      else do
        let base := marked.take (marked.length - marker.length)
        let width ← parseCanonicalDecimalU8 (components.getD (position + 1) [])
        if width = 0 then .error "Static CT partial tile width must be positive"
        else return ((components.drop 2).take (position - 2) ++ [base], some width)

def parse (path : Str) : Result TilePath :=
  if path.head? == some '/' || path.getLast? == some '/' then
    .error "Static CT tile path must be relative and canonical"
  else
    let components := path.splitOn '/'
    if components.length < 3 || components.getD 0 [] ≠ "tile" then .error "invalid Static CT tile path"
    else do
      let kind ← parseKind (components.getD 1 [])
      let (indexComponents, partialWidth) ← parsePartial components
      let index ← parseTileIndex indexComponents
      let value : TilePath := { kind, index, partialWidth }
      let rendered ← value.render
      if rendered ≠ path then .error "Static CT tile path is not canonical" else return value

end TilePath

/-! ## The groups of an index -/

def IsGroup (group : Str) : Prop := group.length = 3 ∧ ∀ c ∈ group, isAsciiDigit c = true

theorem groups_spec (count : Nat) {padded : Str} (hl : padded.length = 3 * count)
    (hd : ∀ c ∈ padded, isAsciiDigit c = true) :
    let groups := (List.range count).map fun group => (padded.drop (3 * group)).take 3
    groups.flatten = padded ∧ ∀ group ∈ groups, IsGroup group := by
  induction count generalizing padded with
  | zero =>
    have he : padded = [] := length_eq_zero_iff.1 (by omega)
    subst he
    exact ⟨rfl, nofun⟩
  | succ count ih =>
    have hdr : (padded.drop 3).length = 3 * count := by
      rw [length_drop]
      omega
    obtain ⟨hf, hg⟩ := ih hdr fun c hc => hd c (mem_of_mem_drop hc)
    have hr : ((List.range count).map fun group => (padded.drop (3 * (group + 1))).take 3) =
        (List.range count).map fun group => ((padded.drop 3).drop (3 * group)).take 3 := by
      refine map_congr_left fun group _ => ?_
      rw [drop_drop, Nat.mul_succ, Nat.add_comm]
    simp only [range_succ_eq_map, map_cons, map_map, Function.comp_def, Nat.succ_eq_add_one,
      Nat.mul_zero, drop_zero, flatten_cons, forall_mem_cons, hr]
    refine ⟨?_, ⟨?_, ?_⟩, hg⟩
    · rw [hf, take_append_drop]
    · rw [length_take]
      omega
    · intro c hc
      exact hd c (mem_of_mem_take hc)

theorem markGroups_concat (init : List Str) (last : Str) :
    markGroups init.length (init ++ [last]) = init.map ('x' :: ·) ++ [last] := by
  rw [markGroups, mapIdx_concat, beq_self_eq_true, if_pos rfl]
  congr 1
  refine ext_getElem (by simp) fun position hp _ => ?_
  rw [length_mapIdx] at hp
  rw [getElem_mapIdx, getElem_map, if_neg (by simpa using hp.ne)]

theorem zeroPadded_digits {width n : Nat} {c : Char} (h : c ∈ zeroPadded width n) : isAsciiDigit c = true := by
  rcases mem_append.1 h with h | h
  · rw [eq_of_mem_replicate h]
    decide
  · exact isAsciiDigit_of_mem_decimal h

theorem ofDigitChars_zeroPadded (width n : Nat) : Nat.ofDigitChars 10 (zeroPadded width n) 0 = n := by
  have hz : ∀ count, Nat.ofDigitChars 10 (List.replicate count '0') 0 = 0 := by
    intro count
    induction count with
    | zero => rfl
    | succ count ih =>
      rw [replicate_succ, Nat.ofDigitChars_cons]
      exact ih
  rw [zeroPadded, Nat.ofDigitChars_append, hz]
  exact Nat.ofDigitChars_ten_toDigits

theorem indexGroups_eq (index : UInt64) :
    ∃ init last, indexGroups index = init.map ('x' :: ·) ++ [last] ∧ (∀ group ∈ init ++ [last], IsGroup group) ∧
      Nat.ofDigitChars 10 (init ++ [last]).flatten 0 = index.toNat := by
  have hp : 0 < (decimal index.toNat).length := Nat.length_toDigits_pos
  obtain ⟨count, hc⟩ : ∃ count, ((decimal index.toNat).length + 2) / 3 = count + 1 :=
    Nat.exists_eq_succ_of_ne_zero (by omega)
  have hl : (zeroPadded ((count + 1) * 3) index.toNat).length = 3 * (count + 1) := by
    rw [zeroPadded, length_append, length_replicate]
    omega
  obtain ⟨hf, hg⟩ := groups_spec _ hl fun c => zeroPadded_digits
  rw [range_succ, map_append, map_singleton] at hf hg
  refine ⟨_, _, ?_, hg, ?_⟩
  · rw [indexGroups, hc, groupsOfThree, hl, Nat.mul_div_cancel_left _ (by decide), length_map,
      length_range, Nat.add_sub_cancel, range_succ, map_append, map_singleton, ← markGroups_concat,
      length_map, length_range]
  · rw [hf, ofDigitChars_zeroPadded]

/-! ## What is rendered is parsed -/

theorem IsGroup.check {group : Str} (h : IsGroup group) : (group.length ≠ 3 || !group.all isAsciiDigit) = false := by
  simpa [h.1] using h.2

theorem IsGroup.ne_nil {group : Str} (h : IsGroup group) : group ≠ [] := ne_nil_of_length_eq_add_one h.1

variable {init : List Str} {last : Str}

theorem indexDigits_eq (h : ∀ group ∈ init ++ [last], IsGroup group) :
    indexDigits (init.map ('x' :: ·) ++ [last]) = .ok (init ++ [last]).flatten := by
  induction init with
  | nil =>
    refine bind_eq_ok.2 ⟨last, rfl, guard_eq_ok.2 ⟨(h last mem_cons_self).check, ?_⟩⟩
    rfl
  | cons group init ih =>
    obtain ⟨hg, hi⟩ := forall_mem_cons.1 h
    rw [map_cons, cons_append, indexDigits, if_neg (by simp)]
    refine bind_eq_ok.2 ⟨group, rfl, guard_eq_ok.2 ⟨hg.check, ?_⟩⟩
    exact bind_eq_ok.2 ⟨_, ih hi, rfl⟩

theorem parseTileIndex_eq (h : ∀ group ∈ init ++ [last], IsGroup group) {index : UInt64}
    (hi : Nat.ofDigitChars 10 (init ++ [last]).flatten 0 = index.toNat) :
    parseTileIndex (init.map ('x' :: ·) ++ [last]) = .ok index := by
  have hd : ∀ c ∈ (init ++ [last]).flatten, isAsciiDigit c = true := by
    intro c hc
    obtain ⟨group, hg, hc⟩ := List.mem_flatten.1 hc
    exact (h group hg).2 c hc
  have hne : (init ++ [last]).flatten ≠ [] := by
    intro hn
    have hl := (h last (by simp)).1
    rw [List.flatten_eq_nil_iff.1 hn last (by simp)] at hl
    contradiction
  have hp : parseU64 (init ++ [last]).flatten = some index.toNat := by
    rw [← hi]
    refine fromStrRadix_eq hd hne ?_
    rw [hi]
    exact Nat.le_pred_of_lt index.toNat_lt
  rw [parseTileIndex, if_neg (by simp)]
  refine bind_eq_ok.2 ⟨_, indexDigits_eq h, ?_⟩
  simp only [hp, UInt64.ofNat_toNat]
  rfl

theorem parseCanonicalDecimalU8_decimal (n : UInt8) : parseCanonicalDecimalU8 (decimal n.toNat) = .ok n := by
  have hp : parseU8 (decimal n.toNat) = some n.toNat := fromStrRadix_decimal (Nat.le_pred_of_lt n.toNat_lt)
  rw [parseCanonicalDecimalU8, decimal_canonical, if_neg (by decide)]
  simp only [hp, UInt8.ofNat_toNat]

namespace TilePath

variable {kind : TileKind}

theorem parseKind_kindText (h : tooDeep kind = false) : parseKind (kindText kind) = .ok kind := by
  cases kind with
  | data => rfl
  | hashes level =>
    have hd : decimal level.toNat ≠ "data" := by
      intro hd
      have hdg : isAsciiDigit 'd' = true := isAsciiDigit_of_mem_decimal (by rw [hd]; decide)
      exact absurd hdg (by decide)
    rw [parseKind, if_neg (by simpa [kindText] using hd)]
    refine bind_eq_ok.2 ⟨level, parseCanonicalDecimalU8_decimal level, ?_⟩
    rw [if_neg (by simpa [tooDeep] using h)]
    rfl

theorem isMarked_eq_false {component : Str} (h : component.getLast? ≠ some 'p') : isMarked component = false := by
  by_contra hm
  rw [Bool.not_eq_false, isMarked, isSuffixOf_iff_suffix] at hm
  obtain ⟨before, rfl⟩ := hm
  exact h (by simp [marker])

theorem digits_getLast? (before : Str) {digits : Str} (hne : digits ≠ []) (hd : ∀ c ∈ digits, isAsciiDigit c = true) :
    (before ++ digits).getLast? ≠ some 'p' := by
  rw [getLast?_append_of_ne_nil _ hne]
  intro hl
  exact absurd (hd 'p' (mem_of_getLast? hl)) (by decide)

def frontComponents (kind : TileKind) (init : List Str) : List Str :=
  "tile" :: kindText kind :: init.map ('x' :: ·)

theorem slash_not_mem_digits {digits : Str} (h : ∀ c ∈ digits, isAsciiDigit c = true) : '/' ∉ digits :=
  fun hs => absurd (h '/' hs) (by decide)

theorem frontComponents_spec (h : ∀ group ∈ init, IsGroup group) :
    ∀ component ∈ frontComponents kind init, isMarked component = false ∧ '/' ∉ component := by
  intro component hc
  simp only [frontComponents, mem_cons, mem_map] at hc
  rcases hc with rfl | rfl | ⟨group, hg, rfl⟩
  · decide
  · cases kind with
    | data => decide
    | hashes level =>
      have hd : ∀ c ∈ decimal level.toNat, isAsciiDigit c = true := fun _ => isAsciiDigit_of_mem_decimal
      exact ⟨isMarked_eq_false (digits_getLast? [] Nat.toDigits_ne_nil hd), slash_not_mem_digits hd⟩
  · have hd := (h group hg).2
    exact ⟨isMarked_eq_false (digits_getLast? ['x'] (h group hg).ne_nil hd), by simpa using slash_not_mem_digits hd⟩

theorem frontComponents_length (kind : TileKind) (init : List Str) :
    (frontComponents kind init).length = init.length + 2 := by
  simp [frontComponents]

theorem parsePartial_full (h : ∀ group ∈ init ++ [last], IsGroup group) :
    parsePartial (frontComponents kind init ++ [last]) = .ok (init.map ('x' :: ·) ++ [last], none) := by
  have hl := h last (by simp)
  have hn : (frontComponents kind init ++ [last]).findIdx? isMarked = none := by
    rw [findIdx?_eq_none_iff]
    intro component hc
    rcases mem_append.1 hc with hf | hc
    · exact (frontComponents_spec (fun group hg => h group (mem_append_left _ hg)) _ hf).1
    · rw [mem_singleton.1 hc]
      exact isMarked_eq_false (digits_getLast? [] hl.ne_nil hl.2)
  rw [parsePartial, hn]
  rfl

theorem parsePartial_partial (h : ∀ group ∈ init ++ [last], IsGroup group) {width : UInt8} (hw : width ≠ 0) :
    parsePartial (frontComponents kind init ++ [last ++ marker, decimal width.toNat]) =
      .ok (init.map ('x' :: ·) ++ [last], some width) := by
  have hf : ∀ component ∈ frontComponents kind init, isMarked component = false := fun component hc =>
    (frontComponents_spec (fun group hg => h group (mem_append_left _ hg)) component hc).1
  have hmr : isMarked (last ++ marker) = true := isSuffixOf_iff_suffix.2 ⟨last, rfl⟩
  have hp : (frontComponents kind init ++ [last ++ marker, decimal width.toNat]).findIdx? isMarked =
      some (init.length + 2) := by
    rw [findIdx?_append, findIdx?_eq_none_iff.2 hf, findIdx?_cons, hmr, frontComponents_length]
    simp
  have hls : last ++ marker ≠ marker := by
    intro hm
    have hl := congrArg List.length hm
    rw [length_append, (h last (by simp)).1] at hl
    omega
  have hm : (frontComponents kind init ++ [last ++ marker, decimal width.toNat]).getD (init.length + 2) [] =
      last ++ marker := by
    simp [← frontComponents_length kind init]
  have hn : (frontComponents kind init ++ [last ++ marker, decimal width.toNat]).getD (init.length + 2 + 1) [] =
      decimal width.toNat := by
    simp [← frontComponents_length kind init]
  have hi : ((frontComponents kind init ++ [last ++ marker, decimal width.toNat]).drop 2).take init.length =
      init.map ('x' :: ·) := by
    simp [frontComponents]
  have hb : (last ++ marker).take ((last ++ marker).length - marker.length) = last := by
    simp
  simp only [parsePartial, hp, hm, hn, hb, Nat.add_sub_cancel, hi]
  refine guard_eq_ok.2 ⟨by simp [frontComponents_length], guard_eq_ok.2 ⟨by simpa [hmr] using hls, ?_⟩⟩
  refine bind_eq_ok.2 ⟨width, parseCanonicalDecimalU8_decimal width, ?_⟩
  rw [if_neg hw]
  rfl

/-! ## The components of a path -/

/-- What is written behind a text changes its last components only. -/
theorem intercalate_append_congr {sep : Char} {ends ends' : List Str} {text : Str} (hn : ends ≠ []) (hn' : ends' ≠ [])
    (h : [sep].intercalate ends ++ text = [sep].intercalate ends') (components : List Str) :
    [sep].intercalate (components ++ ends) ++ text = [sep].intercalate (components ++ ends') := by
  cases components with
  | nil => exact h
  | cons component components =>
    rw [ByteString.intercalate_append _ (cons_ne_nil _ _) hn, ByteString.intercalate_append _ (cons_ne_nil _ _) hn',
      ← h, append_assoc, append_assoc]

def components (kind : TileKind) (init : List Str) (last : Str) : Option UInt8 → List Str
  | none => frontComponents kind init ++ [last]
  | some width => frontComponents kind init ++ [last ++ marker, decimal width.toNat]

theorem path_eq (kind : TileKind) (init : List Str) (last : Str) (partialWidth : Option UInt8) :
    "tile/" ++ kindText kind ++ '/' :: ['/'].intercalate (init.map ('x' :: ·) ++ [last]) ++
        suffixText partialWidth =
      ['/'].intercalate (components kind init last partialWidth) := by
  have hf : "tile/" ++ kindText kind ++ '/' :: ['/'].intercalate (init.map ('x' :: ·) ++ [last]) =
      ['/'].intercalate (frontComponents kind init ++ [last]) := by
    rw [frontComponents, cons_append, cons_append, intercalate_cons_of_ne_nil (by simp),
      intercalate_cons_of_ne_nil (by simp)]
    simp
  rw [hf]
  cases partialWidth with
  | none => exact append_nil _
  | some width =>
    exact intercalate_append_congr (by simp) (by simp) (by simp [suffixText, marker, intercalate_cons_of_ne_nil]) _

section

variable {kind : TileKind} {init : List Str} {last : Str} {partialWidth : Option UInt8}

section

variable (h : ∀ group ∈ init ++ [last], IsGroup group)
include h

theorem slash_not_mem_components :
    ∀ component ∈ components kind init last partialWidth, '/' ∉ component := by
  have hl : '/' ∉ last := slash_not_mem_digits (h last (by simp)).2
  have hf : ∀ component ∈ frontComponents kind init, '/' ∉ component := fun component hc =>
    (frontComponents_spec (fun group hg => h group (mem_append_left _ hg)) component hc).2
  cases partialWidth with
  | none => simpa [components, or_imp, forall_and] using ⟨hf, hl⟩
  | some width =>
    have hm : '/' ∉ last ++ marker := not_mem_append hl (by decide)
    have hd : '/' ∉ decimal width.toNat := slash_not_mem_digits fun _ => isAsciiDigit_of_mem_decimal
    exact forall_mem_append.2 ⟨hf, forall_mem_cons.2 ⟨hm, forall_mem_singleton.2 hd⟩⟩

/-- A path starts with a letter and ends with a digit. -/
theorem path_relative :
    let path := ['/'].intercalate (components kind init last partialWidth)
    (path.head? == some '/' || path.getLast? == some '/') = false := by
  have he : ∃ front text, components kind init last partialWidth = front ++ [text] ∧ text ≠ [] ∧
      ∀ c ∈ text, isAsciiDigit c = true := by
    cases partialWidth with
    | none =>
      have hl := h last (by simp)
      exact ⟨_, last, rfl, hl.ne_nil, hl.2⟩
    | some width =>
      refine ⟨frontComponents kind init ++ [last ++ marker], decimal width.toNat, by simp [components],
        Nat.toDigits_ne_nil, fun _ => isAsciiDigit_of_mem_decimal⟩
  obtain ⟨front, text, hc, hne, hd⟩ := he
  have hl : (['/'].intercalate (front ++ [text])).getLast? ≠ some '/' := by
    have hs := @intercalate_append_congr '/' [[]] [text] text (by simp) (by simp) (by simp) front
    rw [← hs, getLast?_append_of_ne_nil _ hne]
    intro hsl
    exact slash_not_mem_digits hd (mem_of_getLast? hsl)
  have hh : (['/'].intercalate (components kind init last partialWidth)).head? = some 't' := by
    rw [← path_eq]
    rfl
  rw [← hc] at hl
  simpa [hh] using hl

variable {value : TilePath}

theorem parse_components
    (hi : Nat.ofDigitChars 10 (init ++ [last]).flatten 0 = value.index.toNat) (hk : tooDeep value.kind = false)
    (hw : value.partialWidth ≠ some 0)
    (hr : value.render = .ok (['/'].intercalate (components value.kind init last value.partialWidth))) :
    parse (['/'].intercalate (components value.kind init last value.partialWidth)) = .ok value := by
  have hs : (['/'].intercalate (components value.kind init last value.partialWidth)).splitOn '/' =
      components value.kind init last value.partialWidth := by
    refine splitOn_intercalate '/' (slash_not_mem_components h) ?_
    cases value.partialWidth <;> simp [components]
  have hpr : parsePartial (components value.kind init last value.partialWidth) =
      .ok (init.map ('x' :: ·) ++ [last], value.partialWidth) := by
    cases hp : value.partialWidth with
    | none => exact parsePartial_full h
    | some width =>
      refine parsePartial_partial h fun hz => hw ?_
      rw [hp, hz]
  rw [parse, guard_eq_ok]
  refine ⟨path_relative h, ?_⟩
  simp only [hs]
  refine guard_eq_ok.2 ⟨?_, ?_⟩
  · cases value.partialWidth <;> simp [components, frontComponents]
  refine bind_eq_ok.2 ⟨value.kind, ?_, bind_eq_ok.2 ⟨_, hpr, ?_⟩⟩
  · cases value.partialWidth <;> exact parseKind_kindText hk
  refine bind_eq_ok.2 ⟨value.index, parseTileIndex_eq h hi, bind_eq_ok.2 ⟨_, hr, ?_⟩⟩
  rw [if_neg (by simp)]
  rfl

end

theorem render_of_parse {path : Str} (h : parse path = .ok value) : value.render = .ok path := by
  obtain ⟨-, h⟩ := guard_eq_ok.1 h
  obtain ⟨-, h⟩ := guard_eq_ok.1 h
  obtain ⟨kind, -, h⟩ := bind_eq_ok.1 h
  obtain ⟨⟨indexComponents, partialWidth⟩, -, h⟩ := bind_eq_ok.1 h
  obtain ⟨index, -, h⟩ := bind_eq_ok.1 h
  obtain ⟨rendered, hr, h⟩ := bind_eq_ok.1 h
  split at h
  · contradiction
  next hp =>
  cases h
  rw [hr, not_not.1 hp]

theorem parse_of_render {path : Str} (h : value.render = .ok path) : parse path = .ok value := by
  obtain ⟨init, last, hg, hgr, hi⟩ := indexGroups_eq value.index
  have hr := h
  rw [render] at h
  obtain ⟨hk, h⟩ := guard_eq_ok.1 h
  split at h
  · contradiction
  next hw =>
  rw [renderTileIndex, hg, path_eq] at h
  cases h
  exact parse_components hgr hi hk hw hr

end

end TilePath

/-- A path is parsed to a value exactly if the value is rendered as the path. -/
theorem tilePath_parse_iff_render (path : Str) (value : TilePath) :
    TilePath.parse path = .ok value ↔ value.render = .ok path :=
  ⟨TilePath.render_of_parse, TilePath.parse_of_render⟩

example : TilePath.render ⟨.hashes 0, 1234067, some 8⟩ = .ok "tile/0/x001/x234/067.p/8" := by decide

end Ct
