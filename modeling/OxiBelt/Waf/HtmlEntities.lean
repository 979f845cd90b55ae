import OxiBelt.Cache.KeyExpansion

/-!
# The HTML entity transform (`waf/crs/transforms.rs`)

Six replacements over the whole text, one after another.

* `decodeHtmlEntities_once`: they are one pass exactly where nothing behind an `&amp;` completes a later entity.
* `decodeHtmlEntities_twice`: what an `&amp;` leaves can be decoded again.
-/

namespace Waf.Crs

open RustStd List
open Cache (replaceAll)

/-- The entities without their `&`, in the order of the replacements. -/
def entities : List (Str × Char) :=
  [("lt;", '<'), ("gt;", '>'), ("amp;", '&'), ("quot;", '"'), ("#x27;", '\''), ("#39;", '\'')]

def replaceEntity (value : Str) (entity : Str × Char) : Str := replaceAll ('&' :: entity.1) [entity.2] value

def decodeHtmlEntities (value : Str) : Str := entities.foldl replaceEntity value

/-- One pass that replaces each entity of the text. -/
def decodeOnce : Str → Str
  | [] => []
  | ch :: rest =>
    match entities.find? fun entity => ('&' :: entity.1).isPrefixOf (ch :: rest) with
    | some entity => entity.2 :: decodeOnce (rest.drop entity.1.length)
    | none => ch :: decodeOnce rest
termination_by text => text.length
decreasing_by
  · rw [length_drop, length_cons]
    omega
  · simp

variable {table : List (Str × Char)} {text body : Str} {ch : Char}

variable {before after : List (Str × Char)} {entity : Str × Char}

theorem replaceEntity_miss (h : ¬ '&' :: entity.1 <+: ch :: text) :
    replaceEntity (ch :: text) entity = ch :: replaceEntity text entity :=
  Cache.replaceAll_miss (mt List.isPrefixOf_iff_prefix.1 h)

/-- A text without ampersands and without what a replacement writes is not made by it. -/
theorem isPrefix_of_replaceEntity (ha : '&' ∉ body) (hv : entity.2 ∉ body)
    (h : body <+: replaceEntity text entity) : body <+: text := by
  induction body generalizing text with
  | nil => exact nil_prefix
  | cons b body ih =>
    rw [mem_cons, not_or] at ha hv
    cases text with
    | nil => rwa [replaceEntity, replaceAll] at h
    | cons ch text =>
      by_cases hp : '&' :: entity.1 <+: ch :: text
      · obtain ⟨rest, hr⟩ := hp
        rw [← hr, replaceEntity, Cache.replaceAll_hit (cons_ne_nil _ _)] at h
        exact absurd (cons_prefix_cons.1 h).1.symm hv.1
      · rw [replaceEntity_miss hp] at h
        obtain ⟨rfl, h'⟩ := cons_prefix_cons.1 h
        exact cons_prefix_cons.2 ⟨rfl, ih ha.2 hv.2 h'⟩

/-- The names have no ampersand and nothing that is written. -/
theorem entities_plain : ∀ entity ∈ entities, '&' ∉ entity.1 ∧ ∀ other ∈ entities, other.2 ∉ entity.1 := by decide

theorem isPrefix_of_foldl (he : entity ∈ entities) (ht : table ⊆ entities)
    (h : entity.1 <+: table.foldl replaceEntity text) : entity.1 <+: text := by
  induction table generalizing text with
  | nil => exact h
  | cons first table ih =>
    obtain ⟨ha, hv⟩ := entities_plain entity he
    exact isPrefix_of_replaceEntity ha (hv first (ht mem_cons_self)) (ih (fun _ hm => ht (mem_cons_of_mem _ hm)) h)

theorem foldl_miss (ht : table ⊆ entities) (h : ∀ entity ∈ table, ¬ '&' :: entity.1 <+: ch :: text) :
    table.foldl replaceEntity (ch :: text) = ch :: table.foldl replaceEntity text := by
  induction table generalizing text with
  | nil => rfl
  | cons first table ih =>
    obtain ⟨hf, h⟩ := forall_mem_cons.1 h
    rw [foldl_cons, foldl_cons, replaceEntity_miss hf]
    refine ih (fun _ hm => ht (mem_cons_of_mem _ hm)) fun entity hm hp => h entity hm ?_
    obtain ⟨rfl, hp'⟩ := cons_prefix_cons.1 hp
    exact cons_prefix_cons.2 ⟨rfl,
      isPrefix_of_foldl (ht (mem_cons_of_mem _ hm)) (List.cons_subset.2 ⟨ht mem_cons_self, nil_subset _⟩) hp'⟩

theorem foldl_letters (ht : table ⊆ entities) (ha : '&' ∉ body) :
    table.foldl replaceEntity (body ++ text) = body ++ table.foldl replaceEntity text := by
  induction body with
  | nil => rfl
  | cons b body ih =>
    rw [mem_cons, not_or] at ha
    rw [cons_append, foldl_miss ht fun _ _ hp => ha.1 (cons_prefix_cons.1 hp).1, ih ha.2, cons_append]

theorem entities_prefixFree : ∀ entity ∈ entities, ∀ other ∈ entities, entity.1 <+: other.1 → entity = other := by
  decide

/-- At most one name stands in front of a text. -/
theorem entity_unique {entity other : Str × Char} (hm : entity ∈ entities) (ho : other ∈ entities)
    (h : other.1 <+: entity.1 ++ text) : other = entity := by
  rcases prefix_or_prefix_of_prefix h (prefix_append entity.1 text) with hp | hp
  · exact entities_prefixFree _ ho _ hm hp
  · exact (entities_prefixFree _ hm _ ho hp).symm

/-- An entity that stands in front. -/
theorem foldl_hit (ht : before ++ entity :: after ⊆ entities) (hn : entity ∉ before) :
    (before ++ entity :: after).foldl replaceEntity ('&' :: (entity.1 ++ text)) =
      after.foldl replaceEntity (entity.2 :: (before ++ [entity]).foldl replaceEntity text) := by
  have hsb : before ⊆ entities := fun e he => ht (mem_append_left _ he)
  have hm : entity ∈ entities := ht (by simp)
  have hmiss : ∀ e ∈ before, ¬ '&' :: e.1 <+: '&' :: (entity.1 ++ text) :=
    fun e he hp => hn (entity_unique hm (hsb he) (cons_prefix_cons.1 hp).2 ▸ he)
  rw [foldl_append, foldl_cons, foldl_miss hsb hmiss, foldl_letters hsb (entities_plain _ hm).1, replaceEntity,
    ← cons_append, Cache.replaceAll_hit (cons_ne_nil _ _), singleton_append, foldl_append]
  rfl

theorem decode_hit (he : entities = before ++ entity :: after) : decodeHtmlEntities ('&' :: (entity.1 ++ text)) =
    after.foldl replaceEntity (entity.2 :: (before ++ [entity]).foldl replaceEntity text) := by
  have hn : (before ++ entity :: after).Nodup := he ▸ by decide
  rw [decodeHtmlEntities, he]
  exact foldl_hit (he ▸ Subset.refl _) fun hm => (nodup_append.1 hn).2.2 entity hm entity mem_cons_self rfl

def lateNames : List Str := ["quot;", "#x27;", "#39;"]

/-- The rest of a later entity behind an `&amp;`. -/
def Reread (text : Str) : Prop := ∃ rest ∈ lateNames, "&amp;".toList ++ rest <:+: text

def RereadFirst (text : Str) : Prop := ∃ rest ∈ lateNames, "&amp;".toList ++ rest <+: text

theorem reread_append {name : Str} (ha : '&' ∉ name) : Reread (name ++ text) ↔ Reread text := by
  induction name with
  | nil => rfl
  | cons b name ih =>
    rw [mem_cons, not_or] at ha
    rw [← ih ha.2]
    refine exists_congr fun rest => and_congr_right fun _ => ?_
    rw [cons_append, infix_cons_iff]
    exact or_iff_right fun hp => ha.1 (cons_prefix_cons.1 hp).1

theorem reread_cons : Reread (ch :: text) ↔ RereadFirst (ch :: text) ∨ Reread text := by
  simp only [Reread, RereadFirst, infix_cons_iff, and_or_left, exists_or]

/-- The entities behind `&amp;` in the table are the late ones, and only `&amp;` writes an ampersand. -/
theorem entities_late (he : entities = before ++ entity :: after) : (entity.2 = '&' ↔ entity.1 = "amp;") ∧
      (entity.2 = '&' → after.map (·.1) = lateNames ∧ ∀ e ∈ after, e.2 ≠ '&' ∧ e.1 ≠ []) := by
  have hi : entities[before.length]? = some entity := by simp [he]
  have ha : after = entities.drop (before.length + 1) := by simp [he]
  have hlt : before.length < 6 := (List.getElem?_eq_some_iff.1 hi).1
  subst ha
  generalize before.length = i at hi hlt
  interval_cases i <;> cases hi <;> decide

/-- What is read again in front of a text that starts with an entity. -/
theorem reread_head (he : entities = before ++ entity :: after) :
    RereadFirst ('&' :: (entity.1 ++ text)) ↔ entity.2 = '&' ∧ ∃ e ∈ after, e.1 <+: text := by
  have hm : entity ∈ entities := by simp [he]
  obtain ⟨hamp, hlate⟩ := entities_late he
  constructor
  · rintro ⟨late, hr, hp⟩
    have hp : "amp;".toList ++ late <+: entity.1 ++ text := (cons_prefix_cons.1 hp).2
    have heq := entity_unique hm (show ("amp;".toList, '&') ∈ entities by decide) ((prefix_append _ _).trans hp)
    subst heq
    rw [← (hlate rfl).1] at hr
    obtain ⟨e, hea, rfl⟩ := mem_map.1 hr
    exact ⟨rfl, e, hea, (prefix_append_right_inj _).1 hp⟩
  · rintro ⟨hv, e, hea, hp⟩
    refine ⟨e.1, (hlate hv).1 ▸ mem_map_of_mem hea, ?_⟩
    rw [hamp.1 hv]
    exact (prefix_append_right_inj "&amp;".toList).2 hp

/-- An `&amp;` in front of a late name is decoded together with it. -/
theorem decode_late (he : entities = before ++ entity :: after) (hv : entity.2 = '&') {late : Str × Char}
    (hl : late ∈ after) :
    decodeHtmlEntities ('&' :: (entity.1 ++ (late.1 ++ text))) = late.2 :: decodeHtmlEntities text := by
  have hsa : after ⊆ entities := fun e h => by simp [he, h]
  obtain ⟨hne, -⟩ := ((entities_late he).2 hv).2 late hl
  obtain ⟨front, back, rfl, hfront⟩ := List.eq_append_cons_of_mem hl
  rw [decode_hit he, hv, foldl_letters (he ▸ by simp) (entities_plain late (hsa hl)).1, foldl_hit hsa hfront,
    foldl_miss fun x hx => hsa (by simp [hx])]
  · simp only [decodeHtmlEntities, he, foldl_append, foldl_cons, foldl_nil]
  · exact fun x _ hp => hne (cons_prefix_cons.1 hp).1.symm

/-- What is read again is shorter than what one pass leaves, and nothing else differs. -/
theorem decodeHtmlEntities_cases (text : Str) :
    (decodeHtmlEntities text = decodeOnce text ∧ ¬ Reread text) ∨
      ((decodeHtmlEntities text).length < (decodeOnce text).length ∧ Reread text) := by
  fun_induction decodeOnce text with
  | case1 => exact .inl ⟨by decide +kernel, by simp [Reread]⟩
  | case2 ch rest entity hf ih =>
    obtain ⟨hp, before, after, he, -⟩ := find?_eq_some_iff_append.1 hf
    obtain ⟨tail, ht⟩ := List.isPrefixOf_iff_prefix.1 hp
    rw [cons_append] at ht
    obtain ⟨rfl, rfl⟩ := List.cons.inj ht
    have hsa : after ⊆ entities := fun e h => by simp [he, h]
    rw [drop_left] at ih ⊢
    rw [reread_cons, reread_append (entities_plain _ (by simp [he])).1, reread_head he]
    by_cases hl : entity.2 = '&' ∧ ∃ e ∈ after, e.1 <+: tail
    · -- the ampersand and a later entity
      refine .inr ⟨?_, .inl hl⟩
      obtain ⟨hv, late, hm, more, rfl⟩ := hl
      have hpos := length_pos_iff.2 (((entities_late he).2 hv).2 late hm).2
      have hmore : decodeHtmlEntities (late.1 ++ more) = late.1 ++ decodeHtmlEntities more :=
        foldl_letters (Subset.refl _) (entities_plain late (hsa hm)).1
      have hle : (decodeHtmlEntities (late.1 ++ more)).length ≤ (decodeOnce (late.1 ++ more)).length := by
        rcases ih with ⟨heq, -⟩ | ⟨hlt, -⟩
        · rw [heq]
        · exact hlt.le
      rw [hmore, length_append] at hle
      rw [decode_late he hv hm, length_cons, length_cons]
      omega
    · have hall : decodeHtmlEntities tail =
          after.foldl replaceEntity ((before ++ [entity]).foldl replaceEntity tail) := by
        rw [decodeHtmlEntities, ← foldl_append, he, append_assoc, singleton_append]
      rw [decode_hit he, foldl_miss hsa, ← hall]
      · rcases ih with ⟨heq, hn⟩ | ⟨hlt, hr⟩
        · exact .inl ⟨by rw [heq], not_or.2 ⟨hl, hn⟩⟩
        · exact .inr ⟨by simpa using hlt, .inr hr⟩
      intro e hea hpe
      obtain ⟨hv, hpe'⟩ := cons_prefix_cons.1 hpe
      exact hl ⟨hv.symm, e, hea, isPrefix_of_foldl (hsa hea) (he ▸ by simp) hpe'⟩
  | case3 ch rest hf ih =>
    rw [find?_eq_none] at hf
    have hrun : decodeHtmlEntities (ch :: rest) = ch :: decodeHtmlEntities rest :=
      foldl_miss (Subset.refl _) fun entity hm hp => hf entity hm (List.isPrefixOf_iff_prefix.2 hp)
    have hn : ¬RereadFirst (ch :: rest) := by
      rintro ⟨late, -, hp⟩
      exact hf ("amp;", '&') (by decide) (List.isPrefixOf_iff_prefix.2 ((prefix_append _ _).trans hp))
    rw [reread_cons, or_iff_right hn, hrun]
    simpa using ih

/-- **One pass.**  The replacements are one pass over the text if and only if no `&amp;` stands in front of the rest of
a later entity. -/
theorem decodeHtmlEntities_once (text : Str) : decodeHtmlEntities text = decodeOnce text ↔
    ∀ rest ∈ ["quot;".toList, "#x27;".toList, "#39;".toList], ¬"&amp;".toList ++ rest <:+: text := by
  have hr : (∀ rest ∈ ["quot;".toList, "#x27;".toList, "#39;".toList], ¬"&amp;".toList ++ rest <:+: text) ↔
      ¬ Reread text := by
    simp only [Reread, lateNames, not_exists, not_and]
  rw [hr]
  rcases decodeHtmlEntities_cases text with ⟨heq, hn⟩ | ⟨hlt, h⟩
  · exact iff_of_true heq hn
  · exact iff_of_false (fun heq => absurd (heq ▸ hlt) (lt_irrefl _)) (not_not_intro h)

/-- The quote that an `&amp;` leaves behind is decoded too. -/
theorem decodeHtmlEntities_twice : decodeHtmlEntities "&amp;quot;" = "\"" ∧ decodeOnce "&amp;quot;" = "&quot;" := by
  decide +kernel

end Waf.Crs
