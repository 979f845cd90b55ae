import Mathlib.Data.Finset.Card
import Mathlib.Data.List.Sort
import Mathlib.Order.Interval.Finset.Nat
import Mathlib.Tactic

/-!
# Sequences that arrive in pieces

A piece of a sequence is a run: an offset and what stands there.  What has arrived is kept as runs in order, with a gap
between any two (`Separated`), and stands for a partial function of the position (`Shows`).  A run that agrees with it
is merged in (`Segments.get?_insert`), and the length of the runs grows by what is new (`Segments.size_insert`).
-/

namespace Sparse

open List

structure Run (α : Type*) where
  offset : Nat
  data : List α
  deriving DecidableEq

variable {α : Type*} {run last : Run α} {runs : List (Run α)} {i : Nat} {a : α}

namespace Run

def stop (run : Run α) : Nat := run.offset + run.data.length

def get? (run : Run α) (i : Nat) : Option α := if run.offset ≤ i then run.data[i - run.offset]? else none

theorem get?_of_lt (h : i < run.offset) : run.get? i = none := if_neg (Nat.not_le.2 h)

theorem isSome_get? : (run.get? i).isSome ↔ run.offset ≤ i ∧ i < run.stop := by
  unfold get? stop
  split
  · rw [isSome_getElem?]
    omega
  · simp only [Option.isSome_none, Bool.false_eq_true, false_iff]
    omega

theorem range_of_get? (h : run.get? i = some a) : run.offset ≤ i ∧ i < run.stop := isSome_get?.1 (h ▸ rfl)

def extend (last run : Run α) : Run α :=
  let overlap := last.stop - run.offset
  if overlap < run.data.length then { last with data := last.data ++ run.data.drop overlap } else last

theorem extend_eq (last run : Run α) :
    last.extend run = { last with data := last.data ++ run.data.drop (last.stop - run.offset) } := by
  unfold extend
  simp only
  split
  · rfl
  · next h => rw [drop_of_length_le (Nat.le_of_not_lt h), append_nil]

theorem extend_offset (last run : Run α) : (last.extend run).offset = last.offset := by rw [extend_eq]

theorem get?_extend (hfr : last.offset ≤ run.offset) (hto : run.offset ≤ last.stop) (i : Nat) :
    (last.extend run).get? i = if i < last.stop then last.get? i else run.get? i := by
  have hs : last.stop = last.offset + last.data.length := rfl
  rw [extend_eq, get?]
  simp only
  split
  · next hle =>
    split
    · rw [getElem?_append_left (by omega), get?, if_pos hle]
    -- behind the end the position is one of the other run
    rw [getElem?_append_right (by omega), getElem?_drop, get?, if_pos (by omega)]
    congr 1
    omega
  · rw [get?_of_lt (by omega), get?_of_lt (by omega), ite_self]

end Run

/-! ## Runs in order -/

/-- In order, not empty, and with a gap in between. -/
structure Separated (runs : List (Run α)) : Prop where
  nonempty : ∀ run ∈ runs, run.data ≠ []
  gaps : runs.Pairwise fun a b => a.stop < b.offset

def Shows (runs : List (Run α)) (content : Nat → Option α) : Prop :=
  ∀ i a, content i = some a ↔ ∃ run ∈ runs, run.get? i = some a

def content (runs : List (Run α)) (i : Nat) : Option α := runs.findSome? (·.get? i)

theorem separated_nil : Separated ([] : List (Run α)) := ⟨forall_mem_nil _, .nil⟩

theorem Separated.tail (h : Separated (run :: runs)) : Separated runs :=
  ⟨fun r hr => h.nonempty r (mem_cons_of_mem _ hr), h.gaps.of_cons⟩

/-- What stands behind the first run is behind its end. -/
theorem Separated.lt_of_mem (h : Separated (run :: runs)) {other : Run α} (ho : other ∈ runs) :
    run.stop < other.offset :=
  (pairwise_cons.1 h.gaps).1 other ho

theorem Separated.shows (h : Separated runs) : Shows runs (content runs) := by
  intro i a
  constructor
  · intro hc
    exact exists_of_findSome?_eq_some hc
  rintro ⟨run, hrn, hg⟩
  induction runs with
  | nil => exact absurd hrn not_mem_nil
  | cons first rest ih =>
    rw [content, findSome?_cons]
    rcases mem_cons.1 hrn with rfl | hr
    · rw [hg]
    -- the first run ends before the position
    have hlt := h.lt_of_mem hr
    have hrg := Run.range_of_get? hg
    have hn : first.get? i = none := by
      rw [← Option.not_isSome_iff_eq_none, Run.isSome_get?]
      omega
    rw [hn]
    exact ih h.tail hr

/-! ## Merging -/

/-- The loop over runs in order of their offsets: a run that starts within the last one, or at its end, extends it. -/
def mergeInto (last : Run α) : List (Run α) → List (Run α)
  | [] => [last]
  | run :: runs => if run.offset ≤ last.stop then mergeInto (last.extend run) runs else last :: mergeInto run runs

def mergeSorted : List (Run α) → List (Run α)
  | [] => []
  | run :: runs => mergeInto run runs

def sortByOffset (runs : List (Run α)) : List (Run α) := runs.insertionSort fun a b => a.offset ≤ b.offset

def merge (runs : List (Run α)) (new : Run α) : List (Run α) := mergeSorted (sortByOffset (runs ++ [new]))

abbrev Ordered (runs : List (Run α)) : Prop := runs.Pairwise fun a b => a.offset ≤ b.offset

theorem Ordered.extend (h : Ordered (last :: run :: runs)) : Ordered (last.extend run :: runs) := by
  obtain ⟨hf, hrs⟩ := pairwise_cons.1 h
  refine pairwise_cons.2 ⟨fun r hr => ?_, hrs.of_cons⟩
  rw [Run.extend_offset]
  exact hf r (mem_cons_of_mem _ hr)

theorem mergeInto_separated (hsr : Ordered (last :: runs)) (hne : ∀ run ∈ last :: runs, run.data ≠ []) :
    Separated (mergeInto last runs) ∧ ∀ run ∈ mergeInto last runs, last.offset ≤ run.offset := by
  induction runs generalizing last with
  | nil =>
    refine ⟨⟨hne, pairwise_singleton _ _⟩, fun run hru => ?_⟩
    rw [mem_singleton.1 hru]
  | cons run runs ih =>
    obtain ⟨hf, hrs⟩ := pairwise_cons.1 hsr
    obtain ⟨hls, hrn⟩ := forall_mem_cons.1 hne
    unfold mergeInto
    split
    · rw [← Run.extend_offset last run]
      exact ih hsr.extend (forall_mem_cons.2 ⟨by simp [Run.extend_eq, hls], fun r hr => hrn r (mem_cons_of_mem _ hr)⟩)
    · next hg =>
      obtain ⟨hs, hl⟩ := ih hrs hrn
      have hle : last.offset ≤ run.offset := hf run mem_cons_self
      refine ⟨⟨forall_mem_cons.2 ⟨hls, hs.nonempty⟩, ?_⟩, ?_⟩
      · refine pairwise_cons.2 ⟨fun r hr => ?_, hs.gaps⟩
        have := hl r hr
        omega
      refine forall_mem_cons.2 ⟨Nat.le_refl _, fun r hr => ?_⟩
      have := hl r hr
      omega

/-- Runs that agree with one content show the same after they have been joined. -/
theorem mergeInto_get? {content : Nat → Option α} (hs : Ordered (last :: runs))
    (ha : ∀ run ∈ last :: runs, ∀ i a, run.get? i = some a → content i = some a) (i : Nat) (a : α) :
    (∃ run ∈ mergeInto last runs, run.get? i = some a) ↔ ∃ run ∈ last :: runs, run.get? i = some a := by
  induction runs generalizing last with
  | nil => exact Iff.rfl
  | cons run runs ih =>
    obtain ⟨hf, hrs⟩ := pairwise_cons.1 hs
    obtain ⟨hl, hrn⟩ := forall_mem_cons.1 ha
    obtain ⟨hru, hbh⟩ := forall_mem_cons.1 hrn
    have hle : last.offset ≤ run.offset := hf run mem_cons_self
    unfold mergeInto
    split
    · next ht =>
      -- what the joined run shows is what one of the two shows
      have hj : ∀ i a, (last.extend run).get? i = some a ↔ last.get? i = some a ∨ run.get? i = some a := by
        intro i a
        rw [Run.get?_extend hle ht]
        split
        · next hlt =>
          refine ⟨.inl, fun h => h.elim id fun hg => ?_⟩
          have hrg := Run.range_of_get? hg
          have hin : last.offset ≤ i ∧ i < last.stop := ⟨by omega, hlt⟩
          obtain ⟨b, hb⟩ := Option.isSome_iff_exists.1 (Run.isSome_get?.2 hin)
          rw [hb, (hl i b hb).symm.trans (hru i a hg)]
        · next hge => exact ⟨.inr, fun h => h.elim (fun hg => absurd (Run.range_of_get? hg).2 hge) id⟩
      have ha' : ∀ i a, (last.extend run).get? i = some a → content i = some a := by
        intro i a hg
        rcases (hj i a).1 hg with hg | hg
        · exact hl i a hg
        · exact hru i a hg
      rw [ih hs.extend (forall_mem_cons.2 ⟨ha', hbh⟩)]
      simp only [exists_mem_cons_iff, hj]
      tauto
    · rw [exists_mem_cons_iff, ih hrs hrn, exists_mem_cons_iff (l := run :: runs)]

theorem ordered_sortByOffset (runs : List (Run α)) : Ordered (sortByOffset runs) :=
  haveI : Std.Total fun a b : Run α => a.offset ≤ b.offset := ⟨fun a b => Nat.le_total a.offset b.offset⟩
  haveI : IsTrans (Run α) fun a b => a.offset ≤ b.offset := ⟨fun _ _ _ => Nat.le_trans⟩
  pairwise_insertionSort _ runs

theorem mem_sortByOffset {runs : List (Run α)} : run ∈ sortByOffset runs ↔ run ∈ runs := mem_insertionSort _

theorem separated_merge {new : Run α} (hsp : Separated runs) (hne : new.data ≠ []) : Separated (merge runs new) := by
  have hs := ordered_sortByOffset (runs ++ [new])
  have hn : ∀ run ∈ sortByOffset (runs ++ [new]), run.data ≠ [] := by
    intro run hr
    rw [mem_sortByOffset, mem_append, mem_singleton] at hr
    rcases hr with hr | rfl
    · exact hsp.nonempty run hr
    · exact hne
  unfold merge
  cases ha : sortByOffset (runs ++ [new]) with
  | nil => exact separated_nil
  | cons first rest =>
    rw [ha] at hs hn
    exact (mergeInto_separated hs hn).1

def overlay (new : Run α) (content : Nat → Option α) (i : Nat) : Option α := (new.get? i).or (content i)

/-- No position where both stand has two values. -/
def Agrees (new : Run α) (content : Nat → Option α) : Prop :=
  ∀ i a b, new.get? i = some a → content i = some b → a = b

variable {new : Run α} {content : Nat → Option α}

theorem overlay_eq_some (ha : Agrees new content) :
    overlay new content i = some a ↔ new.get? i = some a ∨ content i = some a := by
  rw [overlay, Option.or_eq_some_iff]
  cases hn : new.get? i with
  | none => simp
  | some b => simpa using ha i b a hn

theorem merge_shows (hsh : Shows runs content) (ha : Agrees new content) :
    Shows (merge runs new) (overlay new content) := by
  have hm : ∀ r, r ∈ sortByOffset (runs ++ [new]) ↔ r ∈ runs ∨ r = new := by
    intro r
    rw [mem_sortByOffset, mem_append, mem_singleton]
  have hs := ordered_sortByOffset (runs ++ [new])
  unfold merge
  generalize sortByOffset (runs ++ [new]) = all at hm hs
  cases all with
  | nil => exact absurd ((hm new).2 (.inr rfl)) not_mem_nil
  | cons first rest =>
    have hag : ∀ run ∈ first :: rest, ∀ i a, run.get? i = some a → overlay new content i = some a := by
      intro run hr i a hg
      rw [overlay_eq_some ha]
      rcases (hm run).1 hr with hr | rfl
      · exact .inr ((hsh i a).2 ⟨run, hr, hg⟩)
      · exact .inl hg
    intro i a
    rw [overlay_eq_some ha, mergeSorted, mergeInto_get? hs hag, hsh]
    simp only [hm, or_and_right, exists_or, exists_eq_left]
    exact or_comm

structure Segments (α : Type*) where
  runs : List (Run α)
  separated : Separated runs

namespace Segments

def empty : Segments α := ⟨[], separated_nil⟩

variable (segments : Segments α)

def insert (new : Run α) (hne : new.data ≠ []) : Segments α :=
  ⟨merge segments.runs new, separated_merge segments.separated hne⟩

def get? : Nat → Option α := Sparse.content segments.runs

theorem shows : Shows segments.runs segments.get? := segments.separated.shows

theorem get?_insert {segments : Segments α} (hne : new.data ≠ []) (ha : Agrees new segments.get?) :
    (segments.insert new hne).get? = overlay new segments.get? := by
  funext i
  ext a
  rw [(segments.insert new hne).shows i a]
  exact (merge_shows segments.shows ha i a).symm

end Segments

/-! ## Comparing a new run with what is there -/

/-- The part of a run between two positions. -/
def Run.slice (run : Run α) (start stop : Nat) : List α := (run.data.drop (start - run.offset)).take (stop - start)

def overlap (new run : Run α) : Nat := min new.stop run.stop - max new.offset run.offset

/-- How much of a new run is there already, and whether it disagrees with it. -/
def compare [DecidableEq α] (new : Run α) : Nat → List (Run α) → Nat × Bool
  | covered, [] => (covered, false)
  | covered, run :: runs =>
    let start := max new.offset run.offset
    let stop := min new.stop run.stop
    if start < stop then
      if new.slice start stop != run.slice start stop then (covered, true)
      else compare new (covered + (stop - start)) runs
    else compare new covered runs

theorem slice_getElem? {start stop : Nat} (hf : run.offset ≤ start) (k : Nat) :
    (run.slice start stop)[k]? = if k < stop - start then run.get? (start + k) else none := by
  rw [Run.slice, getElem?_take]
  split
  · rw [getElem?_drop, Run.get?, if_pos (by omega)]
    congr 1
    omega
  · rfl

theorem slice_eq_iff {start stop : Nat} (hn : new.offset ≤ start) (hr : run.offset ≤ start) :
    new.slice start stop = run.slice start stop ↔ ∀ i, start ≤ i → i < stop → new.get? i = run.get? i := by
  constructor
  · intro h i hs hst
    have hk := congrArg (fun l => l[i - start]?) h
    simp only [slice_getElem? hn, slice_getElem? hr] at hk
    rwa [if_pos (by omega), if_pos (by omega), Nat.add_sub_cancel' hs] at hk
  intro h
  apply ext_getElem?
  intro k
  rw [slice_getElem? hn, slice_getElem? hr]
  split
  · exact h _ (by omega) (by omega)
  · rfl

/-- Where two runs overlap, a difference of the parts is a position with two values. -/
theorem slice_ne_iff : new.slice (max new.offset run.offset) (min new.stop run.stop) ≠
      run.slice (max new.offset run.offset) (min new.stop run.stop) ↔
    ∃ i a b, new.get? i = some a ∧ run.get? i = some b ∧ a ≠ b := by
  rw [ne_eq, slice_eq_iff (Nat.le_max_left _ _) (Nat.le_max_right _ _)]
  constructor
  · intro h
    simp only [not_forall] at h
    obtain ⟨i, hs, hst, hne⟩ := h
    have hn : new.offset ≤ i ∧ i < new.stop := by omega
    have hr : run.offset ≤ i ∧ i < run.stop := by omega
    obtain ⟨a, ha⟩ := Option.isSome_iff_exists.1 (Run.isSome_get?.2 hn)
    obtain ⟨b, hb⟩ := Option.isSome_iff_exists.1 (Run.isSome_get?.2 hr)
    exact ⟨i, a, b, ha, hb, fun hab => hne (by rw [ha, hb, hab])⟩
  · rintro ⟨i, a, b, ha, hb, hne⟩ h
    have hn := Run.range_of_get? ha
    have hr := Run.range_of_get? hb
    have hg := h i (by omega) (by omega)
    rw [ha, hb] at hg
    exact hne (Option.some.inj hg)

section Compare

variable [DecidableEq α]

theorem compare_conflict (covered : Nat) : (compare new covered runs).2 = true ↔
      ∃ run ∈ runs, ∃ i a b, new.get? i = some a ∧ run.get? i = some b ∧ a ≠ b := by
  simp only [← slice_ne_iff]
  fun_induction compare new covered runs with
  | case1 => simp
  | case2 _ _ _ _ _ _ hne => exact iff_of_true rfl ⟨_, mem_cons_self, bne_iff_ne.1 hne⟩
  | case3 _ _ _ _ _ _ heq ih => rw [ih, exists_mem_cons_iff, or_iff_right fun hne => heq (bne_iff_ne.2 hne)]
  | case4 _ run _ _ _ hap ih =>
    have he : ∀ other : Run α, other.slice (max new.offset run.offset) (min new.stop run.stop) = [] := by
      intro other
      rw [Run.slice, Nat.sub_eq_zero_of_le (Nat.le_of_not_lt hap), take_zero]
    rw [ih, exists_mem_cons_iff, or_iff_right fun hne => hne ((he new).trans (he run).symm)]

theorem compare_covered {covered : Nat} (h : (compare new covered runs).2 = false) :
    (compare new covered runs).1 = covered + (runs.map (overlap new)).sum := by
  fun_induction compare new covered runs with
  | case1 => rfl
  | case2 => exact Bool.noConfusion h
  | case3 covered run _ _ _ _ _ ih => rw [ih h, map_cons, sum_cons, Nat.add_assoc]; rfl
  | case4 _ run _ _ _ hap ih =>
    have hz : overlap new run = 0 := Nat.sub_eq_zero_of_le (Nat.le_of_not_lt hap)
    rw [ih h, map_cons, sum_cons, hz, Nat.zero_add]

theorem Segments.compare_agrees (segments : Segments α) (new : Run α) (covered : Nat) :
    (compare new covered segments.runs).2 = false ↔ Agrees new segments.get? := by
  have hs := segments.shows
  rw [← Bool.not_eq_true, compare_conflict]
  constructor
  · intro h i a b ha hb
    obtain ⟨run, hr, hg⟩ := (hs i b).1 hb
    exact Decidable.byContradiction fun hne => h ⟨run, hr, i, a, b, ha, hg, hne⟩
  · rintro h ⟨run, hr, i, a, b, ha, hg, hne⟩
    exact hne (h i a b ha ((hs i b).2 ⟨run, hr, hg⟩))

end Compare

/-! ## How much there is -/

def size (runs : List (Run α)) : Nat := (runs.map fun run => run.data.length).sum

def Run.range (run : Run α) : Finset Nat := Finset.Ico run.offset run.stop

def support : List (Run α) → Finset Nat
  | [] => ∅
  | run :: runs => run.range ∪ support runs

theorem mem_support : i ∈ support runs ↔ ∃ run ∈ runs, run.offset ≤ i ∧ i < run.stop := by
  induction runs with
  | nil => simp [support]
  | cons run runs ih => rw [support, Finset.mem_union, ih, exists_mem_cons_iff, Run.range, Finset.mem_Ico]

theorem Shows.mem_support (h : Shows runs content) : i ∈ support runs ↔ (content i).isSome := by
  rw [Sparse.mem_support, Option.isSome_iff_exists]
  constructor
  · rintro ⟨run, hr, hrn⟩
    obtain ⟨a, ha⟩ := Option.isSome_iff_exists.1 (Run.isSome_get?.2 hrn)
    exact ⟨a, (h i a).2 ⟨run, hr, ha⟩⟩
  rintro ⟨a, ha⟩
  obtain ⟨run, hr, hg⟩ := (h i a).1 ha
  exact ⟨run, hr, Run.range_of_get? hg⟩

theorem Separated.disjoint (h : Separated (run :: runs)) : Disjoint run.range (support runs) := by
  rw [Finset.disjoint_left]
  intro i hi hm
  obtain ⟨other, ho, hr⟩ := mem_support.1 hm
  have hlt := h.lt_of_mem ho
  rw [Run.range, Finset.mem_Ico] at hi
  omega

theorem card_range : run.range.card = run.data.length := by
  rw [Run.range, Nat.card_Ico, Run.stop, Nat.add_sub_cancel_left]

theorem Separated.card_support (h : Separated runs) : (support runs).card = size runs := by
  induction runs with
  | nil => rfl
  | cons run runs ih =>
    rw [support, Finset.card_union_of_disjoint h.disjoint, ih h.tail, card_range]
    rfl

theorem card_range_inter : (new.range ∩ run.range).card = overlap new run := by
  rw [Run.range, Run.range, Finset.Ico_inter_Ico, Nat.card_Ico]
  rfl

theorem Separated.card_inter (h : Separated runs) : (new.range ∩ support runs).card = (runs.map (overlap new)).sum := by
  induction runs with
  | nil => simp [support]
  | cons run runs ih =>
    have hd : Disjoint (new.range ∩ run.range) (new.range ∩ support runs) :=
      h.disjoint.mono Finset.inter_subset_right Finset.inter_subset_right
    rw [support, Finset.inter_union_distrib_left, Finset.card_union_of_disjoint hd, ih h.tail, card_range_inter]
    rfl

theorem Segments.size_insert {segments : Segments α} (hne : new.data ≠ []) (ha : Agrees new segments.get?) :
    size (segments.insert new hne).runs =
      size segments.runs + (new.data.length - (segments.runs.map (overlap new)).sum) := by
  have hs : support (segments.insert new hne).runs = new.range ∪ support segments.runs := by
    ext i
    rw [(segments.insert new hne).shows.mem_support, get?_insert hne ha, Finset.mem_union,
      segments.shows.mem_support, overlay, Option.isSome_or, Bool.or_eq_true, Run.isSome_get?, Run.range,
      Finset.mem_Ico]
  have hc := Finset.card_union_add_card_inter new.range (support segments.runs)
  rw [← hs, (segments.insert new hne).separated.card_support, segments.separated.card_support,
    segments.separated.card_inter, card_range] at hc
  have hle : (segments.runs.map (overlap new)).sum ≤ new.data.length := by
    rw [← segments.separated.card_inter, ← card_range]
    exact Finset.card_le_card Finset.inter_subset_left
  omega

/-- A run that is there already adds nothing. -/
theorem Segments.overlay_of_covered {segments : Segments α} (ha : Agrees new segments.get?)
    (hc : new.data.length ≤ (segments.runs.map (overlap new)).sum) :
    overlay new segments.get? = segments.get? := by
  have hi : new.range ∩ support segments.runs = new.range := by
    refine Finset.eq_of_subset_of_card_le Finset.inter_subset_left ?_
    rw [segments.separated.card_inter, card_range]
    exact hc
  funext i
  rw [overlay]
  cases hn : new.get? i with
  | none => rfl
  | some a =>
    have hr : i ∈ new.range := Finset.mem_Ico.2 (Run.range_of_get? hn)
    rw [← hi, Finset.mem_inter, segments.shows.mem_support, Option.isSome_iff_exists] at hr
    obtain ⟨b, hb⟩ := hr.2
    rw [hb, ha i a b hn hb]
    rfl

/-! ## The start of the sequence -/

def contiguousFrom (result : List α) : List (Run α) → List α
  | [] => result
  | run :: runs => if run.offset != result.length then result else contiguousFrom (result ++ run.data) runs

def contiguous (runs : List (Run α)) : List α := contiguousFrom [] runs

theorem contiguous_spec (hs : Separated runs) (hsh : Shows runs content) (hi : i ≤ (contiguous runs).length) :
    content i = (contiguous runs)[i]? := by
  ext a
  rw [hsh]
  cases runs with
  | nil => simp [contiguous, contiguousFrom]
  | cons run rest =>
    have hb : i ≤ run.stop → ¬∃ other ∈ rest, other.get? i = some a := by
      rintro hle ⟨other, ho, hg⟩
      have := (Run.range_of_get? hg).1
      have := hs.lt_of_mem ho
      omega
    rw [exists_mem_cons_iff]
    by_cases hz : run.offset = 0
    · -- there is only the first run to take
      have hd : contiguous (run :: rest) = run.data := by
        rw [contiguous, contiguousFrom, if_neg (by simpa using hz), nil_append]
        cases rest with
        | nil => rfl
        | cons next rest =>
          have hlt := hs.lt_of_mem (mem_cons_self (a := next) (l := rest))
          rw [Run.stop, hz, Nat.zero_add] at hlt
          rw [contiguousFrom, if_pos (bne_iff_ne.2 hlt.ne')]
      rw [hd] at hi ⊢
      rw [or_iff_left (hb (hi.trans (Nat.le_add_left _ _))), Run.get?, hz, if_pos (Nat.zero_le i), Nat.sub_zero]
    · have hn : contiguous (run :: rest) = [] := if_pos (by simpa using hz)
      rw [hn, length_nil, Nat.le_zero] at hi
      rw [or_iff_left (hb (by omega)), hn, Run.get?_of_lt (by omega), getElem?_nil]

end Sparse
