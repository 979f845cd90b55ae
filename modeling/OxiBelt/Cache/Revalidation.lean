import OxiBelt.Http.HeaderMap
import OxiBelt.Lib.Transition

/-!
# Revalidation with a 304 (`cache/revalidation.rs`)

A 304 response renews some fields of the stored headers.  They are merged into a copy of the entry that was taken
before the request to the origin, and written back under the entry's variant key in two sections of the cache's lock.

* `notModified_merged`: the fields of the 304 are taken over exactly if none of the first five is repeated in it.
* `headers_matchBody`: headers and body of a stored response are of one fill in every run in which no other body is
  stored under the key of an entry while that is revalidated.

Keys are without group generations; with cache groups the code takes another path.
-/

namespace Http.HeaderMap

open RustStd List

abbrev Line := { entry : Str × HeaderValue // isHeaderName entry.1 = true }

variable (m : HeaderMap) (line : Line) (name : Str)

def lines : List Line := m.entries.attachWith _ (all_eq_true.1 m.names)

def append : HeaderMap where
  entries := m.entries ++ [line.1]
  names := by rw [all_append, m.names, all_cons, line.2, all_nil]; rfl

/-- `insert`: the line takes the place of all lines with its name. -/
def insert : HeaderMap := (m.remove line.1.1).append line

def valuesOf (lines : List Line) : List HeaderValue :=
  (lines.filter fun line => line.1.1 == name).map (·.1.2)

theorem valuesOf_lines : valuesOf name m.lines = m.getAll name := by
  have hm : m.lines.map Subtype.val = m.entries := attachWith_map_subtype_val _
  rw [getAll, ← hm, filter_map, map_map]
  rfl

theorem valuesOf_cons (line : Line) (lines : List Line) :
    valuesOf name (line :: lines) = (if line.1.1 = name then [line.1.2] else []) ++ valuesOf name lines := by
  rw [valuesOf, filter_cons]
  split
  · next h => rw [if_pos (beq_iff_eq.1 h)]; rfl
  · next h => rw [if_neg fun heq => h (beq_iff_eq.2 heq)]; rfl

theorem getAll_append : (m.append line).getAll name = m.getAll name ++ if line.1.1 = name then [line.1.2] else [] := by
  rw [getAll, append, filter_append, map_append, filter_singleton]
  by_cases h : line.1.1 = name
  · simp [h, getAll]
  · simp [h, beq_eq_false_iff_ne.2 h, getAll]

theorem getAll_insert : (m.insert line).getAll name = if line.1.1 = name then [line.1.2] else m.getAll name := by
  rw [insert, getAll_append, getAll_remove]
  by_cases h : line.1.1 = name
  · simp [h]
  · simp [h, Ne.symm h]

theorem getAll_foldl_append (lines : List Line) (m : HeaderMap) (name : Str) :
    (lines.foldl append m).getAll name = m.getAll name ++ valuesOf name lines := by
  induction lines generalizing m with
  | nil => exact (append_nil _).symm
  | cons line lines ih => rw [foldl_cons, ih, getAll_append, valuesOf_cons, append_assoc]

end Http.HeaderMap

namespace Cache

open RustStd Http Http.HeaderMap ByteString List

/-! ## The merged headers -/

def insertedFields : List Str :=
  ["cache-control", "expires", "etag", "last-modified", "vary"]

def replacedFields : List Str := ["no-vary-search", "repr-digest", "unencoded-digest"]

def insertFields (headers notModified : HeaderMap) : HeaderMap :=
  notModified.lines.foldl (fun headers line => if line.1.1 ∈ insertedFields then headers.insert line else headers)
    headers

/-- `merge_nvs_not_modified_headers` and a round of `merge_digest_not_modified_headers`. -/
def replaceField (notModified headers : HeaderMap) (name : Str) : HeaderMap :=
  if notModified.containsKey name then
    (notModified.lines.filter fun line => line.1.1 == name).foldl append (headers.remove name)
  else headers

def mergeNotModified (headers notModified : HeaderMap) : HeaderMap :=
  replacedFields.foldl (replaceField notModified) (insertFields headers notModified)

section Merge

variable (notModified : HeaderMap) {name : Str}

theorem getAll_insertFields (headers : HeaderMap) (lines : List Line) :
    (lines.foldl (fun headers line => if line.1.1 ∈ insertedFields then headers.insert line else headers)
        headers).getAll name =
      if name ∈ insertedFields then (valuesOf name lines).getLast?.elim (headers.getAll name) ([·])
      else headers.getAll name := by
  induction lines generalizing headers with
  | nil => exact (ite_self _).symm
  | cons line lines ih =>
    rw [foldl_cons, ih, valuesOf_cons]
    by_cases h : line.1.1 = name
    · subst h
      by_cases hm : line.1.1 ∈ insertedFields
      · rw [if_pos hm, if_pos hm, if_pos hm, getAll_insert, if_pos rfl, if_pos rfl, singleton_append, getLast?_cons]
        cases (valuesOf line.1.1 lines).getLast? <;> rfl
      · rw [if_neg hm, if_neg hm, if_neg hm]
    have hs : (if line.1.1 ∈ insertedFields then headers.insert line else headers).getAll name =
        headers.getAll name := by
      split
      · rw [getAll_insert, if_neg h]
      · rfl
    rw [hs, if_neg h, nil_append]

theorem valuesOf_filter (other : Str) (lines : List Line) :
    valuesOf name (lines.filter fun line => line.1.1 == other) = if name = other then valuesOf name lines else [] := by
  rw [valuesOf, filter_filter]
  split
  · next h =>
    subst h
    simp [valuesOf]
  next h =>
  rw [map_eq_nil_iff, filter_eq_nil_iff]
  rintro line - hb
  simp only [Bool.and_eq_true, beq_iff_eq] at hb
  exact h (hb.1.symm.trans hb.2)

theorem getAll_replaceField (headers : HeaderMap) (other : Str) : (replaceField notModified headers other).getAll name =
      if name = other ∧ notModified.getAll other ≠ [] then notModified.getAll other else headers.getAll name := by
  rw [replaceField]
  by_cases hk : notModified.containsKey other = true
  · rw [if_pos hk, getAll_foldl_append, getAll_remove, valuesOf_filter]
    by_cases hn : name = other
    · subst hn
      rw [if_pos (beq_self_eq_true _), if_pos rfl, valuesOf_lines, if_pos ⟨rfl, (containsKey_iff _ _).1 hk⟩]
      rfl
    · rw [if_neg fun h => hn (beq_iff_eq.1 h), if_neg hn, append_nil, if_neg fun h => hn h.1]
  · rw [if_neg hk, if_neg fun h => hk ((containsKey_iff _ _).2 h.2)]

theorem getAll_foldl_replaceField (names : List Str) (headers : HeaderMap) :
    (names.foldl (replaceField notModified) headers).getAll name =
      if name ∈ names ∧ notModified.getAll name ≠ [] then notModified.getAll name else headers.getAll name := by
  induction names generalizing headers with
  | nil => rw [if_neg fun h => not_mem_nil h.1]; rfl
  | cons other names ih =>
    rw [foldl_cons, ih, getAll_replaceField]
    simp only [mem_cons]
    by_cases h : name = other
    · subst h
      by_cases he : notModified.getAll name = []
      · simp [he]
      · simp [he]
    · simp [h]

end Merge

/-- A field is merged as it should be, unless it is one of the first five and repeated. -/
theorem getAll_mergeNotModified (headers notModified : HeaderMap) (name : Str) :
    (mergeNotModified headers notModified).getAll name =
      (if name ∈ insertedFields ++ replacedFields ∧ notModified.getAll name ≠ [] then notModified.getAll name
      else headers.getAll name) ↔ (name ∈ insertedFields → (notModified.getAll name).length ≤ 1) := by
  rw [mergeNotModified, getAll_foldl_replaceField, insertFields, getAll_insertFields, valuesOf_lines]
  simp only [mem_append]
  by_cases hr : name ∈ replacedFields
  · have hi : name ∉ insertedFields := by
      intro hi
      exact absurd hr ((by decide : ∀ name ∈ insertedFields, name ∉ replacedFields) name hi)
    simp [hr, hi]
  by_cases hi : name ∈ insertedFields
  · simp only [hr, hi, false_and, true_or, true_and, if_false, if_true, forall_true_left]
    rcases notModified.getAll name with _ | ⟨value, _ | ⟨other, values⟩⟩
    · simp
    · simp
    · -- one line of two or more is kept
      simp [getLast?_cons]
  · simp [hr, hi]

/-- **The merged headers.**  Every field of the eight that the 304 has is as in the 304 and all other fields are as they
were if and only if none of the first five fields is repeated in the 304. -/
theorem notModified_merged (headers notModified : HeaderMap) :
    (∀ name, (mergeNotModified headers notModified).getAll name =
      if name ∈ insertedFields ++ replacedFields ∧ notModified.getAll name ≠ [] then notModified.getAll name
      else headers.getAll name) ↔ ∀ name ∈ insertedFields, (notModified.getAll name).length ≤ 1 :=
  forall_congr' (getAll_mergeNotModified headers notModified)

def cacheControlLines (values : List HeaderValue) : HeaderMap where
  entries := values.map fun value => ("cache-control", value)
  names := by
    rw [all_map, all_eq_true]
    exact fun _ _ => (by decide : isHeaderName "cache-control" = true)

def noCache : HeaderValue := .ofText "no-cache" (by decide)

def maxAge : HeaderValue := .ofText "max-age=60" (by decide)

/-- Of two Cache-Control lines the first, `no-cache`, is lost. -/
theorem notModified_repeated :
    (mergeNotModified (cacheControlLines [maxAge]) (cacheControlLines [noCache, maxAge])).getAll
      "cache-control" = [maxAge] := by
  decide +kernel

/-! ## Revalidations and fills -/

/-- A stored response.  The last two fields tell from which fills its body and its headers are; the code does not
keep them. -/
structure StoredResponse where
  headers : HeaderMap
  body : Bytes
  bodyFill : Nat
  headerFill : Nat
  deriving DecidableEq

/-- How far a revalidation has come: `insert_prepared` or `update_prepared_not_modified` is next after the first
section of `update_from_not_modified`. -/
inductive Phase
  | waiting
  | replacing (key : Str) (headers : HeaderMap)
  | updating (headers : HeaderMap)
  | done
  deriving DecidableEq

/-- A revalidation of an entry that was found under a key. -/
structure Revalidation where
  key : Str
  cached : StoredResponse
  phase : Phase
  deriving DecidableEq

structure Store where
  entries : Str → Option StoredResponse
  fills : Nat
  revalidations : List Revalidation

namespace Store

def empty : Store := ⟨fun _ => none, 0, []⟩

variable (store : Store)

def put (key : Str) (entry : Option StoredResponse) : Store :=
  { store with entries := Function.update store.entries key entry }

def fill (key : Str) (headers : HeaderMap) (body : Bytes) : Store :=
  { store.put key (some ⟨headers, body, store.fills, store.fills⟩) with fills := store.fills + 1 }

def find (key : Str) : Store :=
  match store.entries key with
  | none => store
  | some cached => { store with revalidations := store.revalidations ++ [⟨key, cached, .waiting⟩] }

def setPhase (index : Nat) (phase : Phase) : Store :=
  { store with revalidations := store.revalidations.modify index fun r => { r with phase } }

/-- The first section of `update_from_not_modified`, when the 304 has arrived.  `newKey` is the variant key of the
merged headers, or nothing if they are not cacheable or the generation is over. -/
def notModified (index : Nat) (update : HeaderMap) (newKey : HeaderMap → Option Str) : Store :=
  match store.revalidations[index]? with
  | some ⟨key, cached, .waiting⟩ =>
    let headers := mergeNotModified cached.headers update
    match newKey headers with
    | none => store.setPhase index .done
    | some newKey =>
      if newKey ≠ key then (store.put key none).setPhase index (.replacing newKey headers)
      else if store.entries key = none then store.setPhase index (.replacing key headers)
      else store.setPhase index (.updating headers)
  | _ => store

/-- The second section: `insert_prepared` of the copy, or `update_prepared_not_modified` of what is stored by now. -/
def publish (index : Nat) : Store :=
  match store.revalidations[index]? with
  | some ⟨_, cached, .replacing key headers⟩ =>
    (store.put key (some { cached with headers })).setPhase index .done
  | some ⟨key, cached, .updating headers⟩ =>
    match store.entries key with
    | none => store.setPhase index .done
    | some stored =>
      (store.put key (some { stored with headers, headerFill := cached.headerFill })).setPhase index .done
  | _ => store

/-- A section that gives up, because the generation is over, the entry is too large or a file cannot be written. -/
def giveUp (index : Nat) : Store := store.setPhase index .done

inductive Action
  | fill (key : Str) (headers : HeaderMap) (body : Bytes)
  | remove (key : Str)
  | find (key : Str)
  | notModified (index : Nat) (update : HeaderMap) (newKey : HeaderMap → Option Str)
  | publish (index : Nat)
  | giveUp (index : Nat)

def step : Action → Store
  | .fill key headers body => store.fill key headers body
  | .remove key => store.put key none
  | .find key => store.find key
  | .notModified index update newKey => store.notModified index update newKey
  | .publish index => store.publish index
  | .giveUp index => store.giveUp index

/-- No revalidation of the key is under way, except for one of an entry with the body of this fill. -/
def Undisturbed (key : Str) (fill : Nat) : Prop :=
  ∀ r ∈ store.revalidations, r.phase ≠ .done → r.key = key → r.cached.bodyFill = fill

/-- The action stores no other body under the key of an entry that is revalidated. -/
def Calm : Action → Prop
  | .fill key _ _ => store.Undisturbed key store.fills
  | .publish index => ∀ r ∈ store.revalidations[index]?, ∀ key headers, r.phase = .replacing key headers →
      store.Undisturbed key r.cached.bodyFill
  | _ => True

/-- Headers and bodies belong together, in the store and in the copies; an entry that is revalidated still has the
body of its copy, unless it is gone. -/
structure Matched : Prop where
  stored : ∀ key entry, store.entries key = some entry → entry.headerFill = entry.bodyFill
  copied : ∀ r ∈ store.revalidations, r.cached.headerFill = r.cached.bodyFill
  same : ∀ key entry, store.entries key = some entry → store.Undisturbed key entry.bodyFill

variable {store}

theorem Matched.put {key : Str} {entry : Option StoredResponse} (h : store.Matched)
    (hm : ∀ e ∈ entry, e.headerFill = e.bodyFill ∧ store.Undisturbed key e.bodyFill) :
    (store.put key entry).Matched := by
  have hs : ∀ key' e, (store.put key entry).entries key' = some e →
      e.headerFill = e.bodyFill ∧ store.Undisturbed key' e.bodyFill := by
    intro key' e he
    simp only [Store.put, Function.update_apply] at he
    split at he
    · next hk => exact hk ▸ hm e he
    · exact ⟨h.stored key' e he, h.same key' e he⟩
  exact ⟨fun key' e he => (hs key' e he).1, h.copied, fun key' e he => (hs key' e he).2⟩

theorem Matched.setPhase {index : Nat} {phase : Phase} (h : store.Matched)
    (hps : ∀ r ∈ store.revalidations[index]?, phase ≠ .done → r.phase ≠ .done) :
    (store.setPhase index phase).Matched := by
  have hm : ∀ r ∈ (store.setPhase index phase).revalidations, ∃ r' ∈ store.revalidations,
      r.key = r'.key ∧ r.cached = r'.cached ∧ (r.phase ≠ .done → r'.phase ≠ .done) := by
    intro r hr
    obtain ⟨i, hi⟩ := List.mem_iff_getElem?.1 hr
    rw [Store.setPhase, getElem?_modify, Option.map_eq_map, Option.map_eq_some_iff] at hi
    obtain ⟨r', hr', rfl⟩ := hi
    refine ⟨r', mem_of_getElem? hr', ?_⟩
    split
    · next heq => exact ⟨rfl, rfl, hps r' (by rwa [heq])⟩
    · exact ⟨rfl, rfl, id⟩
  refine ⟨h.stored, fun r hr => ?_, fun key entry he r hr hp hk => ?_⟩
  · obtain ⟨r', hr', -, hc, -⟩ := hm r hr
    rw [hc]
    exact h.copied r' hr'
  obtain ⟨r', hr', hky, hc, hph⟩ := hm r hr
  rw [hc]
  exact h.same key entry he r' hr' (hph hp) (hky ▸ hk)

theorem Matched.step (h : store.Matched) {action : Action} (hc : store.Calm action) : (store.step action).Matched := by
  have hn : ∀ key, (store.put key none).Matched := fun key => h.put fun e he => by cases he
  cases action with
  | fill key headers body =>
    have hpt : (store.put key (some ⟨headers, body, store.fills, store.fills⟩)).Matched := by
      refine h.put fun e he => ?_
      cases he
      exact ⟨rfl, hc⟩
    exact ⟨hpt.stored, hpt.copied, hpt.same⟩
  | remove key => exact hn key
  | find key =>
    rw [Store.step, Store.find]
    cases he : store.entries key with
    | none => exact h
    | some cached =>
      have hm : ∀ r ∈ store.revalidations ++ [⟨key, cached, .waiting⟩],
          r ∈ store.revalidations ∨ r = ⟨key, cached, .waiting⟩ := by simp
      refine ⟨h.stored, fun r hr => ?_, fun key' entry he' r hr hp hk => ?_⟩
      · rcases hm r hr with hr | rfl
        · exact h.copied r hr
        · exact h.stored key cached he
      rcases hm r hr with hr | rfl
      · exact h.same key' entry he' r hr hp hk
      cases hk
      cases he.symm.trans he'
      rfl
  | notModified index update newKey =>
    rw [Store.step, Store.notModified]
    split
    · next key cached hr =>
      have hw : ∀ r ∈ store.revalidations[index]?, ∀ phase : Phase, phase ≠ .done → r.phase ≠ .done := by
        intro r hr' _ _
        cases hr.symm.trans hr'
        simp
      dsimp only
      split
      · exact h.setPhase fun r hr => hw r hr _
      split
      · exact (hn key).setPhase fun r hr => hw r hr _
      split
      · exact h.setPhase fun r hr => hw r hr _
      · exact h.setPhase fun r hr => hw r hr _
    · exact h
  | publish index =>
    rw [Store.step, Store.publish]
    split
    · next key cached newKey headers hr =>
      refine (h.put fun e he => ?_).setPhase fun _ _ hd => absurd rfl hd
      cases he
      exact ⟨h.copied _ (mem_of_getElem? hr), hc _ hr newKey headers rfl⟩
    · next key cached headers hr =>
      split
      · exact h.setPhase fun _ _ hd => absurd rfl hd
      next stored hs =>
      -- the entry has the body of the copy still, and the copy's headers are of the same fill
      have hsm := h.same key stored hs _ (mem_of_getElem? hr) (by simp) rfl
      refine (h.put fun e he => ?_).setPhase fun _ _ hd => absurd rfl hd
      cases he
      exact ⟨(h.copied _ (mem_of_getElem? hr)).trans hsm, h.same key stored hs⟩
    · exact h
  | giveUp index => exact h.setPhase fun _ _ hd => absurd rfl hd

end Store

/-- **Headers and body of a stored response are of one fill**, in every run in which no other body is stored under
the key of an entry while that is revalidated. -/
theorem headers_matchBody (actions : List Store.Action)
    (hcalm : Transition.Along Store.step Store.Calm Store.empty actions) (key : Str) (entry : StoredResponse)
    (hentry : (Transition.run Store.step Store.empty actions).entries key = some entry) :
    entry.headerFill = entry.bodyFill := by
  have he : Store.empty.Matched := ⟨nofun, nofun, nofun⟩
  exact (Transition.run_invariant (fun _ _ h hc => h.step hc) he hcalm).stored key entry hentry

/-! ### A refill during a revalidation -/

/-- A page is stored and revalidated; the last steps are the two sections of the 304. -/
def revalidated (between : List Store.Action) : List Store.Action :=
  [.fill "page" (cacheControlLines [noCache]) [1], .find "page"] ++ between ++
    [.notModified 0 (cacheControlLines [maxAge]) fun _ => some "page", .publish 0]

theorem headers_matchBody_revalidated :
    ∃ entry, (Transition.run Store.step Store.empty (revalidated [])).entries "page" = some entry ∧
      entry.headers = cacheControlLines [maxAge] ∧ entry.headerFill = entry.bodyFill := by
  refine ⟨⟨cacheControlLines [maxAge], [1], 0, 0⟩, by decide +kernel, rfl, ?_⟩
  refine headers_matchBody (revalidated []) ⟨?_, trivial, trivial, ?_, trivial⟩ "page" _ (by decide +kernel)
  · exact fun r hr => by cases hr
  intro r hr key headers hp
  cases hr
  cases hp

/-- Another page is stored before the 304 arrives, and gets the headers of the old one. -/
theorem headers_ofOtherFill : (Transition.run Store.step Store.empty
      (revalidated [.fill "page" (cacheControlLines []) [2]])).entries "page" =
      some ⟨cacheControlLines [maxAge], [2], 1, 0⟩ := by
  decide +kernel

end Cache
