import OxiBelt.Lib.Layout

/-!
# Codecs with one encoding for each value

An encoder may refuse a value; a decoder takes a value off the front of a byte string.  `Reads Q parts p` says that
the reader `p` accepts exactly the values with `Q` that can be written, and only in the way in which they are
written: it is both round trips at once.

A reader in `do` form is taken apart with `Reads.field`, one field after the other, in the order in which the encoder
writes its parts; `Reads.pure` closes the record.  `readAll` is the loop that reads items until nothing is left,
`readCount` the loop with a given number of rounds, and `whole` a reader that has to use up its input.
-/

namespace Codec

open ByteString List

variable {ε α β σ : Type}

/-! ## Writing -/

/-- What is written part by part, or the first error. -/
def concat : List (Except ε Bytes) → Except ε Bytes
  | [] => .ok []
  | part :: parts =>
    match part with
    | .error e => .error e
    | .ok head =>
      match concat parts with
      | .error e => .error e
      | .ok tail => .ok (head ++ tail)

variable {bytes rest : Bytes} {width : Nat}

theorem concat_cons_eq {part : Except ε Bytes} {parts : List (Except ε Bytes)} : concat (part :: parts) = .ok bytes ↔
      ∃ head tail, part = .ok head ∧ concat parts = .ok tail ∧ bytes = head ++ tail := by
  cases part with
  | error e => simp [concat]
  | ok head =>
    cases hp : concat parts with
    | error e => simp [concat, hp]
    | ok tail => simp [concat, hp, eq_comm]

theorem concat_append_eq {parts parts' : List (Except ε Bytes)} : concat (parts ++ parts') = .ok bytes ↔
      ∃ head tail, concat parts = .ok head ∧ concat parts' = .ok tail ∧ bytes = head ++ tail := by
  induction parts generalizing bytes with
  | nil => simp [concat]
  | cons part parts ih =>
    rw [cons_append, concat_cons_eq]
    constructor
    · rintro ⟨head, _, hp, hr, rfl⟩
      obtain ⟨mid, tail, hm, ht, rfl⟩ := ih.1 hr
      exact ⟨head ++ mid, tail, concat_cons_eq.2 ⟨head, mid, hp, hm, rfl⟩, ht, by simp⟩
    rintro ⟨_, tail, hf, ht, rfl⟩
    obtain ⟨head, mid, hp, hm, rfl⟩ := concat_cons_eq.1 hf
    exact ⟨head, mid ++ tail, hp, ih.2 ⟨mid, tail, hm, ht, rfl⟩, by simp⟩

theorem concat_singleton (part : Except ε Bytes) : concat [part] = part := by
  cases part <;> simp [concat]

/-! ## Reading -/

abbrev Reader (ε α : Type) := StateT Bytes (Except ε) α

variable {p : Reader ε α} {f : α → Reader ε β} {encode : α → Except ε Bytes} {Q : α → Prop} {e : ε}

theorem Reader.bind_eq {b : β} :
    (p >>= f) bytes = .ok (b, rest) ↔ ∃ a mid, p bytes = .ok (a, mid) ∧ f a mid = .ok (b, rest) := by
  show (p bytes >>= fun x => f x.1 x.2) = _ ↔ _
  cases p bytes with
  | error e => simp [bind, Except.bind]
  | ok x => simp [bind, Except.bind, Prod.ext_iff]

/-- The reader accepts the values with `Q`, each written as the concatenation of its parts, and nothing else. -/
def Reads (Q : α → Prop) (parts : α → List (Except ε Bytes)) (p : Reader ε α) : Prop :=
  ∀ bytes a rest, p bytes = .ok (a, rest) ↔ Q a ∧ ∃ head, concat (parts a) = .ok head ∧ bytes = head ++ rest

abbrev ReadsBack (encode : α → Except ε Bytes) (p : Reader ε α) : Prop := Reads (fun _ => True) (fun a => [encode a]) p

theorem Reads.eq (h : Reads Q (fun a => [encode a]) p) {a : α} :
    p bytes = .ok (a, rest) ↔ Q a ∧ ∃ head, encode a = .ok head ∧ bytes = head ++ rest := by
  rw [h bytes a rest]
  simp only [concat_singleton]

theorem Reads.of_eq
    (h : ∀ bytes a rest, p bytes = .ok (a, rest) ↔ Q a ∧ ∃ head, encode a = .ok head ∧ bytes = head ++ rest) :
    Reads Q (fun a => [encode a]) p := by
  intro bytes a rest
  rw [h bytes a rest]
  simp only [concat_singleton]

theorem ReadsBack.eq (h : ReadsBack encode p) {a : α} :
    p bytes = .ok (a, rest) ↔ ∃ head, encode a = .ok head ∧ bytes = head ++ rest := by
  rw [Reads.eq h, true_and]

namespace Reads

variable {Q : β → Prop} {P : α → Prop} {parts : α → List (Except ε Bytes)} {parts' : β → List (Except ε Bytes)}

theorem pure {value : β} (hv : ∀ b, Q b ↔ b = value) : Reads Q (fun _ => []) (pure value : Reader ε β) := by
  intro bytes b rest
  show Except.ok (value, bytes) = Except.ok (b, rest) ↔ _
  rw [hv]
  simp only [concat, Except.ok.injEq, Prod.mk.injEq]
  constructor
  · rintro ⟨rfl, rfl⟩
    exact ⟨rfl, [], rfl, rfl⟩
  · rintro ⟨rfl, head, rfl, hb⟩
    exact ⟨rfl, hb⟩

theorem bind (field : β → α) (hp : Reads P parts p)
    (hf : ∀ a, P a → Reads (fun b => Q b ∧ field b = a) parts' (f a)) (hfl : ∀ b, Q b → P (field b)) :
    Reads Q (fun b => parts (field b) ++ parts' b) (p >>= f) := by
  intro bytes b rest
  rw [Reader.bind_eq]
  constructor
  · rintro ⟨a, mid, ha, hb⟩
    obtain ⟨hP, head, hh, rfl⟩ := (hp _ _ _).1 ha
    obtain ⟨⟨hQ, rfl⟩, tail, ht, rfl⟩ := (hf _ hP _ _ _).1 hb
    exact ⟨hQ, head ++ tail, concat_append_eq.2 ⟨head, tail, hh, ht, rfl⟩, by simp⟩
  · rintro ⟨hQ, _, hbt, rfl⟩
    obtain ⟨head, tail, hh, ht, rfl⟩ := concat_append_eq.1 hbt
    refine ⟨field b, tail ++ rest, (hp _ _ _).2 ⟨hfl b hQ, head, hh, by simp⟩, ?_⟩
    exact (hf _ (hfl b hQ) _ _ _).2 ⟨⟨hQ, rfl⟩, tail, ht, rfl⟩

/-- The same for a field of which nothing is asked. -/
theorem field (field : β → α) (hp : ReadsBack encode p) (hf : ∀ a, Reads (fun b => Q b ∧ field b = a) parts' (f a)) :
    Reads Q (fun b => [encode (field b)] ++ parts' b) (p >>= f) :=
  bind field hp (fun a _ => hf a) fun _ _ => trivial

/-- A check that no value fails that may still be read. -/
theorem check {refused : Prop} [Decidable refused] {p : Reader ε β} (hr : ∀ b, Q b → ¬refused)
    (hp : ¬refused → Reads Q parts' p) : Reads Q parts' (if refused then throw e else p) := by
  split
  · next h =>
    intro bytes b rest
    constructor
    · intro ht
      cases ht
    · rintro ⟨hQ, -⟩
      exact absurd h (hr b hQ)
  · next h => exact hp h

theorem congr {Q' : β → Prop} {parts : β → List (Except ε Bytes)} {p : Reader ε β} (hp : Reads Q' parts' p)
    (hv : ∀ b head, Q b ∧ concat (parts b) = .ok head ↔ Q' b ∧ concat (parts' b) = .ok head) :
    Reads Q parts p := by
  intro bytes b rest
  rw [hp bytes b rest]
  constructor
  · rintro ⟨hQ, head, hh, hb⟩
    obtain ⟨hQ, hh⟩ := (hv b head).2 ⟨hQ, hh⟩
    exact ⟨hQ, head, hh, hb⟩
  rintro ⟨hQ, head, hh, hb⟩
  obtain ⟨hQ, hh⟩ := (hv b head).1 ⟨hQ, hh⟩
  exact ⟨hQ, head, hh, hb⟩

theorem record {p : Reader ε β} (hp : Reads Q parts' p) : Reads Q (fun b => [concat (parts' b)]) p :=
  hp.congr fun _ _ => by rw [concat_singleton]

/-- A record that its encoder writes after a check. -/
theorem checked {refused : β → Prop} [DecidablePred refused] {encode : β → Except ε Bytes} {p : Reader ε β}
    (hp : Reads (fun b => Q b ∧ ¬refused b) (fun b => [encode b]) p) :
    Reads Q (fun b => [if refused b then .error e else encode b]) p :=
  hp.congr fun b head => by
    rw [concat_singleton, concat_singleton]
    by_cases h : refused b
    · simp [h]
    · simp [h]

/-- A value of another form. -/
theorem map {f : α → β} {g : β → α} (hp : Reads P parts p) (hfg : ∀ a, P a → Q (f a) ∧ g (f a) = a)
    (hgf : ∀ b, Q b → P (g b) ∧ f (g b) = b) : Reads Q (fun b => parts (g b)) (f <$> p) := by
  intro bytes b rest
  rw [map_eq_pure_bind, Reader.bind_eq]
  constructor
  · rintro ⟨a, mid, ha, hb⟩
    cases hb
    obtain ⟨hP, head, hh, hby⟩ := (hp _ _ _).1 ha
    obtain ⟨hQ, hg⟩ := hfg a hP
    exact ⟨hQ, head, (congrArg (concat <| parts ·) hg).trans hh, hby⟩
  · rintro ⟨hQ, head, hh, hby⟩
    obtain ⟨hP, hg⟩ := hgf b hQ
    refine ⟨g b, rest, (hp _ _ _).2 ⟨hP, head, hh, hby⟩, ?_⟩
    show Except.ok (f (g b), rest) = _
    rw [hg]

end Reads

/-- One form of a value. -/
theorem ReadsBack.map_eq {f : α → β} (hp : ReadsBack encode p) {b : β} :
    (f <$> p) bytes = .ok (b, rest) ↔ ∃ a, b = f a ∧ ∃ head, encode a = .ok head ∧ bytes = head ++ rest := by
  rw [map_eq_pure_bind, Reader.bind_eq]
  constructor
  · rintro ⟨a, mid, ha, hb⟩
    cases hb
    exact ⟨a, rfl, hp.eq.1 ha⟩
  · rintro ⟨a, rfl, hh⟩
    exact ⟨a, rest, hp.eq.2 hh, rfl⟩

/-- A form with two fields. -/
theorem ReadsBack.map₂_eq {γ : Type} {f : α → β → γ} {encode' : β → Except ε Bytes}
    {q : Reader ε β} (hp : ReadsBack encode p) (hq : ReadsBack encode' q) {c : γ} :
    (p >>= fun a => f a <$> q) bytes = .ok (c, rest) ↔
      ∃ a b, c = f a b ∧ ∃ head, concat [encode a, encode' b] = .ok head ∧ bytes = head ++ rest := by
  rw [Reader.bind_eq]
  constructor
  · rintro ⟨a, mid, ha, hc⟩
    obtain ⟨head, hh, rfl⟩ := hp.eq.1 ha
    obtain ⟨b, rfl, tail, ht, rfl⟩ := hq.map_eq.1 hc
    refine ⟨a, b, rfl, head ++ tail, ?_, by simp⟩
    exact concat_cons_eq.2 ⟨head, tail, hh, (concat_singleton _).trans ht, rfl⟩
  · rintro ⟨a, b, rfl, _, hb, rfl⟩
    obtain ⟨head, tail, hh, ht, rfl⟩ := concat_cons_eq.1 hb
    rw [concat_singleton] at ht
    exact ⟨a, tail ++ rest, hp.eq.2 ⟨head, hh, by simp⟩, hq.map_eq.2 ⟨b, rfl, tail, ht, rfl⟩⟩

/-! ## Bytes and numbers -/

/-- The next `count` bytes. -/
def take (e : ε) (count : Nat) : Reader ε Bytes := fun bytes =>
  if count ≤ bytes.length then .ok (bytes.take count, bytes.drop count) else .error e

theorem take_reads (e : ε) (count : Nat) : Reads (·.length = count) (fun bytes => [.ok bytes]) (take e count) := by
  intro bytes value rest
  rw [take]
  constructor
  · intro h
    split at h
    · next hl =>
      cases h
      refine ⟨?_, bytes.take count, concat_singleton _, (take_append_drop _ _).symm⟩
      show (bytes.take count).length = count
      rw [length_take]
      omega
    · contradiction
  · rintro ⟨hv, head, hh, rfl⟩
    cases (concat_singleton _).symm.trans hh
    rw [if_pos (by rw [length_append]; omega), take_left' hv, drop_left' hv]

def natural (e : ε) (width : Nat) : Reader ε Nat := beValue <$> take e width

theorem natural_reads (e : ε) (width : Nat) :
    Reads (· < 256 ^ width) (fun n => [.ok (beBytes width n)]) (natural e width) := by
  refine (take_reads e width).map (fun value hl => ?_) fun n hn => ⟨beBytes_length _ _, beValue_beBytes hn⟩
  subst hl
  exact ⟨beValue_lt value, beBytes_beValue value⟩

theorem take_length {count : Nat} {bytes value rest : Bytes} (h : take e count bytes = .ok (value, rest)) :
    bytes.length = count + rest.length := by
  obtain ⟨hl, head, hh, rfl⟩ := (take_reads e count bytes value rest).1 h
  cases (concat_singleton _).symm.trans hh
  rw [length_append, hl]

theorem natural_length {n : Nat} (h : natural e width bytes = .ok (n, rest)) : bytes.length = width + rest.length := by
  obtain ⟨-, head, hh, rfl⟩ := (natural_reads e width bytes n rest).1 h
  cases (concat_singleton _).symm.trans hh
  rw [length_append, beBytes_length]

/-! ## Vectors -/

/-- A byte string behind its length, which has to lie between two bounds. -/
def vector (short outside : ε) (width minimum maximum : Nat) : Reader ε Bytes := do
  let length ← natural short width
  if maximum < minimum || length < minimum || maximum < length then throw outside else take short length

def pushVector (outside : ε) (width minimum : Nat) (bytes : Bytes) : Except ε Bytes :=
  if bytes.length < minimum || 256 ^ width - 1 < bytes.length then .error outside else .ok (field width bytes)

theorem vector_reads (short outside : ε) {minimum maximum : Nat} (hm : maximum < 256 ^ width) :
    Reads (fun bytes => minimum ≤ bytes.length ∧ bytes.length ≤ maximum) (fun bytes => [.ok (field width bytes)])
      (vector short outside width minimum maximum) := by
  have hl : Reads (fun bytes : Bytes => minimum ≤ bytes.length ∧ bytes.length ≤ maximum)
      (fun bytes => [.ok (beBytes width bytes.length)] ++ [.ok bytes])
      (vector short outside width minimum maximum) := by
    refine Reads.bind List.length (natural_reads short width) (fun length _ => ?_) (fun bytes h => by omega)
    refine Reads.check (fun bytes h => ?_) fun hb => ?_
    · obtain ⟨hby, rfl⟩ := h
      simp only [Bool.or_eq_true, decide_eq_true_eq]
      omega
    simp only [Bool.or_eq_true, decide_eq_true_eq] at hb
    refine (take_reads short length).congr fun bytes head => ?_
    constructor
    · rintro ⟨⟨-, hl⟩, hh⟩
      exact ⟨hl, hh⟩
    rintro ⟨hl, hh⟩
    have hl : bytes.length = length := hl
    exact ⟨⟨by omega, hl⟩, hh⟩
  refine hl.congr fun bytes head => ?_
  rw [concat_singleton, concat_append_eq]
  simp [concat_singleton, field, eq_comm]

theorem pushVector_eq {outside : ε} {minimum : Nat} {head : Bytes} : pushVector outside width minimum bytes = .ok head ↔
      (minimum ≤ bytes.length ∧ bytes.length ≤ 256 ^ width - 1) ∧ head = field width bytes := by
  unfold pushVector
  split
  · next h =>
    simp only [Bool.or_eq_true, decide_eq_true_eq] at h
    constructor
    · intro hf
      contradiction
    · rintro ⟨hb, -⟩
      omega
  · next h =>
    simp only [Bool.or_eq_true, decide_eq_true_eq] at h
    rw [Except.ok.injEq, eq_comm]
    constructor
    · intro hh
      exact ⟨by omega, hh⟩
    · exact And.right

theorem pushVector_ne_nil {outside : ε} {minimum : Nat} (hw : 0 < width) :
    pushVector outside width minimum bytes ≠ .ok [] := by
  intro h
  have hf := congrArg List.length (pushVector_eq.1 h).2
  simp only [field, length_append, beBytes_length, length_nil] at hf
  omega

/-- A vector with the largest bound is what is pushed. -/
theorem vector_readsBack (short outside refused : ε) (width minimum : Nat) :
    ReadsBack (pushVector refused width minimum) (vector short outside width minimum (256 ^ width - 1)) := by
  have hp : 0 < 256 ^ width := Nat.pow_pos (by omega)
  refine (vector_reads short outside (by omega)).congr fun bytes head => ?_
  rw [concat_singleton, concat_singleton, pushVector_eq, Except.ok.injEq, true_and, eq_comm]

/-! ## Loops -/

/-- Items until nothing is left.  The state says what the next item may be; an item takes at least one byte. -/
def readAll (item : σ → Reader ε α) (next : σ → α → σ)
    (hprogress : ∀ s bytes a rest, item s bytes = .ok (a, rest) → rest.length < bytes.length)
    (s : σ) (bytes : Bytes) : Except ε (List α) :=
  if bytes.isEmpty then .ok []
  else
    match _hread : item s bytes with
    | .error e => .error e
    | .ok (a, rest) =>
      match readAll item next hprogress (next s a) rest with
      | .error e => .error e
      | .ok as => .ok (a :: as)
termination_by bytes.length
decreasing_by exact hprogress s bytes a rest _hread

def writeAll (item : σ → α → Except ε Bytes) (next : σ → α → σ) : σ → List α → List (Except ε Bytes)
  | _, [] => []
  | s, a :: as => item s a :: writeAll item next (next s a) as

variable {item : σ → Reader ε α}

theorem readAll_reads {next : σ → α → σ}
    {hp : ∀ s bytes a rest, item s bytes = .ok (a, rest) → rest.length < bytes.length}
    {encode : σ → α → Except ε Bytes} (hi : ∀ s, Reads Q (fun a => [encode s a]) (item s)) {s : σ} {as : List α} :
    readAll item next hp s bytes = .ok as ↔
      (∀ a ∈ as, Q a) ∧ concat (writeAll encode next s as) = .ok bytes := by
  induction hl : bytes.length using Nat.strong_induction_on generalizing s bytes as with
  | _ length ih =>
    subst hl
    rw [readAll]
    split
    · next he =>
      rw [List.isEmpty_iff.1 he]
      cases as with
      | nil => simp [writeAll, concat]
      | cons a as =>
        constructor
        · intro h
          cases h
        rintro ⟨hQ, h⟩
        -- An item would take a byte.
        obtain ⟨head, tail, hh, -, hn⟩ := concat_cons_eq.1 h
        obtain ⟨rfl, rfl⟩ := append_eq_nil_iff.1 hn.symm
        have hr := (hi s).eq.2 ⟨hQ a mem_cons_self, [], hh, (append_nil []).symm⟩
        exact absurd (hp _ _ _ _ hr) (by simp)
    · next he =>
      constructor
      · intro h
        split at h
        · contradiction
        next a rest hr =>
        split at h
        · contradiction
        next as' has =>
        cases h
        obtain ⟨hQ, head, hh, rfl⟩ := (hi s).eq.1 hr
        obtain ⟨hQs, hrc⟩ := (ih _ (hp _ _ _ _ hr) rfl).1 has
        exact ⟨forall_mem_cons.2 ⟨hQ, hQs⟩, concat_cons_eq.2 ⟨head, rest, hh, hrc, rfl⟩⟩
      · rintro ⟨hQ, h⟩
        cases as with
        | nil =>
          cases h
          simp at he
        | cons a as =>
          obtain ⟨hQ, hQs⟩ := forall_mem_cons.1 hQ
          obtain ⟨head, rest, hh, hrs, rfl⟩ := concat_cons_eq.1 h
          have hr : item s (head ++ rest) = .ok (a, rest) := (hi s).eq.2 ⟨hQ, head, hh, rfl⟩
          have hrc := (ih _ (hp _ _ _ _ hr) rfl).2 ⟨hQs, hrs⟩
          split
          · next her => simp [hr] at her
          next a' rest' hr' =>
          rw [hr] at hr'
          cases hr'
          rw [hrc]

theorem readAll_eq {next : σ → α → σ} {hp : ∀ s bytes a rest, item s bytes = .ok (a, rest) → rest.length < bytes.length}
    {encode : σ → α → Except ε Bytes} (hi : ∀ s, ReadsBack (encode s) (item s)) {s : σ} {as : List α} :
    readAll item next hp s bytes = .ok as ↔ concat (writeAll encode next s as) = .ok bytes := by
  rw [readAll_reads hi]
  exact and_iff_right fun _ _ => trivial

/-- Readers of what is never empty make progress. -/
theorem Reads.progress {encode : σ → α → Except ε Bytes}
    (hi : ∀ s, Reads Q (fun a => [encode s a]) (item s)) (he : ∀ s a, encode s a ≠ .ok []) (s : σ)
    (bytes : Bytes) (a : α) (rest : Bytes) (h : item s bytes = .ok (a, rest)) : rest.length < bytes.length := by
  obtain ⟨-, head, hh, rfl⟩ := (hi s).eq.1 h
  have hne : head ≠ [] := by
    rintro rfl
    exact he s a hh
  have := length_pos_iff.2 hne
  rw [length_append]
  omega

theorem writeAll_const (encode : α → Except ε Bytes) (as : List α) :
    writeAll (fun _ => encode) (fun _ _ => ()) () as = as.map encode := by
  induction as with
  | nil => rfl
  | cons a as ih => rw [writeAll, ih, map_cons]

def readCount (item : Reader ε α) : Nat → Reader ε (List α)
  | 0 => pure []
  | count + 1 => do
    let a ← item
    let as ← readCount item count
    return a :: as

theorem readCount_reads {item : Reader ε α} (hi : ReadsBack encode item)
    (count : Nat) : Reads (fun as => as.length = count) (fun as => as.map encode) (readCount item count) := by
  induction count with
  | zero =>
    have hn := @Reads.pure ε (List α) (fun as => as.length = 0) [] fun as => length_eq_zero_iff
    refine hn.congr fun as head => and_congr_right fun hl => ?_
    rw [length_eq_zero_iff.1 hl]
    rfl
  | succ count ih =>
    intro bytes as rest
    rw [readCount, Reader.bind_eq]
    constructor
    · rintro ⟨a, mid, ha, has⟩
      obtain ⟨as', mid', has', hp⟩ := Reader.bind_eq.1 has
      cases hp
      obtain ⟨head, hh, rfl⟩ := hi.eq.1 ha
      obtain ⟨hl, tail, ht, rfl⟩ := (ih _ _ _).1 has'
      refine ⟨by simpa using hl, head ++ tail, ?_, by simp⟩
      exact concat_cons_eq.2 ⟨head, tail, hh, ht, rfl⟩
    · rintro ⟨hl, _, hb, rfl⟩
      cases as with
      | nil => contradiction
      | cons a as =>
        obtain ⟨head, tail, hh, ht, rfl⟩ := concat_cons_eq.1 hb
        refine ⟨a, tail ++ rest, hi.eq.2 ⟨head, hh, by simp⟩, ?_⟩
        have has := (ih (tail ++ rest) as rest).2 ⟨by simpa using hl, tail, ht, rfl⟩
        exact Reader.bind_eq.2 ⟨as, rest, has, rfl⟩

/-! ## Whole byte strings -/

/-- The reader accepts the values with `Q` when nothing else follows; the last part may be all that is left. -/
def ReadsWhole (Q : α → Prop) (parts : α → List (Except ε Bytes)) (p : Reader ε α) : Prop :=
  ∀ bytes a, p bytes = .ok (a, []) ↔ Q a ∧ concat (parts a) = .ok bytes

theorem Reads.whole {parts : α → List (Except ε Bytes)} (hp : Reads Q parts p) : ReadsWhole Q parts p := by
  intro bytes a
  rw [hp bytes a []]
  simp only [append_nil, exists_eq_right']

theorem ReadsWhole.bind {Q : β → Prop} {P : α → Prop} {parts : α → List (Except ε Bytes)}
    {parts' : β → List (Except ε Bytes)} (field : β → α) (hp : Reads P parts p)
    (hf : ∀ a, ReadsWhole (fun b => Q b ∧ field b = a) parts' (f a)) (hfl : ∀ b, Q b → P (field b)) :
    ReadsWhole Q (fun b => parts (field b) ++ parts' b) (p >>= f) := by
  intro bytes b
  rw [Reader.bind_eq, concat_append_eq]
  constructor
  · rintro ⟨a, mid, ha, hb⟩
    obtain ⟨-, head, hh, rfl⟩ := (hp _ _ _).1 ha
    obtain ⟨⟨hQ, rfl⟩, ht⟩ := (hf _ _ _).1 hb
    exact ⟨hQ, head, mid, hh, ht, rfl⟩
  · rintro ⟨hQ, head, tail, hh, ht, rfl⟩
    exact ⟨field b, tail, (hp _ _ _).2 ⟨hfl b hQ, head, hh, rfl⟩, (hf _ _ _).2 ⟨⟨hQ, rfl⟩, ht⟩⟩

def whole (trailing : ε) (p : Reader ε α) (bytes : Bytes) : Except ε α :=
  match p bytes with
  | .error e => .error e
  | .ok (a, rest) => if rest.isEmpty then .ok a else .error trailing

theorem whole_eq {trailing : ε} {parts : α → List (Except ε Bytes)} (hp : ReadsWhole Q parts p) {a : α} :
    whole trailing p bytes = .ok a ↔ Q a ∧ concat (parts a) = .ok bytes := by
  rw [← hp bytes a, whole]
  cases p bytes with
  | error e => simp
  | ok x =>
    obtain ⟨b, rest⟩ := x
    cases rest with
    | nil => simp
    | cons byte rest => simp

theorem lift_eq {x : Except ε α} {a : α} :
    (StateT.lift x : Reader ε α) bytes = .ok (a, rest) ↔ x = .ok a ∧ bytes = rest := by
  show (x >>= fun a => .ok (a, bytes)) = _ ↔ _
  cases x with
  | error | ok => simp [bind, Except.bind]

theorem Reads.lift {x : Except ε α} (hx : ∀ a, x = .ok a ↔ Q a) :
    Reads Q (fun _ => []) (StateT.lift x : Reader ε α) := by
  intro bytes a rest
  rw [lift_eq, hx]
  refine and_congr_right fun _ => ?_
  constructor
  · intro h
    exact ⟨[], rfl, h⟩
  rintro ⟨head, hh, rfl⟩
  cases hh
  rfl

theorem Reads.inner {push : Bytes → Except ε Bytes} {p : Reader ε Bytes} {decode : Bytes → Except ε α}
    (hp : ReadsBack push p)
    (hd : ∀ bytes a, decode bytes = .ok a ↔ Q a ∧ encode a = .ok bytes) :
    Reads Q (fun a => [encode a >>= push]) (p >>= fun bytes => StateT.lift (decode bytes)) := by
  refine Reads.of_eq fun bytes a rest => ?_
  rw [Reader.bind_eq]
  constructor
  · rintro ⟨inside, mid, hi, ha⟩
    obtain ⟨head, hh, rfl⟩ := hp.eq.1 hi
    obtain ⟨hdc, rfl⟩ := lift_eq.1 ha
    obtain ⟨hQ, he⟩ := (hd _ _).1 hdc
    refine ⟨hQ, head, ?_, rfl⟩
    rw [he]
    exact hh
  · rintro ⟨hQ, head, hh, rfl⟩
    cases he : encode a with
    | error e =>
      rw [he] at hh
      contradiction
    | ok inside =>
      rw [he] at hh
      exact ⟨inside, rest, hp.eq.2 ⟨head, hh, rfl⟩, lift_eq.2 ⟨(hd _ _).2 ⟨hQ, he⟩, rfl⟩⟩

end Codec
