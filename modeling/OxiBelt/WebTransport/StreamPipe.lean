import OxiBelt.Lib.InFlight

/-!
# One stream between two ends

What two ends of a session have to agree on for one direction of one stream, with capsules in flight:

* data: from what the receiver has got, the messages in flight lead to what the sender has handed over
  (`Carries`);
* credit: from the credit the sender knows of, the messages in flight lead to no more than the receiver
  has granted, and to a stop only if the receiver has asked for one (`Funded`).  A sender that has
  forgotten the stream takes any message;
* limits of the whole session only rise (`Raises`).

For each of them there is a lemma for every message that is sent and for every message that arrives.
-/

namespace WebTransport

open InFlight

/-! ## Data -/

inductive Inbound where
  | closed
  | receiving (received limit : Nat)

inductive Outbound where
  | closed
  | sending (handed : Nat)

inductive DataMessage where
  | data (length : Nat) (fin : Bool)
  | reset (size : Nat)

namespace Inbound

def absorb : Inbound → DataMessage → Option Inbound
  | .closed, _ => none
  | .receiving received limit, .data length fin =>
    if limit < received + length then none
    else some (if fin then .closed else .receiving (received + length) limit)
  | .receiving received _, .reset size => if received = size then some .closed else none

/-- What a sender with nothing in flight has said. -/
def outbound : Inbound → Outbound
  | .closed => .closed
  | .receiving received _ => .sending received

end Inbound

/-- The messages in flight lead from the receiver to the sender. -/
def Carries (inbound : Inbound) (word : List DataMessage) (outbound : Outbound) : Prop :=
  ∃ final, arrive Inbound.absorb inbound word = some final ∧ final.outbound = outbound

variable {next limit : Nat}

namespace Carries

variable {inbound : Inbound} {word : List DataMessage} {outbound : Outbound}

theorem of_closed (h : Carries .closed word outbound) : word = [] ∧ outbound = .closed := by
  obtain ⟨final, ha, hf⟩ := h
  cases word with
  | nil =>
    cases ha
    exact ⟨rfl, hf.symm⟩
  | cons message word =>
    obtain ⟨next, hn, -⟩ := arrive_cons_eq.1 ha
    contradiction

theorem cons_iff {message : DataMessage} :
    Carries inbound (message :: word) outbound ↔
      ∃ next, inbound.absorb message = some next ∧ Carries next word outbound := by
  simp only [Carries, arrive_cons_eq]
  grind

theorem arrives_data {length : Nat} {fin : Bool} (h : Carries inbound (.data length fin :: word) outbound) :
    ∃ received limit, inbound = .receiving received limit ∧ received + length ≤ limit ∧
      Carries (if fin then .closed else .receiving (received + length) limit) word outbound := by
  obtain ⟨next, hn, hw⟩ := cons_iff.1 h
  cases inbound with
  | closed => contradiction
  | receiving received limit =>
    obtain ⟨hl, hn⟩ := Option.ite_none_left_eq_some.1 hn
    cases hn
    exact ⟨received, limit, rfl, Nat.le_of_not_lt hl, hw⟩

/-- Data may arrive in two parts. -/
theorem split {first second : Nat} {fin : Bool} (h : Carries inbound (.data (first + second) fin :: word) outbound) :
    Carries inbound (.data first false :: .data second fin :: word) outbound := by
  obtain ⟨received, limit, rfl, hl, hw⟩ := h.arrives_data
  refine cons_iff.2 ⟨.receiving (received + first) limit, if_neg (by omega), cons_iff.2 ⟨_, if_neg (by omega), ?_⟩⟩
  rwa [Nat.add_assoc]

/-- The receiver of an open direction keeps its limit until all has arrived. -/
theorem final_receiving {handed : Nat} (h : Carries inbound word (.sending handed)) :
    ∃ received limit, inbound = .receiving received limit ∧
      arrive Inbound.absorb inbound word = some (.receiving handed limit) := by
  induction word generalizing inbound with
  | nil =>
    obtain ⟨final, ha, hf⟩ := h
    cases ha
    cases inbound with
    | closed => contradiction
    | receiving received limit =>
      cases hf
      exact ⟨_, limit, rfl, rfl⟩
  | cons message word ih =>
    obtain ⟨_, hn, hw⟩ := cons_iff.1 h
    obtain ⟨received', limit', rfl, ha⟩ := ih hw
    have hl : ∃ received, inbound = .receiving received limit' := by
      cases inbound with
      | closed => contradiction
      | receiving received limit => cases message <;> grind [Inbound.absorb]
    obtain ⟨received, rfl⟩ := hl
    exact ⟨received, limit', rfl, arrive_cons_eq.2 ⟨_, hn, ha⟩⟩

theorem send_data {handed length : Nat} {fin : Bool} (h : Carries inbound word (.sending handed))
    (hl : ∀ received limit, inbound = .receiving received limit → handed + length ≤ limit) :
    Carries inbound (word ++ [.data length fin]) (if fin then .closed else .sending (handed + length)) := by
  obtain ⟨received, limit, hi, ha⟩ := h.final_receiving
  have hle := hl received limit hi
  refine ⟨if fin then .closed else .receiving (handed + length) limit, ?_, ?_⟩
  · rw [arrive_snoc ha, Inbound.absorb, if_neg (by omega)]
  · cases fin <;> rfl

theorem send_reset {handed : Nat} (h : Carries inbound word (.sending handed)) :
    Carries inbound (word ++ [.reset handed]) .closed := by
  obtain ⟨received, limit, -, ha⟩ := h.final_receiving
  refine ⟨.closed, ?_, rfl⟩
  rw [arrive_snoc ha, Inbound.absorb, if_pos rfl]

/-- The receiver may raise its limit. -/
theorem raise {received limit' : Nat} (h : Carries (.receiving received limit) word outbound) (hle : limit ≤ limit') :
    Carries (.receiving received limit') word outbound := by
  induction word generalizing received with
  | nil =>
    obtain ⟨final, ha, hf⟩ := h
    cases ha
    exact ⟨_, rfl, hf⟩
  | cons message word ih =>
    cases message with
    | data length fin =>
      obtain ⟨_, _, heq, hl, hw⟩ := h.arrives_data
      cases heq
      refine cons_iff.2 ⟨_, if_neg (by omega), ?_⟩
      cases fin with
      | true => exact hw
      | false => exact ih hw
    | reset size =>
      obtain ⟨next, hn, hw⟩ := cons_iff.1 h
      exact cons_iff.2 ⟨next, hn, hw⟩

end Carries

/-! ## Credit -/

/-- What a sender knows of the credit of a stream: it does not send on this stream, it has forgotten the
stream, or it has a limit and may have been stopped. -/
inductive Credit where
  | refused
  | gone
  | live (limit : Nat) (stopped : Bool)

inductive CreditMessage where
  | limit (limit : Nat)
  | stop

/-- What a receiver has granted: a limit, and whether it has asked to stop; nothing if it has forgotten
the stream. -/
abbrev Grant := Option (Nat × Bool)

namespace Credit

def absorb : Credit → CreditMessage → Option Credit
  | .refused, _ => none
  | .gone, _ => some .gone
  | .live _ true, _ => none
  | .live limit false, .limit next => if next < limit then none else some (.live next false)
  | .live limit false, .stop => some (.live limit true)

def Within : Credit → Grant → Prop
  | .live limit stopped, some (granted, stopSent) => limit ≤ granted ∧ (stopped = true → stopSent = true)
  | _, _ => True

/-- The limit never falls and a stop stays, unless the stream is forgotten. -/
def Grows : Credit → Credit → Prop
  | .live limit stopped, .live limit' stopped' => limit ≤ limit' ∧ (stopped = true → stopped' = true)
  | .live _ _, .refused => False
  | .live _ _, .gone => False
  | .gone, .gone => True
  | .gone, _ => False
  | .refused, .refused => True
  | .refused, _ => False

theorem Grows.refl : ∀ c : Credit, c.Grows c
  | .refused => trivial
  | .gone => trivial
  | .live _ _ => ⟨Nat.le_refl _, id⟩

theorem Grows.trans : ∀ a b c : Credit, a.Grows b → b.Grows c → a.Grows c
  | .refused, .refused, .refused, _, _ => trivial
  | .gone, .gone, .gone, _, _ => trivial
  | .live _ _, .live _ _, .live _ _, h, h' => ⟨Nat.le_trans h.1 h'.1, fun hs => h'.2 (h.2 hs)⟩

theorem absorb_grows (c : Credit) (message : CreditMessage) (c' : Credit)
    (h : c.absorb message = some c') : c.Grows c' := by
  match c, message with
  | .refused, _ => simp [absorb] at h
  | .gone, _ =>
    cases h
    exact trivial
  | .live _ true, _ => simp [absorb] at h
  | .live limit false, .limit next =>
    obtain ⟨hl, h⟩ := Option.ite_none_left_eq_some.1 h
    cases h
    exact ⟨Nat.le_of_not_lt hl, id⟩
  | .live limit false, .stop =>
    cases h
    exact ⟨Nat.le_refl _, fun _ => rfl⟩

end Credit

/-- The messages in flight lead the sender to no more than the receiver has granted. -/
def Funded (credit : Credit) (word : List CreditMessage) (grant : Grant) : Prop :=
  ∃ final, arrive Credit.absorb credit word = some final ∧ final.Within grant

namespace Funded

variable {credit : Credit} {word : List CreditMessage} {grant : Grant}

theorem grows {final : Credit} (h : arrive Credit.absorb credit word = some final) : credit.Grows final :=
  arrive_le Credit.Grows.refl Credit.Grows.trans Credit.absorb_grows h

theorem gone (word : List CreditMessage) (grant : Grant) : Funded .gone word grant := by
  induction word with
  | nil => exact ⟨.gone, rfl, trivial⟩
  | cons message word ih =>
    obtain ⟨final, ha, hf⟩ := ih
    exact ⟨final, arrive_cons_eq.2 ⟨.gone, rfl, ha⟩, hf⟩

theorem grant_gone (h : Funded credit word grant) : Funded credit word none := by
  obtain ⟨final, ha, -⟩ := h
  refine ⟨final, ha, ?_⟩
  cases final <;> trivial

variable {granted : Nat}

theorem limit_le {stopped stopSent : Bool} (h : Funded (.live limit stopped) word (some (granted, stopSent))) :
    limit ≤ granted := by
  obtain ⟨final, ha, hf⟩ := h
  cases final with
  | refused | gone => exact (grows ha).elim
  | live limit' stopped' => exact Nat.le_trans (grows ha).1 hf.1

theorem send {message : CreditMessage} {granted' : Nat} {stopSent : Bool}
    (h : Funded credit word (some (granted, false))) (hc : credit ≠ .refused)
    (hm : ∀ limit, limit ≤ granted → ∃ limit' stopped,
      Credit.absorb (.live limit false) message = some (.live limit' stopped) ∧ limit' ≤ granted' ∧
        (stopped = true → stopSent = true)) :
    Funded credit (word ++ [message]) (some (granted', stopSent)) := by
  obtain ⟨final, ha, hf⟩ := h
  cases final with
  | refused =>
    have hg := grows ha
    cases credit with
    | refused => exact absurd rfl hc
    | gone | live => exact hg.elim
  | gone => exact ⟨.gone, by rw [arrive_snoc ha, Credit.absorb], trivial⟩
  | live limit stopped =>
    cases stopped with
    | true => exact absurd (hf.2 rfl) (by simp)
    | false =>
      obtain ⟨limit', stopped, hab, hle, hs⟩ := hm limit hf.1
      exact ⟨.live limit' stopped, by rw [arrive_snoc ha, hab], hle, hs⟩

theorem send_limit (h : Funded credit word (some (granted, false))) (hc : credit ≠ .refused) (hle : granted ≤ next) :
    Funded credit (word ++ [.limit next]) (some (next, false)) := by
  refine h.send hc fun limit hl => ⟨next, false, ?_, Nat.le_refl _, id⟩
  rw [Credit.absorb, if_neg (by omega)]

theorem arrives {message : CreditMessage} (h : Funded credit (message :: word) grant) :
    credit = .gone ∨ ∃ limit next, credit = .live limit false ∧ credit.absorb message = some next ∧
      Funded next word grant := by
  obtain ⟨final, ha, hf⟩ := h
  obtain ⟨next, hn, hw⟩ := arrive_cons_eq.1 ha
  match credit with
  | .refused => simp [Credit.absorb] at hn
  | .gone => exact .inl rfl
  | .live _ true => simp [Credit.absorb] at hn
  | .live limit false => exact .inr ⟨limit, next, rfl, hn, final, hw, hf⟩

end Funded

/-! ## Limits of the session -/

def raiseLimit (limit next : Nat) : Option Nat := if next < limit then none else some next

/-- The limits in flight rise from the one that the sender knows to at most the one given out. -/
def Raises (limit : Nat) (word : List Nat) (given : Nat) : Prop :=
  ∃ final, arrive raiseLimit limit word = some final ∧ final ≤ given

namespace Raises

variable {limit given : Nat} {word : List Nat}

theorem le (h : Raises limit word given) : limit ≤ given := by
  obtain ⟨final, ha, hf⟩ := h
  refine Nat.le_trans (arrive_le Nat.le_refl (fun _ _ _ => Nat.le_trans) ?_ ha) hf
  intro limit next final hn
  obtain ⟨hl, hn⟩ := Option.ite_none_left_eq_some.1 hn
  exact Option.some.inj hn ▸ Nat.le_of_not_lt hl

theorem send (h : Raises limit word given) (hle : given ≤ next) : Raises limit (word ++ [next]) next := by
  obtain ⟨final, ha, hf⟩ := h
  refine ⟨next, ?_, Nat.le_refl _⟩
  rw [arrive_snoc ha, raiseLimit, if_neg (by omega)]

theorem arrives (h : Raises limit (next :: word) given) : limit ≤ next ∧ Raises next word given := by
  obtain ⟨final, ha, hf⟩ := h
  obtain ⟨limit', hl', hw⟩ := arrive_cons_eq.1 ha
  obtain ⟨hle, hl'⟩ := Option.ite_none_left_eq_some.1 hl'
  cases hl'
  exact ⟨Nat.le_of_not_lt hle, final, hw, hf⟩

end Raises

end WebTransport
