import OxiBelt.Lib.Netstring
import OxiBelt.Lib.Window
import OxiBelt.RustStd.Text

/-!
# Nonces of signed purge requests (`remember_purge_nonce` of `cache/purge.rs`)

A table gives each nonce its time of expiry, and a queue keeps the nonces in the order of their acceptance.  Both are
the two halves of one window (`rememberPurgeNonce_eq`), so what holds of bounded windows holds here.

The window forgets: after 16384 further nonces an old nonce is accepted again, however long it should have lived.
`replaysRefused_iff` says that this is the only way.
-/

namespace Cache

open RustStd Window List

/-- A call of `remember_purge_nonce`, with the reading of the clock. -/
abbrev NonceCall := Call Str

def purgeNonceCapacity : Nat := 16384

structure PurgeNonces where
  purgeNonces : List (Str × Nat)
  purgeNonceOrder : List Str
  deriving DecidableEq

namespace PurgeNonces

/-- `HashMap::remove`. -/
def remove (nonce : Str) (nonces : List (Str × Nat)) : List (Str × Nat) := nonces.filter (·.1 ≠ nonce)

/-- The first loop: the oldest nonces, while they have expired. -/
def pruneFront (now : Nat) : List Str → List (Str × Nat) → PurgeNonces
  | [], nonces => ⟨nonces, []⟩
  | oldest :: order, nonces =>
    if (nonces.lookup oldest).all (· ≤ now) then pruneFront now order (remove oldest nonces)
    else ⟨nonces, oldest :: order⟩

/-- The second loop: the oldest nonces, while there are too many. -/
def evict : List Str → List (Str × Nat) → PurgeNonces
  | [], nonces => ⟨nonces, []⟩
  | oldest :: order, nonces =>
    if purgeNonceCapacity < nonces.length then evict order (remove oldest nonces) else ⟨nonces, oldest :: order⟩

/-- The answer and the new state.  The sum of time and lifetime stands for a `SystemTime` that does not overflow. -/
def rememberPurgeNonce (s : PurgeNonces) (call : NonceCall) : Bool × PurgeNonces :=
  let expiresAt := call.now + call.ttl
  let pruned := pruneFront call.now s.purgeNonceOrder s.purgeNonces
  if (pruned.purgeNonces.lookup call.key).isSome then (false, pruned)
  else
    (true, evict (pruned.purgeNonceOrder ++ [call.key]) (remove call.key pruned.purgeNonces ++ [(call.key, expiresAt)]))

def empty : PurgeNonces := ⟨[], []⟩

def replies : PurgeNonces → List NonceCall → List (NonceCall × Bool)
  | _, [] => []
  | s, call :: calls => (call, (s.rememberPurgeNonce call).1) :: replies (s.rememberPurgeNonce call).2 calls

/-! ## Table and queue are one window -/

/-- The state whose queue holds the keys of its table in order. -/
def ofEntries (entries : List (Str × Nat)) : PurgeNonces := ⟨entries, keys entries⟩

variable {entries : List (Str × Nat)} {nonce : Str} {expiry : Nat}

theorem remove_cons (h : nonce ∉ keys entries) : remove nonce ((nonce, expiry) :: entries) = entries := by
  rw [remove, filter_cons_of_neg (by simp), filter_eq_self]
  rintro entry he
  simp only [ne_eq, decide_not, Bool.not_eq_true', decide_eq_false_iff_not]
  rintro rfl
  exact h (mem_map_of_mem he)

theorem remove_of_not_mem (h : nonce ∉ keys entries) : remove nonce entries = entries := by
  have := @remove_cons entries nonce 0 h
  rwa [remove, filter_cons_of_neg (by simp)] at this

theorem lookup_isSome (nonce : Str) (entries : List (Str × Nat)) :
    (entries.lookup nonce).isSome = decide (nonce ∈ keys entries) := by
  induction entries with
  | nil => rfl
  | cons entry entries ih =>
    obtain ⟨key, expiry⟩ := entry
    rw [lookup_cons]
    by_cases h : nonce = key
    · simp [h, Window.keys]
    rw [beq_eq_false_iff_ne.2 h, ih]
    refine decide_eq_decide.2 ?_
    rw [Window.keys, Window.keys, map_cons, mem_cons]
    exact (or_iff_right h).symm

theorem pruneFront_eq (now : Nat) (h : (keys entries).Nodup) :
    pruneFront now (keys entries) entries = ofEntries (prune now entries) := by
  induction entries with
  | nil => rfl
  | cons entry entries ih =>
    obtain ⟨nonce, expiry⟩ := entry
    obtain ⟨hn, hr⟩ := nodup_cons.1 h
    have hl : lookup nonce ((nonce, expiry) :: entries) = some expiry := by simp
    show pruneFront now (nonce :: keys entries) _ = _
    rw [pruneFront, hl, prune, dropWhile_cons, Option.all_some]
    split
    · rw [remove_cons hn]
      exact ih hr
    · rfl

theorem evict_eq (h : (keys entries).Nodup) :
    evict (keys entries) entries = ofEntries (keepLast purgeNonceCapacity entries) := by
  induction entries with
  | nil => rfl
  | cons entry entries ih =>
    obtain ⟨nonce, expiry⟩ := entry
    obtain ⟨hn, hr⟩ := nodup_cons.1 h
    show evict (nonce :: keys entries) _ = _
    rw [evict, keepLast, length_cons]
    split
    · next hf =>
      rw [remove_cons hn, Nat.sub_add_comm (by omega), drop_succ_cons]
      exact ih hr
    next hf =>
    rw [Nat.sub_eq_zero_of_le (by omega)]
    rfl

theorem rememberPurgeNonce_eq (h : (keys entries).Nodup) (call : NonceCall) :
    (ofEntries entries).rememberPurgeNonce call =
      ((offer purgeNonceCapacity entries call).1, ofEntries (offer purgeNonceCapacity entries call).2) := by
  have hp : pruneFront call.now (ofEntries entries).purgeNonceOrder (ofEntries entries).purgeNonces =
      ofEntries (prune call.now entries) := pruneFront_eq call.now h
  have hlv := keys_nodup (prune_suffix call.now entries) h
  have hl : ((ofEntries (prune call.now entries)).purgeNonces.lookup call.key).isSome =
      decide (call.key ∈ keys (prune call.now entries)) := lookup_isSome _ _
  rw [rememberPurgeNonce, hp]
  by_cases hk : call.key ∈ keys (prune call.now entries)
  · rw [offer_eq_refused hk]
    simp only [hl, hk, decide_true, if_true]
  have hf : (keys (prune call.now entries ++ [(call.key, call.now + call.ttl)])).Nodup := by
    rw [keys_concat]
    exact nodup_append'.2 ⟨hlv, nodup_singleton _, disjoint_singleton.2 hk⟩
  have he := evict_eq hf
  rw [keys_concat] at he
  rw [offer_eq_accepted hk]
  simp only [hl, hk, decide_false, Bool.false_eq_true, if_false]
  rw [← he]
  simp only [ofEntries, remove_of_not_mem hk]

theorem replies_eq (calls : List NonceCall) (h : (keys entries).Nodup) :
    replies (ofEntries entries) calls = log purgeNonceCapacity entries calls := by
  induction calls generalizing entries with
  | nil => rfl
  | cons call calls ih => rw [replies, log, rememberPurgeNonce_eq h, ih (offer_nodup h)]

end PurgeNonces

/-! ## Replays -/

/-- A nonce that was accepted, and a call with it before its time has come. -/
structure Replay (log : List (NonceCall × Bool)) where
  before : List (NonceCall × Bool)
  first : NonceCall
  between : List (NonceCall × Bool)
  again : NonceCall
  answer : Bool
  after : List (NonceCall × Bool)
  split : log = before ++ (first, true) :: (between ++ (again, answer) :: after)
  same : again.key = first.key
  live : again.now < first.now + first.ttl

open PurgeNonces

def nonceLog (calls : List NonceCall) : List (NonceCall × Bool) := replies PurgeNonces.empty calls

theorem nonceLog_eq (calls : List NonceCall) : nonceLog calls = log purgeNonceCapacity [] calls :=
  replies_eq calls nodup_nil

section

variable {calls : List NonceCall} (hclock : calls.Pairwise (·.now ≤ ·.now)) (replay : Replay (nonceLog calls))
include hclock

/-- The part of a log between two calls: what was called, and when. -/
theorem Replay.between_now {item : NonceCall × Bool} (hi : item ∈ replay.between) : item.1.now ≤ replay.again.now := by
  have hc : calls = (nonceLog calls).map Prod.fst := by rw [nonceLog_eq, log_map_fst]
  rw [hc, replay.split] at hclock
  simp only [map_append, map_cons, pairwise_append, pairwise_cons] at hclock
  exact hclock.2.1.2.2.2 item.1 (mem_map_of_mem hi) replay.again (by simp)

theorem Replay.earlier {item : NonceCall × Bool} (hi : item ∈ replay.between) (hk : item.1.key = replay.first.key) :
    ∃ shorter : Replay (nonceLog calls),
      shorter.answer = item.2 ∧ shorter.between.length < replay.between.length := by
  have hn := replay.between_now hclock hi
  obtain ⟨front, back, hs⟩ := append_of_mem hi
  have hsh : front.length < replay.between.length := by
    rw [hs]
    simp
  refine ⟨⟨replay.before, replay.first, front, item.1, item.2, back ++ (replay.again, replay.answer) :: replay.after,
    replay.split.trans ?_, hk, hn.trans_lt replay.live⟩, rfl, hsh⟩
  rw [hs]
  simp

theorem Replay.answer_iff (hb : ∀ item ∈ replay.between, item.2 = true → item.1.key ≠ replay.first.key) :
    replay.answer = true ↔ purgeNonceCapacity ≤ accepted replay.between := by
  have hlv : ∀ item ∈ replay.between, item.1.now < replay.first.now + replay.first.ttl :=
    fun item hi => (replay.between_now hclock hi).trans_lt replay.live
  obtain ⟨earlier, _, -, -, ht⟩ := log_eq_append ((nonceLog_eq calls).symm.trans replay.split)
  obtain ⟨_, -, hf, ht⟩ := log_eq_cons ht
  obtain ⟨between, _, -, hl, ht⟩ := log_eq_append ht
  obtain ⟨_, -, ha, -⟩ := log_eq_cons ht
  have hc : between = replay.between.map Prod.fst := by rw [← hl, log_map_fst]
  rw [← hl] at hb ⊢
  rw [← show (offer _ _ replay.again).1 = replay.answer from ha]
  refine offer_again_iff (by decide) (after_nodup earlier nodup_nil) hf ?_ replay.live replay.same hb
  rw [hc]
  exact forall_mem_map.2 hlv

end

/-- Every replay is refused exactly if no nonce is replayed after as many others have been accepted as the table
holds. -/
theorem replaysRefused_iff (calls : List NonceCall) (hclock : calls.Pairwise (·.now ≤ ·.now)) :
    (∀ replay : Replay (nonceLog calls), replay.answer = false) ↔
      ∀ replay : Replay (nonceLog calls), accepted replay.between < purgeNonceCapacity := by
  have ha : ∀ replay : Replay (nonceLog calls), (∀ shorter : Replay (nonceLog calls),
      shorter.between.length < replay.between.length → shorter.answer = false) →
      (replay.answer = true ↔ purgeNonceCapacity ≤ accepted replay.between) := by
    intro replay hs
    refine replay.answer_iff hclock fun item hi ha hk => ?_
    obtain ⟨shorter, han, hl⟩ := replay.earlier hclock hi hk
    rw [hs shorter hl, ha] at han
    contradiction
  constructor
  · intro hr replay
    rw [← not_le, ← ha replay fun shorter _ => hr shorter, hr replay]
    simp
  · intro hc replay
    -- A shortest replay that is accepted has no accepted call with its nonce in between.
    induction hl : replay.between.length using Nat.strong_induction_on generalizing replay with
    | _ length ih =>
      subst hl
      rw [← Bool.not_eq_true, ha replay fun shorter hs => ih _ hs shorter rfl]
      exact not_le.2 (hc replay)

/-! ## A flood of nonces -/

def nonceCall (n : Nat) : NonceCall := ⟨decimal n, 1, 0⟩

/-- Calls with other nonces between two calls with one nonce, all at one time. -/
def floodCalls (count : Nat) : List NonceCall :=
  nonceCall 0 :: (range count).map (nonceCall <| · + 1) ++ [nonceCall 0]

theorem floodCalls_clock (count : Nat) : (floodCalls count).Pairwise (·.now ≤ ·.now) := by
  have hn : ∀ call ∈ floodCalls count, call.now = 0 := by
    simp [floodCalls, nonceCall, or_imp, forall_and]
  refine pairwise_of_forall_mem_list fun a ha b _ => ?_
  rw [hn a ha]
  exact Nat.zero_le _

theorem floodCalls_nodup (count : Nat) :
    ((nonceCall 0 :: (range count).map (nonceCall <| · + 1)).map Call.key).Nodup := by
  have hk : (nonceCall 0 :: (range count).map (nonceCall <| · + 1)).map Call.key = (range (count + 1)).map decimal := by
    simp [nonceCall, range_succ_eq_map, Function.comp_def]
  rw [hk]
  exact nodup_range.map fun m n => Netstring.toDigits_inj

/-- A flood that fills the table makes it forget. -/
theorem flood_accepted {count : Nat} (h : purgeNonceCapacity ≤ count) :
    ∃ replay : Replay (nonceLog (floodCalls count)), replay.answer = true := by
  have hl := nonceLog_eq (floodCalls count)
  rw [floodCalls, log_append, log_fresh (floodCalls_nodup count) (by simp [Window.keys])] at hl
  refine ⟨⟨[], _, _, _, _, [], hl, rfl, Nat.zero_lt_one⟩, ?_⟩
  rw [Replay.answer_iff (floodCalls_clock count)]
  · simpa [accepted, countP_map, Function.comp_def] using h
  intro item hi _ hk
  obtain ⟨call, hc, rfl⟩ := mem_map.1 hi
  refine (nodup_cons.1 (floodCalls_nodup count)).1 ?_
  rw [← hk]
  exact mem_map_of_mem hc

/-- The first nonce has been dropped from the table and is accepted a second time. -/
theorem purgeNonce_accepted_twice : (floodCalls 16384).Pairwise (·.now ≤ ·.now) ∧
      ∃ replay : Replay (nonceLog (floodCalls 16384)), replay.answer = true :=
  ⟨floodCalls_clock 16384, flood_accepted (Nat.le_refl _)⟩

/-- Two calls only: the second one is refused. -/
theorem replaysRefused_iff_two :
    (floodCalls 0).Pairwise (·.now ≤ ·.now) ∧ ∀ replay : Replay (nonceLog (floodCalls 0)), replay.answer = false := by
  refine ⟨floodCalls_clock 0, (replaysRefused_iff (floodCalls 0) (floodCalls_clock 0)).2 fun replay => ?_⟩
  have hl := congrArg length replay.split
  have ht : (nonceLog (floodCalls 0)).length = 2 := rfl
  have hcn : accepted replay.between ≤ replay.between.length := countP_le_length
  rw [ht] at hl
  simp only [length_append, length_cons] at hl
  have hc : purgeNonceCapacity = 16384 := rfl
  omega

end Cache
