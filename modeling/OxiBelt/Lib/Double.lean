import Mathlib.Data.Int.Log
import Mathlib.Tactic

/-!
# Rounding to double precision

The finite numbers of the binary64 format are rationals.  An operation gives the exact result rounded to the nearest
of them, ties to even (`round`); the numbers here stay far below the overflow threshold.  What programs rely on when
they scale a count by a share is `round_le`: rounding does not carry a number beyond a whole number of at most 53 bits.
-/

namespace Double

/-- The nearest integer, ties to even. -/
def nearest (x : ℚ) : ℤ :=
  if x - ⌊x⌋ < 1 / 2 then ⌊x⌋
  else if 1 / 2 < x - ⌊x⌋ then ⌊x⌋ + 1
  else if ⌊x⌋ % 2 = 0 then ⌊x⌋
  else ⌊x⌋ + 1

theorem nearest_eq_floor_or (x : ℚ) : nearest x = ⌊x⌋ ∨ nearest x = ⌊x⌋ + 1 ∧ 1 / 2 ≤ x - ⌊x⌋ := by
  unfold nearest
  split
  · exact .inl rfl
  next h =>
  have hh := not_lt.1 h
  split
  · exact .inr ⟨rfl, hh⟩
  split
  · exact .inl rfl
  · exact .inr ⟨rfl, hh⟩

variable {x : ℚ}

theorem nearest_le {n : ℤ} (h : x ≤ n) : nearest x ≤ n := by
  obtain heq | ⟨heq, hh⟩ := nearest_eq_floor_or x
  · rw [heq]
    exact Int.floor_le_iff.2 (lt_of_le_of_lt h (lt_add_one _))
  -- the floor of `x` is below `n`, for `x` is above its floor
  have hlt : (⌊x⌋ : ℚ) < n := by linarith
  rw [heq]
  exact Int.cast_lt.1 hlt

theorem nearest_nonneg (h : 0 ≤ x) : 0 ≤ nearest x := by
  have hf : 0 ≤ ⌊x⌋ := Int.floor_nonneg.2 h
  obtain heq | ⟨heq, -⟩ := nearest_eq_floor_or x <;> omega

/-- The exponent of the last binary place of a number: 53 places, and none below the smallest subnormal number. -/
def lastPlace (x : ℚ) : ℤ := max (Int.log 2 |x| - 52) (-1074)

def round (x : ℚ) : ℚ := nearest (x / 2 ^ lastPlace x) * 2 ^ lastPlace x

theorem round_nonneg (h : 0 ≤ x) : 0 ≤ round x := by
  have hn : 0 ≤ nearest (x / 2 ^ lastPlace x) := nearest_nonneg (by positivity)
  have hc : (0 : ℚ) ≤ nearest (x / 2 ^ lastPlace x) := Int.cast_nonneg hn
  exact mul_nonneg hc (by positivity)

/-- Rounding stays below every multiple of the last place. -/
theorem round_le_mul {n : ℤ} (h : x ≤ n * 2 ^ lastPlace x) : round x ≤ n * 2 ^ lastPlace x := by
  have hp : (0 : ℚ) < 2 ^ lastPlace x := by positivity
  have hq : x / 2 ^ lastPlace x ≤ n := (div_le_iff₀ hp).2 h
  exact mul_le_mul_of_nonneg_right (Int.cast_le.2 (nearest_le hq)) hp.le

/-- A number below `2 ^ 53` has its last place at the units or further right. -/
theorem lastPlace_nonpos (h : 0 ≤ x) (hlt : x < 2 ^ 53) : lastPlace x ≤ 0 := by
  have hl : Int.log 2 |x| ≤ 52 := by
    rw [abs_of_nonneg h]
    obtain rfl | hps := h.eq_or_lt
    · simp
    by_contra hgt
    have hle : (53 : ℤ) ≤ Int.log 2 x := by omega
    have hp : ((2 : ℕ) : ℚ) ^ (53 : ℤ) ≤ x := (Int.zpow_le_iff_le_log Nat.one_lt_two hps).2 hle
    have hc : ((2 : ℕ) : ℚ) ^ (53 : ℤ) = 2 ^ 53 := by norm_num
    rw [hc] at hp
    exact absurd hlt (not_lt.2 hp)
  unfold lastPlace
  omega

/-- **Rounding and whole numbers.**  A number of at most `n` is rounded to one of at most `n`, as long as `n` has no
more than 53 bits. -/
theorem round_le {n : ℕ} (h : 0 ≤ x) (hn : n ≤ 2 ^ 53) (hle : x ≤ n) : round x ≤ n := by
  have hb : (n : ℚ) ≤ 2 ^ 53 := by exact_mod_cast hn
  by_cases hlt : x < 2 ^ 53
  · -- `n` is a multiple of the last place
    obtain ⟨k, hk⟩ := Int.eq_ofNat_of_zero_le (neg_nonneg.2 (lastPlace_nonpos h hlt))
    have hp : lastPlace x = -(k : ℤ) := by omega
    have hm : (n : ℚ) = ((n * 2 ^ k : ℕ) : ℤ) * 2 ^ lastPlace x := by
      rw [hp, zpow_neg, zpow_natCast]
      push_cast
      rw [mul_assoc, mul_inv_cancel₀ (by positivity), mul_one]
    rw [hm] at hle ⊢
    exact round_le_mul hle
  · -- both are `2 ^ 53`, which is a double
    have hx : x = 2 ^ 53 := le_antisymm (hle.trans hb) (not_lt.1 hlt)
    have heq : (n : ℚ) = 2 ^ 53 := le_antisymm hb (hx ▸ hle)
    have hl : Int.log 2 |x| = 53 := by
      rw [hx, abs_of_nonneg (by positivity)]
      exact_mod_cast Int.log_zpow (R := ℚ) Nat.one_lt_two 53
    have hp : lastPlace x = 1 := by
      rw [lastPlace, hl]
      rfl
    have hm : (n : ℚ) = ((2 ^ 52 : ℕ) : ℤ) * 2 ^ lastPlace x := by
      rw [heq, hp]
      norm_num
    rw [hm] at hle ⊢
    exact round_le_mul hle

/-- `usize as f64`. -/
def ofNat (n : ℕ) : ℚ := round n

def mul (x y : ℚ) : ℚ := round (x * y)

def div (x y : ℚ) : ℚ := round (x / y)

/-- `f64::floor` and `as usize` of a number that is not negative. -/
def floor (x : ℚ) : ℕ := ⌊x⌋₊

/-- `f64::ceil` and `as usize`. -/
def ceil (x : ℚ) : ℕ := ⌈x⌉₊

/-- `f64::clamp(0.0, 1.0)`. -/
def clampUnit (x : ℚ) : ℚ := max 0 (min x 1)

theorem clampUnit_nonneg (x : ℚ) : 0 ≤ clampUnit x := le_max_left _ _

theorem clampUnit_le_one (x : ℚ) : clampUnit x ≤ 1 := max_le zero_le_one (min_le_right x 1)

/-- A share of a count is no more than the count. -/
theorem floor_mul_le {n : ℕ} {share : ℚ} (hn : n ≤ 2 ^ 53) (hs : 0 ≤ share) (ho : share ≤ 1) :
    floor (mul (ofNat n) share) ≤ n := by
  have hc : ofNat n ≤ n := round_le (Nat.cast_nonneg n) hn le_rfl
  have hnn : 0 ≤ ofNat n := round_nonneg (Nat.cast_nonneg n)
  have hp : ofNat n * share ≤ n :=
    calc ofNat n * share ≤ ofNat n * 1 := mul_le_mul_of_nonneg_left ho hnn
      _ = ofNat n := mul_one _
      _ ≤ n := hc
  have hr : mul (ofNat n) share ≤ n := round_le (mul_nonneg hnn hs) hn hp
  exact Nat.floor_le_of_le hr

end Double
