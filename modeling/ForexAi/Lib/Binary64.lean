/-
Rounding to the numbers of a floating-point format.

A number of the format is a whole number of units of the last place; the unit is the power of
two that leaves 53 binary digits, and no smaller than the least one.  A result is rounded to
the nearest, an exact half to the even neighbour.

A number that needs no more than 53 binary digits is its own rounding (`binary64_scaled`), so
sums and differences of multiples of one unit are exact as long as they stay small.  Numbers
too large for the format do not appear.
-/
import ForexAi.Lib.Rounding
import Mathlib.Data.Int.Log
import Mathlib.Data.Rat.Floor

namespace Rounding

/-- The exponent of the unit of the last place at `x`. -/
def unitExponent (x : ℚ) : ℤ := max (Int.log 2 |x| - 52) (-1074)

/-- The nearest number of the format. -/
def binary64 (x : ℚ) : ℚ :=
  halfEven (x / 2 ^ unitExponent x) * 2 ^ unitExponent x

theorem halfEven_intCast (n : ℤ) : halfEven (n : ℚ) = n :=
  halfEven_eq_of_nearest ⟨by simp, by norm_num⟩

/-- The unit is no larger than one that 53 digits suffice for. -/
theorem unitExponent_le {n e : ℤ} (hn : |n| < 2 ^ 53) (hne : n ≠ 0) (he : -1074 ≤ e) :
    unitExponent (n * 2 ^ e) ≤ e := by
  have hunit : (0 : ℚ) < 2 ^ e := zpow_pos two_pos e
  have habs : |(n : ℚ) * 2 ^ e| = |n| * 2 ^ e := by
    rw [abs_mul, abs_of_pos hunit, Int.cast_abs]
  have hpos : 0 < |(n : ℚ) * 2 ^ e| := abs_pos.mpr (mul_ne_zero (by exact_mod_cast hne) hunit.ne')
  have hdigits : ((|n| : ℤ) : ℚ) < 2 ^ (53 : ℤ) := by exact_mod_cast hn
  have hsmall : |(n : ℚ) * 2 ^ e| < ((2 : ℕ) : ℚ) ^ (53 + e) := by
    calc |(n : ℚ) * 2 ^ e| = |n| * 2 ^ e := habs
      _ < 2 ^ (53 : ℤ) * 2 ^ e := mul_lt_mul_of_pos_right hdigits hunit
      _ = ((2 : ℕ) : ℚ) ^ (53 + e) := by
          rw [← zpow_add₀ two_ne_zero]
          norm_num
  have hlog : Int.log 2 |(n : ℚ) * 2 ^ e| < 53 + e :=
    (Int.lt_zpow_iff_log_lt Nat.one_lt_two hpos).mp hsmall
  unfold unitExponent
  omega

/-- **Numbers of 53 binary digits are their own rounding.** -/
theorem binary64_scaled {n e : ℤ} (hn : |n| < 2 ^ 53) (he : -1074 ≤ e) :
    binary64 (n * 2 ^ e) = n * 2 ^ e := by
  by_cases hne : n = 0
  · have hzero : halfEven (0 : ℚ) = 0 := by simpa using halfEven_intCast 0
    simp [hne, binary64, hzero]
  · obtain ⟨k, hk⟩ := Int.eq_ofNat_of_zero_le (sub_nonneg.mpr (unitExponent_le hn hne he))
    have hwhole : (n : ℚ) * 2 ^ e / 2 ^ unitExponent (n * 2 ^ e) = ((n * 2 ^ k : ℤ) : ℚ) := by
      rw [mul_div_assoc, ← zpow_sub₀ two_ne_zero, hk]
      push_cast
      rfl
    unfold binary64
    rw [hwhole, halfEven_intCast, ← hwhole, div_mul_cancel₀ _ (zpow_ne_zero _ two_ne_zero)]

end Rounding
