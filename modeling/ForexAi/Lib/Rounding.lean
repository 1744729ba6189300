/-
Rounding to a number of decimal digits, ties to even.

This is the rounding every number of the ledger goes through before it is stored
or reported: scale by a power of ten, go to the nearest integer, send an exact
half to the even neighbour, scale back.  Everything is stated over an arbitrary
linearly ordered field with a floor, so nothing here depends on the rationals.

A rounded number is at most `y` exactly when the number before rounding is at most
half a unit in the last place above the largest representable number below `y`
(`roundTo_le_iff`), and a representable bound survives rounding (`roundTo_le_of_le`).
Ties to even make rounding odd (`roundTo_neg`) and a reflection at any representable
number (`roundTo_reflect`); both follow from the rounded number being the only nearest
one (`Nearest.unique`).  A column of so many decimals rounds its ties away from zero
instead (`numeric`).
-/
import Mathlib.Algebra.Order.Floor.Ring
import Mathlib.Algebra.Ring.Int.Parity
import Mathlib.Tactic.FieldSimp
import Mathlib.Tactic.Linarith
import Mathlib.Tactic.NormNum
import Mathlib.Tactic.Positivity
import Mathlib.Tactic.Ring

namespace Rounding

variable {K : Type*} [Field K] [LinearOrder K] [IsStrictOrderedRing K] [FloorRing K]

/-- The nearest integer, an exact half going to the even neighbour. -/
def halfEven (x : K) : ℤ :=
  if x - ⌊x⌋ < 1 / 2 then ⌊x⌋
  else if 1 / 2 < x - ⌊x⌋ then ⌊x⌋ + 1
  else if ⌊x⌋ % 2 = 0 then ⌊x⌋ else ⌊x⌋ + 1

/-- `round(x, digits)`. -/
def roundTo (digits : ℕ) (x : K) : K :=
  halfEven (x * 10 ^ digits) / 10 ^ digits

/-- Where the rounding of `x` lands at or below an integer `k`. -/
def RoundsBelow (x : K) (k : ℤ) : Prop :=
  x < k + 1 / 2 ∨ (x = k + 1 / 2 ∧ k % 2 = 0)

instance (x : K) (k : ℤ) : Decidable (RoundsBelow x k) := by
  unfold RoundsBelow
  infer_instance

omit [IsStrictOrderedRing K] in
/-- Rounding goes to the floor or to the number after it. -/
theorem halfEven_cases (x : K) : halfEven x = ⌊x⌋ ∨ halfEven x = ⌊x⌋ + 1 := by
  unfold halfEven
  split
  · exact Or.inl rfl
  · split
    · exact Or.inr rfl
    · split
      · exact Or.inl rfl
      · exact Or.inr rfl

/-- Rounding goes to the floor when the floor is nearest. -/
theorem halfEven_le_floor_iff (x : K) : halfEven x ≤ ⌊x⌋ ↔ RoundsBelow x ⌊x⌋ := by
  have hnext : ¬ ⌊x⌋ + 1 ≤ ⌊x⌋ := by omega
  unfold halfEven RoundsBelow
  by_cases hlt : x - ⌊x⌋ < 1 / 2
  · rw [if_pos hlt]
    exact iff_of_true le_rfl (Or.inl (by linarith))
  · rw [if_neg hlt]
    by_cases hgt : 1 / 2 < x - ⌊x⌋
    · rw [if_pos hgt]
      refine iff_of_false hnext ?_
      rintro (h | ⟨h, -⟩) <;> linarith
    · rw [if_neg hgt]
      have hhalf : x = ⌊x⌋ + 1 / 2 := by linarith [not_lt.mp hlt, not_lt.mp hgt]
      by_cases heven : ⌊x⌋ % 2 = 0
      · rw [if_pos heven]
        exact iff_of_true le_rfl (Or.inr ⟨hhalf, heven⟩)
      · rw [if_neg heven]
        refine iff_of_false hnext ?_
        rintro (h | ⟨-, h⟩)
        · linarith
        · exact heven h

theorem halfEven_le_iff (x : K) (k : ℤ) : halfEven x ≤ k ↔ RoundsBelow x k := by
  have hlow : (⌊x⌋ : K) ≤ x := Int.floor_le x
  have hhigh : x < ⌊x⌋ + 1 := Int.lt_floor_add_one x
  have hcases := halfEven_cases x
  -- Only at the floor itself does it matter where the number is between two integers.
  rcases lt_trichotomy k ⌊x⌋ with hk | rfl | hk
  · have hbelow : (k : K) + 1 ≤ ⌊x⌋ := by exact_mod_cast hk
    refine iff_of_false (by omega) ?_
    rintro (h | ⟨h, -⟩) <;> linarith
  · exact halfEven_le_floor_iff x
  · have habove : (⌊x⌋ : K) + 1 ≤ k := by exact_mod_cast hk
    exact iff_of_true (by omega) (Or.inl (by linarith))

/-- A rounded number is at most `y` exactly when the number before rounding lies
below the last representable number under `y` and half a unit more. -/
theorem roundTo_le_iff (digits : ℕ) (x y : K) :
    roundTo digits x ≤ y ↔ RoundsBelow (x * 10 ^ digits) ⌊y * 10 ^ digits⌋ := by
  have hpos : (0 : K) < 10 ^ digits := by positivity
  rw [← halfEven_le_iff, Int.le_floor]
  exact div_le_iff₀ hpos

omit [IsStrictOrderedRing K] [FloorRing K] in
/-- What rounds to at most `k` still does when it is made smaller. -/
theorem RoundsBelow.mono {x y : K} {k : ℤ} (hxy : x ≤ y) (h : RoundsBelow y k) :
    RoundsBelow x k := by
  rcases h with hlt | ⟨htie, heven⟩
  · exact Or.inl (lt_of_le_of_lt hxy hlt)
  · rcases lt_or_eq_of_le hxy with hlt | heq
    · exact Or.inl (htie ▸ hlt)
    · exact Or.inr ⟨heq.trans htie, heven⟩

omit [IsStrictOrderedRing K] [FloorRing K] in
/-- The smaller of two numbers rounds to at most `k` when one of them does. -/
theorem roundsBelow_min {x y : K} {k : ℤ} :
    RoundsBelow (min x y) k ↔ RoundsBelow x k ∨ RoundsBelow y k := by
  constructor
  · intro h
    rcases le_total x y with hxy | hyx
    · rw [min_eq_left hxy] at h
      exact Or.inl h
    · rw [min_eq_right hyx] at h
      exact Or.inr h
  · rintro (h | h)
    · exact h.mono (min_le_left x y)
    · exact h.mono (min_le_right x y)

theorem halfEven_mono {x y : K} (h : x ≤ y) : halfEven x ≤ halfEven y :=
  (halfEven_le_iff x _).mpr (((halfEven_le_iff y _).mp (le_refl _)).mono h)

theorem roundTo_mono (digits : ℕ) {x y : K} (h : x ≤ y) : roundTo digits x ≤ roundTo digits y := by
  have hpos : (0 : K) < 10 ^ digits := by positivity
  have hscaled := halfEven_mono (mul_le_mul_of_nonneg_right h hpos.le)
  unfold roundTo
  rw [div_le_div_iff_of_pos_right hpos]
  exact_mod_cast hscaled

/-- A number rounds to something below `y` exactly when it rounds to the largest representable
number below `y`, or to something smaller. -/
theorem roundTo_lt_iff (digits : ℕ) (x y : K) :
    roundTo digits x < y ↔ RoundsBelow (x * 10 ^ digits) (⌈y * 10 ^ digits⌉ - 1) := by
  have hpos : (0 : K) < 10 ^ digits := by positivity
  unfold roundTo
  rw [div_lt_iff₀ hpos, ← Int.lt_ceil, ← halfEven_le_iff, Int.le_sub_one_iff]

/-! ### Symmetry -/

/-- `n` is a nearest integer of `x`, and an even one where two are. -/
def Nearest (x : K) (n : ℤ) : Prop :=
  |x - n| ≤ 1 / 2 ∧ (|x - n| = 1 / 2 → n % 2 = 0)

theorem nearest_halfEven (x : K) : Nearest x (halfEven x) := by
  have hlow : (0 : K) ≤ x - ⌊x⌋ := sub_nonneg.mpr (Int.floor_le x)
  have hhigh : x - ⌊x⌋ < 1 := by linarith [Int.lt_floor_add_one x]
  have hnext : x - ((⌊x⌋ + 1 : ℤ) : K) = x - ⌊x⌋ - 1 := by
    push_cast
    ring
  unfold Nearest halfEven
  split
  · rename_i hlt
    rw [abs_of_nonneg hlow]
    exact ⟨hlt.le, fun heq => absurd heq hlt.ne⟩
  · rename_i hge
    split
    · rename_i hgt
      rw [hnext, abs_of_nonpos (by linarith)]
      exact ⟨by linarith, fun heq => by linarith⟩
    · rename_i hle
      have hhalf : x - ⌊x⌋ = 1 / 2 := le_antisymm (not_lt.mp hle) (not_lt.mp hge)
      split
      · rename_i heven
        rw [abs_of_nonneg hlow]
        exact ⟨hhalf.le, fun _ => heven⟩
      · rename_i hodd
        rw [hnext, abs_of_nonpos (by linarith)]
        exact ⟨by linarith, fun _ => by omega⟩

/-- The nearest integer is one only. -/
theorem Nearest.unique {x : K} {m n : ℤ} (hm : Nearest x m) (hn : Nearest x n) : m = n := by
  by_contra hne
  wlog hlt : m < n generalizing m n
  · exact this hn hm (Ne.symm hne) (lt_of_le_of_ne (not_lt.mp hlt) (Ne.symm hne))
  have hstep : (m : K) + 1 ≤ n := by exact_mod_cast hlt
  have hbelow := (abs_le.mp hm.1).2
  have habove := (abs_le.mp hn.1).1
  -- Both are half a unit away, so both are even, and they are neighbours.
  have hxm : x - m = 1 / 2 := by linarith
  have hxn : x - n = -(1 / 2) := by linarith
  have hnext : n = m + 1 := by
    have hcast : (n : K) = m + 1 := by linarith
    exact_mod_cast hcast
  have heven := hm.2 (by rw [hxm, abs_of_pos (by norm_num)])
  have heven' := hn.2 (by rw [hxn, abs_neg, abs_of_pos (by norm_num)])
  omega

theorem halfEven_eq_of_nearest {x : K} {n : ℤ} (h : Nearest x n) : halfEven x = n :=
  (nearest_halfEven x).unique h

omit [IsStrictOrderedRing K] [FloorRing K] in
theorem Nearest.neg {x : K} {n : ℤ} (h : Nearest x n) : Nearest (-x) (-n) := by
  have hdist : |-x - ((-n : ℤ) : K)| = |x - n| := by
    push_cast
    rw [show -x - -(n : K) = -(x - n) from by ring, abs_neg]
  unfold Nearest
  rw [hdist]
  exact ⟨h.1, fun heq => by have := h.2 heq; omega⟩

omit [IsStrictOrderedRing K] [FloorRing K] in
theorem Nearest.add_two_mul {x : K} {n : ℤ} (h : Nearest x n) (k : ℤ) :
    Nearest (x + 2 * k) (n + 2 * k) := by
  have hdist : |x + 2 * k - ((n + 2 * k : ℤ) : K)| = |x - n| := by
    push_cast
    rw [show x + 2 * (k : K) - (n + 2 * k) = x - n from by ring]
  unfold Nearest
  rw [hdist]
  exact ⟨h.1, fun heq => by have := h.2 heq; omega⟩

/-- Rounding is odd. -/
theorem halfEven_neg (x : K) : halfEven (-x) = -halfEven x :=
  halfEven_eq_of_nearest (nearest_halfEven x).neg

theorem halfEven_add_two_mul (x : K) (k : ℤ) : halfEven (x + 2 * k) = halfEven x + 2 * k :=
  halfEven_eq_of_nearest ((nearest_halfEven x).add_two_mul k)

theorem roundTo_neg (digits : ℕ) (x : K) : roundTo digits (-x) = -roundTo digits x := by
  unfold roundTo
  rw [neg_mul, halfEven_neg]
  push_cast
  rw [neg_div]

/-- What rounds to nothing or less is half a unit at most. -/
theorem roundTo_nonpos_iff (digits : ℕ) (x : K) :
    roundTo digits x ≤ 0 ↔ x ≤ 1 / 2 / 10 ^ digits := by
  have hpos : (0 : K) < 10 ^ digits := by positivity
  have hunit : x ≤ 1 / 2 / 10 ^ digits ↔ x * 10 ^ digits ≤ 1 / 2 := le_div_iff₀ hpos
  have hfloor : ⌊(0 : K) * 10 ^ digits⌋ = 0 := by simp
  rw [roundTo_le_iff, hfloor, hunit]
  unfold RoundsBelow
  push_cast
  rw [zero_add]
  constructor
  · rintro (hlt | ⟨heq, -⟩)
    · exact hlt.le
    · exact heq.le
  · intro hle
    rcases lt_or_eq_of_le hle with hlt | heq
    · exact Or.inl hlt
    · exact Or.inr ⟨heq, trivial⟩

theorem roundTo_nonneg_iff (digits : ℕ) (x : K) :
    0 ≤ roundTo digits x ↔ -(1 / 2 / 10 ^ digits) ≤ x := by
  have hneg := roundTo_nonpos_iff digits (-x)
  rw [roundTo_neg, neg_nonpos] at hneg
  rw [hneg, neg_le]

/-- A rounded number is at most half a unit in the last place away. -/
theorem abs_roundTo_sub_le (digits : ℕ) (x : K) :
    |x - roundTo digits x| ≤ 1 / 2 / 10 ^ digits := by
  have hpos : (0 : K) < 10 ^ digits := by positivity
  have hscaled : x - roundTo digits x =
      (x * 10 ^ digits - halfEven (x * 10 ^ digits)) / 10 ^ digits := by
    unfold roundTo
    field_simp
  rw [hscaled, abs_div, abs_of_pos hpos, div_le_div_iff_of_pos_right hpos]
  exact (nearest_halfEven _).1

/-- A rounded number is representable. -/
theorem roundTo_scaled (digits : ℕ) (x : K) :
    roundTo digits x * 10 ^ digits = halfEven (x * 10 ^ digits) := by
  have hpos : (0 : K) < 10 ^ digits := by positivity
  exact div_mul_cancel₀ _ hpos.ne'

/-- **Rounding reflects at a representable number.** -/
theorem roundTo_reflect (digits : ℕ) {c : K} {n : ℤ} (hc : c * 10 ^ digits = n) (x : K) :
    roundTo digits (c - x) + roundTo digits (c + x) = 2 * c := by
  have hpos : (0 : K) < 10 ^ digits := by positivity
  have hright : halfEven ((c + x) * 10 ^ digits)
      = -halfEven ((c - x) * 10 ^ digits) + 2 * n := by
    rw [← halfEven_neg, ← halfEven_add_two_mul]
    congr 1
    rw [← hc]
    ring
  unfold roundTo
  rw [hright, ← add_div, div_eq_iff hpos.ne']
  push_cast
  rw [← hc]
  ring

/-- A bound that is representable survives rounding. -/
theorem roundTo_le_of_le (digits : ℕ) {x c : K} {n : ℤ} (hc : c * 10 ^ digits = n) (h : x ≤ c) :
    roundTo digits x ≤ c := by
  have hpos : (0 : K) < 10 ^ digits := by positivity
  rw [roundTo_le_iff, hc, Int.floor_intCast]
  left
  have hscaled : x * 10 ^ digits ≤ n := by
    rw [← hc]
    exact mul_le_mul_of_nonneg_right h hpos.le
  linarith

theorem le_roundTo_of_le (digits : ℕ) {x c : K} {n : ℤ} (hc : c * 10 ^ digits = n) (h : c ≤ x) :
    c ≤ roundTo digits x := by
  have hneg : roundTo digits (-x) ≤ -c := by
    refine roundTo_le_of_le digits (n := -n) ?_ (neg_le_neg h)
    rw [neg_mul, hc]
    push_cast
    rfl
  rw [roundTo_neg] at hneg
  exact neg_le_neg_iff.mp hneg

/-! ### What a column keeps

A number is stored as the nearest one with the decimals of its column, an exact half going
away from zero.  What is stored is stored again as it is, so it does not matter how often a
row is written and read back.
-/

/-- The nearest integer, an exact half going away from zero. -/
def halfAway (x : K) : ℤ := if 0 ≤ x then ⌊x + 1 / 2⌋ else -⌊-x + 1 / 2⌋

/-- A `NUMERIC` column of so many decimals. -/
def numeric (digits : ℕ) (x : K) : K := halfAway (x * 10 ^ digits) / 10 ^ digits

theorem halfAway_intCast (n : ℤ) : halfAway (n : K) = n := by
  have hhalf : ∀ m : ℤ, ⌊(m : K) + 1 / 2⌋ = m := fun m => by
    rw [Int.floor_eq_iff]
    constructor <;> linarith
  unfold halfAway
  split
  · exact hhalf n
  · rw [← Int.cast_neg, hhalf, neg_neg]

/-- **What a column keeps it keeps.** -/
theorem numeric_numeric (digits : ℕ) (x : K) :
    numeric digits (numeric digits x) = numeric digits x := by
  have hpos : (10 : K) ^ digits ≠ 0 := by positivity
  have hwhole : numeric digits x * 10 ^ digits = halfAway (x * 10 ^ digits) :=
    div_mul_cancel₀ _ hpos
  show (halfAway (numeric digits x * 10 ^ digits) : K) / 10 ^ digits = numeric digits x
  rw [hwhole, halfAway_intCast]
  rfl

end Rounding
