/-
Numbers with the values a float has beside the finite ones.

A float is finite, infinite or not a number.  `Extended K` keeps the finite ones as
elements of a field, so on them the operations are exact; with the other values they do
what the standard for floats says.  Nothing compares with `nan`, so a check that refuses
what is below a bound or above one lets it pass, and a check that asks for a comparison
to hold does not.

`least` and `roundTo` are the `min` and the `round` of a language that only asks for
comparisons: the first of two numbers stays unless the second is below it, and a number
that is not finite rounds to itself.
-/
import ForexAi.Lib.Rounding

inductive Extended (K : Type*) where
  | fin (x : K)
  | inf (negative : Bool)
  | nan
  deriving DecidableEq

namespace Extended

variable {K : Type*}

section Order

variable [LinearOrder K]

def lt : Extended K → Extended K → Bool
  | fin x, fin y => decide (x < y)
  | fin _, inf negative => !negative
  | inf negative, fin _ => negative
  | inf negative, inf negative' => negative && !negative'
  | nan, _ => false
  | _, nan => false

def le : Extended K → Extended K → Bool
  | fin x, fin y => decide (x ≤ y)
  | fin _, inf negative => !negative
  | inf negative, fin _ => negative
  | inf negative, inf negative' => negative || !negative'
  | nan, _ => false
  | _, nan => false

instance : LT (Extended K) := ⟨fun x y => lt x y = true⟩
instance : LE (Extended K) := ⟨fun x y => le x y = true⟩
instance : DecidableLT (Extended K) := fun x y => inferInstanceAs (Decidable (lt x y = true))
instance : DecidableLE (Extended K) := fun x y => inferInstanceAs (Decidable (le x y = true))

/-- The smaller of two numbers, the first unless the second is below it. -/
def least (x y : Extended K) : Extended K := if y < x then y else x

@[simp] theorem fin_lt_fin (x y : K) : fin x < fin y ↔ x < y := decide_eq_true_iff

@[simp] theorem fin_le_fin (x y : K) : fin x ≤ fin y ↔ x ≤ y := decide_eq_true_iff

@[simp] theorem fin_lt_inf (x : K) (negative : Bool) : fin x < inf negative ↔ negative = false := by
  cases negative with
  | false => exact iff_of_true rfl rfl
  | true => exact iff_of_false Bool.false_ne_true (by decide)

@[simp] theorem inf_lt_fin (x : K) (negative : Bool) : inf negative < fin x ↔ negative = true :=
  Iff.rfl

@[simp] theorem fin_le_inf (x : K) (negative : Bool) : fin x ≤ inf negative ↔ negative = false := by
  cases negative with
  | false => exact iff_of_true rfl rfl
  | true => exact iff_of_false Bool.false_ne_true (by decide)

@[simp] theorem inf_le_fin (x : K) (negative : Bool) : inf negative ≤ fin x ↔ negative = true :=
  Iff.rfl

@[simp] theorem not_nan_lt (x : Extended K) : ¬ nan < x := Bool.false_ne_true

@[simp] theorem not_lt_nan (x : Extended K) : ¬ x < nan := by
  cases x <;> exact Bool.false_ne_true

@[simp] theorem not_nan_le (x : Extended K) : ¬ nan ≤ x := Bool.false_ne_true

@[simp] theorem not_le_nan (x : Extended K) : ¬ x ≤ nan := by
  cases x <;> exact Bool.false_ne_true

@[simp] theorem least_fin (x y : K) : least (fin x) (fin y) = fin (min x y) := by
  unfold least
  by_cases h : y < x
  · rw [if_pos ((fin_lt_fin y x).mpr h), min_eq_right h.le]
  · rw [if_neg (mt (fin_lt_fin y x).mp h), min_eq_left (not_lt.mp h)]

end Order

section Sums

variable [Field K]

def neg : Extended K → Extended K
  | fin x => fin (-x)
  | inf negative => inf !negative
  | nan => nan

def add : Extended K → Extended K → Extended K
  | fin x, fin y => fin (x + y)
  | fin _, inf negative => inf negative
  | inf negative, fin _ => inf negative
  | inf negative, inf negative' => if negative = negative' then inf negative else nan
  | nan, _ => nan
  | _, nan => nan

instance : Neg (Extended K) := ⟨neg⟩
instance : Add (Extended K) := ⟨add⟩
instance : Sub (Extended K) := ⟨fun x y => x + -y⟩

@[simp] theorem fin_add_fin (x y : K) : fin x + fin y = fin (x + y) := rfl

@[simp] theorem fin_sub_fin (x y : K) : fin x - fin y = fin (x - y) := by
  rw [sub_eq_add_neg]
  rfl

@[simp] theorem fin_add_inf (x : K) (negative : Bool) : fin x + inf negative = inf negative := rfl

@[simp] theorem fin_add_nan (x : K) : fin x + nan = nan := rfl

end Sums

section Products

variable [Field K] [LinearOrder K]

/-- An infinity times a finite number. -/
def scaleInf (negative : Bool) (x : K) : Extended K :=
  if x = 0 then nan else inf (negative ^^ decide (x < 0))

def mul : Extended K → Extended K → Extended K
  | fin x, fin y => fin (x * y)
  | fin x, inf negative => scaleInf negative x
  | inf negative, fin x => scaleInf negative x
  | inf negative, inf negative' => inf (negative ^^ negative')
  | nan, _ => nan
  | _, nan => nan

/-- Division; whoever divides by a finite zero has to ask before. -/
def div : Extended K → Extended K → Extended K
  | fin x, fin y => fin (x / y)
  | fin _, inf _ => fin 0
  | inf negative, fin x => inf (negative ^^ decide (x < 0))
  | inf _, inf _ => nan
  | nan, _ => nan
  | _, nan => nan

instance : Mul (Extended K) := ⟨mul⟩
instance : Div (Extended K) := ⟨div⟩

@[simp] theorem fin_mul_fin (x y : K) : fin x * fin y = fin (x * y) := rfl

@[simp] theorem fin_div_fin (x y : K) : fin x / fin y = fin (x / y) := rfl

@[simp] theorem nan_mul (x : Extended K) : nan * x = nan := rfl

@[simp] theorem nan_div (x : Extended K) : nan / x = nan := rfl

@[simp] theorem fin_div_inf (x : K) (negative : Bool) : fin x / inf negative = fin 0 := rfl

theorem inf_mul_fin {x : K} (hpos : 0 < x) (negative : Bool) :
    inf negative * fin x = inf negative := by
  show scaleInf negative x = _
  unfold scaleInf
  rw [if_neg hpos.ne', decide_eq_false hpos.not_gt, Bool.xor_false]

theorem fin_mul_inf {x : K} (hpos : 0 < x) (negative : Bool) :
    fin x * inf negative = inf negative :=
  inf_mul_fin hpos negative

theorem neg_mul_inf {x : K} (hneg : x < 0) (negative : Bool) :
    fin x * inf negative = inf !negative := by
  show scaleInf negative x = _
  unfold scaleInf
  rw [if_neg hneg.ne, decide_eq_true hneg, Bool.xor_true]

end Products

section Rounded

variable [Field K] [LinearOrder K] [FloorRing K]

def roundTo (digits : ℕ) : Extended K → Extended K
  | fin x => fin (Rounding.roundTo digits x)
  | inf negative => inf negative
  | nan => nan

@[simp] theorem roundTo_fin (digits : ℕ) (x : K) :
    roundTo digits (fin x) = fin (Rounding.roundTo digits x) := rfl

@[simp] theorem roundTo_inf (digits : ℕ) (negative : Bool) :
    roundTo digits (inf negative : Extended K) = inf negative := rfl

@[simp] theorem roundTo_nan (digits : ℕ) : roundTo digits (nan : Extended K) = nan := rfl

end Rounded

end Extended
