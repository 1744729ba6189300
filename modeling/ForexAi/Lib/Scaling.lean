/-
A column in another unit.

Multiplying every value by `c` changes the unit a column is counted in.  What is linear is
multiplied along: means, differences, exponential means (`ewmMean_scale`), Wilder's smoothing
(`wilderSmooth_scale`), and for a positive `c` the trailing maximum and minimum as well.  A
quotient of two columns in one unit does not notice (`div_scale`).
-/
import ForexAi.Lib.Reflection
import Mathlib.Algebra.BigOperators.Ring.List

namespace Columns

/-! ### Linear operations -/

section Linear

variable {K : Type*} [Field K]

theorem scale_eq (c : K) (xs : Column K) : scale c xs = mapValues (c * ·) xs := rfl

theorem ofList_scale (c : K) (xs : List K) : ofList (xs.map (c * ·)) = scale c (ofList xs) :=
  ofList_map _ _

@[simp] theorem lastValid_scale (c : K) (xs : Column K) :
    lastValid (scale c xs) = (lastValid xs).map (c * ·) := lastValid_mapValues _ _

theorem shift_scale (c : K) (xs : Column K) : shift (scale c xs) = scale c (shift xs) :=
  shift_mapValues _ _

/-- Two changes of the unit come to the same in either order. -/
theorem scale_scale (c d : K) (xs : Column K) : scale d (scale c xs) = scale c (scale d xs) := by
  rw [scale_eq, scale_eq, scale_eq, scale_eq, mapValues_mapValues, mapValues_mapValues]
  refine congrArg (mapValues · xs) (funext fun x => ?_)
  exact mul_left_comm d c x

theorem sub_scale (c : K) (xs ys : Column K) :
    sub (scale c xs) (scale c ys) = scale c (sub xs ys) :=
  zip_mapValues (fun a b => congrArg some (mul_sub c a b).symm) xs ys

theorem add_scale (c : K) (xs ys : Column K) :
    add (scale c xs) (scale c ys) = scale c (add xs ys) :=
  zip_mapValues (fun a b => congrArg some (mul_add c a b).symm) xs ys

theorem diff_scale (c : K) (xs : Column K) : diff (scale c xs) = scale c (diff xs) := by
  unfold diff
  rw [shift_scale, sub_scale]

/-- What is multiplied along value by value. -/
theorem map_scale {c : K} {f : K → K} (h : ∀ x, f (c * x) = c * f x) (xs : Column K) :
    (scale c xs).map (·.map f) = scale c (xs.map (·.map f)) := by
  unfold scale
  rw [List.map_map, List.map_map]
  refine List.map_congr_left fun x _ => ?_
  cases x with
  | none => rfl
  | some a => exact congrArg some (h a)

/-- A quotient of two columns has no unit. -/
theorem div_scale [DecidableEq K] {c : K} (hne : c ≠ 0) (xs ys : Column K) :
    div (scale c xs) (scale c ys) = div xs ys := by
  have hquotient : ∀ a b : K, (if c * b = 0 then none else some (c * a / (c * b)))
      = (if b = 0 then none else some (a / b)).map id := by
    intro a b
    rw [Option.map_id_fun, id_eq, mul_div_mul_left a b hne]
    simp only [mul_eq_zero, hne, false_or]
  have h := @zip_mapValues K (fun a b => if b = 0 then none else some (a / b))
    (fun a b => if b = 0 then none else some (a / b)) (c * ·) (c * ·) id hquotient xs ys
  rw [mapValues_id] at h
  exact h

/-- Nor has a multiple of one. -/
theorem div_scale_multiple [DecidableEq K] {c : K} (hne : c ≠ 0) (d : K) (xs ys : Column K) :
    div (scale d (scale c xs)) (scale c ys) = div (scale d xs) ys := by
  rw [scale_scale, div_scale hne]

theorem meanOf_scale (c : K) (w : List K) : meanOf (w.map (c * ·)) = c * meanOf w := by
  unfold meanOf
  rw [List.sum_map_mul_left, List.map_id', List.length_map, mul_div_assoc]

theorem rolling_mean_scale (n : ℕ) (c : K) (xs : Column K) :
    rolling n (fun w => some (meanOf w)) (scale c xs)
      = scale c (rolling n (fun w => some (meanOf w)) xs) :=
  rolling_mapValues (fun w _ => congrArg some (meanOf_scale c w)) xs

theorem mean_scale (c : K) (xs : Column K) : mean (scale c xs) = (mean xs).map (c * ·) := by
  unfold mean
  rw [scale_eq, present_mapValues]
  cases present xs with
  | nil => rfl
  | cons x rest => exact congrArg some (meanOf_scale c (x :: rest))

/-! ### Smoothings -/

theorem wilderStep_scale (n : ℕ) (c : K) (before value : Option K) :
    wilderStep n (before.map (c * ·)) (value.map (c * ·))
      = (wilderStep n before value).map (c * ·) := by
  cases before with
  | none => rfl
  | some b =>
      cases value with
      | none => rfl
      | some v =>
          show some (1 / (n : K) * (c * v) + (1 - 1 / (n : K)) * (c * b))
            = some (c * (1 / (n : K) * v + (1 - 1 / (n : K)) * b))
          refine congrArg some ?_
          ring

theorem scanl_wilderStep_scale (n : ℕ) (c : K) (xs : Column K) : ∀ seed : Option K,
    List.scanl (wilderStep n) (seed.map (c * ·)) (scale c xs)
      = scale c (List.scanl (wilderStep n) seed xs) := by
  induction xs with
  | nil => intro seed; rfl
  | cons x rest ih =>
      intro seed
      show List.scanl (wilderStep n) (seed.map (c * ·)) (x.map (c * ·) :: scale c rest) = _
      rw [List.scanl_cons, List.scanl_cons, wilderStep_scale, ih]
      rfl

/-- Wilder's smoothing is multiplied along. -/
theorem wilderSmooth_scale (n : ℕ) (c : K) (xs : Column K) :
    wilderSmooth n (scale c xs) = scale c (wilderSmooth n xs) := by
  have htake : (scale c xs).take n = scale c (xs.take n) := List.map_take.symm
  have hdrop : (scale c xs).drop n = scale c (xs.drop n) := List.map_drop.symm
  have hlength : (scale c xs).length = xs.length := List.length_map _
  unfold wilderSmooth
  rw [htake, hdrop, hlength, mean_scale, scanl_wilderStep_scale]
  by_cases hshort : xs.length < n
  · rw [if_pos hshort, if_pos hshort]
    simp [scale, Function.comp_def]
  · rw [if_neg hshort, if_neg hshort]
    simp [scale]

/-- A state of an exponential mean, in another unit. -/
def EwmState.scale (c : K) (s : EwmState K) : EwmState K :=
  { s with weighted := s.weighted.map (c * ·) }

theorem ewmStep_scale (alpha c : K) (s : EwmState K) (value : Option K) :
    ewmStep alpha (s.scale c) (value.map (c * ·)) = (ewmStep alpha s value).scale c := by
  obtain ⟨weighted, oldWeight, observed⟩ := s
  cases weighted with
  | none => cases value <;> rfl
  | some w =>
      cases value with
      | none => rfl
      | some v =>
          simp only [EwmState.scale, ewmStep, Option.map_some, EwmState.mk.injEq,
            Option.some.injEq, and_true]
          ring

theorem scanl_ewmStep_scale (alpha c : K) (xs : Column K) : ∀ s : EwmState K,
    List.scanl (ewmStep alpha) (s.scale c) (scale c xs)
      = (List.scanl (ewmStep alpha) s xs).map (EwmState.scale c) := by
  induction xs with
  | nil => intro s; rfl
  | cons x rest ih =>
      intro s
      show List.scanl (ewmStep alpha) (s.scale c) (x.map (c * ·) :: scale c rest) = _
      rw [List.scanl_cons, List.scanl_cons, List.map_cons, ewmStep_scale, ih]

/-- An exponential mean is multiplied along. -/
theorem ewmMean_scale (alpha : K) (minPeriods : ℕ) (c : K) (xs : Column K) :
    ewmMean alpha minPeriods (scale c xs) = scale c (ewmMean alpha minPeriods xs) := by
  have hscan := scanl_ewmStep_scale alpha c xs { weighted := none, oldWeight := 1, observed := 0 }
  simp only [EwmState.scale, Option.map_none] at hscan
  simp only [ewmMean]
  rw [hscan, scale, List.map_map, ← List.map_tail, List.map_map]
  refine List.map_congr_left fun s _ => ?_
  exact (apply_ite (Option.map (c * ·)) _ none s.weighted).symm

end Linear

/-! ### A positive unit -/

section Ordered

variable {K : Type*} [Field K] [LinearOrder K] [IsStrictOrderedRing K]

theorem rolling_max_scale (n : ℕ) {c : K} (h : 0 ≤ c) (xs : Column K) :
    rolling n List.max? (scale c xs) = scale c (rolling n List.max? xs) := by
  refine rolling_mapValues (fun w _ => ?_) xs
  cases w with
  | nil => rfl
  | cons x rest =>
      rw [List.map_cons, List.max?_cons', List.max?_cons', Option.map_some, List.foldl_map]
      exact congrArg some (List.foldl_hom (c * ·) fun a b => (mul_max_of_nonneg a b h).symm)

theorem rolling_min_scale (n : ℕ) {c : K} (h : 0 ≤ c) (xs : Column K) :
    rolling n List.min? (scale c xs) = scale c (rolling n List.min? xs) := by
  refine rolling_mapValues (fun w _ => ?_) xs
  cases w with
  | nil => rfl
  | cons x rest =>
      rw [List.map_cons, List.min?_cons', List.min?_cons', Option.map_some, List.foldl_map]
      exact congrArg some (List.foldl_hom (c * ·) fun a b => (mul_min_of_nonneg a b h).symm)

end Ordered

end Columns
