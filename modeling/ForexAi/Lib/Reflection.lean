/-
A column and its reflection.

Turning every value `x` of a column into `k - x` is how a falling market is made out of a
rising one.  Each operation on columns either takes the reflection along or swaps with its
counterpart: a mean is reflected (`rolling_mean_reflect`), an exponential mean is reflected
(`ewmMean_reflect`), a difference only changes its sign (`sub_reflect`), and a trailing maximum
becomes the trailing minimum (`rolling_max_reflect`).  Below that are the general rules for
`mapValues`, a function applied to the values that are there.

Gains and losses are smoothed after they have been told apart, so of Wilder's smoothing only the
sign is needed (`Nonneg.wilderSmooth`).  The last section reads a rolling column at its end, where
the whole window is at hand.
-/
import ForexAi.Lib.Averages
import ForexAi.Lib.Columns
import Mathlib.Algebra.Order.Field.Basic
import Mathlib.Algebra.Order.Group.MinMax
import Mathlib.Algebra.Order.BigOperators.Group.List
import Mathlib.Tactic.FieldSimp
import Mathlib.Tactic.Linarith
import Mathlib.Tactic.Ring

namespace Columns

/-! ### A function on the values -/

section MapValues

variable {K : Type*}

/-- A function applied to the values that are there. -/
def mapValues (f : K → K) (xs : Column K) : Column K := xs.map (Option.map f)

@[simp] theorem length_mapValues (f : K → K) (xs : Column K) :
    (mapValues f xs).length = xs.length := List.length_map _

theorem ofList_map (f : K → K) (xs : List K) : ofList (xs.map f) = mapValues f (ofList xs) := by
  simp [ofList, mapValues, Function.comp_def]

theorem zip_swap (f : K → K → Option K) (xs ys : Column K) :
    zip f xs ys = zip (fun a b => f b a) ys xs := by
  unfold zip
  rw [List.zipWith_comm]
  refine congrFun (congrFun (congrArg List.zipWith ?_) ys) xs
  funext y x
  cases x <;> cases y <;> rfl

@[simp] theorem mapValues_id (xs : Column K) : mapValues id xs = xs := by
  simp [mapValues]

theorem mapValues_mapValues (f g : K → K) (xs : Column K) :
    mapValues f (mapValues g xs) = mapValues (f ∘ g) xs := by
  simp [mapValues]

/-- A function of two columns commutes with functions on the values, when it does so on the
values that occur. -/
theorem zip_mapValues_of {f g : K → K → Option K} {φ ψ χ : K → K} {P Q : K → Prop}
    (h : ∀ a b, P a → Q b → f (φ a) (ψ b) = (g a b).map χ) {xs ys : Column K}
    (hxs : ∀ a, some a ∈ xs → P a) (hys : ∀ b, some b ∈ ys → Q b) :
    zip f (mapValues φ xs) (mapValues ψ ys) = mapValues χ (zip g xs ys) := by
  unfold zip mapValues
  rw [List.zipWith_map, List.map_zipWith]
  induction xs generalizing ys with
  | nil => rfl
  | cons x xs ih =>
      cases ys with
      | nil => rfl
      | cons y ys =>
          rw [List.zipWith_cons_cons, List.zipWith_cons_cons,
            ih (fun a ha => hxs a (List.mem_cons_of_mem _ ha))
              (fun b hb => hys b (List.mem_cons_of_mem _ hb))]
          congr 1
          cases x with
          | none => rfl
          | some a =>
              cases y with
              | none => rfl
              | some b => exact h a b (hxs a List.mem_cons_self) (hys b List.mem_cons_self)

theorem zip_mapValues {f g : K → K → Option K} {φ ψ χ : K → K}
    (h : ∀ a b, f (φ a) (ψ b) = (g a b).map χ) (xs ys : Column K) :
    zip f (mapValues φ xs) (mapValues ψ ys) = mapValues χ (zip g xs ys) :=
  zip_mapValues_of (P := fun _ => True) (Q := fun _ => True) (fun a b _ _ => h a b)
    (fun _ _ => trivial) (fun _ _ => trivial)

theorem shift_mapValues (f : K → K) (xs : Column K) :
    shift (mapValues f xs) = mapValues f (shift xs) := by
  cases xs with
  | nil => rfl
  | cons x rest =>
      show none :: (mapValues f (x :: rest)).dropLast = none :: mapValues f (x :: rest).dropLast
      rw [mapValues, mapValues, List.map_dropLast]

theorem present_mapValues (f : K → K) (xs : Column K) :
    present (mapValues f xs) = (present xs).map f := by
  induction xs with
  | nil => rfl
  | cons x rest ih =>
      cases x with
      | none => exact ih
      | some a => exact congrArg (f a :: ·) ih

@[simp] theorem lastValid_mapValues (f : K → K) (xs : Column K) :
    lastValid (mapValues f xs) = (lastValid xs).map f := by
  unfold lastValid
  rw [present_mapValues, List.getLast?_map]

theorem mapM_mapValues (f : K → K) (xs : Column K) :
    (mapValues f xs).mapM id = (xs.mapM id).map (List.map f) := by
  induction xs with
  | nil => rfl
  | cons x rest ih =>
      rw [mapValues, List.map_cons, List.mapM_cons, List.mapM_cons]
      rw [mapValues] at ih
      rw [ih]
      cases x with
      | none => rfl
      | some a => cases rest.mapM id <;> rfl

/-- The values of a window without gaps are as many as the window has places. -/
theorem length_of_mapM {xs : Column K} {w : List K} (h : xs.mapM id = some w) :
    w.length = xs.length := by
  rw [mapM_eq_some h, ofList, List.length_map]

/-- A rolling window commutes with functions on the values, when it does so on windows of its
size. -/
theorem rolling_mapValues {n : ℕ} {f g : List K → Option K} {φ χ : K → K}
    (h : ∀ w : List K, w.length = n → f (w.map φ) = (g w).map χ) (xs : Column K) :
    rolling n f (mapValues φ xs) = mapValues χ (rolling n g xs) := by
  unfold rolling
  rw [length_mapValues]
  conv_rhs => rw [mapValues, List.map_map]
  refine List.map_congr_left fun i hi => ?_
  have hlt : i < xs.length := List.mem_range.mp hi
  simp only [Function.comp_apply]
  split
  · rfl
  · rename_i hlong
    have hslice : ((mapValues φ xs).take (i + 1)).drop (i + 1 - n)
        = mapValues φ ((xs.take (i + 1)).drop (i + 1 - n)) := by
      rw [mapValues, mapValues, List.map_drop, List.map_take]
    rw [hslice, mapM_mapValues]
    cases hwin : ((xs.take (i + 1)).drop (i + 1 - n)).mapM id with
    | none => rfl
    | some w =>
        refine h w ?_
        rw [length_of_mapM hwin, List.length_drop, List.length_take]
        omega

end MapValues

/-! ### The reflection -/

section Reflect

variable {K : Type*} [Field K]

/-- Every value turned into its distance below `k`. -/
def reflect (k : K) (xs : Column K) : Column K := mapValues (k - ·) xs

@[simp] theorem lastValid_reflect (k : K) (xs : Column K) :
    lastValid (reflect k xs) = (lastValid xs).map (k - ·) := lastValid_mapValues _ _

theorem ofList_reflect (k : K) (xs : List K) :
    ofList (xs.map (k - ·)) = reflect k (ofList xs) := ofList_map _ _

@[simp] theorem reflect_reflect (k : K) (xs : Column K) : reflect k (reflect k xs) = xs := by
  unfold reflect
  rw [mapValues_mapValues, show (fun x => k - x) ∘ (fun x => k - x) = id from
    funext fun x => sub_sub_cancel k x, mapValues_id]

theorem shift_reflect (k : K) (xs : Column K) : shift (reflect k xs) = reflect k (shift xs) :=
  shift_mapValues _ _

/-- Turning a column around zero only changes the sign. -/
theorem scale_neg_one (xs : Column K) : scale (-1) xs = reflect 0 xs := by
  unfold scale reflect mapValues
  simp

theorem sub_reflect (j k : K) (xs ys : Column K) :
    sub (reflect j xs) (reflect k ys) = reflect (j - k) (sub xs ys) :=
  zip_mapValues (fun a b => congrArg some (by ring)) xs ys

theorem reflect_zero_sub (xs ys : Column K) : reflect 0 (sub xs ys) = sub ys xs := by
  unfold sub
  rw [zip_swap _ ys xs]
  have h := @zip_mapValues K (fun a b => some (b - a)) (fun a b => some (a - b)) id id (0 - ·)
    (fun a b => congrArg some (by simp)) xs ys
  rw [mapValues_id, mapValues_id] at h
  exact h.symm

/-- Two columns turned around the same value swap places in a difference. -/
theorem sub_reflect_same (k : K) (xs ys : Column K) :
    sub (reflect k xs) (reflect k ys) = sub ys xs := by
  rw [sub_reflect, sub_self, reflect_zero_sub]

theorem diff_reflect (k : K) (xs : Column K) : diff (reflect k xs) = reflect 0 (diff xs) := by
  unfold diff
  rw [shift_reflect, sub_reflect, sub_self]

/-- Above the reflection is below the column. -/
theorem add_reflect (k : K) (xs ys : Column K) :
    add (reflect k xs) ys = reflect k (sub xs ys) := by
  have h := @zip_mapValues K (fun a b => some (a + b)) (fun a b => some (a - b)) (k - ·) id (k - ·)
    (fun a b => congrArg some (by simp only [id_eq]; ring)) xs ys
  rw [mapValues_id] at h
  exact h

theorem sub_reflect_left (k : K) (xs ys : Column K) :
    sub (reflect k xs) ys = reflect k (add xs ys) := by
  have h := @zip_mapValues K (fun a b => some (a - b)) (fun a b => some (a + b)) (k - ·) id (k - ·)
    (fun a b => congrArg some (by simp only [id_eq]; ring)) xs ys
  rw [mapValues_id] at h
  exact h

theorem add_swap (xs ys : Column K) : add xs ys = add ys xs := by
  unfold add
  rw [zip_swap]
  simp only [add_comm]

/-- The distance to the top of the range is what the distance to its bottom leaves. -/
theorem range_position_reflect [DecidableEq K] (c : K) (xs lowest highest : Column K) :
    div (scale c (sub highest xs)) (sub highest lowest)
      = reflect c (div (scale c (sub xs lowest)) (sub highest lowest)) := by
  induction xs generalizing lowest highest with
  | nil => simp [div, scale, sub, zip, reflect, mapValues]
  | cons x xs ih =>
      cases lowest with
      | nil => simp [div, scale, sub, zip, reflect, mapValues]
      | cons l lowest =>
          cases highest with
          | nil => simp [div, scale, sub, zip, reflect, mapValues]
          | cons h highest =>
              have htail := ih lowest highest
              simp only [div, scale, sub, zip, reflect, mapValues, List.zipWith_cons_cons,
                List.map_cons, List.cons.injEq] at htail ⊢
              refine ⟨?_, htail⟩
              cases x with
              | none => cases h <;> cases l <;> rfl
              | some x =>
                  cases l with
                  | none => cases h <;> rfl
                  | some l =>
                      cases h with
                      | none => rfl
                      | some h =>
                          simp only [Option.bind_some, Option.map_some]
                          split
                          · rfl
                          · rename_i hne
                            refine congrArg some ?_
                            field_simp
                            ring

end Reflect

section Means

variable {K : Type*} [Field K]

theorem sum_map_sub_left (k : K) (w : List K) :
    (w.map (k - ·)).sum = w.length * k - w.sum := by
  induction w with
  | nil => simp
  | cons x rest ih =>
      rw [List.map_cons, List.sum_cons, ih, List.sum_cons, List.length_cons]
      push_cast
      ring

/-- A mean is reflected. -/
theorem meanOf_reflect [CharZero K] (k : K) {w : List K} (h : w ≠ []) :
    meanOf (w.map (k - ·)) = k - meanOf w := by
  have hlen : (w.length : K) ≠ 0 := Nat.cast_ne_zero.mpr (mt List.length_eq_zero_iff.mp h)
  unfold meanOf
  rw [sum_map_sub_left, List.length_map]
  field_simp

theorem rolling_mean_reflect [CharZero K] {n : ℕ} (hpos : 0 < n) (k : K) (xs : Column K) :
    rolling n (fun w => some (meanOf w)) (reflect k xs)
      = reflect k (rolling n (fun w => some (meanOf w)) xs) := by
  refine rolling_mapValues (fun w hw => congrArg some (meanOf_reflect k ?_)) xs
  rintro rfl
  exact absurd hw hpos.ne

end Means

section Ordered

variable {K : Type*} [Field K] [LinearOrder K] [IsStrictOrderedRing K]

/-- The largest value of a reflected window is the reflection of the smallest. -/
theorem max?_reflect (k : K) (w : List K) : (w.map (k - ·)).max? = w.min?.map (k - ·) := by
  cases w with
  | nil => rfl
  | cons x rest =>
      rw [List.map_cons, List.max?_cons', List.min?_cons', Option.map_some, List.foldl_map]
      exact congrArg some
        (List.foldl_hom (k - ·) fun a b => max_sub_sub_left k a b)

theorem rolling_max_reflect (n : ℕ) (k : K) (xs : Column K) :
    rolling n List.max? (reflect k xs) = reflect k (rolling n List.min? xs) :=
  rolling_mapValues (fun w _ => max?_reflect k w) xs

theorem rolling_min_reflect (n : ℕ) (k : K) (xs : Column K) :
    rolling n List.min? (reflect k xs) = reflect k (rolling n List.max? xs) := by
  have h := rolling_max_reflect n k (reflect k xs)
  rw [reflect_reflect] at h
  rw [h, reflect_reflect]

/-! ### The exponential mean -/

/-- A state of an exponential mean, turned around. -/
def EwmState.reflect (k : K) (s : EwmState K) : EwmState K :=
  { s with weighted := s.weighted.map (k - ·) }

theorem ewmStep_reflect {alpha : K} (hpos : 0 < alpha) (k : K) {s : EwmState K}
    (hweight : 0 ≤ s.oldWeight * (1 - alpha)) (value : Option K) :
    ewmStep alpha (s.reflect k) (value.map (k - ·)) = (ewmStep alpha s value).reflect k := by
  obtain ⟨weighted, oldWeight, observed⟩ := s
  cases weighted with
  | none => cases value <;> rfl
  | some w =>
      cases value with
      | none => rfl
      | some v =>
          have hsum : oldWeight * (1 - alpha) + alpha ≠ 0 :=
            (add_pos_of_nonneg_of_pos hweight hpos).ne'
          simp only [EwmState.reflect, ewmStep, Option.map_some, EwmState.mk.injEq,
            Option.some.injEq, and_true]
          field_simp
          ring

/-- The weight of the mean so far stays on its side of zero. -/
theorem ewmStep_oldWeight {alpha : K} (hle : alpha ≤ 1) {s : EwmState K}
    (h : 0 ≤ s.oldWeight) (value : Option K) : 0 ≤ (ewmStep alpha s value).oldWeight := by
  unfold ewmStep
  split
  · exact h
  · exact h
  · exact mul_nonneg h (sub_nonneg.mpr hle)
  · exact zero_le_one

theorem scanl_ewmStep_reflect {alpha : K} (hpos : 0 < alpha) (hle : alpha ≤ 1) (k : K)
    (xs : Column K) : ∀ s : EwmState K, 0 ≤ s.oldWeight →
      List.scanl (ewmStep alpha) (s.reflect k) (reflect k xs)
        = (List.scanl (ewmStep alpha) s xs).map (EwmState.reflect k) := by
  induction xs with
  | nil => intro s _; simp [reflect, mapValues]
  | cons x rest ih =>
      intro s hweight
      show List.scanl (ewmStep alpha) (s.reflect k) (x.map (k - ·) :: reflect k rest) = _
      rw [List.scanl_cons, List.scanl_cons, List.map_cons,
        ewmStep_reflect hpos k (mul_nonneg hweight (sub_nonneg.mpr hle)),
        ih _ (ewmStep_oldWeight hle hweight x)]

/-- An exponential mean is reflected. -/
theorem ewmMean_reflect {alpha : K} (hpos : 0 < alpha) (hle : alpha ≤ 1) (minPeriods : ℕ) (k : K)
    (xs : Column K) : ewmMean alpha minPeriods (reflect k xs) =
      reflect k (ewmMean alpha minPeriods xs) := by
  have hscan := scanl_ewmStep_reflect hpos hle k xs
    { weighted := none, oldWeight := 1, observed := 0 } zero_le_one
  simp only [EwmState.reflect, Option.map_none] at hscan
  simp only [ewmMean]
  rw [hscan, reflect, mapValues, List.map_map, ← List.map_tail, List.map_map]
  refine List.map_congr_left fun s _ => ?_
  exact (apply_ite (Option.map (k - ·)) _ none s.weighted).symm

/-! ### A smoothing of what is not negative -/

/-- Every value that is there is not negative. -/
def Nonneg (xs : Column K) : Prop := ∀ v, some v ∈ xs → 0 ≤ v

omit [IsStrictOrderedRing K] in
theorem Nonneg.lastValid {xs : Column K} (h : Nonneg xs) {v : K} (hv : lastValid xs = some v) :
    0 ≤ v :=
  h v (by simpa [present] using List.mem_of_getLast? hv)

omit [IsStrictOrderedRing K] in
theorem nonneg_map_max (f : K → K) (xs : Column K) :
    Nonneg (xs.map (·.map fun d => max 0 (f d))) := by
  intro v hv
  obtain ⟨x, -, hx⟩ := List.mem_map.mp hv
  obtain ⟨d, -, rfl⟩ := Option.map_eq_some_iff.mp hx
  exact le_max_left _ _

/-- A smoothed column that is not negative has no negative value. -/
theorem Nonneg.wilderSmooth {n : ℕ} (hpos : 0 < n) {xs : Column K} (h : Nonneg xs) :
    Nonneg (wilderSmooth n xs) :=
  Every.wilderSmooth (closedUnderMeans_ge 0) (closedUnderSteps_ge hpos 0) h

end Ordered

/-! ### The end of a column -/

section End

variable {K : Type*}

theorem lastValid_of_getLast? {xs : Column K} {v : K} (h : xs.getLast? = some (some v)) :
    lastValid xs = some v := by
  obtain ⟨front, rfl⟩ := List.getLast?_eq_some_iff.mp h
  exact lastValid_append rfl

theorem lastValid_ofList (xs : List K) : lastValid (ofList xs) = xs.getLast? := by
  unfold lastValid
  rw [present_ofList]

theorem mapM_ofList (xs : List K) : (ofList xs).mapM id = some xs := by
  induction xs with
  | nil => rfl
  | cons x rest ih =>
      show (some x :: ofList rest).mapM id = some (x :: rest)
      rw [List.mapM_cons, ih]
      rfl

/-- At the end of a column without gaps a rolling window is the last `n` values. -/
theorem getLast?_rolling {n : ℕ} (hpos : 0 < n) (f : List K → Option K) {xs : List K}
    (hlong : n ≤ xs.length) :
    (rolling n f (ofList xs)).getLast? = some (f (xs.drop (xs.length - n))) := by
  obtain ⟨m, hm⟩ : ∃ m, xs.length = m + 1 := ⟨xs.length - 1, by omega⟩
  have hlen : (ofList xs).length = m + 1 := by rw [ofList, List.length_map, hm]
  unfold rolling
  rw [hlen, List.range_succ, List.map_append, List.map_singleton, List.getLast?_concat,
    if_neg (by omega), List.take_of_length_le (by omega)]
  have hdrop : (ofList xs).drop (m + 1 - n) = ofList (xs.drop (m + 1 - n)) := List.map_drop.symm
  rw [hdrop, mapM_ofList, hm]
  rfl

theorem getLast?_zip {f : K → K → Option K} {xs ys : Column K} {x y : Option K}
    (hlen : xs.length = ys.length) (hx : xs.getLast? = some x) (hy : ys.getLast? = some y) :
    (zip f xs ys).getLast? = some (x.bind fun a => y.bind (f a)) := by
  rw [List.getLast?_eq_getElem?] at hx hy
  unfold zip
  rw [List.getLast?_eq_getElem?, List.getElem?_zipWith, List.length_zipWith, ← hlen, min_self, hx]
  rw [← hlen] at hy
  rw [hy]

theorem length_rolling (n : ℕ) (f : List K → Option K) (xs : Column K) :
    (rolling n f xs).length = xs.length := by
  simp [rolling]

/-- Without its last place a rolling column is the one of the values before. -/
theorem dropLast_rolling (n : ℕ) (f : List K → Option K) (xs : Column K) :
    (rolling n f xs).dropLast = rolling n f xs.dropLast := by
  unfold rolling
  rw [← List.map_dropLast, List.length_dropLast]
  have hrange : (List.range xs.length).dropLast = List.range (xs.length - 1) := by
    cases xs.length with
    | zero => rfl
    | succ m => rw [List.range_succ, List.dropLast_concat]; rfl
  rw [hrange]
  refine List.map_congr_left fun i hi => ?_
  have hlt : i < xs.length - 1 := List.mem_range.mp hi
  rw [List.dropLast_eq_take, List.take_take, min_eq_left (by omega)]

/-- The last value of a shifted column is the last one before its end. -/
theorem lastValid_shift (xs : Column K) : lastValid (shift xs) = lastValid xs.dropLast := by
  cases xs with
  | nil => rfl
  | cons x rest => rfl

end End

end Columns
