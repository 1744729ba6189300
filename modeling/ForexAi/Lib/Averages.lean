/-
Averages keep bounds.

What is closed under means and under the steps of a smoothing holds of every value of a smoothed
column, or of a column of rolling means, if it holds of every value of the column
(`Every.wilderSmooth`, `Every.rolling_mean`).  Intervals are closed so.

On a column without gaps a smoothing is a mean of the first values and then a `blend`, at every
place (`getElem?_wilderSmooth`).  The weights depend on the places alone, so the smoothings of
several columns that are read off one list of rows add up (`smoothed_add`) and compare
(`smoothed_le`) as the columns do.
-/
import ForexAi.Lib.Memory
import Mathlib.Algebra.Order.BigOperators.Group.List
import Mathlib.Tactic.Linarith
import Mathlib.Tactic.Positivity

namespace Columns

/-! ### Every value -/

section Every

variable {K : Type*}

/-- Every value that is there. -/
def Every (P : K → Prop) (xs : Column K) : Prop := ∀ v, some v ∈ xs → P v

theorem every_ofList {P : K → Prop} {xs : List K} : Every P (ofList xs) ↔ ∀ v ∈ xs, P v := by
  simp [Every, ofList]

theorem every_iff_getElem? {P : K → Prop} {xs : Column K} :
    Every P xs ↔ ∀ (i : ℕ) (v : K), xs[i]? = some (some v) → P v :=
  ⟨fun h _ v hi => h v (List.mem_of_getElem? hi), fun h v hv => by
    obtain ⟨i, hi⟩ := List.mem_iff_getElem?.mp hv
    exact h i v hi⟩

theorem Every.present {P : K → Prop} {xs : Column K} (h : Every P xs) :
    ∀ v ∈ present xs, P v := by
  intro v hv
  exact h v (by simpa [Columns.present] using hv)

/-- What is put back was there. -/
theorem Every.fillPresent {P : K → Prop} {ys : Column K} (h : Every P ys) (xs : Column K) :
    Every P (fillPresent xs ys) := by
  induction xs generalizing ys with
  | nil => exact fun v hv => absurd hv (by simp [Columns.fillPresent])
  | cons x rest ih =>
      intro v hv
      cases x with
      | none =>
          rw [Columns.fillPresent] at hv
          exact ih h v ((List.mem_cons.mp hv).resolve_left (by simp))
      | some a =>
          cases ys with
          | nil =>
              rw [Columns.fillPresent] at hv
              exact ih h v ((List.mem_cons.mp hv).resolve_left (by simp))
          | cons y ys =>
              rw [Columns.fillPresent] at hv
              rcases List.mem_cons.mp hv with hv | hv
              · exact h v (by rw [hv]; exact List.mem_cons_self)
              · exact ih (fun w hw => h w (List.mem_cons_of_mem _ hw)) v hv

/-- A window without gaps is its values. -/
theorem mapM_eq_some {xs : Column K} {w : List K} (h : xs.mapM id = some w) : xs = ofList w := by
  induction xs generalizing w with
  | nil =>
      obtain rfl : w = [] := by simpa using h.symm
      rfl
  | cons x rest ih =>
      rw [List.mapM_cons] at h
      cases x with
      | none => exact absurd h (by simp)
      | some a =>
          cases hrest : rest.mapM id with
          | none => rw [hrest] at h; exact absurd h (by simp)
          | some v =>
              rw [hrest] at h
              obtain rfl : w = a :: v := by simpa using h.symm
              rw [ih hrest]
              rfl

/-- A place of a rolling column. -/
theorem getElem?_rolling {n i : ℕ} {f : List K → Option K} {xs : Column K} {v : K}
    (h : (rolling n f xs)[i]? = some (some v)) :
    n ≤ i + 1 ∧ ∃ w, (xs.take (i + 1)).drop (i + 1 - n) = ofList w ∧ f w = some v := by
  unfold rolling at h
  rw [List.getElem?_map] at h
  obtain ⟨j, hj, h⟩ := Option.map_eq_some_iff.mp h
  obtain ⟨hlt, hij⟩ := List.getElem?_eq_some_iff.mp hj
  rw [List.getElem_range] at hij
  subst hij
  by_cases hshort : i + 1 < n
  · rw [if_pos hshort] at h
    exact absurd h (by simp)
  · rw [if_neg hshort] at h
    obtain ⟨w, hw, hv⟩ := Option.bind_eq_some_iff.mp h
    exact ⟨not_lt.mp hshort, w, mapM_eq_some hw, hv⟩

/-- The window of a place holds the value of the place. -/
theorem mem_window {n i : ℕ} (hpos : 0 < n) {xs : Column K} {a : K} (ha : xs[i]? = some (some a))
    {w : List K} (hw : (xs.take (i + 1)).drop (i + 1 - n) = ofList w) : a ∈ w := by
  have hmem : some a ∈ (xs.take (i + 1)).drop (i + 1 - n) := by
    refine List.mem_iff_getElem?.mpr ⟨i - (i + 1 - n), ?_⟩
    rw [List.getElem?_drop, List.getElem?_take, if_pos (by omega)]
    have hplace : i + 1 - n + (i - (i + 1 - n)) = i := by omega
    rw [hplace, ha]
  rw [hw, ofList] at hmem
  simpa using hmem

/-- A value of two columns is made of a value of each. -/
theorem getElem?_zip {f : K → K → Option K} {xs ys : Column K} {i : ℕ} {v : K}
    (h : (zip f xs ys)[i]? = some (some v)) :
    ∃ a b, xs[i]? = some (some a) ∧ ys[i]? = some (some b) ∧ f a b = some v := by
  unfold zip at h
  rw [List.getElem?_zipWith] at h
  cases hx : xs[i]? with
  | none => simp [hx] at h
  | some x =>
      cases hy : ys[i]? with
      | none => simp [hx, hy] at h
      | some y =>
          rw [hx, hy] at h
          simp only [Option.some.injEq] at h
          obtain ⟨a, ha, hrest⟩ := Option.bind_eq_some_iff.mp h
          obtain ⟨b, hb, hvalue⟩ := Option.bind_eq_some_iff.mp hrest
          exact ⟨a, b, congrArg some ha, congrArg some hb, hvalue⟩

/-- A place of a column without gaps. -/
theorem getElem?_ofList_map {α : Type*} {f : α → K} {rows : List α} {i : ℕ} {v : K}
    (h : (ofList (rows.map f))[i]? = some (some v)) : ∃ r, rows[i]? = some r ∧ f r = v := by
  rw [ofList, List.map_map, List.getElem?_map] at h
  obtain ⟨r, hr, hv⟩ := Option.map_eq_some_iff.mp h
  exact ⟨r, hr, Option.some.inj hv⟩

end Every

section Arithmetic

variable {K : Type*} [Field K]

theorem getElem?_scale {c : K} {xs : Column K} {i : ℕ} {v : K}
    (h : (scale c xs)[i]? = some (some v)) : ∃ a, xs[i]? = some (some a) ∧ c * a = v := by
  unfold scale at h
  rw [List.getElem?_map] at h
  obtain ⟨x, hx, h⟩ := Option.map_eq_some_iff.mp h
  obtain ⟨a, rfl, hv⟩ := Option.map_eq_some_iff.mp h
  exact ⟨a, hx, hv⟩

theorem getElem?_sub {xs ys : Column K} {i : ℕ} {v : K} (h : (sub xs ys)[i]? = some (some v)) :
    ∃ a b, xs[i]? = some (some a) ∧ ys[i]? = some (some b) ∧ a - b = v := by
  obtain ⟨a, b, ha, hb, hv⟩ := getElem?_zip h
  exact ⟨a, b, ha, hb, Option.some.inj hv⟩

theorem getElem?_add {xs ys : Column K} {i : ℕ} {v : K} (h : (add xs ys)[i]? = some (some v)) :
    ∃ a b, xs[i]? = some (some a) ∧ ys[i]? = some (some b) ∧ a + b = v := by
  obtain ⟨a, b, ha, hb, hv⟩ := getElem?_zip h
  exact ⟨a, b, ha, hb, Option.some.inj hv⟩

theorem getElem?_div [DecidableEq K] {xs ys : Column K} {i : ℕ} {v : K}
    (h : (div xs ys)[i]? = some (some v)) :
    ∃ a b, xs[i]? = some (some a) ∧ ys[i]? = some (some b) ∧ b ≠ 0 ∧ a / b = v := by
  obtain ⟨a, b, ha, hb, hv⟩ := getElem?_zip h
  by_cases hzero : b = 0
  · rw [if_pos hzero] at hv
    exact absurd hv (by simp)
  · rw [if_neg hzero] at hv
    exact ⟨a, b, ha, hb, hzero, Option.some.inj hv⟩

theorem div_getElem? [DecidableEq K] {xs ys : Column K} {i : ℕ} {a b : K}
    (ha : xs[i]? = some (some a)) (hb : ys[i]? = some (some b)) (hne : b ≠ 0) :
    (div xs ys)[i]? = some (some (a / b)) := by
  unfold div zip
  rw [List.getElem?_zipWith, ha, hb]
  simp [hne]

theorem sub_getElem? {xs ys : Column K} {i : ℕ} {a b : K} (ha : xs[i]? = some (some a))
    (hb : ys[i]? = some (some b)) : (sub xs ys)[i]? = some (some (a - b)) := by
  unfold sub zip
  rw [List.getElem?_zipWith, ha, hb]
  rfl

theorem scale_getElem? {c : K} {xs : Column K} {i : ℕ} {a : K} (ha : xs[i]? = some (some a)) :
    (scale c xs)[i]? = some (some (c * a)) := by
  unfold scale
  rw [List.getElem?_map, ha]
  rfl

/-- The differences of a column without gaps. -/
theorem diff_ofList (x : K) (rest : List K) :
    diff (ofList (x :: rest)) =
      none :: List.zipWith (fun p q => some (q - p)) (x :: rest) rest := by
  have htail (rest : List K) : ∀ x : K,
      sub (ofList rest) (ofList (x :: rest)).dropLast
        = List.zipWith (fun p q => some (q - p)) (x :: rest) rest := by
    induction rest with
    | nil => exact fun x => rfl
    | cons y rest ih =>
        intro x
        rw [List.zipWith_cons_cons, ← ih y]
        rfl
  rw [← htail rest x]
  rfl

/-! ### Closed under averages -/

/-- What holds of some values holds of their mean. -/
def ClosedUnderMeans (P : K → Prop) : Prop :=
  ∀ w : List K, w ≠ [] → (∀ v ∈ w, P v) → P (meanOf w)

/-- What holds of two values holds of what a step of a smoothing makes of them. -/
def ClosedUnderSteps (n : ℕ) (P : K → Prop) : Prop :=
  ∀ v b : K, P v → P b → P (1 / (n : K) * v + (1 - 1 / (n : K)) * b)

theorem Every.mean {P : K → Prop} (hmeans : ClosedUnderMeans P) {xs : Column K} (h : Every P xs)
    {v : K} (hv : mean xs = some v) : P v := by
  have hpresent := h.present
  unfold Columns.mean at hv
  cases hp : Columns.present xs with
  | nil => rw [hp] at hv; exact absurd hv (by simp)
  | cons x rest =>
      rw [hp] at hv hpresent
      obtain rfl := Option.some.inj hv
      exact hmeans _ (List.cons_ne_nil _ _) hpresent

theorem Every.scanl_wilderStep {P : K → Prop} {n : ℕ} (hsteps : ClosedUnderSteps n P)
    {xs : Column K} {seed : Option K} (h : Every P xs) (hseed : ∀ b, seed = some b → P b) :
    Every P (List.scanl (wilderStep n) seed xs) := by
  induction xs generalizing seed with
  | nil =>
      intro v hv
      rw [List.scanl_nil, List.mem_singleton] at hv
      exact hseed v hv.symm
  | cons x rest ih =>
      intro v hv
      rw [List.scanl_cons, List.mem_cons] at hv
      rcases hv with hv | hv
      · exact hseed v hv.symm
      · refine ih (fun a ha => h a (List.mem_cons_of_mem _ ha)) ?_ v hv
        intro b hb
        unfold wilderStep at hb
        obtain ⟨before, hbefore, hb⟩ := Option.bind_eq_some_iff.mp hb
        obtain ⟨value, hvalue, rfl⟩ := Option.map_eq_some_iff.mp hb
        exact hsteps value before (h value (by rw [← hvalue]; exact List.mem_cons_self))
          (hseed before hbefore)

/-- **A smoothing keeps what is closed under averages.** -/
theorem Every.wilderSmooth {P : K → Prop} (hmeans : ClosedUnderMeans P) {n : ℕ}
    (hsteps : ClosedUnderSteps n P) {xs : Column K} (h : Every P xs) :
    Every P (wilderSmooth n xs) := by
  intro v hv
  unfold Columns.wilderSmooth at hv
  split at hv
  · obtain ⟨-, -, hnone⟩ := List.mem_map.mp hv
    exact absurd hnone (by simp)
  · rcases List.mem_append.mp hv with hv | hv
    · exact absurd (List.eq_of_mem_replicate hv) (by simp)
    · refine Every.scanl_wilderStep hsteps (fun a ha => h a (List.mem_of_mem_drop ha)) ?_ v hv
      intro b hb
      exact Every.mean hmeans (fun a ha => h a (List.mem_of_mem_take ha)) hb

/-- **Rolling means keep it too.** -/
theorem Every.rolling_mean {P : K → Prop} (hmeans : ClosedUnderMeans P) {n : ℕ} (hpos : 0 < n)
    {xs : Column K} (h : Every P xs) : Every P (rolling n (fun w => some (meanOf w)) xs) := by
  refine every_iff_getElem?.mpr fun i v hi => ?_
  have hplace : i < xs.length := by
    have hlt := (List.getElem?_eq_some_iff.mp hi).1
    simpa [rolling] using hlt
  obtain ⟨hlong, w, hw, hv⟩ := getElem?_rolling hi
  obtain rfl := Option.some.inj hv
  have hlength := congrArg List.length hw
  rw [List.length_drop, List.length_take, ofList, List.length_map] at hlength
  refine hmeans w (fun hnil => ?_) (every_ofList.mp ?_)
  · rw [hnil, List.length_nil] at hlength
    omega
  · rw [← hw]
    exact fun a ha => h a (List.mem_of_mem_take (List.mem_of_mem_drop ha))

theorem ClosedUnderMeans.and {P Q : K → Prop} (hP : ClosedUnderMeans P) (hQ : ClosedUnderMeans Q) :
    ClosedUnderMeans fun v => P v ∧ Q v :=
  fun w hne h => ⟨hP w hne fun v hv => (h v hv).1, hQ w hne fun v hv => (h v hv).2⟩

theorem ClosedUnderSteps.and {n : ℕ} {P Q : K → Prop} (hP : ClosedUnderSteps n P)
    (hQ : ClosedUnderSteps n Q) : ClosedUnderSteps n fun v => P v ∧ Q v :=
  fun v b hv hb => ⟨hP v b hv.1 hb.1, hQ v b hv.2 hb.2⟩

end Arithmetic

section Ordered

variable {K : Type*} [Field K] [LinearOrder K] [IsStrictOrderedRing K]

/-- The share of a value in a step of a smoothing. -/
theorem share_mem {n : ℕ} (hpos : 0 < n) : 0 ≤ 1 / (n : K) ∧ 0 ≤ 1 - 1 / (n : K) := by
  have hone : (1 : K) ≤ n := by exact_mod_cast hpos
  have hshare : 1 / (n : K) ≤ 1 := by
    rw [div_le_one (lt_of_lt_of_le zero_lt_one hone)]
    exact hone
  exact ⟨by positivity, sub_nonneg.mpr hshare⟩

theorem closedUnderMeans_ge (lo : K) : ClosedUnderMeans (lo ≤ ·) := by
  intro w hne h
  have hlength : (0 : K) < w.length := by exact_mod_cast List.length_pos_iff.mpr hne
  have hsum := List.card_nsmul_le_sum w lo h
  rw [nsmul_eq_mul] at hsum
  unfold meanOf
  rw [le_div_iff₀ hlength, mul_comm]
  exact hsum

theorem closedUnderMeans_le (hi : K) : ClosedUnderMeans (· ≤ hi) := by
  intro w hne h
  have hlength : (0 : K) < w.length := by exact_mod_cast List.length_pos_iff.mpr hne
  have hsum := List.sum_le_card_nsmul w hi h
  rw [nsmul_eq_mul] at hsum
  unfold meanOf
  rw [div_le_iff₀ hlength, mul_comm]
  exact hsum

theorem closedUnderSteps_ge {n : ℕ} (hpos : 0 < n) (lo : K) : ClosedUnderSteps n (lo ≤ ·) := by
  intro v b hv hb
  obtain ⟨hshare, hrest⟩ := @share_mem K _ _ _ n hpos
  calc lo = 1 / (n : K) * lo + (1 - 1 / (n : K)) * lo := by ring
    _ ≤ 1 / (n : K) * v + (1 - 1 / (n : K)) * b :=
        add_le_add (mul_le_mul_of_nonneg_left hv hshare) (mul_le_mul_of_nonneg_left hb hrest)

theorem closedUnderSteps_le {n : ℕ} (hpos : 0 < n) (hi : K) : ClosedUnderSteps n (· ≤ hi) := by
  intro v b hv hb
  obtain ⟨hshare, hrest⟩ := @share_mem K _ _ _ n hpos
  calc 1 / (n : K) * v + (1 - 1 / (n : K)) * b
      ≤ 1 / (n : K) * hi + (1 - 1 / (n : K)) * hi :=
        add_le_add (mul_le_mul_of_nonneg_left hv hshare) (mul_le_mul_of_nonneg_left hb hrest)
    _ = hi := by ring

/-- Every value that is there is between the bounds. -/
def Within (lo hi : K) (xs : Column K) : Prop := Every (fun v => lo ≤ v ∧ v ≤ hi) xs

theorem Within.wilderSmooth {lo hi : K} {n : ℕ} (hpos : 0 < n) {xs : Column K}
    (h : Within lo hi xs) : Within lo hi (wilderSmooth n xs) :=
  Every.wilderSmooth ((closedUnderMeans_ge lo).and (closedUnderMeans_le hi))
    ((closedUnderSteps_ge hpos lo).and (closedUnderSteps_le hpos hi)) h

theorem Within.rolling_mean {lo hi : K} {n : ℕ} (hpos : 0 < n) {xs : Column K}
    (h : Within lo hi xs) : Within lo hi (rolling n (fun w => some (meanOf w)) xs) :=
  Every.rolling_mean ((closedUnderMeans_ge lo).and (closedUnderMeans_le hi)) hpos h

end Ordered

/-! ### A smoothing at a place -/

section Smoothed

variable {K : Type*} [Field K]

/-- The value of a smoothing at the end of some values. -/
def smoothed (n : ℕ) (xs : List K) : K := blend (1 / (n : K)) (meanOf (xs.take n)) (xs.drop n)

theorem foldl_wilderStep (n : ℕ) (xs : List K) (seed : K) :
    (ofList xs).foldl (wilderStep n) (some seed) = some (blend (1 / (n : K)) seed xs) := by
  induction xs generalizing seed with
  | nil => rfl
  | cons x rest ih =>
      show (ofList rest).foldl (wilderStep n)
        (some (1 / (n : K) * x + (1 - 1 / (n : K)) * seed)) = _
      rw [ih, add_comm]
      rfl

theorem length_wilderSmooth {n : ℕ} (hpos : 0 < n) (xs : Column K) :
    (wilderSmooth n xs).length = xs.length := by
  unfold wilderSmooth
  split
  · exact List.length_map _
  · rw [List.length_append, List.length_replicate, List.length_scanl, List.length_drop]
    omega

/-- **A smoothing of a column without gaps, at a place.** -/
theorem getElem?_wilderSmooth {n : ℕ} (hpos : 0 < n) {xs : List K} {i : ℕ} (hi : i < xs.length) :
    (wilderSmooth n (ofList xs))[i]?
      = some (if i + 1 < n then none else some (smoothed n (xs.take (i + 1)))) := by
  unfold wilderSmooth
  by_cases hlen : (ofList xs).length < n
  · have hlength : xs.length < n := by simpa [ofList] using hlen
    rw [if_pos hlen, if_pos (by omega), List.getElem?_map, ofList, List.getElem?_map,
      List.getElem?_eq_getElem hi]
    rfl
  · have hlong : n ≤ xs.length := by simpa [ofList] using hlen
    rw [if_neg hlen]
    by_cases hwarm : i + 1 < n
    · rw [if_pos hwarm, List.getElem?_append_left (by rw [List.length_replicate]; omega),
        List.getElem?_replicate, if_pos (by omega)]
    · have hplace : i - (n - 1) = i + 1 - n := by omega
      have hdrop : (ofList xs).drop n = ofList (xs.drop n) := List.map_drop.symm
      have htake : (ofList (xs.drop n)).take (i + 1 - n) = ofList ((xs.drop n).take (i + 1 - n)) :=
        List.map_take.symm
      rw [if_neg hwarm, List.getElem?_append_right (by rw [List.length_replicate]; omega),
        List.length_replicate, hplace, List.getElem?_scanl, mean_take_ofList hpos hlong,
          hdrop, htake,
        foldl_wilderStep,
        if_pos (by rw [ofList, List.length_map, List.length_drop]; omega)]
      unfold smoothed
      rw [List.take_take, min_eq_left (by omega), List.drop_take]

/-- A place where a smoothing is there. -/
theorem wilderSmooth_place {n : ℕ} (hpos : 0 < n) {xs : List K} {i : ℕ} {v : K}
    (h : (wilderSmooth n (ofList xs))[i]? = some (some v)) :
    i < xs.length ∧ n ≤ i + 1 ∧ v = smoothed n (xs.take (i + 1)) := by
  have hi : i < xs.length := by
    have hlt := (List.getElem?_eq_some_iff.mp h).1
    rwa [length_wilderSmooth hpos, ofList, List.length_map] at hlt
  rw [getElem?_wilderSmooth hpos hi] at h
  by_cases hwarm : i + 1 < n
  · rw [if_pos hwarm] at h
    exact absurd h (by simp)
  · rw [if_neg hwarm] at h
    exact ⟨hi, not_lt.mp hwarm, (Option.some.inj (Option.some.inj h)).symm⟩

/-! ### Readings of the same rows -/

section Readings

variable {α : Type*}

theorem meanOf_add (f g : α → K) (rows : List α) :
    meanOf (rows.map fun r => f r + g r) = meanOf (rows.map f) + meanOf (rows.map g) := by
  unfold meanOf
  rw [List.sum_map_add, List.length_map, List.length_map, List.length_map, add_div]

theorem blend_add (alpha : K) (f g : α → K) (rows : List α) : ∀ a b : K,
    blend alpha (a + b) (rows.map fun r => f r + g r)
      = blend alpha a (rows.map f) + blend alpha b (rows.map g) := by
  induction rows with
  | nil => exact fun a b => rfl
  | cons r rest ih =>
      intro a b
      have hstep : (1 - alpha) * (a + b) + alpha * (f r + g r)
          = ((1 - alpha) * a + alpha * f r) + ((1 - alpha) * b + alpha * g r) := by ring
      show blend alpha ((1 - alpha) * (a + b) + alpha * (f r + g r)) (rest.map _) = _
      rw [hstep, ih]
      rfl

/-- The smoothings of two readings of the same rows add up. -/
theorem smoothed_add (n : ℕ) (f g : α → K) (rows : List α) :
    smoothed n (rows.map fun r => f r + g r)
      = smoothed n (rows.map f) + smoothed n (rows.map g) := by
  unfold smoothed
  simp only [← List.map_take, ← List.map_drop]
  rw [meanOf_add, blend_add]

variable [LinearOrder K] [IsStrictOrderedRing K] {f g : α → K}

theorem meanOf_le {rows : List α} (h : ∀ r ∈ rows, f r ≤ g r) :
    meanOf (rows.map f) ≤ meanOf (rows.map g) := by
  have hsum : (rows.map f).sum ≤ (rows.map g).sum := List.sum_le_sum h
  unfold meanOf
  rw [List.length_map, List.length_map]
  exact div_le_div_of_nonneg_right hsum (Nat.cast_nonneg _)

theorem blend_le {alpha : K} (hshare : 0 ≤ alpha) (hrest : 0 ≤ 1 - alpha) {rows : List α}
    (h : ∀ r ∈ rows, f r ≤ g r) : ∀ a b : K, a ≤ b →
      blend alpha a (rows.map f) ≤ blend alpha b (rows.map g) := by
  induction rows with
  | nil => exact fun a b hab => hab
  | cons r rest ih =>
      intro a b hab
      exact ih (fun r' hr' => h r' (List.mem_cons_of_mem _ hr')) _ _
        (add_le_add (mul_le_mul_of_nonneg_left hab hrest)
          (mul_le_mul_of_nonneg_left (h r List.mem_cons_self) hshare))

/-- A reading that is smaller in every row has a smaller smoothing. -/
theorem smoothed_le {n : ℕ} (hpos : 0 < n) {rows : List α} (h : ∀ r ∈ rows, f r ≤ g r) :
    smoothed n (rows.map f) ≤ smoothed n (rows.map g) := by
  obtain ⟨hshare, hrest⟩ := @share_mem K _ _ _ n hpos
  unfold smoothed
  simp only [← List.map_take, ← List.map_drop]
  exact blend_le hshare hrest (fun r hr => h r (List.mem_of_mem_drop hr)) _ _
    (meanOf_le fun r hr => h r (List.mem_of_mem_take hr))

/-- A reading without negative values has no negative smoothing. -/
theorem smoothed_nonneg {n : ℕ} (hpos : 0 < n) {rows : List α} (h : ∀ r ∈ rows, 0 ≤ f r) :
    0 ≤ smoothed n (rows.map f) := by
  have hdouble : smoothed n (rows.map f) ≤ smoothed n (rows.map fun r => f r + f r) :=
    smoothed_le hpos fun r hr => le_add_of_nonneg_left (h r hr)
  rw [smoothed_add] at hdouble
  linarith

end Readings

end Smoothed

end Columns
