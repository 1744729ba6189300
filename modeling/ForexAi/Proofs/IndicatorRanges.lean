/-
The ranges of the oscillators.

A relative strength is a quotient of two smoothings that are not negative, and a stochastic the
place of a close between the lowest and the highest price of a window that holds its own bar.

A directional move is told apart from the other one bar by bar, and no bar's two moves come to
more than its true range (`moves_le_range`).  Smoothing adds and compares, so that carries over
to the smoothed moves and the smoothed range at every place, and their quotients, the two
directional indicators, come to a hundred at most.
-/
import ForexAi.Agents.Indicators
import ForexAi.Lib.Averages
import ForexAi.Lib.Reflection

namespace ForexAi

open Columns

/-! ### The relative strength -/

theorem rsiOf_within {gain loss v : ℚ} (hgain : 0 ≤ gain) (hloss : 0 ≤ loss)
    (h : rsiOf gain loss = some v) : 0 ≤ v ∧ v ≤ 100 := by
  unfold rsiOf at h
  by_cases hzero : loss = 0
  · rw [if_pos hzero] at h
    by_cases hup : 0 < gain
    · rw [if_pos hup] at h
      obtain rfl := Option.some.inj h
      exact ⟨by norm_num, le_refl 100⟩
    · rw [if_neg hup] at h
      exact absurd h (by simp)
  · rw [if_neg hzero] at h
    obtain rfl := Option.some.inj h
    have hone : 1 ≤ 1 + gain / loss := le_add_of_nonneg_right (div_nonneg hgain hloss)
    have hshare : 100 / (1 + gain / loss) ≤ 100 := div_le_self (by norm_num) hone
    have hpos : 0 ≤ 100 / (1 + gain / loss) := div_nonneg (by norm_num) (by linarith)
    exact ⟨by linarith, by linarith⟩

theorem rsi_within {n : ℕ} (hpos : 0 < n) (close : Column ℚ) : Within 0 100 (rsi n close) := by
  refine every_iff_getElem?.mpr fun i v hv => ?_
  unfold rsi at hv
  obtain ⟨gain, loss, hgain, hloss, hrsi⟩ := getElem?_zip hv
  have hup := Nonneg.wilderSmooth hpos (nonneg_map_max id (diff close))
  have hdown := Nonneg.wilderSmooth hpos (nonneg_map_max (fun d => -d) (diff close))
  exact rsiOf_within (hup gain (List.mem_of_getElem? hgain))
    (hdown loss (List.mem_of_getElem? hloss)) hrsi

/-! ### The stochastic -/

/-- The place of a price in a range. -/
theorem position_within {c l h : ℚ} (hl : l ≤ c) (hh : c ≤ h) (hne : h - l ≠ 0) :
    0 ≤ 100 * (c - l) / (h - l) ∧ 100 * (c - l) / (h - l) ≤ 100 := by
  have hrange : 0 < h - l := lt_of_le_of_ne (by linarith) (Ne.symm hne)
  refine ⟨div_nonneg (by linarith) hrange.le, ?_⟩
  rw [div_le_iff₀ hrange]
  linarith

/-- The lowest price of a window is no higher than the last one. -/
theorem rolling_min_le {n i : ℕ} (hpos : 0 < n) {xs : Column ℚ} {a l : ℚ}
    (ha : xs[i]? = some (some a)) (hl : (rolling n List.min? xs)[i]? = some (some l)) : l ≤ a := by
  obtain ⟨-, w, hw, hmin⟩ := getElem?_rolling hl
  exact (List.min?_eq_some_iff.mp hmin).2 a (mem_window hpos ha hw)

theorem le_rolling_max {n i : ℕ} (hpos : 0 < n) {xs : Column ℚ} {a h : ℚ}
    (ha : xs[i]? = some (some a)) (hh : (rolling n List.max? xs)[i]? = some (some h)) : a ≤ h := by
  obtain ⟨-, w, hw, hmax⟩ := getElem?_rolling hh
  exact (List.max?_eq_some_iff.mp hmax).2 a (mem_window hpos ha hw)

/-- The slow stochastic and its mean are percentages. -/
theorem stochastic_within {data : List Candle} (hvalid : ∀ c ∈ data, c.Valid)
    {kLength kSmooth dSmooth : ℕ} (hk : 0 < kLength) (hsmooth : 0 < kSmooth) (hd : 0 < dSmooth) :
    Within 0 100 (stochastic data kLength kSmooth dSmooth).1 ∧
      Within 0 100 (stochastic data kLength kSmooth dSmooth).2 := by
  have hraw : Within 0 100 (Columns.div
      (scale 100 (Columns.sub (closes data) (rolling kLength List.min? (lows data))))
      (Columns.sub (rolling kLength List.max? (highs data))
        (rolling kLength List.min? (lows data)))) := by
    refine every_iff_getElem?.mpr fun i v hv => ?_
    obtain ⟨a, b, ha, hb, hne, rfl⟩ := getElem?_div hv
    obtain ⟨distance, hdistance, rfl⟩ := getElem?_scale ha
    obtain ⟨close, lowest, hclose, hlowest, rfl⟩ := getElem?_sub hdistance
    obtain ⟨highest, lowest', hhighest, hlowest', rfl⟩ := getElem?_sub hb
    obtain rfl : lowest = lowest' := by
      rw [hlowest] at hlowest'
      exact Option.some.inj (Option.some.inj hlowest')
    obtain ⟨c, hc, rfl⟩ := getElem?_ofList_map hclose
    obtain ⟨-, hlow, -, hhigh⟩ := hvalid c (List.mem_of_getElem? hc)
    have hlows : (lows data)[i]? = some (some c.low) := by
      simp [lows, ofList, hc]
    have hhighs : (highs data)[i]? = some (some c.high) := by
      simp [highs, ofList, hc]
    exact position_within ((rolling_min_le hk hlows hlowest).trans hlow)
      (hhigh.trans (le_rolling_max hk hhighs hhighest)) hne
  have hslow := Within.rolling_mean hsmooth hraw
  exact ⟨hslow, Within.rolling_mean hd hslow⟩

/-! ### The directional movement

The moves of a bar and its true range are computed from the bar and the one before it, so
everything here is said of such pairs, and a series is a map over them.
-/

/-- The candles, each with the one before it. -/
def withPrevious (data : List Candle) : List (Option Candle × Candle) :=
  List.zip (none :: data.map some) data

theorem withPrevious_cons (c : Candle) (rest : List Candle) :
    withPrevious (c :: rest)
      = (none, c) :: List.zipWith (fun p q => (some p, q)) (c :: rest) rest := by
  unfold withPrevious
  rw [List.zip_cons_cons, List.zip, List.zipWith_map_left]

theorem length_withPrevious (data : List Candle) : (withPrevious data).length = data.length := by
  simp [withPrevious]

theorem valid_withPrevious {data : List Candle} (hvalid : ∀ c ∈ data, c.Valid)
    {r : Option Candle × Candle} (hr : r ∈ withPrevious data) :
    r.2.Valid ∧ ∀ p, r.1 = some p → p.Valid := by
  obtain ⟨hprevious, hcandle⟩ := List.of_mem_zip hr
  refine ⟨hvalid _ hcandle, fun p hp => ?_⟩
  rw [hp] at hprevious
  exact hvalid p (by simpa using hprevious)

/-- The true range of a row. -/
def rowRange : Option Candle × Candle → ℚ
  | (none, c) => c.high - c.low
  | (some p, c) => rangeAfter p.close c

theorem trueRange_eq (data : List Candle) : trueRange data = (withPrevious data).map rowRange := by
  cases data with
  | nil => rfl
  | cons c rest =>
      rw [withPrevious_cons, List.map_cons, List.map_zipWith]
      rfl

theorem diff_map (f : Candle → ℚ) (data : List Candle) :
    diff (ofList (data.map f))
      = (withPrevious data).map fun r => r.1.map fun p => f r.2 - f p := by
  cases data with
  | nil => rfl
  | cons c rest =>
      rw [List.map_cons, diff_ofList, withPrevious_cons, List.map_cons, List.map_zipWith,
        ← List.map_cons, List.zipWith_map]
      rfl

/-- How far a candle's high is above the one before. -/
def upMove (r : Option Candle × Candle) : Option ℚ := r.1.map fun p => r.2.high - p.high

/-- How far a candle's low is below the one before. -/
def downMove (r : Option Candle × Candle) : Option ℚ := r.1.map fun p => -1 * (r.2.low - p.low)

/-- A directional move is always there. -/
def moveOf (up down : Option ℚ) : ℚ := (directionalMove up down).getD 0

theorem directionalMove_eq (up down : Option ℚ) :
    directionalMove up down = some (moveOf up down) := by
  unfold moveOf directionalMove
  cases up with
  | none => rfl
  | some u =>
      cases down with
      | none => rfl
      | some d =>
          show (if d < u ∧ 0 < u then some u else some 0)
            = some ((if d < u ∧ 0 < u then some u else some 0).getD 0)
          split_ifs <;> rfl

theorem upMoves_eq (data : List Candle) : diff (highs data) = (withPrevious data).map upMove :=
  diff_map (·.high) data

theorem downMoves_eq (data : List Candle) :
    scale (-1) (diff (lows data)) = (withPrevious data).map downMove := by
  have hdiff := diff_map (·.low) data
  unfold lows scale downMove
  rw [hdiff, List.map_map]
  refine List.map_congr_left fun r _ => ?_
  rw [Function.comp_apply, Option.map_map]
  rfl

theorem moves_eq (f g : Option Candle × Candle → Option ℚ) (rows : List (Option Candle × Candle)) :
    List.zipWith directionalMove (rows.map f) (rows.map g)
      = ofList (rows.map fun r => moveOf (f r) (g r)) := by
  rw [List.zipWith_map, List.zipWith_self, ofList, List.map_map]
  exact List.map_congr_left fun r _ => directionalMove_eq (f r) (g r)

theorem moveOf_some (u d : ℚ) : moveOf (some u) (some d) = if d < u ∧ 0 < u then u else 0 := by
  unfold moveOf directionalMove
  show (if d < u ∧ 0 < u then some u else some 0).getD 0 = _
  split_ifs <;> rfl

theorem moveOf_add_le {u d r : ℚ} (hr : 0 ≤ r) (hu : u ≤ r) (hd : d ≤ r) :
    0 ≤ moveOf (some u) (some d) ∧ 0 ≤ moveOf (some d) (some u) ∧
      moveOf (some u) (some d) + moveOf (some d) (some u) ≤ r := by
  rw [moveOf_some, moveOf_some]
  by_cases hup : d < u ∧ 0 < u
  · rw [if_pos hup, if_neg fun hdown => absurd hup.1 (not_lt.mpr hdown.1.le)]
    exact ⟨hup.2.le, le_refl 0, by linarith⟩
  · rw [if_neg hup]
    by_cases hdown : u < d ∧ 0 < d
    · rw [if_pos hdown]
      exact ⟨le_refl 0, hdown.2.le, by linarith⟩
    · rw [if_neg hdown]
      exact ⟨le_refl 0, le_refl 0, by linarith⟩

/-- **The moves of a bar come to no more than its true range.** -/
theorem moves_le_range {r : Option Candle × Candle} (hvalid : r.2.Valid)
    (hprevious : ∀ p, r.1 = some p → p.Valid) :
    0 ≤ moveOf (upMove r) (downMove r) ∧ 0 ≤ moveOf (downMove r) (upMove r) ∧
      moveOf (upMove r) (downMove r) + moveOf (downMove r) (upMove r) ≤ rowRange r := by
  obtain ⟨previous, c⟩ := r
  cases previous with
  | none =>
      obtain ⟨hlow, -, hhigh, -⟩ := hvalid
      have hrange : (0 : ℚ) + 0 ≤ c.high - c.low := by linarith
      exact ⟨le_refl 0, le_refl 0, hrange⟩
  | some p =>
      -- The close before is between the low and the high before.
      obtain ⟨-, hlow, -, hhigh⟩ := hprevious p rfl
      have hown : |c.high - c.low| ≤ rangeAfter p.close c :=
        (le_max_left _ _).trans (le_max_left _ _)
      have habove : |c.high - p.close| ≤ rangeAfter p.close c :=
        (le_max_right _ _).trans (le_max_left _ _)
      have hbelow : |c.low - p.close| ≤ rangeAfter p.close c := le_max_right _ _
      refine moveOf_add_le ((abs_nonneg _).trans hown) ?_ ?_
      · have hmove := (le_abs_self _).trans habove
        show c.high - p.high ≤ rangeAfter p.close c
        linarith
      · have hmove := (neg_le_abs _).trans hbelow
        show -1 * (c.low - p.low) ≤ rangeAfter p.close c
        linarith

/-! ### The directional indicators

The smoothing is linear and monotone.  What holds of the moves and the range of each bar
therefore holds of their smoothed values, and then of the quotients.
-/

section Indicators

variable {data : List Candle} {n : ℕ}

/-- A reading of the rows, smoothed up to a place. -/
def smoothedTo (n : ℕ) (data : List Candle) (f : Option Candle × Candle → ℚ) (i : ℕ) : ℚ :=
  smoothed n (((withPrevious data).take (i + 1)).map f)

theorem getElem?_smoothedTo (hpos : 0 < n) (f : Option Candle × Candle → ℚ) {i : ℕ}
    (hi : i < data.length) (hlong : n ≤ i + 1) :
    (wilderSmooth n (ofList ((withPrevious data).map f)))[i]?
      = some (some (smoothedTo n data f i)) := by
  rw [getElem?_wilderSmooth hpos (by rwa [List.length_map, length_withPrevious]),
    if_neg (not_lt.mpr hlong), ← List.map_take]
  rfl

theorem atr_eq (data : List Candle) (n : ℕ) :
    atr data n = wilderSmooth n (ofList ((withPrevious data).map rowRange)) := by
  unfold atr
  rw [trueRange_eq]

/-- The indicators, written over the rows. -/
theorem directionalMovement_eq (data : List Candle) (n : ℕ) :
    (directionalMovement data n).2.1
        = Columns.div (scale 100 (wilderSmooth n (ofList ((withPrevious data).map fun r =>
            moveOf (upMove r) (downMove r))))) (atr data n) ∧
      (directionalMovement data n).2.2
        = Columns.div (scale 100 (wilderSmooth n (ofList ((withPrevious data).map fun r =>
            moveOf (downMove r) (upMove r))))) (atr data n) := by
  unfold directionalMovement
  simp only [upMoves_eq, downMoves_eq, moves_eq]
  exact ⟨trivial, trivial⟩

/-- **The two indicators at a place** whose smoothed true range is positive. -/
theorem indicators_at (hvalid : ∀ c ∈ data, c.Valid) (hpos : 0 < n) {i : ℕ} {range : ℚ}
    (hrange : (atr data n)[i]? = some (some range)) (hup : 0 < range) :
    ∃ plusDi minusDi, (directionalMovement data n).2.1[i]? = some (some plusDi) ∧
      (directionalMovement data n).2.2[i]? = some (some minusDi) ∧
      0 ≤ plusDi ∧ 0 ≤ minusDi ∧ plusDi + minusDi ≤ 100 := by
  have hplace := hrange
  rw [atr_eq] at hplace
  obtain ⟨hi, hlong, hvalue⟩ := wilderSmooth_place hpos hplace
  rw [List.length_map, length_withPrevious] at hi
  rw [← List.map_take] at hvalue
  obtain ⟨hplus, hminus⟩ := directionalMovement_eq data n
  have hmoves (r : Option Candle × Candle) (hr : r ∈ (withPrevious data).take (i + 1)) :=
    have hrow := valid_withPrevious hvalid (List.mem_of_mem_take hr)
    moves_le_range hrow.1 hrow.2
  rw [hplus, hminus]
  refine ⟨_, _,
    div_getElem? (scale_getElem? (getElem?_smoothedTo hpos _ hi hlong)) hrange hup.ne',
    div_getElem? (scale_getElem? (getElem?_smoothedTo hpos _ hi hlong)) hrange hup.ne', ?_, ?_, ?_⟩
  · exact div_nonneg (mul_nonneg (by norm_num) (smoothed_nonneg hpos fun r hr => (hmoves r hr).1))
      hup.le
  · exact div_nonneg
      (mul_nonneg (by norm_num) (smoothed_nonneg hpos fun r hr => (hmoves r hr).2.1)) hup.le
  · have hsum := smoothed_le hpos fun r hr => (hmoves r hr).2.2
    rw [smoothed_add, ← hvalue] at hsum
    rw [← add_div, div_le_iff₀ hup, ← mul_add]
    exact mul_le_mul_of_nonneg_left hsum (by norm_num)

/-- An indicator is there only where the range is, and the range is no zero. -/
theorem range_of_indicator (hvalid : ∀ c ∈ data, c.Valid) (hpos : 0 < n) {i : ℕ} {plusDi : ℚ}
    (h : (directionalMovement data n).2.1[i]? = some (some plusDi)) :
    ∃ range, (atr data n)[i]? = some (some range) ∧ 0 < range := by
  rw [(directionalMovement_eq data n).1] at h
  obtain ⟨-, range, -, hrange, hne, -⟩ := getElem?_div h
  refine ⟨range, hrange, lt_of_le_of_ne ?_ (Ne.symm hne)⟩
  have hnonneg : Nonneg (atr data n) := by
    rw [atr_eq]
    refine Nonneg.wilderSmooth hpos (every_ofList.mpr fun v hv => ?_)
    obtain ⟨r, hr, rfl⟩ := List.mem_map.mp hv
    have hrow := valid_withPrevious hvalid hr
    obtain ⟨hplus, hminus, hsum⟩ := moves_le_range hrow.1 hrow.2
    linarith
  exact hnonneg range (List.mem_of_getElem? hrange)

theorem spread_within {p m : ℚ} (hp : 0 ≤ p) (hm : 0 ≤ m) (hne : p + m ≠ 0) :
    0 ≤ 100 * |p - m| / (p + m) ∧ 100 * |p - m| / (p + m) ≤ 100 := by
  have hsum : 0 < p + m := lt_of_le_of_ne (add_nonneg hp hm) (Ne.symm hne)
  have hspread : |p - m| ≤ p + m := abs_le.mpr ⟨by linarith, by linarith⟩
  refine ⟨div_nonneg (mul_nonneg (by norm_num) (abs_nonneg _)) hsum.le, ?_⟩
  rw [div_le_iff₀ hsum]
  exact mul_le_mul_of_nonneg_left hspread (by norm_num)

theorem adx_within (hvalid : ∀ c ∈ data, c.Valid) (hpos : 0 < n) :
    Within 0 100 (directionalMovement data n).1 := by
  have hdx : Within 0 100 (Columns.div
      ((Columns.sub (directionalMovement data n).2.1 (directionalMovement data n).2.2).map
        (·.map fun x => 100 * |x|))
      (Columns.add (directionalMovement data n).2.1 (directionalMovement data n).2.2)) := by
    refine every_iff_getElem?.mpr fun i v hv => ?_
    obtain ⟨spread, sum, hspread, hsum, hne, rfl⟩ := getElem?_div hv
    obtain ⟨plusDi, minusDi, hplus, hminus, rfl⟩ := getElem?_add hsum
    obtain ⟨range, hrange, hup⟩ := range_of_indicator hvalid hpos hplus
    obtain ⟨p, m, hp, hm, hp', hm', -⟩ := indicators_at hvalid hpos hrange hup
    obtain rfl : plusDi = p := Option.some.inj (Option.some.inj (hplus.symm.trans hp))
    obtain rfl : minusDi = m := Option.some.inj (Option.some.inj (hminus.symm.trans hm))
    have hvalue : spread = 100 * |plusDi - minusDi| := by
      have hsub := sub_getElem? hplus hminus
      rw [List.getElem?_map, hsub] at hspread
      exact (Option.some.inj (Option.some.inj hspread)).symm
    rw [hvalue]
    exact spread_within hp' hm' hne
  exact Every.fillPresent
    (Within.wilderSmooth hpos (every_ofList.mpr fun v hv => Every.present hdx v hv)) _

end Indicators

/-- **The ranges of the indicators.**  The relative strength, the two lines of the slow
stochastic and the ADX are percentages wherever they are there; where the smoothed true range is
positive so are the two directional indicators and their sum. -/
theorem indicator_ranges {data : List Candle} (hvalid : ∀ c ∈ data, c.Valid)
    {rsiLength kLength kSmooth dSmooth length : ℕ} (hrsi : 0 < rsiLength) (hk : 0 < kLength)
    (hsmooth : 0 < kSmooth) (hd : 0 < dSmooth) (hlength : 0 < length) :
    Within 0 100 (rsi rsiLength (closes data)) ∧
      Within 0 100 (stochastic data kLength kSmooth dSmooth).1 ∧
      Within 0 100 (stochastic data kLength kSmooth dSmooth).2 ∧
      Within 0 100 (directionalMovement data length).1 ∧
      ∀ (i : ℕ) (range : ℚ), (atr data length)[i]? = some (some range) → 0 < range →
        ∃ plusDi minusDi, (directionalMovement data length).2.1[i]? = some (some plusDi) ∧
          (directionalMovement data length).2.2[i]? = some (some minusDi) ∧
          0 ≤ plusDi ∧ 0 ≤ minusDi ∧ plusDi + minusDi ≤ 100 := by
  obtain ⟨hslow, hline⟩ := stochastic_within hvalid hk hsmooth hd
  exact ⟨rsi_within hrsi (closes data), hslow, hline, adx_within hvalid hlength,
    fun _ _ hrange hup => indicators_at hvalid hlength hrange hup⟩

/-- An hour that falls by a cent from the hour before it. -/
def fallingHour (i : ℕ) : Candle where
  ts := seconds (3600 * i)
  openPrice := 2 - i / 100
  high := 2 - i / 100
  low := 2 - (i + 1) / 100
  close := 2 - (i + 1) / 100

theorem fallingHour_valid (i : ℕ) : (fallingHour i).Valid := by
  have hstep : (2 : ℚ) - (i + 1) / 100 ≤ 2 - i / 100 := by linarith
  exact ⟨hstep, le_refl _, le_refl _, hstep⟩

/-- Thirty such hours keep to the ranges. -/
theorem fallingHours_ranges :
    let data := (List.range 30).map fallingHour
    Within 0 100 (rsi 14 (closes data)) ∧ Within 0 100 (stochastic data 14 3 3).1 ∧
      Within 0 100 (stochastic data 14 3 3).2 ∧ Within 0 100 (directionalMovement data 14).1 ∧
      ∀ (i : ℕ) (range : ℚ), (atr data 14)[i]? = some (some range) → 0 < range →
        ∃ plusDi minusDi, (directionalMovement data 14).2.1[i]? = some (some plusDi) ∧
          (directionalMovement data 14).2.2[i]? = some (some minusDi) ∧
          0 ≤ plusDi ∧ 0 ≤ minusDi ∧ plusDi + minusDi ≤ 100 := by
  refine indicator_ranges (fun c hc => ?_) (by decide) (by decide) (by decide) (by decide)
    (by decide)
  obtain ⟨i, -, rfl⟩ := List.mem_map.mp hc
  exact fallingHour_valid i

end ForexAi
