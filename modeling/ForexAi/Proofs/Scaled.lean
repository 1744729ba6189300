/-
A window of candles in another unit.

Yen are counted in hundreds where euros are counted in ones.  A window is put into another unit by
multiplying every price by a positive `c`.  What is a price is multiplied along, what is a
quotient of prices stays, and so no vote, no score and no label of the market changes
(`verdicts_scale`).

The dead zone of the votes is a share of the ATR, which is a price; its other value, for a
window without an ATR, is not one.  That window is never long enough to be read.
-/
import ForexAi.Agents.Regime
import ForexAi.Lib.Scaling

namespace ForexAi

open Columns

/-! ### The window in another unit -/

/-- A candle in another unit. -/
def Candle.scale (c : ℚ) (q : Candle) : Candle :=
  { q with
    openPrice := c * q.openPrice
    high := c * q.high
    low := c * q.low
    close := c * q.close }

/-- A day in another unit. -/
def PrevDaily.scale (c : ℚ) (p : PrevDaily) : PrevDaily :=
  { high := c * p.high, low := c * p.low, close := c * p.close }

/-- What an agent is handed, with every price in another unit. -/
def AnalysisContext.scale (c : ℚ) (ctx : AnalysisContext) : AnalysisContext :=
  { ctx with
    candles := ctx.candles.map (·.scale c)
    prevDaily := ctx.prevDaily.map (·.scale c) }

theorem closes_scale (c : ℚ) (data : List Candle) :
    closes (data.map (·.scale c)) = Columns.scale c (closes data) := by
  unfold closes
  rw [List.map_map, ← ofList_scale, List.map_map]
  rfl

theorem highs_scale (c : ℚ) (data : List Candle) :
    highs (data.map (·.scale c)) = Columns.scale c (highs data) := by
  unfold highs
  rw [List.map_map, ← ofList_scale, List.map_map]
  rfl

theorem lows_scale (c : ℚ) (data : List Candle) :
    lows (data.map (·.scale c)) = Columns.scale c (lows data) := by
  unfold lows
  rw [List.map_map, ← ofList_scale, List.map_map]
  rfl

/-! ### The indicators that are prices

A mean of prices, a difference of two and a spread around a mean are multiplied along.  Only
the deviation needs something of the square root, which is a parameter: it has to follow the
square of the unit.
-/

theorem sma_scale (n : ℕ) (c : ℚ) (xs : Column ℚ) :
    sma n (Columns.scale c xs) = Columns.scale c (sma n xs) := rolling_mean_scale n c xs

theorem ema_scale (n : ℕ) (c : ℚ) (xs : Column ℚ) :
    ema n (Columns.scale c xs) = Columns.scale c (ema n xs) := ewmMean_scale _ n c xs

theorem macd_scale (fast slow signalLen : ℕ) (c : ℚ) (xs : Column ℚ) :
    (macd fast slow signalLen (Columns.scale c xs)).2.2
      = Columns.scale c (macd fast slow signalLen xs).2.2 := by
  simp only [macd]
  rw [ema_scale, ema_scale, sub_scale, ewmMean_scale, sub_scale]

/-- A root that follows a change of the unit by `c`. -/
def SquareRoot.Follows [SquareRoot] (c : ℚ) : Prop :=
  ∀ x, 0 ≤ x → SquareRoot.sqrt (c ^ 2 * x) = c * SquareRoot.sqrt x

section Bands

variable [SquareRoot]

theorem deviation_scale {c : ℚ} (hroot : SquareRoot.Follows c) (w : List ℚ) :
    deviation (w.map (c * ·)) = c * deviation w := by
  unfold deviation
  rw [meanOf_scale, List.map_map]
  have hsquares : (w.map ((fun x => (x - c * meanOf w) ^ 2) ∘ (c * ·)))
      = (w.map fun x => (x - meanOf w) ^ 2).map (c ^ 2 * ·) := by
    rw [List.map_map]
    refine List.map_congr_left fun x _ => ?_
    simp only [Function.comp_apply]
    ring
  rw [hsquares, meanOf_scale]
  refine hroot _ (div_nonneg (List.sum_nonneg fun y hy => ?_) (Nat.cast_nonneg _))
  obtain ⟨x, -, rfl⟩ := List.mem_map.mp hy
  exact sq_nonneg _

theorem bollinger_scale {c : ℚ} (hroot : SquareRoot.Follows c) (n : ℕ) (numStd : ℚ)
    (xs : Column ℚ) :
    (bollinger n numStd (Columns.scale c xs)).2.1 = Columns.scale c (bollinger n numStd xs).2.1 ∧
      (bollinger n numStd (Columns.scale c xs)).2.2
        = Columns.scale c (bollinger n numStd xs).2.2 := by
  have hspread : rolling n (fun w => some (deviation w)) (Columns.scale c xs)
      = Columns.scale c (rolling n (fun w => some (deviation w)) xs) :=
    rolling_mapValues (fun w _ => congrArg some (deviation_scale hroot w)) xs
  simp only [bollinger]
  rw [sma_scale, hspread, scale_scale, add_scale, sub_scale]
  exact ⟨rfl, rfl⟩

end Bands

theorem rangeAfter_scale {c : ℚ} (h : 0 ≤ c) (previous : ℚ) (q : Candle) :
    rangeAfter (c * previous) (q.scale c) = c * rangeAfter previous q := by
  unfold rangeAfter Candle.scale
  simp only [← mul_sub, abs_mul, abs_of_nonneg h, mul_max_of_nonneg _ _ h]

theorem trueRange_scale {c : ℚ} (h : 0 ≤ c) (data : List Candle) :
    trueRange (data.map (·.scale c)) = (trueRange data).map (c * ·) := by
  cases data with
  | nil => rfl
  | cons q rest =>
      simp only [List.map_cons, trueRange]
      congr 1
      · exact (mul_sub c q.high q.low).symm
      · rw [← List.map_cons, List.zipWith_map, List.map_zipWith]
        refine congrFun (congrFun (congrArg List.zipWith ?_) _) _
        funext p q
        exact rangeAfter_scale h p.close q

theorem atr_scale {c : ℚ} (h : 0 ≤ c) (data : List Candle) (n : ℕ) :
    atr (data.map (·.scale c)) n = Columns.scale c (atr data n) := by
  unfold atr
  rw [trueRange_scale h, ofList_scale, wilderSmooth_scale]

theorem donchian_scale {c : ℚ} (h : 0 ≤ c) (data : List Candle) (n : ℕ) :
    (donchian (data.map (·.scale c)) n).1 = Columns.scale c (donchian data n).1 ∧
      (donchian (data.map (·.scale c)) n).2.2 = Columns.scale c (donchian data n).2.2 := by
  simp only [donchian]
  rw [highs_scale, lows_scale, rolling_max_scale n h, rolling_min_scale n h]
  exact ⟨rfl, rfl⟩

/-! ### The indicators that are quotients

A gain over a loss, a place between the lowest and the highest, a movement over a range: the
unit cancels, also where the code divides by nothing and falls back to a constant.
-/

theorem rsiOf_scale {c : ℚ} (h : 0 < c) (gain loss : ℚ) :
    rsiOf (c * gain) (c * loss) = rsiOf gain loss := by
  unfold rsiOf
  rw [mul_div_mul_left gain loss h.ne']
  simp only [mul_eq_zero, h.ne', false_or, mul_pos_iff_of_pos_left h]

theorem rsi_scale {c : ℚ} (h : 0 < c) (n : ℕ) (xs : Column ℚ) :
    rsi n (Columns.scale c xs) = rsi n xs := by
  have hgain : ∀ x : ℚ, max 0 (c * x) = c * max 0 x := by
    intro x
    rw [mul_max_of_nonneg _ _ h.le, mul_zero]
  have hloss : ∀ x : ℚ, max 0 (-(c * x)) = c * max 0 (-x) := by
    intro x
    rw [← hgain, mul_neg]
  have hzip (as bs : Column ℚ) : Columns.zip rsiOf (Columns.scale c as) (Columns.scale c bs)
      = Columns.zip rsiOf as bs := by
    have hvalues := @zip_mapValues ℚ rsiOf rsiOf (c * ·) (c * ·) id
      (fun a b => by rw [rsiOf_scale h, Option.map_id_fun, id_eq]) as bs
    rw [mapValues_id] at hvalues
    exact hvalues
  simp only [rsi]
  rw [diff_scale, map_scale hgain, map_scale hloss, wilderSmooth_scale, wilderSmooth_scale, hzip]

theorem stochastic_scale {c : ℚ} (h : 0 < c) (data : List Candle) (kLength kSmooth dSmooth : ℕ) :
    stochastic (data.map (·.scale c)) kLength kSmooth dSmooth
      = stochastic data kLength kSmooth dSmooth := by
  simp only [stochastic]
  rw [closes_scale, highs_scale, lows_scale, rolling_max_scale _ h.le, rolling_min_scale _ h.le,
    sub_scale, sub_scale, div_scale_multiple h.ne']

theorem directionalMove_scale {c : ℚ} (h : 0 < c) (up down : Option ℚ) :
    directionalMove (up.map (c * ·)) (down.map (c * ·))
      = (directionalMove up down).map (c * ·) := by
  have hzero : (some 0 : Option ℚ) = (some 0 : Option ℚ).map (c * ·) := by simp
  cases up with
  | none => exact hzero
  | some u =>
      cases down with
      | none => exact hzero
      | some d =>
          simp only [directionalMove, Option.map_some, mul_lt_mul_iff_right₀ h,
            mul_pos_iff_of_pos_left h]
          by_cases hmove : d < u ∧ 0 < u
          · rw [if_pos hmove, if_pos hmove, Option.map_some]
          · rw [if_neg hmove, if_neg hmove]
            exact hzero

theorem moves_scale {c : ℚ} (h : 0 < c) (up down : Column ℚ) :
    List.zipWith directionalMove (Columns.scale c up) (Columns.scale c down)
      = Columns.scale c (List.zipWith directionalMove up down) := by
  unfold Columns.scale
  rw [List.zipWith_map, List.map_zipWith]
  refine congrFun (congrFun (congrArg List.zipWith ?_) _) _
  funext u d
  exact directionalMove_scale h u d

theorem directionalMovement_scale {c : ℚ} (h : 0 < c) (data : List Candle) (n : ℕ) :
    directionalMovement (data.map (·.scale c)) n = directionalMovement data n := by
  simp only [directionalMovement]
  rw [highs_scale, lows_scale, diff_scale, diff_scale, scale_scale, moves_scale h, moves_scale h,
    atr_scale h.le, wilderSmooth_scale, wilderSmooth_scale, div_scale_multiple h.ne',
    div_scale_multiple h.ne']

/-! ### The technical agent -/

namespace Technical

/-- The readings of a window in another unit. -/
def Readings.scale (c : ℚ) (r : Readings) : Readings :=
  { r with
    close := r.close.map (c * ·)
    emaFast := r.emaFast.map (c * ·)
    emaSlow := r.emaSlow.map (c * ·)
    sma50 := r.sma50.map (c * ·)
    hist := r.hist.map (c * ·)
    bbUpper := r.bbUpper.map (c * ·)
    bbLower := r.bbLower.map (c * ·)
    atr := r.atr.map (c * ·)
    prevDonUpper := r.prevDonUpper.map (c * ·)
    prevDonLower := r.prevDonLower.map (c * ·) }

/-- **Every indicator follows the unit.** -/
theorem readings_scale [SquareRoot] {c : ℚ} (h : 0 < c) (hroot : SquareRoot.Follows c)
    (data : List Candle) : readings (data.map (·.scale c)) = (readings data).scale c := by
  obtain ⟨habove, hbelow⟩ := bollinger_scale hroot 20 2 (closes data)
  obtain ⟨hupper, hlower⟩ := donchian_scale h.le data 20
  simp only [readings, Readings.scale, Readings.mk.injEq]
  rw [closes_scale, ema_scale, ema_scale, sma_scale, macd_scale, rsi_scale h, habove, hbelow,
    stochastic_scale h, directionalMovement_scale h, atr_scale h.le, hupper, hlower, shift_scale,
    shift_scale]
  simp only [lastValid_scale, and_self]

/-! ### The votes

A vote is the sign of a difference of prices, or of a quotient, outside a dead zone that is a
price itself.  Multiplied along on both sides, no comparison changes.
-/

variable {c : ℚ}

theorem signDeadzone_scale (h : 0 < c) (value deadzone : ℚ) :
    signDeadzone (c * value) (c * deadzone) = signDeadzone value deadzone := by
  unfold signDeadzone
  rw [← mul_neg]
  simp only [mul_lt_mul_iff_right₀ h]

theorem breakout_scale (h : 0 < c) (value upper lower : Option ℚ) :
    breakout (value.map (c * ·)) (upper.map (c * ·)) (lower.map (c * ·))
      = breakout value upper lower := by
  cases value with
  | none => rfl
  | some v =>
      cases upper with
      | none => rfl
      | some u =>
          cases lower with
          | none => rfl
          | some l => simp only [breakout, Option.map_some, mul_le_mul_iff_right₀ h]

theorem pivotVote_scale (h : 0 < c) (close : Option ℚ) (prevDaily : Option PrevDaily) :
    pivotVote (close.map (c * ·)) (prevDaily.map (·.scale c)) = pivotVote close prevDaily := by
  cases close with
  | none => rfl
  | some v =>
      cases prevDaily with
      | none => rfl
      | some p =>
          have hpivot : (floorPivots (c * p.high) (c * p.low) (c * p.close)).pivot
              = c * (floorPivots p.high p.low p.close).pivot := by
            simp only [floorPivots]
            ring
          simp only [pivotVote, Option.map_some, PrevDaily.scale]
          rw [hpivot]
          simp only [mul_lt_mul_iff_right₀ h]

theorem deadzone_scale {r : Readings} (hatr : r.atr.isSome) :
    (r.scale c).deadzone = c * r.deadzone := by
  obtain ⟨a, ha⟩ := Option.isSome_iff_exists.mp hatr
  unfold Readings.deadzone Readings.scale
  rw [ha]
  exact mul_left_comm _ _ _

/-- A reading that is missing counts as zero in every unit. -/
theorem getD_scale (x : Option ℚ) : (x.map (c * ·)).getD 0 = c * x.getD 0 := by
  cases x with
  | none => exact (mul_zero c).symm
  | some v => rfl

theorem votes_scale (h : 0 < c) {r : Readings} (hatr : r.atr.isSome)
    (prevDaily : Option PrevDaily) :
    (r.scale c).votes (prevDaily.map (·.scale c)) = r.votes prevDaily := by
  have hcross : (r.scale c).emaFast.getD 0 - (r.scale c).emaSlow.getD 0
      = c * (r.emaFast.getD 0 - r.emaSlow.getD 0) := by
    rw [mul_sub, ← getD_scale, ← getD_scale]
    rfl
  have hsma : (r.scale c).close.getD 0 - (r.scale c).sma50.getD ((r.scale c).close.getD 0)
      = c * (r.close.getD 0 - r.sma50.getD (r.close.getD 0)) := by
    unfold Readings.scale
    simp only [getD_scale]
    cases r.sma50 with
    | none => simp
    | some s => exact (mul_sub c _ s).symm
  have hhist : (r.scale c).hist.getD 0 = c * r.hist.getD 0 := getD_scale r.hist
  unfold Readings.votes
  simp only [hcross, hsma, hhist, deadzone_scale hatr, signDeadzone_scale h]
  unfold Readings.scale
  simp only [breakout_scale h, pivotVote_scale h]

/-- The features of a window in another unit, apart from the indicators. -/
theorem features_scale (h : 0 < c) {r : Readings} (hatr : r.atr.isSome)
    (prevDaily : Option PrevDaily) {key : String} (hkey : key ≠ "indicators") :
    ((r.scale c).features (prevDaily.map (·.scale c))).get key =
      (r.features prevDaily).get key := by
  have hgate : (r.scale c).gate = r.gate := rfl
  have hindicators : (key == "indicators") = false := beq_false_of_ne hkey
  unfold Readings.features Readings.score Features.get
  rw [votes_scale h hatr, hgate]
  simp only [List.lookup_cons, List.lookup_nil, hindicators]

end Technical

/-- Two signals that differ in the dictionary of indicators at most. -/
structure SameVerdict (a b : AgentSignal) : Prop where
  features : ∀ key, key ≠ "indicators" → b.features.get key = a.features.get key
  rest : { b with features := a.features } = a

theorem Technical.analyze_scale [SquareRoot] {c : ℚ} (h : 0 < c) (hroot : SquareRoot.Follows c)
    (ctx : AnalysisContext) :
    SameVerdict (Technical.analyze ctx) (Technical.analyze (ctx.scale c)) := by
  have hlength : (ctx.scale c).candles.length = ctx.candles.length := List.length_map _
  unfold Technical.analyze
  rw [hlength]
  by_cases hshort : ctx.candles.length < Technical.minBars
  · rw [if_pos hshort, if_pos hshort]
    exact ⟨fun _ _ => rfl, rfl⟩
  · rw [if_neg hshort, if_neg hshort]
    have hatr : (Technical.readings ctx.candles).atr.isSome := by
      obtain ⟨a, ha⟩ := @lastValid_atr ctx.candles 14 (by decide)
        (le_trans (by decide) (not_lt.mp hshort))
      exact Option.isSome_iff_exists.mpr ⟨a, ha⟩
    have hreadings : Technical.readings (ctx.scale c).candles
        = (Technical.readings ctx.candles).scale c := Technical.readings_scale h hroot _
    have hscore : ((Technical.readings ctx.candles).scale c).score (ctx.scale c).prevDaily
        = (Technical.readings ctx.candles).score ctx.prevDaily := by
      unfold Technical.Readings.score AnalysisContext.scale
      simp only
      rw [Technical.votes_scale h hatr]
      rfl
    simp only [hreadings, hscore]
    exact ⟨fun _ hkey => Technical.features_scale h hatr ctx.prevDaily hkey, rfl⟩

/-! ### The regime agent -/

namespace Regime

/-- A range in per cent of the close has no unit. -/
theorem atrPct_scale {c : ℚ} (h : 0 < c) (range close : ℚ) :
    atrPct (c * range) (c * close) = atrPct range close := by
  unfold atrPct
  rw [mul_div_mul_left range close h.ne']
  simp only [mul_eq_zero, h.ne', false_or]

theorem atrPctSeries_scale {c : ℚ} (h : 0 < c) (data : List Candle) :
    atrPctSeries (data.map (·.scale c)) = atrPctSeries data := by
  unfold atrPctSeries
  rw [atr_scale h.le, closes_scale]
  unfold Columns.scale
  rw [List.zipWith_map]
  refine congrArg (List.filterMap id) ?_
  refine congrFun (congrFun (congrArg List.zipWith ?_) _) _
  funext range close
  cases range with
  | none => rfl
  | some r =>
      cases close with
      | none => rfl
      | some p => exact atrPct_scale h r p

theorem analyze_scale {c : ℚ} (h : 0 < c) (ctx : AnalysisContext) :
    analyze (ctx.scale c) = analyze ctx := by
  have hlength : (ctx.scale c).candles.length = ctx.candles.length := List.length_map _
  have hmovement : directionalMovement (ctx.scale c).candles 14
      = directionalMovement ctx.candles 14 := directionalMovement_scale h _ 14
  have hatr : lastValid (atr (ctx.scale c).candles 14)
      = (lastValid (atr ctx.candles 14)).map (c * ·) := by
    rw [← lastValid_scale, ← atr_scale h.le]
    rfl
  have hclose : lastValid (closes (ctx.scale c).candles)
      = (lastValid (closes ctx.candles)).map (c * ·) := by
    rw [← lastValid_scale, ← closes_scale]
    rfl
  have hfeatures : ∀ reading, featuresOf (ctx.scale c) reading = featuresOf ctx reading := by
    intro reading
    have hseries : atrPctSeries (ctx.scale c).candles = atrPctSeries ctx.candles :=
      atrPctSeries_scale h _
    simp only [featuresOf, hmovement, hseries]
    rfl
  unfold analyze
  rw [hlength, hmovement, hatr, hclose]
  by_cases hshort : ctx.candles.length < minBars
  · rw [if_pos hshort, if_pos hshort]
    rfl
  · rw [if_neg hshort, if_neg hshort]
    cases lastValid (directionalMovement ctx.candles 14).1 with
    | none => rfl
    | some reading =>
        cases lastValid (atr ctx.candles 14) with
        | none => rfl
        | some range =>
            cases lastValid (closes ctx.candles) with
            | none => rfl
            | some close =>
                simp only [Option.map_some, mul_eq_zero, h.ne', false_or, hfeatures]
                rfl

end Regime

/-- **No verdict depends on the unit of the prices.**  With every price multiplied by `c` the
technical agent takes the same side with the same confidence, score, gate and votes, the regime
agent says the same, and the indicators are those of the window in the other unit. -/
theorem verdicts_scale [SquareRoot] {c : ℚ} (h : 0 < c) (hroot : SquareRoot.Follows c)
    (ctx : AnalysisContext) :
    SameVerdict (Technical.analyze ctx) (Technical.analyze (ctx.scale c)) ∧
      Technical.readings (ctx.scale c).candles = (Technical.readings ctx.candles).scale c ∧
      Regime.analyze (ctx.scale c) = Regime.analyze ctx :=
  ⟨Technical.analyze_scale h hroot ctx, Technical.readings_scale h hroot ctx.candles,
    Regime.analyze_scale h ctx⟩

/-- The root of a square, and zero for what is none. -/
@[reducible] def SquareRoot.ofSquares : SquareRoot where
  sqrt := fun x => if Rat.sqrt x * Rat.sqrt x = x then Rat.sqrt x else 0
  nonneg := fun x _ => by
    by_cases hsquare : Rat.sqrt x * Rat.sqrt x = x
    · simp only [if_pos hsquare]
      exact Rat.sqrt_nonneg x
    · simp only [if_neg hsquare, le_refl]

theorem SquareRoot.ofSquares_follows {c : ℚ} (h : 0 < c) : @SquareRoot.Follows .ofSquares c := by
  intro x _
  show (if Rat.sqrt (c ^ 2 * x) * Rat.sqrt (c ^ 2 * x) = c ^ 2 * x then Rat.sqrt (c ^ 2 * x) else 0)
    = c * if Rat.sqrt x * Rat.sqrt x = x then Rat.sqrt x else 0
  by_cases hsquare : Rat.sqrt x * Rat.sqrt x = x
  · have hroot : Rat.sqrt (c ^ 2 * x) = c * Rat.sqrt x := by
      have hproduct : c ^ 2 * x = (c * Rat.sqrt x) * (c * Rat.sqrt x) := by
        rw [mul_mul_mul_comm, hsquare, sq]
      rw [hproduct, Rat.sqrt_eq, abs_of_nonneg (mul_nonneg h.le (Rat.sqrt_nonneg x))]
    have hproduct : c * Rat.sqrt x * (c * Rat.sqrt x) = c ^ 2 * x := by
      rw [mul_mul_mul_comm, hsquare, sq]
    rw [hroot, if_pos hproduct, if_pos hsquare]
  · have hnone : ¬ Rat.sqrt (c ^ 2 * x) * Rat.sqrt (c ^ 2 * x) = c ^ 2 * x := by
      intro hroot
      refine hsquare (Rat.exists_mul_self x |>.mp ⟨Rat.sqrt (c ^ 2 * x) / c, ?_⟩)
      rw [div_mul_div_comm, hroot]
      field_simp
    rw [if_neg hnone, if_neg hsquare, mul_zero]

/-- Thirty-four hours that close at 1 and at 3 in turn, so that their deviation is 1. -/
def swingingHours : AnalysisContext where
  symbol := .eurusd
  timeframe := .H1
  bucketTs := seconds (34 * 3600)
  candles := (List.range 34).map fun i =>
    { ts := seconds (i * 3600), openPrice := 2, high := 3, low := 1,
      close := if i % 2 = 0 then 1 else 3 }
  now := seconds (35 * 3600)
  prevDaily := some { high := 3, low := 1, close := 2 }

/-- A swinging market in cents. -/
theorem verdicts_scale_cents :
    SameVerdict (@Technical.analyze .ofSquares swingingHours)
        (@Technical.analyze .ofSquares (swingingHours.scale 100)) ∧
      @Technical.readings .ofSquares (swingingHours.scale 100).candles
        = (@Technical.readings .ofSquares swingingHours.candles).scale 100 ∧
      Regime.analyze (swingingHours.scale 100) = Regime.analyze swingingHours :=
  @verdicts_scale .ofSquares 100 (by norm_num) (SquareRoot.ofSquares_follows (by norm_num))
    swingingHours

end ForexAi
