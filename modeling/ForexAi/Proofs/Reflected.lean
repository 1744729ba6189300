/-
A window of candles upside down.

A window is reflected by turning every price `p` into `k - p`; highs and lows change places.
Every indicator follows: the means and bands are reflected, the momentum changes its sign, the
oscillators are counted from the other end, the ranges and the ADX stay.  `readings_reflect` puts
them together: the readings of the reflected window, out of the readings of the window alone.
-/
import ForexAi.Agents.Technical
import ForexAi.Lib.Reflection

namespace ForexAi

open Columns

/-! ### The reflected window -/

/-- A candle turned around: what was above is below. -/
def Candle.reflect (k : ℚ) (c : Candle) : Candle :=
  { c with
    openPrice := k - c.openPrice
    high := k - c.low
    low := k - c.high
    close := k - c.close }

/-- A day turned around. -/
def PrevDaily.reflect (k : ℚ) (p : PrevDaily) : PrevDaily :=
  { high := k - p.low, low := k - p.high, close := k - p.close }

/-- What an agent is handed, with every price turned around. -/
def AnalysisContext.reflect (k : ℚ) (ctx : AnalysisContext) : AnalysisContext :=
  { ctx with
    candles := ctx.candles.map (·.reflect k)
    prevDaily := ctx.prevDaily.map (·.reflect k) }

theorem closes_reflect (k : ℚ) (data : List Candle) :
    closes (data.map (·.reflect k)) = Columns.reflect k (closes data) := by
  unfold closes
  rw [List.map_map, ← ofList_reflect, List.map_map]
  rfl

theorem highs_reflect (k : ℚ) (data : List Candle) :
    highs (data.map (·.reflect k)) = Columns.reflect k (lows data) := by
  unfold highs lows
  rw [List.map_map, ← ofList_reflect, List.map_map]
  rfl

theorem lows_reflect (k : ℚ) (data : List Candle) :
    lows (data.map (·.reflect k)) = Columns.reflect k (highs data) := by
  unfold highs lows
  rw [List.map_map, ← ofList_reflect, List.map_map]
  rfl

/-! ### The indicators

A mean of reflected prices is the reflection of the mean.  What is a difference changes its
sign, what is a distance stays, and of a pair of extremes each becomes the other.
-/

theorem sma_reflect {n : ℕ} (hpos : 0 < n) (k : ℚ) (xs : Column ℚ) :
    sma n (Columns.reflect k xs) = Columns.reflect k (sma n xs) := rolling_mean_reflect hpos k xs

theorem ewmMean_span_reflect {n : ℕ} (hpos : 0 < n) (minPeriods : ℕ) (k : ℚ) (xs : Column ℚ) :
    ewmMean (2 / ((n : ℚ) + 1)) minPeriods (Columns.reflect k xs)
      = Columns.reflect k (ewmMean (2 / ((n : ℚ) + 1)) minPeriods xs) := by
  have hn : (1 : ℚ) ≤ n := by exact_mod_cast hpos
  refine ewmMean_reflect (by positivity) ?_ minPeriods k xs
  rw [div_le_one (by positivity)]
  linarith

theorem ema_reflect {n : ℕ} (hpos : 0 < n) (k : ℚ) (xs : Column ℚ) :
    ema n (Columns.reflect k xs) = Columns.reflect k (ema n xs) := ewmMean_span_reflect hpos n k xs

theorem macd_reflect {fast slow signalLen : ℕ} (hfast : 0 < fast) (hslow : 0 < slow)
    (hsignal : 0 < signalLen) (k : ℚ) (xs : Column ℚ) :
    (macd fast slow signalLen (Columns.reflect k xs)).2.2
      = Columns.reflect 0 (macd fast slow signalLen xs).2.2 := by
  simp only [macd]
  rw [ema_reflect hfast, ema_reflect hslow, sub_reflect, sub_self, ewmMean_span_reflect hsignal,
    sub_reflect, sub_self]

theorem gains_reflect (xs : Column ℚ) :
    (Columns.reflect 0 xs).map (·.map (max 0)) = xs.map (·.map fun d => max 0 (-d)) := by
  unfold Columns.reflect mapValues
  rw [List.map_map]
  refine List.map_congr_left fun x _ => ?_
  cases x <;> simp

theorem losses_reflect (xs : Column ℚ) :
    (Columns.reflect 0 xs).map (·.map fun d => max 0 (-d)) = xs.map (·.map (max 0)) := by
  have h := gains_reflect (Columns.reflect 0 xs)
  rw [reflect_reflect] at h
  exact h.symm

theorem rsiOf_swap {gain loss : ℚ} (hgain : 0 ≤ gain) (hloss : 0 ≤ loss) :
    rsiOf loss gain = (rsiOf gain loss).map (100 - ·) := by
  unfold rsiOf
  rcases eq_or_lt_of_le hgain with rfl | hgain
  · rcases eq_or_lt_of_le hloss with rfl | hloss
    · simp
    · simp [hloss, hloss.ne']
  · rcases eq_or_lt_of_le hloss with rfl | hloss
    · simp [hgain, hgain.ne']
    · rw [if_neg hgain.ne', if_neg hloss.ne', Option.map_some]
      refine congrArg some ?_
      have hsum : gain + loss ≠ 0 := (add_pos hgain hloss).ne'
      have hsum' : loss + gain ≠ 0 := (add_pos hloss hgain).ne'
      field_simp
      ring

theorem rsi_reflect {n : ℕ} (hpos : 0 < n) (k : ℚ) (xs : Column ℚ) :
    rsi n (Columns.reflect k xs) = Columns.reflect 100 (rsi n xs) := by
  simp only [rsi]
  rw [diff_reflect, gains_reflect, losses_reflect, zip_swap]
  have hgain : Nonneg (wilderSmooth n ((diff xs).map (·.map (max 0)))) :=
    (nonneg_map_max id (diff xs)).wilderSmooth hpos
  have hloss : Nonneg (wilderSmooth n ((diff xs).map (·.map fun d => max 0 (-d)))) :=
    (nonneg_map_max (- ·) (diff xs)).wilderSmooth hpos
  have h := @zip_mapValues_of ℚ (fun a b => rsiOf b a) rsiOf id id (100 - ·) (0 ≤ ·) (0 ≤ ·)
    (fun a b ha hb => rsiOf_swap ha hb) _ _ hgain hloss
  rw [mapValues_id, mapValues_id] at h
  exact h

section Bands

variable [SquareRoot]

theorem deviation_reflect (k : ℚ) {w : List ℚ} (h : w ≠ []) :
    deviation (w.map (k - ·)) = deviation w := by
  unfold deviation
  rw [meanOf_reflect k h, List.map_map]
  refine congrArg (fun xs => SquareRoot.sqrt (meanOf xs)) (List.map_congr_left fun x _ => ?_)
  simp only [Function.comp_apply]
  ring

theorem rolling_deviation_reflect {n : ℕ} (hpos : 0 < n) (k : ℚ) (xs : Column ℚ) :
    rolling n (fun w => some (deviation w)) (Columns.reflect k xs)
      = rolling n (fun w => some (deviation w)) xs := by
  have h := @rolling_mapValues ℚ n (fun w => some (deviation w)) (fun w => some (deviation w))
    (k - ·) id
    (fun w hw => congrArg some (deviation_reflect k (by rintro rfl; exact absurd hw hpos.ne))) xs
  rw [mapValues_id] at h
  exact h

theorem bollinger_reflect {n : ℕ} (hpos : 0 < n) (numStd k : ℚ) (xs : Column ℚ) :
    (bollinger n numStd (Columns.reflect k xs)).2.1 =
      Columns.reflect k (bollinger n numStd xs).2.2 ∧
      (bollinger n numStd (Columns.reflect k xs)).2.2
        = Columns.reflect k (bollinger n numStd xs).2.1 := by
  simp only [bollinger]
  rw [sma_reflect hpos, rolling_deviation_reflect hpos, add_reflect, sub_reflect_left]
  exact ⟨rfl, rfl⟩

end Bands

theorem rangeAfter_reflect (k previous : ℚ) (c : Candle) :
    rangeAfter (k - previous) (c.reflect k) = rangeAfter previous c := by
  unfold rangeAfter Candle.reflect
  simp only [sub_sub_sub_cancel_left]
  rw [max_assoc, max_assoc, max_comm |previous - c.low|, abs_sub_comm previous,
    abs_sub_comm previous]

theorem trueRange_reflect (k : ℚ) (data : List Candle) :
    trueRange (data.map (·.reflect k)) = trueRange data := by
  cases data with
  | nil => rfl
  | cons c rest =>
      simp only [List.map_cons, trueRange]
      congr 1
      · simp [Candle.reflect]
      · rw [← List.map_cons, List.zipWith_map]
        refine congrFun (congrFun (congrArg List.zipWith ?_) _) _
        funext p q
        exact rangeAfter_reflect k p.close q

theorem atr_reflect (k : ℚ) (data : List Candle) (n : ℕ) :
    atr (data.map (·.reflect k)) n = atr data n := by
  unfold atr
  rw [trueRange_reflect]

theorem stochastic_reflect (k : ℚ) (data : List Candle) {kLength kSmooth dSmooth : ℕ}
    (hk : 0 < kSmooth) (hd : 0 < dSmooth) :
    stochastic (data.map (·.reflect k)) kLength kSmooth dSmooth
      = (Columns.reflect 100 (stochastic data kLength kSmooth dSmooth).1,
          Columns.reflect 100 (stochastic data kLength kSmooth dSmooth).2) := by
  simp only [stochastic]
  rw [closes_reflect, highs_reflect, lows_reflect, rolling_max_reflect, rolling_min_reflect,
    sub_reflect_same, sub_reflect_same, range_position_reflect, sma_reflect hk, sma_reflect hd]

/-- The movements change places and the ADX stays. -/
theorem directionalMovement_reflect (k : ℚ) (data : List Candle) (n : ℕ) :
    directionalMovement (data.map (·.reflect k)) n
      = ((directionalMovement data n).1, (directionalMovement data n).2.2,
          (directionalMovement data n).2.1) := by
  have habs : ∀ xs ys : Column ℚ, (Columns.sub xs ys).map (·.map fun x => 100 * |x|)
      = (Columns.sub ys xs).map (·.map fun x => 100 * |x|) := by
    intro xs ys
    rw [← reflect_zero_sub ys xs, Columns.reflect, mapValues, List.map_map]
    refine List.map_congr_left fun x _ => ?_
    cases x <;> simp
  simp only [directionalMovement]
  rw [highs_reflect, lows_reflect, diff_reflect, diff_reflect, ← scale_neg_one, ← scale_neg_one,
    atr_reflect]
  have hback : scale (-1) (scale (-1) (diff (highs data))) = diff (highs data) := by
    rw [scale_neg_one, scale_neg_one, reflect_reflect]
  rw [hback, add_swap (Columns.div _ _), habs]

theorem donchian_reflect (k : ℚ) (data : List Candle) (n : ℕ) :
    (donchian (data.map (·.reflect k)) n).1 = Columns.reflect k (donchian data n).2.2 ∧
      (donchian (data.map (·.reflect k)) n).2.2 = Columns.reflect k (donchian data n).1 := by
  simp only [donchian]
  rw [highs_reflect, lows_reflect, rolling_max_reflect, rolling_min_reflect]
  exact ⟨rfl, rfl⟩

/-! ### The readings -/

namespace Technical

/-- The readings of a reflected window, out of the readings of the window. -/
def Readings.reflect (k : ℚ) (r : Readings) : Readings where
  close := r.close.map (k - ·)
  emaFast := r.emaFast.map (k - ·)
  emaSlow := r.emaSlow.map (k - ·)
  sma50 := r.sma50.map (k - ·)
  hist := r.hist.map (0 - ·)
  rsi := r.rsi.map (100 - ·)
  bbUpper := r.bbLower.map (k - ·)
  bbLower := r.bbUpper.map (k - ·)
  stochK := r.stochK.map (100 - ·)
  stochD := r.stochD.map (100 - ·)
  adx := r.adx
  plusDi := r.minusDi
  minusDi := r.plusDi
  atr := r.atr
  prevDonUpper := r.prevDonLower.map (k - ·)
  prevDonLower := r.prevDonUpper.map (k - ·)

/-- **Every indicator follows the reflection.** -/
theorem readings_reflect [SquareRoot] (k : ℚ) (data : List Candle) :
    readings (data.map (·.reflect k)) = (readings data).reflect k := by
  obtain ⟨habove, hbelow⟩ := bollinger_reflect (by decide : 0 < 20) 2 k (closes data)
  have hstoch := @stochastic_reflect k data 14 3 3 (by decide) (by decide)
  have hdm := directionalMovement_reflect k data 14
  obtain ⟨hupper, hlower⟩ := donchian_reflect k data 20
  simp only [readings, Readings.reflect, Readings.mk.injEq]
  rw [closes_reflect, ema_reflect (by decide), ema_reflect (by decide), sma_reflect (by decide),
    macd_reflect (by decide) (by decide) (by decide), rsi_reflect (by decide), habove,
    hbelow, hstoch, hdm, atr_reflect, hupper, hlower, shift_reflect, shift_reflect]
  simp only [lastValid_reflect, and_self]

end Technical

end ForexAi
