/-
The technical agent and the market upside down.

The readings of a reflected window are the readings of the window turned around
(`readings_reflect`).  The votes on them change sign with them, and with the votes the score,
the direction and the confidence.

Three votes do not, each on a tie.  A breakout is asked for above before it is asked for below,
so a close that is on both bands at once votes LONG on either side of the mirror; and a close on
the pivot votes SHORT on either side.  What the two scores then add up to is `score_reflect`.
The ties of the bands are windows without any movement, so `unbiased_iff` can say it of the
window: there is no bias exactly where the channel before the last bar is not flat at the close,
and the close is on the pivot just when the last twenty closes are one price.
-/
import ForexAi.Lib.Memory
import ForexAi.Proofs.Mirror
import ForexAi.Proofs.Reflected

namespace ForexAi

open Columns Rounding

namespace Technical

/-! ### The votes

A vote is taken by comparing a reading with a threshold above and with its counterpart below.
Reflected, the two comparisons change places, and only what passes both of them, or none, can
tell on which side it was asked first.
-/

theorem signDeadzone_neg {deadzone : ℚ} (h : 0 ≤ deadzone) (value : ℚ) :
    signDeadzone (-value) deadzone = -signDeadzone value deadzone := by
  unfold signDeadzone
  by_cases hup : deadzone < value
  · rw [if_pos hup, if_neg (by linarith), if_pos (by linarith)]
  · rw [if_neg hup]
    by_cases hdown : value < -deadzone
    · rw [if_pos hdown, if_pos (by linarith)]
      rfl
    · rw [if_neg hdown, if_neg (by linarith), if_neg (by linarith)]
      rfl

theorem threshold_reflect (value : Option ℚ) :
    threshold (value.map (100 - ·)) 50 = -threshold value 50 := by
  cases value with
  | none => rfl
  | some v =>
      simp only [threshold, Option.map_some]
      rcases lt_trichotomy v 50 with h | rfl | h
      · rw [if_neg (by linarith), if_pos (by linarith), if_neg h.ne, if_neg (not_lt.mpr h.le)]
        rfl
      · norm_num
      · rw [if_neg (by linarith), if_neg (by linarith), if_neg h.ne', if_pos h]

theorem rsiExtreme_reflect (value : Option ℚ) :
    rsiExtreme (value.map (100 - ·)) = -rsiExtreme value := by
  cases value with
  | none => rfl
  | some v =>
      simp only [rsiExtreme, Option.map_some]
      by_cases hhigh : 70 ≤ v
      · rw [if_pos hhigh, if_neg (by linarith), if_pos (by linarith)]
        rfl
      · rw [if_neg hhigh]
        by_cases hlow : v ≤ 30
        · rw [if_pos hlow, if_pos (by linarith)]
        · rw [if_neg hlow, if_neg (by linarith), if_neg (by linarith)]
          rfl

theorem stochVote_reflect (k d : Option ℚ) :
    stochVote (k.map (100 - ·)) (d.map (100 - ·)) = -stochVote k d := by
  cases k with
  | none => rfl
  | some k =>
      cases d with
      | none => rfl
      | some d =>
          simp only [stochVote, Option.map_some, sub_lt_sub_iff_left]
          by_cases hup : d < k ∧ k < 80
          · rw [if_pos hup, if_neg (fun h => absurd h.1 (not_lt.mpr hup.1.le)),
              if_pos ⟨hup.1, by linarith [hup.2]⟩]
          · rw [if_neg hup]
            by_cases hdown : k < d ∧ 20 < k
            · rw [if_pos hdown, if_pos ⟨hdown.1, by linarith [hdown.2]⟩]
              rfl
            · rw [if_neg hdown, if_neg (fun h => hdown ⟨h.1, by linarith [h.2]⟩),
                if_neg (fun h => hup ⟨h.1, by linarith [h.2]⟩)]
              rfl

/-- The value is on both bands at once. -/
def onBoth (value upper lower : Option ℚ) : Prop :=
  ∃ v u l, value = some v ∧ upper = some u ∧ lower = some l ∧ u ≤ v ∧ v ≤ l

/-- A breakout above is a breakout below of the reflection, except on both bands at once, where
it is a breakout above twice. -/
theorem breakout_reflect (k : ℚ) (value upper lower : Option ℚ)
    [Decidable (onBoth value upper lower)] :
    breakout (value.map (k - ·)) (lower.map (k - ·)) (upper.map (k - ·))
      = -breakout value upper lower + if onBoth value upper lower then 2 else 0 := by
  cases value with
  | none => rw [if_neg (by simp [onBoth])]; rfl
  | some v =>
      cases upper with
      | none => rw [if_neg (by simp [onBoth])]; cases lower <;> rfl
      | some u =>
          cases lower with
          | none => rw [if_neg (by simp [onBoth])]; rfl
          | some l =>
              have hboth : onBoth (some v) (some u) (some l) ↔ u ≤ v ∧ v ≤ l := by simp [onBoth]
              simp only [breakout, Option.map_some, sub_le_sub_iff_left, hboth]
              by_cases hup : u ≤ v
              · by_cases hdown : v ≤ l
                · simp [hup, hdown]
                · simp [hup, hdown]
              · by_cases hdown : v ≤ l
                · simp [hup, hdown]
                · simp [hup, hdown]

/-- The close is on the pivot. -/
def onPivot (close : Option ℚ) (prevDaily : Option PrevDaily) : Prop :=
  ∃ p, prevDaily = some p ∧ close = some (floorPivots p.high p.low p.close).pivot

theorem pivot_reflect (k : ℚ) (p : PrevDaily) :
    (floorPivots (p.reflect k).high (p.reflect k).low (p.reflect k).close).pivot
      = k - (floorPivots p.high p.low p.close).pivot := by
  simp only [floorPivots, PrevDaily.reflect]
  ring

/-- The side of the pivot changes, except on the pivot, which is SHORT twice. -/
theorem pivotVote_reflect (k : ℚ) (close : Option ℚ) (prevDaily : Option PrevDaily)
    [Decidable (onPivot close prevDaily)] :
    pivotVote (close.map (k - ·)) (prevDaily.map (·.reflect k))
      = -pivotVote close prevDaily - if onPivot close prevDaily then 2 else 0 := by
  cases close with
  | none => rw [if_neg (by simp [onPivot])]; rfl
  | some c =>
      cases prevDaily with
      | none => rw [if_neg (by simp [onPivot])]; rfl
      | some p =>
          have hon : onPivot (some c) (some p) ↔ c = (floorPivots p.high p.low p.close).pivot := by
            simp [onPivot]
          simp only [pivotVote, Option.map_some, pivot_reflect, sub_lt_sub_iff_left, hon]
          rcases lt_trichotomy c (floorPivots p.high p.low p.close).pivot with h | h | h
          · rw [if_pos h, if_neg (not_lt.mpr h.le), if_neg h.ne]
            rfl
          · rw [if_neg h.not_gt, if_neg h.not_lt, if_pos h]
            rfl
          · rw [if_neg (not_lt.mpr h.le), if_pos h, if_neg h.ne']
            rfl

/-! ### The score -/

theorem gate_pos (r : Readings) : 3 / 10 ≤ r.gate := by
  unfold Readings.gate
  split
  · split
    · exact le_max_left _ _
    · norm_num
  · norm_num

open Classical in
/-- What the two sides of the mirror do not cancel: the votes that are the same on either
side. -/
noncomputable def Readings.bias (r : Readings) (prevDaily : Option PrevDaily) : ℚ :=
  (if onBoth r.close r.bbUpper r.bbLower then 1 / 5 else 0)
    + (if onBoth r.close r.prevDonUpper r.prevDonLower then 6 / 25 * r.gate else 0)
    - (if onPivot r.close prevDaily then 1 / 5 else 0)

/-- **The score of a reflected window** is the score of the window with the sign changed, but
for the bias. -/
theorem score_reflect (k : ℚ) {r : Readings} (prevDaily : Option PrevDaily) {c fast slow : ℚ}
    (hclose : r.close = some c) (hfast : r.emaFast = some fast) (hslow : r.emaSlow = some slow)
    (hzone : 0 ≤ r.deadzone) :
    (r.reflect k).score (prevDaily.map (·.reflect k)) = -r.score prevDaily + r.bias prevDaily := by
  classical
  have hcross : signDeadzone ((k - fast) - (k - slow)) r.deadzone
      = -signDeadzone (fast - slow) r.deadzone := by
    rw [← signDeadzone_neg hzone]
    congr 1
    ring
  have hsma : signDeadzone ((k - c) - (r.sma50.map (k - ·)).getD (k - c)) r.deadzone
      = -signDeadzone (c - r.sma50.getD c) r.deadzone := by
    rw [← signDeadzone_neg hzone]
    cases r.sma50 <;> simp
  have hhist : signDeadzone ((r.hist.map (0 - ·)).getD 0) r.deadzone
      = -signDeadzone (r.hist.getD 0) r.deadzone := by
    rw [← signDeadzone_neg hzone]
    cases r.hist <;> simp
  have hbands := breakout_reflect k r.close r.bbUpper r.bbLower
  have hchannel := breakout_reflect k r.close r.prevDonUpper r.prevDonLower
  have hpivot := pivotVote_reflect k r.close prevDaily
  have hgate : (r.reflect k).gate = r.gate := rfl
  have hdead : (r.reflect k).deadzone = r.deadzone := rfl
  simp only [Readings.score, Readings.votes, Readings.bias, hgate, hdead, List.map_cons,
    List.map_nil,
    List.sum_cons, List.sum_nil, Vote.contribution, if_true]
  simp only [Readings.reflect]
  rw [hbands, hchannel, hpivot, threshold_reflect, rsiExtreme_reflect, stochVote_reflect, hhist]
  rw [hclose, hfast, hslow]
  simp only [Option.map_some, Option.getD_some]
  rw [hcross, hsma]
  push_cast
  split_ifs <;> ring

/-! ### The readings of the last bars

Being on both bands at once looks like a coincidence of floats; in exact arithmetic it is a
flat window, since the bands lie a deviation apart and a deviation is zero only where all
values are the mean.
-/

/-- The last twenty closes are one price. -/
def LevelCloses (data : List Candle) : Prop :=
  ∀ c ∈ data.drop (data.length - 20), ∀ d ∈ data.drop (data.length - 20), c.close = d.close

/-- The twenty candles before the last one are flat at the last close. -/
def FlatChannel (data : List Candle) : Prop :=
  ∀ last ∈ data.getLast?, ∀ c ∈ data.dropLast.drop (data.dropLast.length - 20),
    c.high = last.close ∧ c.low = last.close

/-- The last close is the pivot of the day before. -/
def OnPivot (ctx : AnalysisContext) : Prop :=
  ∃ p ∈ ctx.prevDaily, ∃ last ∈ ctx.candles.getLast?,
    last.close = (floorPivots p.high p.low p.close).pivot

theorem meanOf_eq {w : List ℚ} {a : ℚ} (hne : w ≠ []) (h : ∀ x ∈ w, x = a) : meanOf w = a := by
  have hlen : (w.length : ℚ) ≠ 0 := Nat.cast_ne_zero.mpr (mt List.length_eq_zero_iff.mp hne)
  unfold meanOf
  rw [List.eq_replicate_of_mem h, List.sum_replicate, List.length_replicate, nsmul_eq_mul]
  field_simp

section Windows

variable [SquareRoot]

/-- The square root is zero at zero only. -/
def RootAtZero : Prop := ∀ x : ℚ, 0 ≤ x → (SquareRoot.sqrt x = 0 ↔ x = 0)

omit [SquareRoot] in
theorem variance_nonneg (w : List ℚ) : 0 ≤ meanOf (w.map fun x => (x - meanOf w) ^ 2) := by
  refine div_nonneg (List.sum_nonneg fun y hy => ?_) (Nat.cast_nonneg _)
  obtain ⟨x, -, rfl⟩ := List.mem_map.mp hy
  exact sq_nonneg _

theorem deviation_nonneg (w : List ℚ) : 0 ≤ deviation w := SquareRoot.nonneg _ (variance_nonneg w)

/-- Without deviation every value is the mean. -/
theorem deviation_eq_zero_iff (hroot : RootAtZero) {w : List ℚ} (hne : w ≠ []) :
    deviation w = 0 ↔ ∀ x ∈ w, x = meanOf w := by
  have hlen : (w.length : ℚ) ≠ 0 := Nat.cast_ne_zero.mpr (mt List.length_eq_zero_iff.mp hne)
  have hvariance : deviation w = 0 ↔ (w.map fun x => (x - meanOf w) ^ 2).sum = 0 := by
    unfold deviation
    rw [hroot _ (variance_nonneg w), meanOf, List.length_map, div_eq_zero_iff]
    simp [hlen]
  rw [hvariance]
  constructor
  · intro hsum x hx
    have hzero : (x - meanOf w) ^ 2 = 0 :=
      List.all_zero_of_le_zero_le_of_sum_eq_zero
        (fun y hy => by obtain ⟨z, -, rfl⟩ := List.mem_map.mp hy; exact sq_nonneg _)
        hsum (List.mem_map_of_mem hx)
    exact sub_eq_zero.mp (pow_eq_zero_iff two_ne_zero |>.mp hzero)
  · intro h
    refine List.sum_eq_zero fun y hy => ?_
    obtain ⟨x, hx, rfl⟩ := List.mem_map.mp hy
    rw [h x hx, sub_self]
    ring

theorem readings_close (data : List Candle) :
    (readings data).close = data.getLast?.map (·.close) := by
  show lastValid (closes data) = _
  unfold closes
  rw [lastValid_ofList, List.getLast?_map]

theorem readings_bands {data : List Candle} (hlong : 20 ≤ data.length) :
    (readings data).bbUpper = some (meanOf ((data.drop (data.length - 20)).map (·.close))
        + 2 * deviation ((data.drop (data.length - 20)).map (·.close))) ∧
      (readings data).bbLower = some (meanOf ((data.drop (data.length - 20)).map (·.close))
        - 2 * deviation ((data.drop (data.length - 20)).map (·.close))) := by
  have hclose : 20 ≤ (data.map (·.close)).length := by simpa using hlong
  have hdrop : (data.map (·.close)).drop ((data.map (·.close)).length - 20)
      = (data.drop (data.length - 20)).map (·.close) := by rw [List.length_map, List.map_drop]
  have hmid := getLast?_rolling (by decide : 0 < 20) (fun w : List ℚ => some (meanOf w)) hclose
  have hdev := getLast?_rolling (by decide : 0 < 20) (fun w : List ℚ => some (deviation w)) hclose
  have hspread : (scale 2 (rolling 20 (fun w => some (deviation w)) (closes data))).getLast?
      = some (some (2 * deviation ((data.drop (data.length - 20)).map (·.close)))) := by
    unfold scale closes
    rw [List.getLast?_map, hdev, hdrop]
    rfl
  rw [hdrop] at hmid
  have hlen : (sma 20 (closes data)).length
      = (scale 2 (rolling 20 (fun w => some (deviation w)) (closes data))).length := by
    unfold sma scale
    rw [List.length_map, length_rolling, length_rolling]
  exact ⟨lastValid_of_getLast? (getLast?_zip hlen hmid hspread),
    lastValid_of_getLast? (getLast?_zip hlen hmid hspread)⟩

/-- **A close on both bands**: the last twenty closes are one price. -/
theorem onBoth_bands_iff (hroot : RootAtZero) {data : List Candle} (hlong : 20 ≤ data.length) :
    onBoth (readings data).close (readings data).bbUpper (readings data).bbLower
      ↔ LevelCloses data := by
  obtain ⟨front, last, rfl⟩ : ∃ front last, data = front ++ [last] :=
    ⟨data.dropLast, data.getLast (by rintro rfl; simp at hlong),
      (List.dropLast_append_getLast _).symm⟩
  obtain ⟨hupper, hlower⟩ := readings_bands hlong
  have hlast : last ∈ (front ++ [last]).drop ((front ++ [last]).length - 20) := by
    rw [List.drop_append_of_le_length (by simp at hlong ⊢)]
    simp
  have hne : ((front ++ [last]).drop ((front ++ [last]).length - 20)).map (·.close) ≠ [] :=
    List.ne_nil_of_mem (List.mem_map_of_mem hlast)
  have hnonneg := deviation_nonneg
    (((front ++ [last]).drop ((front ++ [last]).length - 20)).map (·.close))
  have hzero := deviation_eq_zero_iff hroot hne
  rw [hupper, hlower, readings_close]
  unfold onBoth LevelCloses
  constructor
  · rintro ⟨v, u, l, -, hu, hl, huv, hvl⟩ c hc d hd
    obtain rfl := Option.some.inj hu
    obtain rfl := Option.some.inj hl
    have hflat := hzero.mp (by linarith)
    rw [hflat c.close (List.mem_map_of_mem hc), hflat d.close (List.mem_map_of_mem hd)]
  · intro hlevel
    have hall : ∀ x ∈ ((front ++ [last]).drop ((front ++ [last]).length - 20)).map (·.close),
        x = last.close := by
      intro x hx
      obtain ⟨c, hc, rfl⟩ := List.mem_map.mp hx
      exact hlevel c hc last hlast
    have hmean := meanOf_eq hne hall
    have hdev := hzero.mpr (by rw [hmean]; exact hall)
    refine ⟨last.close, _, _, by simp, rfl, rfl, ?_, ?_⟩
    · rw [hmean, hdev]
      simp
    · rw [hmean, hdev]
      simp

omit [SquareRoot] in
theorem lastValid_shift_rolling {n : ℕ} (hpos : 0 < n) {f : List ℚ → Option ℚ} {xs : List ℚ} {v : ℚ}
    (hlong : n ≤ xs.dropLast.length) (hv : f (xs.dropLast.drop (xs.dropLast.length - n)) = some v) :
    lastValid (shift (rolling n f (ofList xs))) = some v := by
  rw [lastValid_shift, dropLast_rolling]
  have hdrop : (ofList xs).dropLast = ofList xs.dropLast := List.map_dropLast.symm
  rw [hdrop]
  refine lastValid_of_getLast? ?_
  rw [getLast?_rolling hpos f hlong, hv]

/-- **A close on both ends of the channel**: the channel is flat at the close. -/
theorem onBoth_channel_iff {data : List Candle} (hvalid : ∀ c ∈ data, c.Valid)
    (hlong : 21 ≤ data.length) :
    onBoth (readings data).close (readings data).prevDonUpper (readings data).prevDonLower
      ↔ FlatChannel data := by
  obtain ⟨front, last, rfl⟩ : ∃ front last, data = front ++ [last] :=
    ⟨data.dropLast, data.getLast (by rintro rfl; simp at hlong),
      (List.dropLast_append_getLast _).symm⟩
  have hfront : 20 ≤ front.length := by
    simp at hlong
    omega
  obtain ⟨first, rest, hwindow⟩ : ∃ first rest, front.drop (front.length - 20) = first :: rest := by
    cases hw : front.drop (front.length - 20) with
    | nil =>
        have hlen : (front.drop (front.length - 20)).length = 0 := by rw [hw]; rfl
        rw [List.length_drop] at hlen
        omega
    | cons first rest => exact ⟨first, rest, rfl⟩
  have hchannel : ∀ (g : Candle → ℚ) (f : List ℚ → Option ℚ) (v : ℚ),
      f ((first :: rest).map g) = some v →
        lastValid (shift (rolling 20 f (ofList ((front ++ [last]).map g)))) = some v := by
    intro g f v hv
    have hdrop : ((front ++ [last]).map g).dropLast = front.map g := by simp
    refine lastValid_shift_rolling (by decide) (by rw [hdrop, List.length_map]; exact hfront) ?_
    rw [hdrop, List.length_map, ← List.map_drop, hwindow]
    exact hv
  obtain ⟨u, hu⟩ : ∃ u, ((first :: rest).map (·.high)).max? = some u := ⟨_, rfl⟩
  obtain ⟨l, hl⟩ : ∃ l, ((first :: rest).map (·.low)).min? = some l := ⟨_, rfl⟩
  have hupper : (readings (front ++ [last])).prevDonUpper = some u := hchannel _ _ u hu
  have hlower : (readings (front ++ [last])).prevDonLower = some l := hchannel _ _ l hl
  obtain ⟨humem, hutop⟩ := List.max?_eq_some_iff.mp hu
  obtain ⟨hlmem, hlbottom⟩ := List.min?_eq_some_iff.mp hl
  rw [hupper, hlower, readings_close]
  unfold onBoth FlatChannel
  rw [List.getLast?_concat, List.dropLast_concat, hwindow]
  constructor
  · rintro ⟨v, u', l', hv, hu', hl', huv, hvl⟩ last' hlast' c hc
    obtain rfl := Option.some.inj hu'
    obtain rfl := Option.some.inj hl'
    obtain rfl := Option.some.inj hv
    obtain rfl := Option.some.inj hlast'
    have hin : c ∈ front ++ [last] :=
      List.mem_append_left _ (List.mem_of_mem_drop (by rw [hwindow]; exact hc))
    obtain ⟨-, hlow, -, hhigh⟩ := hvalid c hin
    have htop : c.high ≤ u := hutop _ (List.mem_map_of_mem hc)
    have hbottom : l ≤ c.low := hlbottom _ (List.mem_map_of_mem hc)
    constructor
    · linarith
    · linarith
  · intro hflat
    have hu' : u = last.close := by
      obtain ⟨c, hc, rfl⟩ := List.mem_map.mp humem
      exact (hflat last rfl c hc).1
    have hl' : l = last.close := by
      obtain ⟨c, hc, rfl⟩ := List.mem_map.mp hlmem
      exact (hflat last rfl c hc).2
    exact ⟨last.close, u, l, rfl, rfl, rfl, hu'.le, hl'.ge⟩

theorem onPivot_iff (ctx : AnalysisContext) :
    onPivot (readings ctx.candles).close ctx.prevDaily ↔ OnPivot ctx := by
  unfold onPivot OnPivot
  rw [readings_close]
  simp [Option.map_eq_some_iff]

omit [SquareRoot] in
theorem FlatChannel.level {data : List Candle} (hvalid : ∀ c ∈ data, c.Valid)
    (h : FlatChannel data) : LevelCloses data := by
  rcases List.eq_nil_or_concat data with rfl | ⟨front, last, rfl⟩
  · intro c hc
    exact absurd hc (by simp)
  · have hall : ∀ c ∈ (front.concat last).drop ((front.concat last).length - 20),
        c.close = last.close := by
      intro c hc
      rw [List.concat_eq_append] at hc hvalid h
      rcases List.mem_append.mp (List.mem_of_mem_drop hc) with hfront | hlast
      · have hdrop : c ∈ front.drop (front.length - 20) ∨ c = last := by
          rw [List.drop_append, List.mem_append] at hc
          rcases hc with hc | hc
          · left
            rw [List.length_append, List.length_singleton] at hc
            exact List.drop_subset_drop_left front (by omega) hc
          · right
            exact List.mem_singleton.mp (List.mem_of_mem_drop hc)
        rcases hdrop with hdrop | rfl
        · have hflat := h last (by simp) c (by rw [List.dropLast_concat]; exact hdrop)
          obtain ⟨-, hlow, -, hhigh⟩ := hvalid c (List.mem_append_left _ hfront)
          exact le_antisymm (by linarith [hflat.1]) (by linarith [hflat.2])
        · rfl
      · rw [List.mem_singleton.mp hlast]
    intro c hc d hd
    rw [hall c hc, hall d hd]

end Windows

/-! ### Bias

The score is reported, and the direction and the confidence are read off it.  What the ties
add is at least a vote, which no rounding hides (`bias_large`).
-/

/-- The agent treats both sides alike: reflecting the prices negates the score it reports,
mirrors its direction and keeps its confidence. -/
structure Unbiased [SquareRoot] (k : ℚ) (ctx : AnalysisContext) : Prop where
  score : (analyze (ctx.reflect k)).features.getNumber "score"
    = ((analyze ctx).features.getNumber "score").map (- ·)
  direction : (analyze (ctx.reflect k)).direction = (analyze ctx).direction.mirror
  confidence : (analyze (ctx.reflect k)).confidence = (analyze ctx).confidence

theorem directionOf_neg (score : ℚ) : directionOf (-score) = (directionOf score).mirror := by
  unfold directionOf directionThreshold
  by_cases hlong : 3 / 20 ≤ score
  · rw [if_pos hlong, if_neg (by linarith), if_pos (by linarith)]
    rfl
  · rw [if_neg hlong]
    by_cases hshort : score ≤ -(3 / 20)
    · rw [if_pos hshort, if_pos (by linarith)]
      rfl
    · rw [if_neg hshort, if_neg (by linarith), if_neg (by linarith)]
      rfl

section Agent

variable [SquareRoot]

omit [SquareRoot] in
theorem readings_ema {n : ℕ} (data : List Candle) (hpos : 0 < n) (hlong : n ≤ data.length) :
    ∃ v, lastValid (ema n (closes data)) = some v := by
  cases data with
  | nil => simp at hlong; omega
  | cons c rest =>
      refine ⟨blend (2 / (n + 1)) c.close (rest.map (·.close)), ?_⟩
      refine lastValid_of_getLast? (getLast?_ewmMean _ c.close ?_)
      simpa using hlong

theorem readings_deadzone_nonneg {data : List Candle} (hvalid : ∀ c ∈ data, c.Valid) :
    0 ≤ (readings data).deadzone := by
  have hrange : Nonneg (ofList (trueRange data)) := by
    intro v hv
    have hmem : v ∈ trueRange data := by simpa [ofList] using hv
    cases data with
    | nil => exact absurd hmem (by simp [trueRange])
    | cons c rest =>
        rcases List.mem_cons.mp hmem with rfl | hmem
        · obtain ⟨-, hlow, -, hhigh⟩ := hvalid c List.mem_cons_self
          linarith
        · obtain ⟨i, hi, rfl⟩ := List.getElem_of_mem hmem
          rw [List.getElem_zipWith]
          exact le_trans (abs_nonneg _) (le_max_right _ _)
  unfold Readings.deadzone
  split
  · rename_i a hatr
    have ha : 0 ≤ a := (hrange.wilderSmooth (by decide : 0 < 14)).lastValid hatr
    positivity
  · norm_num

theorem readings_score_reflect (k : ℚ) (ctx : AnalysisContext) (hvalid : ∀ c ∈ ctx.candles, c.Valid)
    (hlong : minBars ≤ ctx.candles.length) :
    (readings (ctx.reflect k).candles).score (ctx.reflect k).prevDaily
      = -(readings ctx.candles).score ctx.prevDaily +
        (readings ctx.candles).bias ctx.prevDaily := by
  have hbars : 34 ≤ ctx.candles.length := hlong
  obtain ⟨fast, hfast⟩ := @readings_ema 9 ctx.candles (by decide) (by omega)
  obtain ⟨slow, hslow⟩ := @readings_ema 21 ctx.candles (by decide) (by omega)
  obtain ⟨last, hlast⟩ : ∃ last, ctx.candles.getLast? = some last := by
    cases h : ctx.candles.getLast? with
    | none => rw [List.getLast?_eq_none_iff.mp h] at hbars; simp at hbars
    | some last => exact ⟨last, rfl⟩
  have hclose : (readings ctx.candles).close = some last.close := by
    rw [readings_close, hlast]
    rfl
  show (readings (ctx.candles.map (·.reflect k))).score (ctx.prevDaily.map (·.reflect k)) = _
  rw [readings_reflect]
  exact score_reflect k ctx.prevDaily hclose hfast hslow (readings_deadzone_nonneg hvalid)

/-- A bias is never small. -/
theorem bias_large {ctx : AnalysisContext} (hroot : RootAtZero)
    (hvalid : ∀ c ∈ ctx.candles, c.Valid)
    (hlong : minBars ≤ ctx.candles.length) :
    ((readings ctx.candles).bias ctx.prevDaily = 0 ↔
        ¬ FlatChannel ctx.candles ∧ (LevelCloses ctx.candles ↔ OnPivot ctx)) ∧
      ((readings ctx.candles).bias ctx.prevDaily ≠ 0 →
        7 / 100 ≤ |(readings ctx.candles).bias ctx.prevDaily|) := by
  classical
  have hbars : 34 ≤ ctx.candles.length := hlong
  have hgate := gate_pos (readings ctx.candles)
  unfold Readings.bias
  simp only [onBoth_bands_iff hroot (show 20 ≤ ctx.candles.length by omega),
    onBoth_channel_iff hvalid (show 21 ≤ ctx.candles.length by omega), onPivot_iff]
  by_cases hflat : FlatChannel ctx.candles
  · have hlevel := hflat.level hvalid
    have hpos : 7 / 100 ≤ 1 / 5 + 6 / 25 * (readings ctx.candles).gate
        - if OnPivot ctx then 1 / 5 else 0 := by
      split <;> linarith
    rw [if_pos hflat, if_pos hlevel]
    exact ⟨iff_of_false (by linarith) (fun h => h.1 hflat), fun _ => le_trans hpos (le_abs_self _)⟩
  · rw [if_neg hflat]
    by_cases hlevel : LevelCloses ctx.candles
    · by_cases hpivot : OnPivot ctx
      · simp [hflat, hlevel, hpivot]
      · rw [if_pos hlevel, if_neg hpivot]
        refine ⟨iff_of_false (by norm_num) fun h => hpivot (h.2.mp hlevel), fun _ => ?_⟩
        norm_num [abs_of_pos]
    · by_cases hpivot : OnPivot ctx
      · rw [if_neg hlevel, if_pos hpivot]
        refine ⟨iff_of_false (by norm_num) fun h => hlevel (h.2.mpr hpivot), fun _ => ?_⟩
        norm_num [abs_of_neg]
      · simp [hflat, hlevel, hpivot]

theorem analyze_reports {ctx : AnalysisContext} (hlong : minBars ≤ ctx.candles.length) :
    (analyze ctx).features.getNumber "score"
        = some (roundTo 4 ((readings ctx.candles).score ctx.prevDaily)) ∧
      (analyze ctx).direction = directionOf ((readings ctx.candles).score ctx.prevDaily) ∧
      (analyze ctx).confidence
        = max 0 (min 1 (roundTo 4 (min (99 / 100) |(readings ctx.candles).score ctx.prevDaily|))) := by
  unfold analyze
  rw [if_neg (not_lt.mpr hlong)]
  exact ⟨rfl, rfl, rfl⟩

/-- Without bias in the score there is none in the signal, and the other way round. -/
theorem unbiased_iff_bias (k : ℚ) {ctx : AnalysisContext} (hroot : RootAtZero)
    (hvalid : ∀ c ∈ ctx.candles, c.Valid) (hlong : minBars ≤ ctx.candles.length) :
    Unbiased k ctx ↔ (readings ctx.candles).bias ctx.prevDaily = 0 := by
  have hlong' : minBars ≤ (ctx.reflect k).candles.length := by
    show minBars ≤ (ctx.candles.map (·.reflect k)).length
    rw [List.length_map]
    exact hlong
  have hscore := readings_score_reflect k ctx hvalid hlong
  obtain ⟨hreported, hdirection, hconfidence⟩ := analyze_reports hlong
  obtain ⟨hreported', hdirection', hconfidence'⟩ := analyze_reports hlong'
  constructor
  · intro h
    have hnegated := h.score
    rw [hreported, hreported', hscore, Option.map_some] at hnegated
    have hrounded := Option.some.inj hnegated
    by_contra hbias
    have hlarge := (bias_large hroot hvalid hlong).2 hbias
    have hbefore := abs_le.mp (abs_roundTo_sub_le 4 ((readings ctx.candles).score ctx.prevDaily))
    have hafter := abs_le.mp (abs_roundTo_sub_le 4 (-(readings ctx.candles).score ctx.prevDaily
      + (readings ctx.candles).bias ctx.prevDaily))
    rw [hrounded] at hafter
    have hsmall : |(readings ctx.candles).bias ctx.prevDaily| ≤ 1 / 10000 := by
      rw [abs_le]
      constructor
      · linarith [hbefore.1, hafter.1]
      · linarith [hbefore.2, hafter.2]
    linarith
  · intro hbias
    rw [hbias, add_zero] at hscore
    rw [hscore] at hreported' hdirection' hconfidence'
    exact
      { score := by rw [hreported, hreported', Option.map_some, roundTo_neg]
        direction := by rw [hdirection, hdirection', directionOf_neg]
        confidence := by rw [hconfidence, hconfidence', abs_neg] }

/-- **When the technical agent has no bias.**  Whatever the prices are reflected at, a window is
treated like its reflection exactly if it is too short to be looked at, or the channel before
its last bar is not flat at the last close, and the last twenty closes are one price just when
the last one is the pivot of the day before. -/
theorem unbiased_iff (hroot : RootAtZero) (k : ℚ) (ctx : AnalysisContext)
    (hvalid : ∀ c ∈ ctx.candles, c.Valid) :
    Unbiased k ctx ↔ ctx.candles.length < minBars ∨
      (¬ FlatChannel ctx.candles ∧ (LevelCloses ctx.candles ↔ OnPivot ctx)) := by
  by_cases hshort : ctx.candles.length < minBars
  · refine iff_of_true ?_ (Or.inl hshort)
    have hshort' : (ctx.reflect k).candles.length < minBars := by
      show (ctx.candles.map (·.reflect k)).length < minBars
      rw [List.length_map]
      exact hshort
    have hempty : ∀ c : AnalysisContext, c.candles.length < minBars →
        analyze c = buildSignal .technical c .flat 0 [("score", .num 0)] := by
      intro c hc
      unfold analyze
      rw [if_pos hc]
    refine ⟨?_, ?_, ?_⟩
    · rw [hempty _ hshort, hempty _ hshort']
      rfl
    · rw [hempty _ hshort, hempty _ hshort']
      rfl
    · rw [hempty _ hshort, hempty _ hshort']
      rfl
  · have hlong : minBars ≤ ctx.candles.length := not_lt.mp hshort
    rw [unbiased_iff_bias k hroot hvalid hlong, (bias_large hroot hvalid hlong).1]
    simp [hshort]

end Agent

/-! ### A market that stands still -/

theorem rational_rootAtZero : @RootAtZero SquareRoot.rational := by
  intro x hx
  show Rat.sqrt x = 0 ↔ x = 0
  have hden : Nat.sqrt x.den ≠ 0 := by
    rw [Ne, Nat.sqrt_eq_zero]
    exact x.den_nz
  unfold Rat.sqrt
  rw [Rat.mkRat_eq_zero hden, Int.sqrt, Nat.cast_eq_zero, Nat.sqrt_eq_zero, Int.toNat_eq_zero,
    Rat.num_nonpos]
  exact ⟨fun h => le_antisymm h hx, fun h => h.le⟩

/-- Thirty-four hours at 1.10, without any movement. -/
def stillMarket : AnalysisContext where
  symbol := .eurusd
  timeframe := .H1
  bucketTs := seconds 118800
  candles := (List.range 34).map fun i =>
    { ts := seconds (3600 * i), openPrice := 11 / 10, high := 11 / 10, low := 11 / 10,
      close := 11 / 10 }
  now := seconds 122400
  prevDaily := none

theorem stillMarket_price : ∀ c ∈ stillMarket.candles,
    c.openPrice = 11 / 10 ∧ c.high = 11 / 10 ∧ c.low = 11 / 10 ∧ c.close = 11 / 10 := by
  intro c hc
  obtain ⟨i, -, rfl⟩ := List.mem_map.mp hc
  exact ⟨rfl, rfl, rfl, rfl⟩

theorem stillMarket_valid : ∀ c ∈ stillMarket.candles, c.Valid := by
  intro c hc
  obtain ⟨hopen, hhigh, hlow, hclose⟩ := stillMarket_price c hc
  unfold Candle.Valid
  rw [hopen, hhigh, hlow, hclose]
  simp

theorem stillMarket_flat : FlatChannel stillMarket.candles := by
  intro last hlast c hc
  obtain ⟨-, -, -, hclose⟩ := stillMarket_price last (List.mem_of_getLast? hlast)
  obtain ⟨-, hhigh, hlow, -⟩ := stillMarket_price c
    (List.mem_of_mem_dropLast (List.mem_of_mem_drop hc))
  rw [hclose, hhigh, hlow]
  exact ⟨rfl, rfl⟩

/-- In a market that stands still the agent takes a side, and the same one in its reflection. -/
theorem stillMarket_not_unbiased : ¬ @Unbiased SquareRoot.rational (11 / 5) stillMarket := by
  intro h
  rcases (@unbiased_iff SquareRoot.rational rational_rootAtZero (11 / 5) stillMarket
    stillMarket_valid).mp h with hshort | ⟨hflat, -⟩
  · exact absurd hshort (by decide)
  · exact hflat stillMarket_flat

/-- The market that stands still is not treated like its reflection. -/
theorem stillMarket_biased : ¬ ∀ (_ : SquareRoot), RootAtZero → ∀ (k : ℚ) (ctx : AnalysisContext),
    (∀ c ∈ ctx.candles, c.Valid ∧ 0 < c.low ∧ c.high < k) →
    (∀ p ∈ ctx.prevDaily, 0 < p.low ∧ p.high < k) → Unbiased k ctx := by
  intro h
  have hunbiased := h SquareRoot.rational rational_rootAtZero (11 / 5) stillMarket
    (fun c hc => by
      obtain ⟨-, hhigh, hlow, -⟩ := stillMarket_price c hc
      rw [hhigh, hlow]
      exact ⟨stillMarket_valid c hc, by norm_num, by norm_num⟩)
    (fun p hp => absurd hp (by simp [stillMarket]))
  have hlong : minBars ≤ stillMarket.candles.length := by decide
  have hzero := (@unbiased_iff_bias SquareRoot.rational (11 / 5) stillMarket rational_rootAtZero
    stillMarket_valid hlong).mp hunbiased
  exact ((@bias_large SquareRoot.rational stillMarket rational_rootAtZero stillMarket_valid
    hlong).1.mp hzero).1 stillMarket_flat

end Technical

end ForexAi
