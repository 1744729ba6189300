/-
The technical agent: a confluence of votes over a candle window.

Every vote is signed and weighted; in a weak trend the trend-following votes are
scaled down.  The score is the sum, its sign against the threshold the direction.
What consumers read besides is the `features` dictionary, with the indicator values
in a dictionary of their own under `indicators`.

The rationale text is left out; nothing reads it.
-/
import ForexAi.Agents.Base
import ForexAi.Agents.Indicators
import ForexAi.Lib.Rounding
import Mathlib.Data.List.Sort
import Mathlib.Data.Rat.Floor

namespace ForexAi

open Columns Rounding

/-- A prior day's high, low and close. -/
structure PrevDaily where
  high : ℚ
  low : ℚ
  close : ℚ

/-- Inputs handed to an agent for one closed bar. -/
structure AnalysisContext where
  symbol : Symbol
  timeframe : Timeframe
  bucketTs : Time
  candles : List Candle
  now : Time
  prevDaily : Option PrevDaily

/-- `build_signal`: assemble a signal with the standard freshness policy. -/
def buildSignal (agentId : AgentId) (ctx : AnalysisContext) (direction : Direction)
    (confidence : ℚ) (features : Features) : AgentSignal where
  agentId := agentId
  symbol := ctx.symbol
  timeframe := ctx.timeframe
  direction := direction
  confidence := max 0 (min 1 confidence)
  bucketTs := ctx.bucketTs
  features := features
  createdAt := ctx.now
  validUntil := validUntilFor agentId ctx.bucketTs ctx.timeframe

namespace Technical

/-- `_MIN_BARS`. -/
def minBars : ℕ := 34

/-- `_DIRECTION_THRESHOLD`. -/
def directionThreshold : ℚ := 3 / 20

/-- `_ADX_TREND_FLOOR`. -/
def adxTrendFloor : ℚ := 25

/-- `_GATE_FLOOR`. -/
def gateFloor : ℚ := 3 / 10

/-- One named confluence component. -/
structure Vote where
  name : String
  weight : ℚ
  vote : ℤ
  gated : Bool

/-- `_sign_deadzone`: a signed vote with a neutral band. -/
def signDeadzone (value deadzone : ℚ) : ℤ :=
  if deadzone < value then 1 else if value < -deadzone then -1 else 0

/-- `_rsi_extreme`: overbought is bearish, oversold bullish. -/
def rsiExtreme : Option ℚ → ℤ
  | none => 0
  | some v => if 70 ≤ v then -1 else if v ≤ 30 then 1 else 0

/-- `_threshold`. -/
def threshold (value : Option ℚ) (level : ℚ) : ℤ :=
  match value with
  | none => 0
  | some v => if v = level then 0 else if level < v then 1 else -1

/-- `_breakout`. -/
def breakout (value upper lower : Option ℚ) : ℤ :=
  match value, upper, lower with
  | some v, some u, some l => if u ≤ v then 1 else if v ≤ l then -1 else 0
  | _, _, _ => 0

/-- `_stoch_vote`. -/
def stochVote (k d : Option ℚ) : ℤ :=
  match k, d with
  | some k, some d => if d < k ∧ k < 80 then 1 else if k < d ∧ 20 < k then -1 else 0
  | _, _ => 0

/-- `_pivot_vote`. -/
def pivotVote (close : Option ℚ) (prevDaily : Option PrevDaily) : ℤ :=
  match close, prevDaily with
  | some c, some p => if (floorPivots p.high p.low p.close).pivot < c then 1 else -1
  | _, _ => 0

/-- The indicator values the votes read, each the latest one there is. -/
structure Readings where
  close : Option ℚ
  emaFast : Option ℚ
  emaSlow : Option ℚ
  sma50 : Option ℚ
  hist : Option ℚ
  rsi : Option ℚ
  bbUpper : Option ℚ
  bbLower : Option ℚ
  stochK : Option ℚ
  stochD : Option ℚ
  adx : Option ℚ
  plusDi : Option ℚ
  minusDi : Option ℚ
  atr : Option ℚ
  prevDonUpper : Option ℚ
  prevDonLower : Option ℚ

/-- The readings of a window. -/
def readings [SquareRoot] (data : List Candle) : Readings :=
  let close := closes data
  let (_, _, histogram) := macd 12 26 9 close
  let (_, bbUpper, bbLower) := bollinger 20 2 close
  let (stochK, stochD) := stochastic data 14 3 3
  let (adxLine, plusDi, minusDi) := directionalMovement data 14
  let (donUpper, _, donLower) := donchian data 20
  { close := lastValid close
    emaFast := lastValid (ema 9 close)
    emaSlow := lastValid (ema 21 close)
    sma50 := lastValid (sma 50 close)
    hist := lastValid histogram
    rsi := lastValid (ForexAi.rsi 14 close)
    bbUpper := lastValid bbUpper
    bbLower := lastValid bbLower
    stochK := lastValid stochK
    stochD := lastValid stochD
    adx := lastValid adxLine
    plusDi := lastValid plusDi
    minusDi := lastValid minusDi
    atr := lastValid (ForexAi.atr data 14)
    prevDonUpper := lastValid (shift donUpper)
    prevDonLower := lastValid (shift donLower) }

/-- The scale of the trend-following votes. -/
def Readings.gate (r : Readings) : ℚ :=
  match r.adx with
  | some adx => if adx < adxTrendFloor then max gateFloor (adx / adxTrendFloor) else 1
  | none => 1

/-- The ATR-relative dead zone. -/
def Readings.deadzone (r : Readings) : ℚ :=
  match r.atr with
  | some a => 1 / 20 * a
  | none => 1 / 1000000000000

/-- The votes. -/
def Readings.votes (r : Readings) (prevDaily : Option PrevDaily) : List Vote :=
  let c := r.close.getD 0
  [ ⟨"ema_cross", 9 / 50, signDeadzone (r.emaFast.getD 0 - r.emaSlow.getD 0) r.deadzone, true⟩,
    ⟨"close_vs_sma50", 3 / 25, signDeadzone (c - r.sma50.getD c) r.deadzone, true⟩,
    ⟨"macd_histogram", 3 / 20, signDeadzone (r.hist.getD 0) r.deadzone, true⟩,
    ⟨"rsi_midline", 2 / 25, threshold r.rsi 50, false⟩,
    ⟨"rsi_extreme", 3 / 25, rsiExtreme r.rsi, false⟩,
    ⟨"bollinger_breakout", 1 / 10, breakout r.close r.bbUpper r.bbLower, false⟩,
    ⟨"stochastic", 1 / 10, stochVote r.stochK r.stochD, false⟩,
    ⟨"donchian_breakout", 3 / 25, breakout r.close r.prevDonUpper r.prevDonLower, true⟩,
    ⟨"pivot_position", 1 / 10, pivotVote r.close prevDaily, false⟩ ]

/-- What a vote adds to the score. -/
def Vote.contribution (gate : ℚ) (v : Vote) : ℚ :=
  v.weight * (if v.gated then gate else 1) * v.vote

/-- The score of a window. -/
def Readings.score (r : Readings) (prevDaily : Option PrevDaily) : ℚ :=
  ((r.votes prevDaily).map (·.contribution r.gate)).sum

/-- The direction of a score. -/
def directionOf (score : ℚ) : Direction :=
  if directionThreshold ≤ score then .long
  else if score ≤ -directionThreshold then .short
  else .flat

/-- `features["indicators"]`. -/
def Readings.indicators (r : Readings) : Features :=
  [ ("ema9", .ofOption r.emaFast), ("ema21", .ofOption r.emaSlow), ("sma50", .ofOption r.sma50),
    ("macd_hist", .ofOption r.hist), ("rsi14", .ofOption r.rsi),
    ("bb_upper", .ofOption r.bbUpper), ("bb_lower", .ofOption r.bbLower),
    ("stoch_k", .ofOption r.stochK), ("stoch_d", .ofOption r.stochD),
    ("adx14", .ofOption r.adx), ("plus_di", .ofOption r.plusDi),
    ("minus_di", .ofOption r.minusDi), ("atr14", .ofOption r.atr),
    ("donchian_prev_upper", .ofOption r.prevDonUpper),
    ("donchian_prev_lower", .ofOption r.prevDonLower), ("close", .ofOption r.close) ]

/-- The features of a window that is long enough. -/
def Readings.features (r : Readings) (prevDaily : Option PrevDaily) : Features :=
  [ ("score", .num (roundTo 4 (r.score prevDaily))),
    ("gate", .num (roundTo 4 r.gate)),
    ("votes", .dict ((r.votes prevDaily).map fun v =>
      (v.name, .num (roundTo 4 (v.contribution r.gate))))),
    ("indicators", .dict r.indicators) ]

/-- `TechnicalAgent.analyze`. -/
def analyze [SquareRoot] (ctx : AnalysisContext) : AgentSignal :=
  if ctx.candles.length < minBars then
    buildSignal .technical ctx .flat 0 [("score", .num 0)]
  else
    let r := readings ctx.candles
    let score := r.score ctx.prevDaily
    buildSignal .technical ctx (directionOf score) (roundTo 4 (min (99 / 100) |score|))
      (r.features ctx.prevDaily)

/-- A window that is long enough gets the features of its readings. -/
theorem analyze_features [SquareRoot] {ctx : AnalysisContext}
    (h : minBars ≤ ctx.candles.length) :
    (analyze ctx).features = (readings ctx.candles).features ctx.prevDaily := by
  unfold analyze
  rw [if_neg (not_lt.mpr h)]
  rfl

end Technical

end ForexAi
