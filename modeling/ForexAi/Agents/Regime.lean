/-
The regime agent: a label of the market, for the conditioning of the rest.

The label comes from the level of the ADX and its slope over four readings, the volatility
from the rank of the ATR among the last hundred, in per cent of the close, and the session
from the hour.  The agent takes no side.

A close of zero makes an infinite percentage, not a missing one; only the last close is
checked, so a row of the window can have one, and it ranks above every other.

The rationale text is left out; nothing reads it.
-/
import ForexAi.Agents.Technical
import Mathlib.Order.WithBot

namespace ForexAi

open Columns Rounding

namespace Regime

/-- `_MIN_BARS`. -/
def minBars : ℕ := 40

/-- `_SLOPE_LOOKBACK`. -/
def slopeLookback : ℕ := 4

/-- `_PERCENTILE_WINDOW`. -/
def percentileWindow : ℕ := 100

/-- `classify_regime`. -/
def classifyRegime (adxValue slope : ℚ) : String :=
  if 25 ≤ adxValue then (if 0 ≤ slope then "trending" else "weakening_trend")
  else if adxValue < 20 then "range"
  else "transitional"

/-- `volatility_bucket`. -/
def volatilityBucket (percentile : ℚ) : String :=
  if percentile < 1 / 3 then "low" else if percentile < 2 / 3 then "normal" else "high"

/-- `session_bucket`. -/
def sessionBucket (hourUtc : ℤ) : String :=
  if 22 ≤ hourUtc ∨ hourUtc ≤ 6 then "asia"
  else if hourUtc ≤ 11 then "london"
  else if hourUtc ≤ 15 then "overlap"
  else if hourUtc ≤ 20 then "newyork"
  else "late"

/-- `now.astimezone(UTC).hour`. -/
def hourOf (now : Time) : ℤ := now / seconds 3600 % 24

/-- `atr14 / close * 100.0` for one row: missing for zero of zero, infinite for a close of
zero. -/
def atrPct (range close : ℚ) : Option (WithTop ℚ) :=
  if close = 0 then (if range = 0 then none else some ⊤)
  else some ((range / close * 100 : ℚ) : WithTop ℚ)

/-- The rows of `atr14 / close * 100.0` that are there. -/
def atrPctSeries (data : List Candle) : List (WithTop ℚ) :=
  (List.zipWith (fun range close => range.bind fun r => close.bind (atrPct r))
    (atr data 14) (closes data)).filterMap id

/-- What the agent says when it has nothing to say. -/
def unknown (ctx : AnalysisContext) : AgentSignal :=
  buildSignal .regime ctx .flat 0
    [("regime", .text "unknown"), ("volatility", .text "unknown"), ("session", .text "unknown")]

/-- The share of the trailing values below the last one. -/
def percentileOf (trailing : List (WithTop ℚ)) (value : WithTop ℚ) : ℚ :=
  if trailing.length = 0 then 1 / 2
  else (trailing.countP fun x => decide (x < value)) / trailing.length

/-- The features of a window whose last close is not zero. -/
def featuresOf (ctx : AnalysisContext) (adxReading : ℚ) : Features :=
  let (adxLine, plusDi, minusDi) := directionalMovement ctx.candles 14
  let dropped := present adxLine
  let slope := adxReading - dropped.getD (dropped.length - 1 - slopeLookback) adxReading
  let series := atrPctSeries ctx.candles
  let trailing := series.drop (series.length - percentileWindow)
  -- the last close is not zero, so the last value is finite
  let lastPct : ℚ := (trailing.getLast?.map (WithTop.untopD 0)).getD 0
  let percentile := percentileOf trailing lastPct
  [ ("regime", .text (classifyRegime adxReading slope)),
    ("volatility", .text (volatilityBucket percentile)),
    ("session", .text (sessionBucket (hourOf ctx.now))),
    ("adx", .num (roundTo 4 adxReading)),
    ("adx_slope_4bar", .num (roundTo 4 slope)),
    ("plus_di", .num (roundTo 4 ((lastValid plusDi).getD 0))),
    ("minus_di", .num (roundTo 4 ((lastValid minusDi).getD 0))),
    ("atr_pct", .num (roundTo 4 lastPct)),
    ("atr_percentile", .num (roundTo 4 percentile)) ]

/-- `RegimeAgent.analyze`. -/
def analyze (ctx : AnalysisContext) : AgentSignal :=
  if ctx.candles.length < minBars then unknown ctx
  else
    match lastValid (directionalMovement ctx.candles 14).1, lastValid (atr ctx.candles 14),
      lastValid (closes ctx.candles) with
    | some adxReading, some _, some close =>
        if close = 0 then unknown ctx
        else buildSignal .regime ctx .flat 0 (featuresOf ctx adxReading)
    | _, _, _ => unknown ctx

end Regime

end ForexAi
