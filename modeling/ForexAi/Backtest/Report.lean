/-
Backtest reporting.

The figures of a run from its equity points and its closed trades.  The ratios are annualised
with one of the configured timeframes; a return on an equity of zero cannot be computed, and
then there is no report.
-/
import ForexAi.Agents.Indicators
import ForexAi.Backtest.Driver
import Mathlib.Order.WithBot

namespace ForexAi

open Columns Rounding

/-- Aggregate performance metrics. -/
structure RunMetrics where
  netPnl : ℚ := 0
  grossPnl : ℚ := 0
  totalCosts : ℚ := 0
  numTrades : ℕ := 0
  winRate : ℚ := 0
  profitFactor : ℚ := 0
  sharpe : ℚ := 0
  sortino : ℚ := 0
  maxDrawdownPct : ℚ := 0
  exposureAvgPct : ℚ := 0
  bars : ℕ := 0
  degradedRuns : ℕ := 0
  coverage : List CoverageReport := []

/-- `SECONDS_PER_YEAR`. -/
def secondsPerYear : ℚ := 36525 / 100 * 24 * 3600

/-- `annualization_factor`. -/
def annualizationFactor (timeframe : Timeframe) : ℚ := secondsPerYear / timeframe.seconds

/-- `_finite`; a number or the positive infinity. -/
def finite (value : WithTop ℚ) : ℚ := value.untopD 0

/-- The return of each equity on the one before; `none` where that is zero. -/
def returnsOf : List ℚ → Option (List ℚ)
  | previous :: price :: rest =>
      if previous = 0 then none
      else (returnsOf (price :: rest)).map ((price - previous) / previous :: ·)
  | _ => some []

/-- `_avg_exposure`. -/
def avgExposure (trades : List Trade) (startEquity : ℚ) : ℚ :=
  if trades = [] then 0
  else if startEquity ≤ 0 then 0
  else (trades.map fun t => |t.entryPrice * t.units|).sum / trades.length / startEquity

section

variable [SquareRoot]

/-- The mean return over its deviation, annualised. -/
def annualised (meanR spread ann : ℚ) : ℚ :=
  if 0 < spread then meanR / spread * SquareRoot.sqrt ann else 0

/-- The deviation of the returns that lose, `0` where none does. -/
def downsideOf (returns : List ℚ) : ℚ :=
  let downsideInput := returns.filter fun r => decide (r < 0)
  if downsideInput = [] then 0 else deviation downsideInput

/-- `_risk_adjusted`: Sharpe and Sortino; `deviation` is `pstdev`. -/
def riskAdjusted (equityPoints : List (Time × ℚ)) (timeframe : Timeframe) : Option (ℚ × ℚ) :=
  if equityPoints.length < 2 then some (0, 0)
  else
    (returnsOf (equityPoints.map (·.2))).map fun returns =>
      let ann := annualizationFactor timeframe
      let meanR := meanOf returns
      (annualised meanR (deviation returns) ann, annualised meanR (downsideOf returns) ann)

/-- `cfg.timeframes[0]`. -/
def BacktestConfig.firstListed (cfg : BacktestConfig) : Timeframe :=
  cfg.timeframes.head cfg.timeframes_ne

/-- `build_metrics`. -/
def buildMetrics (cfg : BacktestConfig) (equityPoints : List (Time × ℚ)) (trades : List Trade)
    (brokerMaxDrawdownPct : ℚ) (degradedRuns : ℕ) (coverage : List CoverageReport) :
    Option RunMetrics :=
  let startEquity := (equityPoints.head?.map (·.2)).getD cfg.startEquity
  let endEquity := (equityPoints.getLast?.map (·.2)).getD startEquity
  let wins := trades.filter fun t => decide (0 < t.netPnl)
  let positive := ((trades.filter fun t => decide (0 < t.netPnl)).map (·.netPnl)).sum
  let negative := -((trades.filter fun t => decide (t.netPnl < 0)).map (·.netPnl)).sum
  let profitFactor : WithTop ℚ :=
    if negative ≠ 0 then ((positive / negative : ℚ) : WithTop ℚ)
    else if 0 < positive then ⊤ else ((0 : ℚ) : WithTop ℚ)
  (riskAdjusted equityPoints cfg.firstListed).map fun ratios =>
    { netPnl := roundTo 6 (endEquity - startEquity)
      grossPnl := roundTo 6 (trades.map (·.grossPnl)).sum
      totalCosts := roundTo 6 (trades.map (·.costs)).sum
      numTrades := trades.length
      winRate := roundTo 6 (if trades.length = 0 then 0 else (wins.length : ℚ) / trades.length)
      profitFactor := finite profitFactor
      sharpe := ratios.1
      sortino := ratios.2
      maxDrawdownPct := roundTo 8 brokerMaxDrawdownPct
      exposureAvgPct := avgExposure trades startEquity
      bars := equityPoints.length
      degradedRuns
      coverage }

/-- The metrics `run` ends with. -/
def Driver.metrics [Digest] (d : Driver) : Option RunMetrics :=
  buildMetrics d.cfg d.run.equityPoints d.run.broker.trades d.run.broker.maxDrawdownPct
    d.run.degradedRuns d.run.coverage

end

end ForexAi
