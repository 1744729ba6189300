/-
The backtest replay driver.

The larger timeframes are replayed first, for context; then, symbol by symbol, the
smallest one, which fills, exits, decides and marks bar by bar on one shared broker.
The runner that turns a window into signals is handed to the driver, so it is a
parameter: any function of the request.

Beside the source's own state there is a `Trace`: what the run decided, filled and
counted at each bar.  The source keeps counters where the trace keeps the events;
nothing reads the trace but the statements.
-/
import ForexAi.Agents.Technical
import ForexAi.Backtest.Engine
import ForexAi.Backtest.Fills

namespace ForexAi

/-- White-box inputs of one backtest run. -/
structure BacktestConfig where
  start : Time
  stop : Time
  symbols : List Symbol
  timeframes : List Timeframe
  seed : ℤ := 0
  startEquity : ℚ := 100000
  warmupBars : ℕ := 60
  spread : ℚ := 1 / 10000
  slippagePct : ℚ := 2 / 100000
  timeframes_ne : timeframes ≠ []

theorem byRank_ne_nil {configured : List Timeframe} (h : configured ≠ []) :
    byRank configured ≠ [] := by
  intro hnil
  have hlength : (byRank configured).length = configured.length := List.length_insertionSort _ _
  rw [hnil] at hlength
  exact h (List.length_eq_zero_iff.mp hlength.symm)

/-- `min(cfg.timeframes, key=Timeframe.rank)`: the timeframe that drives the fills. -/
def BacktestConfig.fine (cfg : BacktestConfig) : Timeframe :=
  (byRank cfg.timeframes).head (byRank_ne_nil cfg.timeframes_ne)

/-- The larger timeframes, in the order they are replayed. -/
def BacktestConfig.contextFrames (cfg : BacktestConfig) : List Timeframe :=
  (cfg.timeframes.insertionSort fun a b => b.rank ≤ a.rank).filter fun tf => decide (tf ≠ cfg.fine)

/-- What the runner is asked. -/
structure RunRequest where
  symbol : Symbol
  timeframe : Timeframe
  bucketTs : Time
  candles : List Candle
  now : Time
  prevDaily : Option PrevDaily
  pipSize : ℚ

/-- The stored bars of every symbol and timeframe. -/
abbrev History := Symbol → Timeframe → Series

/-- A driver: its settings, its data and its runner. -/
structure Driver where
  cfg : BacktestConfig
  risk : RiskParams
  history : History
  runner : RunRequest → Signals

structure CoverageReport where
  symbol : Symbol
  timeframe : Timeframe
  expectedBars : ℕ
  technical : ℕ
  regime : ℕ
  fundamental : ℕ
  sentiment : ℕ
  degraded : Bool

/-! ### The trace -/

/-- A decision of the run. -/
structure DecisionRecord where
  symbol : Symbol
  timeframe : Timeframe
  ts : Time
  outcome : DecisionOutcome

/-- A pending fill that was executed. -/
structure FillRecord where
  symbol : Symbol
  ts : Time
  price : ℚ
  act : PendingFill

/-- A gate and what it was computed from: the open positions, the closed trades, and the
equity values the drawdown is made of. -/
structure GateCall where
  symbol : Symbol
  ts : Time
  gate : GateState
  positions : PositionSet
  trades : List Trade
  curve : List (Time × ℚ)

structure Trace where
  outcomes : List DecisionRecord := []
  fills : List FillRecord := []
  gateCalls : List GateCall := []
  curve : List (Time × ℚ) := []

/-- The state of a run. -/
structure DriverState where
  broker : PaperBroker
  last : RecentDecisions
  pendingFills : Symbol → Option PendingFill
  equityPoints : List (Time × ℚ)
  coverage : List CoverageReport
  decisions : ℕ
  paperIntents : ℕ
  degradedRuns : ℕ
  trace : Trace

namespace Driver

/-- `_LOOKBACK`. -/
def lookback : ℕ := 320

/-- `_load_bars`. -/
def loadBars (d : Driver) (symbol : Symbol) (timeframe : Timeframe) : List Candle :=
  (d.history symbol timeframe).rows.filter fun c =>
    decide (alignToBucket d.cfg.start timeframe ≤ c.ts) && decide (c.ts < d.cfg.stop)

/-- `_window`. -/
def window (bars : List Candle) (i : ℕ) : List Candle :=
  (bars.take (i + 1)).drop (i + 1 - lookback)

/-- `_prev_daily`: the last day that is over at `bucket`. -/
def prevDaily (d : Driver) (symbol : Symbol) (bucket : Time) : Option PrevDaily :=
  if Timeframe.D1 ∈ d.cfg.timeframes then
    let days := (d.loadBars symbol .D1).takeWhile fun c =>
      decide (c.ts + Timeframe.D1.length ≤ bucket)
    days.getLast?.map fun c => { high := c.high, low := c.low, close := c.close }
  else none

/-- `_pip_size`. -/
def pipSize (symbol : Symbol) : ℚ := if symbol.code.endsWith "JPY" then 1 / 100 else 1 / 10000

/-- The signals the runner gives for a bar. -/
def signalsAt (d : Driver) (symbol : Symbol) (timeframe : Timeframe) (bars : List Candle)
    (i : ℕ) (bucket : Time) : Signals :=
  d.runner
    { symbol, timeframe, bucketTs := bucket, candles := window bars i, now := bucket,
      prevDaily := d.prevDaily symbol bucket, pipSize := pipSize symbol }

/-- The bar is decided on: it is past the warm-up and the technical agent has a signal. -/
def decidesAt (d : Driver) (symbol : Symbol) (timeframe : Timeframe) (bars : List Candle)
    (i : ℕ) (bucket : Time) : Bool :=
  decide (d.cfg.warmupBars ≤ i) &&
    (d.signalsAt symbol timeframe bars i bucket .technical).isSome

/-! ### The gate -/

/-- The UTC day of a stamp. -/
def dayOf (ts : Time) : ℤ := ts / Timeframe.D1.length

/-- `_daily_loss` of a day, rebuilt from the closed trades. -/
def dailyLoss (trades : List Trade) (day : ℤ) : ℚ :=
  ((trades.filter fun t => decide (dayOf t.exitTs = day)).map (·.netPnl)).sum

/-- `_gate`. -/
def gate (d : Driver) (broker : PaperBroker) (symbol : Symbol) (ts : Time) : GateState :=
  let equity := if broker.totalEquity = 0 then d.cfg.startEquity else broker.totalEquity
  let loss := max 0 (-dailyLoss broker.trades (dayOf ts))
  { exposureUsedPct := broker.positions.totalNotional / equity
    correlationUsedPct := broker.positions.basketNotional symbol / equity
    dailyLossUsedPct := if d.cfg.startEquity = 0 then 0 else loss / d.cfg.startEquity
    drawdownUsedPct := broker.maxDrawdownPct
    correlationTriggered := broker.positions.correlationTriggered symbol }

/-- `_record_equity`. -/
def recordEquity (points : List (Time × ℚ)) (ts : Time) (equity : ℚ) : List (Time × ℚ) :=
  match points.getLast? with
  | some (t, _) => if t = ts then points.dropLast ++ [(ts, equity)] else points ++ [(ts, equity)]
  | none => [(ts, equity)]

/-! ### The context timeframes -/

/-- One bar of a context timeframe. -/
def contextBar (d : Driver) (symbol : Symbol) (timeframe : Timeframe) (bars : List Candle)
    (s : DriverState) (i : ℕ) : DriverState :=
  match bars[i]? with
  | none => s
  | some bar =>
      if d.decidesAt symbol timeframe bars i bar.ts = true then
        let outcome := decideOutcome s.last symbol timeframe bar.ts bar.ts
          (d.signalsAt symbol timeframe bars i bar.ts) bar.close d.cfg.timeframes {} d.risk
        { s with
          last := s.last.record symbol timeframe bar.ts outcome
          decisions := if outcome.action = .persist then s.decisions + 1 else s.decisions
          trace := { s.trace with
            outcomes := s.trace.outcomes ++ [⟨symbol, timeframe, bar.ts, outcome⟩] } }
      else s

/-- `_run_context_tf`. -/
def runContextTf (d : Driver) (s : DriverState) (symbol : Symbol) (timeframe : Timeframe) :
    DriverState :=
  let bars := d.loadBars symbol timeframe
  (List.range bars.length).foldl (d.contextBar symbol timeframe bars) s

/-! ### The fine timeframe -/

variable [Digest]

/-- Execute the fill pending from the previous bar at this bar's open. -/
def executePending (d : Driver) (symbol : Symbol) (s : DriverState) (bar : Candle) : DriverState :=
  match s.pendingFills symbol with
  | none => s
  | some act =>
      { s with
        broker := applyFill d.cfg.fine s.broker symbol act bar.openPrice bar.ts
        pendingFills := Function.update s.pendingFills symbol none
        trace := { s.trace with
          fills := s.trace.fills ++ [⟨symbol, bar.ts, bar.openPrice, act⟩] } }

/-- Evaluate the stop and the target at this bar's close. -/
def evaluateClose (symbol : Symbol) (s : DriverState) (bar : Candle) : DriverState :=
  { s with broker := (s.broker.evaluateExit symbol bar.close bar.ts).2 }

/-- What a persisted outcome counts for and schedules. -/
def actOn (symbol : Symbol) (totalBars i : ℕ) (s : DriverState) (outcome : DecisionOutcome) :
    DriverState :=
  if outcome.action = .persist then
    if outcome.status = some .paper then
      { s with
        decisions := s.decisions + 1
        paperIntents := s.paperIntents + 1
        pendingFills :=
          match scheduleFill s.broker.positions symbol totalBars i outcome.intent with
          | none => s.pendingFills
          | some act => Function.update s.pendingFills symbol (some act) }
    else { s with decisions := s.decisions + 1 }
  else s

/-- Decide at this bar's close, when it is decided on. -/
def decideClose (d : Driver) (symbol : Symbol) (bars : List Candle) (i : ℕ) (s : DriverState)
    (bar : Candle) : DriverState :=
  if d.decidesAt symbol d.cfg.fine bars i bar.ts = true then
    let gate := d.gate s.broker symbol bar.ts
    let outcome := decideOutcome s.last symbol d.cfg.fine bar.ts bar.ts
      (d.signalsAt symbol d.cfg.fine bars i bar.ts) bar.close d.cfg.timeframes gate d.risk
    actOn symbol bars.length i
      { s with
        last := s.last.record symbol d.cfg.fine bar.ts outcome
        trace := { s.trace with
          outcomes := s.trace.outcomes ++ [⟨symbol, d.cfg.fine, bar.ts, outcome⟩]
          gateCalls := s.trace.gateCalls ++
            [⟨symbol, bar.ts, gate, s.broker.positions, s.broker.trades, s.trace.curve⟩] } }
      outcome
  else s

/-- Mark the equity at this bar's close. -/
def markClose (symbol : Symbol) (s : DriverState) (bar : Candle) : DriverState :=
  let valued := (s.broker.markPosition symbol bar.close).state bar.ts
  { s with
    broker := valued.2
    equityPoints := recordEquity s.equityPoints bar.ts valued.1.equity
    trace := { s.trace with curve := s.trace.curve ++ [(bar.ts, valued.1.equity)] } }

/-- One bar of the fine timeframe. -/
def fineBar (d : Driver) (symbol : Symbol) (bars : List Candle) (s : DriverState) (i : ℕ) :
    DriverState :=
  match bars[i]? with
  | none => s
  | some bar =>
      markClose symbol
        (d.decideClose symbol bars i (evaluateClose symbol (d.executePending symbol s bar) bar) bar)
        bar

/-- `_tally`: the bars past the warm-up on which an agent had a signal. -/
def tally (d : Driver) (symbol : Symbol) (bars : List Candle) (agent : AgentId) : ℕ :=
  (List.range bars.length).countP fun i =>
    decide (d.cfg.warmupBars ≤ i) && (bars[i]?.any fun bar =>
      (d.signalsAt symbol d.cfg.fine bars i bar.ts agent).isSome)

/-- `_append_coverage`. -/
def appendCoverage (d : Driver) (symbol : Symbol) (bars : List Candle) (s : DriverState) :
    DriverState :=
  let expected : ℤ := bars.length - d.cfg.warmupBars
  let degraded := decide ((d.tally symbol bars .fundamental : ℤ) < expected ∨
    (d.tally symbol bars .sentiment : ℤ) < expected)
  { s with
    degradedRuns := if degraded then s.degradedRuns + 1 else s.degradedRuns
    coverage := s.coverage ++
      [{ symbol, timeframe := d.cfg.fine, expectedBars := expected.toNat,
         technical := d.tally symbol bars .technical, regime := d.tally symbol bars .regime,
         fundamental := d.tally symbol bars .fundamental,
         sentiment := d.tally symbol bars .sentiment, degraded }] }

/-- `_run_fine`. -/
def runFine (d : Driver) (s : DriverState) (symbol : Symbol) : DriverState :=
  let bars := d.loadBars symbol d.cfg.fine
  if bars.isEmpty then s
  else
    d.appendCoverage symbol bars ((List.range bars.length).foldl (d.fineBar symbol bars) s)

/-! ### The run -/

omit [Digest] in
/-- A driver on a fresh broker, before the run. -/
def start (d : Driver) : DriverState where
  broker := .new d.cfg.startEquity d.cfg.seed ⟨d.cfg.spread, d.cfg.slippagePct⟩
  last := fun _ _ => none
  pendingFills := fun _ => none
  equityPoints := []
  coverage := []
  decisions := 0
  paperIntents := 0
  degradedRuns := 0
  trace := {}

omit [Digest] in
/-- The state after the context timeframes. -/
def context (d : Driver) : DriverState :=
  d.cfg.contextFrames.foldl
    (fun s tf => d.cfg.symbols.foldl (fun s symbol => d.runContextTf s symbol tf) s) d.start

/-- `run`. -/
def run (d : Driver) : DriverState := d.cfg.symbols.foldl d.runFine d.context

end Driver

end ForexAi
