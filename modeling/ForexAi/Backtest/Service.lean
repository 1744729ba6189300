/-
Running a backtest and keeping what it gave.

`run_backtest` writes in three transactions: the header of the run, then trades, curve and
metrics together, and, where anything raised after the header, the failure.  Each commit may be
lost, or take effect though it raises, a statement may fail, and the process may die after any
number of commits.  What the replay itself gives, a result or an exception, is handed in.

The identifier of a run is a random number; one that is taken makes the insert fail.  Of the
numbers of a trade and a point the tables have what their columns keep, sizes and amounts in six
decimals and prices in eight.
-/
import ForexAi.Alerts.Worker
import ForexAi.Backtest.Report
import ForexAi.Proofs.EquityCurve

namespace ForexAi

/-- `BacktestStatus`. -/
inductive BacktestStatus where
  | running | completed | failed
  deriving DecidableEq, Repr

/-- A row of `backtest_runs`. -/
structure BacktestRunRow where
  id : RunId
  cfg : BacktestConfig
  status : BacktestStatus := .running
  error : Option String := none
  /-- `{}` is `none`. -/
  metrics : Option RunMetrics := none

/-- What `run_backtest` keeps of a `DriverResult`. -/
structure BacktestResult where
  metrics : RunMetrics
  equityPoints : List (Time × ℚ)
  trades : List Trade

/-- The three tables of the backtests. -/
structure BacktestDb where
  runs : List BacktestRunRow := []
  trades : List (RunId × Trade) := []
  equity : List BacktestEquityRow := []

/-- A call of `run_backtest`: its identifier and configuration, what the replay gives, and what
fails on the way. -/
structure BacktestCall where
  id : RunId
  cfg : BacktestConfig
  outcome : Except String BacktestResult
  create : CommitFate := .done
  /-- A statement of the second transaction fails. -/
  statement : Option String := none
  store : CommitFate := .done
  fail : CommitFate := .done

/-- The trade, as the columns of its row keep it. -/
def Trade.stored (t : Trade) : Trade :=
  { t with
    units := Rounding.numeric 6 t.units
    entryPrice := Rounding.numeric 8 t.entryPrice
    exitPrice := Rounding.numeric 8 t.exitPrice
    grossPnl := Rounding.numeric 6 t.grossPnl
    costs := Rounding.numeric 6 t.costs
    netPnl := Rounding.numeric 6 t.netPnl }

namespace BacktestDb

/-- `create_run`; `none` where the identifier is taken. -/
def createRun (db : BacktestDb) (id : RunId) (cfg : BacktestConfig) : Option BacktestDb :=
  if id ∈ db.runs.map (·.id) then none else some { db with runs := db.runs ++ [{ id, cfg }] }

/-- A change of one run's header. -/
def mark (db : BacktestDb) (id : RunId) (change : BacktestRunRow → BacktestRunRow) : BacktestDb :=
  { db with runs := db.runs.map fun r => if r.id = id then change r else r }

/-- `mark_completed`. -/
def markCompleted (db : BacktestDb) (id : RunId) (metrics : RunMetrics) : BacktestDb :=
  db.mark id fun r => { r with status := .completed, metrics := some metrics }

/-- `mark_failed`. -/
def markFailed (db : BacktestDb) (id : RunId) (error : String) : BacktestDb :=
  db.mark id fun r => { r with status := .failed, error := some error }

/-- `save_trades`. -/
def saveTrades (db : BacktestDb) (id : RunId) (trades : List Trade) : BacktestDb :=
  { db with trades := db.trades ++ trades.map fun t => (id, t.stored) }

/-- The second transaction up to its commit: trades, curve, metrics. -/
def storeResult (db : BacktestDb) (c : BacktestCall) (result : BacktestResult) :
    Except String BacktestDb :=
  match c.statement with
  | some error => .error error
  | none =>
      match saveEquityCurve db.equity c.id result.equityPoints with
      | none => .error "uq_backtest_equity_run_ts"
      | some equity =>
          .ok ({ (db.saveTrades c.id result.trades) with equity }.markCompleted c.id result.metrics)

/-- The failure is noted, if its commit takes effect. -/
def noteFailure (db : BacktestDb) (c : BacktestCall) (error : String) : List BacktestDb :=
  if c.fail.durable then [db.markFailed c.id error] else []

/-- What is committed after the header. -/
def committedAfter (db : BacktestDb) (c : BacktestCall) : List BacktestDb :=
  match c.outcome with
  | .error error => db.noteFailure c error
  | .ok result =>
      match db.storeResult c result with
      | .error error => db.noteFailure c error
      | .ok stored =>
          match c.store with
          | .done => [stored]
          | .lost => db.noteFailure c "commit"
          | .unheard => stored :: stored.noteFailure c "commit"

/-- `run_backtest`: the committed states, in their order. -/
def committed (db : BacktestDb) (c : BacktestCall) : List BacktestDb :=
  match db.createRun c.id c.cfg with
  | none => []
  | some created =>
      match c.create with
      | .done => created :: created.committedAfter c
      | .lost => []
      -- The commit raises outside of the `try`: nothing follows it.
      | .unheard => [created]

/-- One call, whose process dies after so many commits or ends before. -/
def step (db : BacktestDb) (call : BacktestCall × ℕ) : BacktestDb :=
  ((db.committed call.1).take call.2).getLastD db

/-- `get_trades`. -/
def tradesOf (db : BacktestDb) (id : RunId) : List Trade :=
  (db.trades.filter fun t => t.1 = id).map Prod.snd

/-- The points of a run, in the order they were stored. -/
def equityOf (db : BacktestDb) (id : RunId) : List (Time × ℚ) :=
  (db.equity.filter fun e => e.runId = id).map fun e => (e.ts, e.equity)

end BacktestDb

end ForexAi
