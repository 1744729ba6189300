/-
One call of the worker for a symbol and a timeframe.

`process_pair` is one transaction.  The broker is built and restored first, since the gate
is read off it; the engine decides and writes; a decision that is new and `PAPER` sponsors an
order; then everything is committed.  Whatever raises before the commit rolls all of it back,
and what raises after it (the decision is published then) does not.

Between the calls the lifecycle goes through its cycles on the same tables.
-/
import ForexAi.Broker.Operations
import ForexAi.Decisions.Decide
import ForexAi.Decisions.LedgerGate
import ForexAi.Workers.Cycle

namespace ForexAi

/-- The settings of a worker; without a broker it decides and does no more. -/
structure PairConfig where
  orch : OrchParams
  broker : Option BrokerConfig
  maxBars : ℕ
  snapshotInterval : Option ℕ

/-- A fresh broker on the tables, restored. -/
def PairConfig.session (cfg : PairConfig) (db : Database) : Option Ledger :=
  cfg.broker.map fun b => (Ledger.session b db.ledger).restoreState

namespace PairCall

variable (call : PairCall)

/-- The arguments `_wire_paper_decision` gives the broker; none without the figures. -/
def submission (r : DecideReport) (decision : Option DecisionRow)
    (riskEval : Option RiskEvaluationRow) : Option Submission := do
  let decision ← decision
  let riskEval ← riskEval
  let units ← riskEval.positionSizeUnits
  let price ← riskEval.price
  let direction ← r.direction
  return {
    id := call.orderId
    createdAt := call.dbNow
    symbol := r.symbol
    timeframe := r.timeframe
    direction := direction
    refPrice := price
    units := units
    decisionId := some decision.id
    stopLoss := riskEval.stopLoss
    takeProfit := riskEval.takeProfit }

variable [Digest]

/-- `_wire_paper_decision`. -/
def wirePaperDecision (l : Ledger) (r : DecideReport) (decision : Option DecisionRow)
    (riskEval : Option RiskEvaluationRow) : Option Ledger :=
  if r.status ≠ some .paper ∨ r.created = false then some l
  else
    match call.submission r decision riskEval with
    | none => some l
    | some submission => (call.reach .orderInsert).bind fun _ =>
      LedgerOp.call l (.submit submission)

/-- `_sponsor_paper_order`. -/
def sponsorPaperOrder (broker : Option LedgerBroker) (r : DecideReport) (db : Database) :
    Option Database :=
  match broker with
  | none => some db
  | some broker =>
      if r.status ≠ some .paper ∨ r.created = false then some db
      else do
        call.reach .payload
        let decision := Keyed.find DecisionRow.key db.decisions r.key
        let riskEval := Keyed.find RiskEvaluationRow.key db.riskEvaluations r.key
        let l ← call.wirePaperDecision { broker, store := db.ledger } r decision riskEval
        return db.write l.store

/-- `_sponsor_paper_order`, of a result that was persisted. -/
def sponsorPersisted (broker : Option LedgerBroker) (r : DecideReport) (db : Database) :
    Option Database :=
  if r.action = .persist then call.sponsorPaperOrder broker r db else some db

/-- The transaction of `process_pair`; `none` has raised, and nothing is reported of a pair
that is not configured. -/
def transaction (cfg : PairConfig) (db : Database) : Option (Option DecideReport × Database) := do
  call.reach .settings
  if call.symbol ∉ call.configuredSymbols ∨ call.timeframe ∉ call.configuredTimeframes then
    return (none, db)
  else
    call.reach .ledger
    let session := cfg.session db
    let gate := session.map fun l => (buildLedgerGate l call.symbol call.gateNow).gate
    let decided ← call.decidePair cfg.orch gate db
    let sponsored ← call.sponsorPersisted (session.map (·.broker)) decided.1 decided.2
    call.reach .commit
    return (some decided.1, sponsored)

/-- `process_pair`: what it returns, `none` if it raises, and the tables it leaves. -/
def processPair (cfg : PairConfig) (db : Database) : Option (Option DecideReport) × Database :=
  match call.transaction cfg db with
  | none => (none, db)
  | some (r, committed) =>
      if r.any (fun r => decide (r.action = .persist)) && call.fails .emit then (none, committed)
      else (some r, committed)

end PairCall

/-- What the worker does: a call for a pair, or a cycle of the lifecycle. -/
inductive WorkerEvent where
  | pair (call : PairCall)
  | cycle (cy : WorkerCycle)

variable [Digest]

/-- The tables after an event. -/
def WorkerEvent.step (cfg : PairConfig) (db : Database) : WorkerEvent → Database
  | .pair call => (call.processPair cfg db).2
  | .cycle cy =>
      cfg.broker.elim db fun broker =>
        db.write (cy.apply ⟨broker, cfg.maxBars, cfg.snapshotInterval⟩ db.ledger)

end ForexAi
