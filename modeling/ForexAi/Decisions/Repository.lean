/-
The tables of decisions and risk evaluations.

Both are keyed by the bar they are about, and the first writer of a bar wins: a second
insert for it is a no-op, which `save_decision` tells its caller.  A fresh id that is taken
is another matter; the primary key refuses the row, and that raises.

Of a row the columns that something reads are kept; the hash, the weights, the versions and
the rationale of a decision are written for the audit only.
-/
import ForexAi.Backtest.Engine
import ForexAi.Broker.Store
import ForexAi.Lib.Keyed

namespace ForexAi

open Rounding

/-- What a decision and its risk evaluation are unique for. -/
structure BarKey where
  symbol : Symbol
  timeframe : Timeframe
  bucketTs : Time
  deriving DecidableEq

abbrev EvaluationId := ℕ

/-- `DecisionRow`; `decisionAt` is the database's time at the start of the transaction. -/
structure DecisionRow where
  id : DecisionId
  symbol : Symbol
  timeframe : Timeframe
  bucketTs : Time
  fusedDirection : Direction
  confidence : ℚ
  agreement : ℚ
  status : DecisionStatus
  veto : Option (String × VetoReason)
  decisionAt : Time
  validUntil : Time

/-- `RiskEvaluationRow`. -/
structure RiskEvaluationRow where
  id : EvaluationId
  decisionId : Option DecisionId
  symbol : Symbol
  timeframe : Timeframe
  bucketTs : Time
  positionSizeUnits : Option ℚ
  price : Option ℚ
  atr : Option ℚ
  stopLoss : Option ℚ
  takeProfit : Option ℚ
  rrRatio : Option ℚ
  riskPctAccount : Option ℚ
  exposureOk : Bool
  correlationOk : Bool
  dailyLossOk : Bool
  drawdownOk : Bool
  passed : Bool
  reasons : List GateReason
  evaluatedAt : Time

/-- `uq_decisions_identity`. -/
def DecisionRow.key (d : DecisionRow) : BarKey := ⟨d.symbol, d.timeframe, d.bucketTs⟩

/-- `uq_risk_evaluations_identity`. -/
def RiskEvaluationRow.key (e : RiskEvaluationRow) : BarKey := ⟨e.symbol, e.timeframe, e.bucketTs⟩

/-- What the ledger reads of a decision. -/
def DecisionRow.ref (d : DecisionRow) : DecisionRef := ⟨d.bucketTs, d.validUntil⟩

/-! ### Writing -/

/-- `decision_values`. -/
def decisionValues (id : DecisionId) (decisionAt : Time) (key : BarKey) (fused : FusedResult)
    (status : DecisionStatus) (veto : Option (String × VetoReason)) : DecisionRow where
  id := id
  symbol := key.symbol
  timeframe := key.timeframe
  bucketTs := key.bucketTs
  fusedDirection := fused.direction
  confidence := roundTo 4 fused.confidence
  agreement := roundTo 4 fused.agreement
  status := status
  veto := veto
  decisionAt := decisionAt
  validUntil := key.bucketTs + seconds (key.timeframe.seconds * 4)

/-- `save_decision`; `none` is a primary key that is taken. -/
def saveDecision (rows : List DecisionRow) (d : DecisionRow) : Option (List DecisionRow × Bool) :=
  Keyed.tryInsert DecisionRow.key (·.id) rows d

/-- The row of `save_risk_evaluation`; `none` is the `KeyError` of a gate that is missing. -/
def riskEvaluationValues (id : EvaluationId) (evaluatedAt : Time) (decisionId : Option DecisionId)
    (key : BarKey) (outcome : RiskOutcome) : Option RiskEvaluationRow := do
  let exposure ← outcome.gate .exposure
  let correlation ← outcome.gate .correlation
  let dailyLoss ← outcome.gate .dailyLoss
  let drawdown ← outcome.gate .drawdown
  return {
    id := id
    decisionId := decisionId
    symbol := key.symbol
    timeframe := key.timeframe
    bucketTs := key.bucketTs
    positionSizeUnits := outcome.sizing.map (·.positionSizeUnits)
    price := outcome.sizing.map (·.price)
    atr := outcome.sizing.map (·.atr)
    stopLoss := outcome.sizing.map (·.stopLoss)
    takeProfit := outcome.sizing.map (·.takeProfit)
    rrRatio := outcome.sizing.map (·.rrRatio)
    riskPctAccount := outcome.sizing.map (·.riskPctAccount)
    exposureOk := exposure.ok
    correlationOk := correlation.ok
    dailyLossOk := dailyLoss.ok
    drawdownOk := drawdown.ok
    passed := outcome.passed
    reasons := outcome.gates
    evaluatedAt := evaluatedAt }

/-- `save_risk_evaluation`. -/
def saveRiskEvaluation (rows : List RiskEvaluationRow) (id : EvaluationId) (evaluatedAt : Time)
    (decisionId : Option DecisionId) (key : BarKey) (outcome : RiskOutcome) :
    Option (List RiskEvaluationRow × Bool) :=
  (riskEvaluationValues id evaluatedAt decisionId key outcome).bind fun e =>
    Keyed.tryInsert RiskEvaluationRow.key (·.id) rows e

/-! ### Reading -/

/-- The later of the newest decision so far and the next one. -/
def laterDecision (best : Option DecisionRow) (row : DecisionRow) : Option DecisionRow :=
  match best with
  | none => some row
  | some b => if b.decisionAt < row.decisionAt then some row else some b

/-- `load_latest_decision`; with a `now`, of the fresh ones only. -/
def loadLatestDecision (rows : List DecisionRow) (symbol : Symbol) (timeframe : Timeframe)
    (now : Option Time) : Option DecisionRow :=
  (rows.filter fun d => decide (d.symbol = symbol ∧ d.timeframe = timeframe) &&
    now.all fun t => decide (t ≤ d.validUntil)).foldl laterDecision none

/-- `_latest_decision_id`. -/
def latestDecisionId (rows : List DecisionRow) (key : BarKey) : Option DecisionId :=
  (Keyed.find DecisionRow.key rows key).map (·.id)

/-- One active decision's exposure. -/
structure PaperSnapshot where
  symbol : Symbol
  notional : ℚ

/-- `load_active_paper_snapshot`: the `PAPER` decisions that are still valid, with the figures
of their evaluations.  Only sums are taken of them, so they are not put in order. -/
def loadActivePaperSnapshot (decisions : List DecisionRow) (evaluations : List RiskEvaluationRow)
    (now : Time) : List PaperSnapshot :=
  (decisions.filter fun d => decide (d.status = .paper ∧ now ≤ d.validUntil)).flatMap fun d =>
    (evaluations.filter fun e => decide (e.decisionId = some d.id)).filterMap fun e => do
      let units ← e.positionSizeUnits
      let price ← e.price
      return { symbol := d.symbol, notional := units * price }

/-- `s.basket & target_basket`. -/
def PaperSnapshot.sharesBasket (s : PaperSnapshot) (symbol : Symbol) : Bool :=
  s.symbol.basket.any fun c => symbol.basket.contains c

/-- `_gate_state`: the gate of a worker without a broker.  The shares of loss are the ones
`risk_state` has for the day and for the account, zero where it has none. -/
def gateState (snapshots : List PaperSnapshot) (symbol : Symbol) (equity : ℚ)
    (dailyLoss drawdown : Option ℚ) : GateState :=
  let basket := snapshots.filter (·.sharesBasket symbol)
  { exposureUsedPct := if equity = 0 then 0 else (snapshots.map (·.notional)).sum / equity
    correlationUsedPct := if equity = 0 then 0 else (basket.map (·.notional)).sum / equity
    dailyLossUsedPct := dailyLoss.getD 0
    drawdownUsedPct := drawdown.getD 0
    correlationTriggered := !basket.isEmpty }

/-- `_parent_context`, on the stored decisions. -/
def storedParentContext (rows : List DecisionRow) (symbol : Symbol) (timeframe : Timeframe)
    (configured : List Timeframe) (now : Time) : Option ContextInput :=
  let ordered := byRank configured
  match ordered.idxOf? timeframe with
  | none => none
  | some idx =>
      (ordered.drop (idx + 1)).findSome? fun parent =>
        (loadLatestDecision rows symbol parent (some now)).bind fun d =>
          if d.fusedDirection = .flat ∨ d.confidence ≤ 0 then none
          else some { direction := d.fusedDirection, confidence := d.confidence }

/-! ### What an insert leaves -/

theorem saveDecision_cases {rows rows' : List DecisionRow} {d : DecisionRow} {created : Bool}
    (h : saveDecision rows d = some (rows', created)) :
    (created = false ∧ rows' = rows ∧ d.key ∈ rows.map (·.key)) ∨
      (created = true ∧ rows' = rows ++ [d] ∧ d.key ∉ rows.map (·.key) ∧
        d.id ∉ rows.map (·.id)) :=
  Keyed.tryInsert_cases h

/-- The row of an evaluation has the figures of the sizing. -/
theorem riskEvaluationValues_spec {id : EvaluationId} {evaluatedAt : Time}
    {decisionId : Option DecisionId} {key : BarKey} {outcome : RiskOutcome} {e : RiskEvaluationRow}
    (h : riskEvaluationValues id evaluatedAt decisionId key outcome = some e) :
    e.key = key ∧ e.decisionId = decisionId ∧ e.evaluatedAt = evaluatedAt := by
  unfold riskEvaluationValues at h
  simp only [Option.bind_eq_bind, Option.bind_eq_some_iff] at h
  obtain ⟨_, -, _, -, _, -, _, -, hrow⟩ := h
  obtain rfl := Option.some.inj hrow
  exact ⟨rfl, rfl, rfl⟩

theorem saveRiskEvaluation_cases {rows rows' : List RiskEvaluationRow} {id : EvaluationId}
    {evaluatedAt : Time} {decisionId : Option DecisionId} {key : BarKey} {outcome : RiskOutcome}
    {created : Bool}
    (h : saveRiskEvaluation rows id evaluatedAt decisionId key outcome = some (rows', created)) :
    (rows' = rows ∧ key ∈ rows.map (·.key)) ∨
      ∃ e, rows' = rows ++ [e] ∧ key ∉ rows.map (·.key) ∧ e.key = key ∧
        e.decisionId = decisionId ∧ e.evaluatedAt = evaluatedAt := by
  obtain ⟨e, he, hinsert⟩ := Option.bind_eq_some_iff.mp h
  obtain ⟨hkey, hdecision, hat⟩ := riskEvaluationValues_spec he
  rcases Keyed.tryInsert_cases hinsert with ⟨-, hrows, hknown⟩ | ⟨-, hrows, hnew, -⟩
  · exact Or.inl ⟨hrows, hkey ▸ hknown⟩
  · exact Or.inr ⟨e, hrows, hkey ▸ hnew, hkey, hdecision, hat⟩

end ForexAi
