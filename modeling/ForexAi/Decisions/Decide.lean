/-
One live decision: read, compute, cool down, write.

`DecisionEngine.decide` works inside the transaction of its caller.  It takes the tables as
they are and hands back the tables as it leaves them, and every place where the database or
the code under it can raise is a `PairStep`: a call says which of them fail, and a step that
fails ends the call with `none`.

What a call meets outside these tables comes with it: the signals, the candles, the settings,
the clocks and the fresh ids.  `risk_state` is written for observation and read by a worker
without a broker only, so the two figures read of it come with the call too.
-/
import ForexAi.Alerts.Orchestrator
import ForexAi.Decisions.Repository

namespace ForexAi

/-- The tables of decisions, evaluations and the ledger. -/
structure Database where
  decisions : List DecisionRow
  riskEvaluations : List RiskEvaluationRow
  orders : List PaperOrderRow
  positions : PositionTable
  snapshots : List AccountSnapshotRow
  orders_pk : (orders.map (·.id)).Nodup

namespace Database

/-- The tables of a fresh installation. -/
def empty : Database where
  decisions := []
  riskEvaluations := []
  orders := []
  positions := ⟨[], List.Pairwise.nil⟩
  snapshots := []
  orders_pk := List.nodup_nil

/-- The tables as a ledger store reads them. -/
def ledger (db : Database) : LedgerStore where
  orders := db.orders
  positions := db.positions
  snapshots := db.snapshots
  decisions := fun id => (Keyed.find DecisionRow.id db.decisions id).map (·.ref)
  orders_pk := db.orders_pk

/-- The tables after what a ledger store wrote. -/
def write (db : Database) (s : LedgerStore) : Database :=
  { db with
    orders := s.orders
    positions := s.positions
    snapshots := s.snapshots
    orders_pk := s.orders_pk }

end Database

/-- The places of a call at which something can raise, beside the inserts the tables refuse. -/
inductive PairStep where
  | settings | ledger | signals | inputs | cooldown | decisionInsert | decisionId
  | evaluationInsert | exposure | payload | orderInsert | commit | emit
  deriving DecidableEq, Repr

/-- A call of `process_pair`: its arguments, and what it meets outside the tables. -/
structure PairCall where
  symbol : Symbol
  timeframe : Timeframe
  /-- `datetime.now(UTC)`, for the engine, for the risk gate and inside `decide` -/
  now : Time
  gateNow : Time
  started : Time
  /-- the database's `now()`, which is the start of the transaction -/
  dbNow : Time
  risk : RiskParams
  configuredSymbols : List Symbol
  configuredTimeframes : List Timeframe
  signals : List AgentSignal
  candles : Series
  dailyLoss : Option ℚ
  drawdown : Option ℚ
  decisionId : DecisionId
  evaluationId : EvaluationId
  orderId : OrderId
  fails : PairStep → Bool

/-- The rest of a `DecideResult`. -/
structure DecideReport extends DecideResult where
  created : Bool
  confidence : ℚ
  agreement : ℚ
  coverage : ℚ
  skipReason : Option SkipReason

/-- The bar a report is about. -/
def DecideReport.key (r : DecideReport) : BarKey := ⟨r.symbol, r.timeframe, r.bucketTs⟩

/-- The newest bucket anyone has a signal for. -/
def latestBucket (signals : Signals) : Option Time :=
  ((agentFamilies.filterMap signals).map (·.bucketTs)).max?

/-- The signals at a bucket. -/
def atBucket (signals : Signals) (bucketTs : Time) : Signals := fun agent =>
  (signals agent).filter fun s => decide (s.bucketTs = bucketTs)

/-- The status an outcome is stored with. -/
def DecisionOutcome.storedStatus (outcome : DecisionOutcome) : DecisionStatus :=
  outcome.status.getD .analysis

namespace PairCall

variable (call : PairCall)

/-- A step that may fail. -/
def reach (step : PairStep) : Option Unit := if call.fails step then none else some ()

/-- The inputs `decide` bundles; `gate` is the caller's, if it has one. -/
def inputs (db : Database) (votes : Signals) (bucketTs : Time) (gate : Option GateState) :
    DecisionInputs :=
  let signals := atBucket votes bucketTs
  let market := resolveAtrPrice call.signals call.candles call.symbol call.timeframe bucketTs
  { symbol := call.symbol
    timeframe := call.timeframe
    bucketTs := bucketTs
    now := call.now
    signals := signals
    regime := regimeOf signals
    atr := market.1
    price := market.2
    coverage := coverageOf signals
    gate := gate.getD
      (gateState (loadActivePaperSnapshot db.decisions db.riskEvaluations call.now) call.symbol
        call.risk.paperEquity call.dailyLoss call.drawdown)
    parentContext := storedParentContext db.decisions call.symbol call.timeframe
      call.configuredTimeframes call.now }

/-- The report when nobody has a signal. -/
def silent : DecideReport where
  symbol := call.symbol
  timeframe := call.timeframe
  bucketTs := call.started
  action := .skip
  status := none
  direction := none
  vetoCode := none
  created := false
  confidence := 0
  agreement := 0
  coverage := 0
  skipReason := some .noVotes

/-- The report of an outcome that is not stored. -/
def skipped (bucketTs : Time) (coverage : ℚ) (outcome : DecisionOutcome) : DecideReport where
  symbol := call.symbol
  timeframe := call.timeframe
  bucketTs := bucketTs
  action := outcome.action
  status := none
  direction := if outcome.fused.hasVotes then some outcome.fused.direction else none
  vetoCode := none
  created := false
  confidence := outcome.fused.confidence
  agreement := outcome.fused.agreement
  coverage := coverage
  skipReason := outcome.skipReason

/-- The cooldown: a paper intent soon after another decision is an analysis only. -/
def coolDown (orch : OrchParams) (db : Database) (outcome : DecisionOutcome) :
    Option DecisionOutcome :=
  if outcome.storedStatus = .paper ∧ 0 < orch.cooldownSeconds then do
    call.reach .cooldown
    let recent := loadLatestDecision db.decisions call.symbol call.timeframe
      (some (call.now - seconds orch.cooldownSeconds))
    if recent.any fun d => decide (d.fusedDirection ≠ .flat) then
      return { outcome with
        status := some .analysis
        veto := some ("cooldown", .text "recent decision within cooldown window") }
    else return outcome
  else some outcome

/-- The row an outcome is stored as. -/
def decisionRow (key : BarKey) (outcome : DecisionOutcome) : DecisionRow :=
  decisionValues call.decisionId call.dbNow key outcome.fused outcome.storedStatus outcome.veto

/-- The decision an evaluation is stored under: a new one only. -/
def evaluationOf (saved : List DecisionRow × Bool) (key : BarKey) : Option (Option DecisionId) :=
  if saved.2 then (call.reach .decisionId).map fun _ => latestDecisionId saved.1 key
  else some none

/-- The writes of `decide`: the decision, and the evaluation with its id if it is new. -/
def persist (db : Database) (key : BarKey) (outcome : DecisionOutcome) :
    Option (Bool × Database) := do
  call.reach .decisionInsert
  let saved ← saveDecision db.decisions (call.decisionRow key outcome)
  match outcome.risk with
  | none => return (saved.2, { db with decisions := saved.1 })
  | some risk =>
      let decisionId ← call.evaluationOf saved key
      call.reach .evaluationInsert
      let evaluated ← saveRiskEvaluation db.riskEvaluations call.evaluationId call.dbNow
        decisionId key risk
      return (saved.2, { db with decisions := saved.1, riskEvaluations := evaluated.1 })

/-- The report of an outcome that is stored, or was before. -/
def persisted (bucketTs : Time) (coverage : ℚ) (outcome : DecisionOutcome) (created : Bool) :
    DecideReport where
  symbol := call.symbol
  timeframe := call.timeframe
  bucketTs := bucketTs
  action := outcome.action
  status := some outcome.storedStatus
  direction := some outcome.fused.direction
  vetoCode := outcome.veto.map (·.1)
  created := created
  confidence := outcome.fused.confidence
  agreement := outcome.fused.agreement
  coverage := coverage
  skipReason := none

/-- `DecisionEngine.decide`. -/
def decidePair (orch : OrchParams) (gate : Option GateState) (db : Database) :
    Option (DecideReport × Database) := do
  call.reach .signals
  let votes := loadLatestPerAgent call.signals call.symbol call.timeframe (some call.now)
  match latestBucket votes with
  | none => return (call.silent, db)
  | some bucketTs =>
      call.reach .inputs
      let inputs := call.inputs db votes bucketTs gate
      let outcome ← computeDecision inputs orch call.risk
      if outcome.action = .skip then
        return (call.skipped bucketTs inputs.coverage outcome, db)
      else
        let outcome ← call.coolDown orch db outcome
        let written ← call.persist db ⟨call.symbol, call.timeframe, bucketTs⟩ outcome
        call.reach .exposure
        return (call.persisted bucketTs inputs.coverage outcome written.1, written.2)

end PairCall

/-! ### What is written -/

/-- An outcome that is stored has been through the risk gate. -/
theorem computeDecision_risk {inputs : DecisionInputs} {orch : OrchParams} {risk : RiskParams}
    {outcome : DecisionOutcome} (h : computeDecision inputs orch risk = some outcome)
    (hstored : outcome.action ≠ .skip) : ∃ assessed, outcome.risk = some assessed := by
  obtain ⟨fused, -, rfl⟩ := Option.map_eq_some_iff.mp h
  revert hstored
  unfold decideFused
  split
  · intro hstored
    exact absurd rfl hstored
  · split
    · intro hstored
      exact absurd rfl hstored
    · split
      · intro hstored
        exact absurd rfl hstored
      · intro _
        simp only
        split
        · exact ⟨_, rfl⟩
        · split
          · exact ⟨_, rfl⟩
          · split <;> exact ⟨_, rfl⟩

/-- The evaluation a decision is committed with: of its bar, under its id, in its
transaction. -/
structure EvaluatedWith (d : DecisionRow) (e : RiskEvaluationRow) : Prop where
  key : e.key = d.key
  decision : e.decisionId = some d.id
  at_once : e.evaluatedAt = d.decisionAt

namespace PairCall

variable {call : PairCall}

/-- The cooldown changes the status and the veto only. -/
theorem coolDown_spec {orch : OrchParams} {db : Database} {outcome outcome' : DecisionOutcome}
    (h : call.coolDown orch db outcome = some outcome') :
    outcome'.fused = outcome.fused ∧ outcome'.risk = outcome.risk := by
  unfold coolDown at h
  by_cases hpaper : outcome.storedStatus = .paper ∧ 0 < orch.cooldownSeconds
  · rw [if_pos hpaper] at h
    obtain ⟨_, -, h⟩ := Option.bind_eq_some_iff.mp h
    simp only at h
    split at h
    · obtain rfl := Option.some.inj h
      exact ⟨rfl, rfl⟩
    · obtain rfl := Option.some.inj h
      exact ⟨rfl, rfl⟩
  · rw [if_neg hpaper] at h
    obtain rfl := Option.some.inj h
    exact ⟨rfl, rfl⟩

/-- **What the writes leave.**  Where the evaluations are of the bars the decisions are of, a
bar that was decided on is left as it is, and any other gets a decision and its evaluation. -/
theorem persist_spec {db db' : Database} {key : BarKey} {outcome : DecisionOutcome}
    {assessed : RiskOutcome} {created : Bool}
    (hkeys : db.riskEvaluations.map (·.key) = db.decisions.map (·.key))
    (hrisk : outcome.risk = some assessed)
    (h : call.persist db key outcome = some (created, db')) :
    (created = false ∧ db' = db) ∨
      (created = true ∧ key ∉ db.decisions.map (·.key) ∧
        call.decisionId ∉ db.decisions.map (·.id) ∧
        ∃ e, EvaluatedWith (call.decisionRow key outcome) e ∧
          db' = { db with decisions := db.decisions ++ [call.decisionRow key outcome],
                          riskEvaluations := db.riskEvaluations ++ [e] }) := by
  unfold persist at h
  simp only [hrisk] at h
  obtain ⟨_, -, h⟩ := Option.bind_eq_some_iff.mp h
  obtain ⟨⟨decisions, created'⟩, hsaved, h⟩ := Option.bind_eq_some_iff.mp h
  obtain ⟨decisionId, hid, h⟩ := Option.bind_eq_some_iff.mp h
  obtain ⟨_, -, h⟩ := Option.bind_eq_some_iff.mp h
  obtain ⟨⟨evaluations, _⟩, hevaluated, h⟩ := Option.bind_eq_some_iff.mp h
  obtain ⟨rfl, rfl⟩ := Prod.mk.inj (Option.some.inj h)
  rcases saveDecision_cases hsaved with ⟨rfl, rfl, hknown⟩ | ⟨rfl, rfl, hnew, hfresh⟩
  · refine Or.inl ⟨rfl, ?_⟩
    rcases saveRiskEvaluation_cases hevaluated with ⟨rfl, -⟩ | ⟨_, -, hunknown, -⟩
    · rfl
    · rw [hkeys] at hunknown
      exact absurd hknown hunknown
  · refine Or.inr ⟨rfl, hnew, hfresh, ?_⟩
    have hlatest : decisionId = some call.decisionId := by
      unfold evaluationOf at hid
      rw [if_pos rfl] at hid
      obtain ⟨_, -, rfl⟩ := Option.map_eq_some_iff.mp hid
      show (Keyed.find DecisionRow.key _ (call.decisionRow key outcome).key).map _ = _
      rw [Keyed.find_concat hnew]
      rfl
    rcases saveRiskEvaluation_cases hevaluated with
      ⟨-, hknown⟩ | ⟨e, rfl, -, hkey, hdecision, hat⟩
    · rw [hkeys] at hknown
      exact absurd hknown hnew
    · exact ⟨e, ⟨hkey, hdecision.trans hlatest, hat⟩, rfl⟩

/-- **What a decision leaves**: the tables as they were, without a new decision, or what
`persist` leaves of an outcome that the report is about. -/
theorem decidePair_cases {orch : OrchParams} {gate : Option GateState} {db db' : Database}
    {r : DecideReport} (h : call.decidePair orch gate db = some (r, db')) :
    (r.action = .skip ∧ db' = db) ∨
      ∃ outcome assessed, outcome.risk = some assessed ∧
        call.persist db r.key outcome = some (r.created, db') ∧
        r.status = some outcome.storedStatus ∧ r.direction = some outcome.fused.direction := by
  unfold decidePair at h
  obtain ⟨_, -, h⟩ := Option.bind_eq_some_iff.mp h
  simp only at h
  split at h
  · obtain ⟨rfl, rfl⟩ := Prod.mk.inj (Option.some.inj h)
    exact Or.inl ⟨rfl, rfl⟩
  · obtain ⟨_, -, h⟩ := Option.bind_eq_some_iff.mp h
    obtain ⟨outcome, hcomputed, h⟩ := Option.bind_eq_some_iff.mp h
    by_cases hskip : outcome.action = .skip
    · rw [if_pos hskip] at h
      obtain ⟨rfl, rfl⟩ := Prod.mk.inj (Option.some.inj h)
      exact Or.inl ⟨hskip, rfl⟩
    · rw [if_neg hskip] at h
      obtain ⟨assessed, hrisk⟩ := computeDecision_risk hcomputed hskip
      obtain ⟨cooled, hcooled, h⟩ := Option.bind_eq_some_iff.mp h
      obtain ⟨⟨created, _⟩, hwritten, h⟩ := Option.bind_eq_some_iff.mp h
      obtain ⟨_, -, h⟩ := Option.bind_eq_some_iff.mp h
      obtain ⟨rfl, rfl⟩ := Prod.mk.inj (Option.some.inj h)
      exact Or.inr ⟨cooled, assessed, (coolDown_spec hcooled).2.trans hrisk, hwritten, rfl, rfl⟩

end PairCall

end ForexAi
