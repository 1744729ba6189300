/-
The backtest's decision engine.

The live decision path on the same pure function, with the gate handed in.  What it
keeps between calls is the last persisted decision of every symbol and timeframe;
the nearest larger timeframe with a fresh one is the parent context.
-/
import ForexAi.Decisions.Engine
import Mathlib.Data.List.Sort

namespace ForexAi

structure RecentDecision where
  direction : Direction
  confidence : ℚ
  validUntil : Time
  bucketTs : Time

/-- `_last`. -/
abbrev RecentDecisions := Symbol → Timeframe → Option RecentDecision

/-- `_atr_of`. -/
def atrOf (technical : Option AgentSignal) : Option ℚ :=
  technical.bind fun s => s.features.getNumber "atr14"

/-- `sorted(configured, key=Timeframe.rank)`. -/
def byRank (configured : List Timeframe) : List Timeframe :=
  configured.insertionSort fun a b => a.rank ≤ b.rank

/-- The context a recent decision gives at `now`. -/
def RecentDecision.context (recent : RecentDecision) (now : Time) : Option ContextInput :=
  if recent.validUntil < now then none
  else if recent.direction = .flat ∨ recent.confidence ≤ 0 then none
  else some { direction := recent.direction, confidence := recent.confidence }

/-- `_parent_context`. -/
def parentContext (last : RecentDecisions) (symbol : Symbol) (timeframe : Timeframe)
    (configured : List Timeframe) (now : Time) : Option ContextInput :=
  let ordered := byRank configured
  match ordered.idxOf? timeframe with
  | none => none
  | some idx =>
      (ordered.drop (idx + 1)).findSome? fun parent =>
        (last symbol parent).bind fun recent => recent.context now

/-- A parent context has the default weight and some confidence. -/
theorem parentContext_some {last : RecentDecisions} {symbol : Symbol} {timeframe : Timeframe}
    {configured : List Timeframe} {now : Time} {c : ContextInput}
    (h : parentContext last symbol timeframe configured now = some c) :
    c.weight = 3 / 20 ∧ 0 < c.confidence := by
  unfold parentContext at h
  simp only at h
  cases hidx : (byRank configured).idxOf? timeframe with
  | none => rw [hidx] at h; exact absurd h (by simp)
  | some idx =>
      rw [hidx] at h
      obtain ⟨parent, -, hparent⟩ := List.exists_of_findSome?_eq_some h
      obtain ⟨recent, -, hrecent⟩ := Option.bind_eq_some_iff.mp hparent
      unfold RecentDecision.context at hrecent
      by_cases hstale : recent.validUntil < now
      · rw [if_pos hstale] at hrecent
        exact absurd hrecent (by simp)
      · rw [if_neg hstale] at hrecent
        by_cases hidle : recent.direction = .flat ∨ recent.confidence ≤ 0
        · rw [if_pos hidle] at hrecent
          exact absurd hrecent (by simp)
        · rw [if_neg hidle] at hrecent
          obtain rfl := Option.some.inj hrecent
          exact ⟨rfl, not_le.mp fun hle => hidle (Or.inr hle)⟩

/-- The orchestrator tuning of a backtest. -/
def backtestOrch : OrchParams := { cooldownSeconds := 0 }

/-- The inputs `decide` bundles. -/
def decisionInputs (last : RecentDecisions) (symbol : Symbol) (timeframe : Timeframe)
    (bucketTs now : Time) (signals : Signals) (price : ℚ) (configured : List Timeframe)
    (gate : GateState) : DecisionInputs where
  symbol := symbol
  timeframe := timeframe
  bucketTs := bucketTs
  now := now
  signals := signals
  regime := regimeOf signals
  atr := atrOf (signals .technical)
  price := some price
  coverage := coverageOf signals
  gate := gate
  parentContext := parentContext last symbol timeframe configured now

/-- The outcome of `decide`; the default weights leave `compute_decision` no way to fail. -/
def decideOutcome (last : RecentDecisions) (symbol : Symbol) (timeframe : Timeframe)
    (bucketTs now : Time) (signals : Signals) (price : ℚ) (configured : List Timeframe)
    (gate : GateState) (risk : RiskParams) : DecisionOutcome :=
  (computeDecision (decisionInputs last symbol timeframe bucketTs now signals price configured
    gate) backtestOrch risk).get (computeDecision_default _ rfl risk)

/-- What a persisted outcome leaves for the smaller timeframes. -/
def DecisionOutcome.recent (outcome : DecisionOutcome) (timeframe : Timeframe)
    (bucketTs : Time) : RecentDecision where
  direction := outcome.fused.direction
  confidence := outcome.fused.confidence
  validUntil := bucketTs + seconds (timeframe.seconds * 4)
  bucketTs := bucketTs

/-- `_last` after `decide`. -/
def RecentDecisions.record (last : RecentDecisions) (symbol : Symbol) (timeframe : Timeframe)
    (bucketTs : Time) (outcome : DecisionOutcome) : RecentDecisions :=
  if outcome.action = .persist then
    Function.update last symbol
      (Function.update (last symbol) timeframe (some (outcome.recent timeframe bucketTs)))
  else last

end ForexAi
