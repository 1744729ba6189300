/-
A runner that is of one mind.

`StubRunner` gives every agent a signal at every bar, with one direction and one
confidence, and puts an ATR where the decision engine looks for it.  It drives the
backtest's decision path without the indicators, and what is decided on it is always
the same: go the stub's way, nudged by the parent context when there is one
(`decideOutcome_stub`).
-/
import ForexAi.Backtest.Driver

namespace ForexAi

/-- The features the stub gives an agent. -/
def stubFeatures : AgentId → Features
  | .technical => [("atr14", .num (1 / 500)), ("score", .num (1 / 2))]
  | .regime => [("regime", .text "trending")]
  | _ => []

/-- `StubRunner.analyze`. -/
def stubRunner (direction : Direction) (r : RunRequest) : Signals := fun agent =>
  some
    { agentId := agent
      symbol := r.symbol
      timeframe := r.timeframe
      direction := if agent = .regime then .flat else direction
      confidence := 4 / 5
      bucketTs := r.bucketTs
      features := stubFeatures agent
      createdAt := r.bucketTs
      validUntil := r.bucketTs + seconds 3600 }

/-- A candle at 1.10. -/
def stubBar (ts : Time) : Candle where
  ts := ts
  openPrice := 11 / 10
  high := 11 / 10
  low := 11 / 10
  close := 11 / 10

/-- The candles at the given stamps. -/
def stubSeries (stamps : List Time) (h : stamps.Pairwise (· < ·)) : Series where
  rows := stamps.map stubBar
  ascending := by
    rw [List.pairwise_map]
    exact h

theorem hourly_ne_nil : [Timeframe.H1] ≠ [] := List.cons_ne_nil _ _

/-- The configuration of the examples: a day from zero on, no warm-up, no slippage. -/
def stubConfig (symbols : List Symbol) (timeframes : List Timeframe) (h : timeframes ≠ []) :
    BacktestConfig where
  start := 0
  stop := seconds 86400
  symbols := symbols
  timeframes := timeframes
  warmupBars := 0
  slippagePct := 0
  timeframes_ne := h

/-! ### What is decided on a stub that is long -/

theorem fuse_stub (r : RunRequest) :
    ∃ fused, fuse (stubRunner .long r) (regimeOf (stubRunner .long r)) backtestOrch.fusion
        = some fused ∧ fused.score = 4 / 5 ∧ fused.preContextScore = 0 ∧ fused.threshold = 3 / 20 ∧
      fused.direction = .long ∧ 0 < fused.confidence ∧ fused.hasVotes = true := by
  have hregime : regimeOf (stubRunner .long r) = "trending" := rfl
  have hvotes : votesOf (stubRunner .long r)
      = [(.technical, 4 / 5), (.fundamental, 4 / 5), (.sentiment, 4 / 5)] := by
    simp [votesOf, directionalAgents, voteOf, stubRunner, signOf]
  have hweights : backtestOrch.fusion.weightsFor "trending"
      = weightRow (11 / 20) (1 / 5) (1 / 4) := rfl
  have hscaled : renormalized (weightRow (11 / 20) (1 / 5) (1 / 4)) directionalAgents
      = [(.technical, 11 / 20), (.fundamental, 1 / 5), (.sentiment, 1 / 4)] := by decide +kernel
  have hpairs : weighted [(.technical, 11 / 20), (.fundamental, 1 / 5), (.sentiment, 1 / 4)]
      [(.technical, 4 / 5), (.fundamental, 4 / 5), (.sentiment, 4 / 5)]
      = some [(11 / 20, 4 / 5), (1 / 5, 4 / 5), (1 / 4, 4 / 5)] := by decide +kernel
  unfold fuse
  simp only [hregime, hvotes, hweights, List.map_cons, List.map_nil]
  rw [show ([.technical, .fundamental, .sentiment] : List AgentId) = directionalAgents from rfl,
    hscaled, hpairs]
  refine ⟨_, rfl, ?_, rfl, rfl, ?_, ?_, rfl⟩
  · show Rounding.roundTo 6 _ = 4 / 5
    decide +kernel
  · show directionForScore (Rounding.roundTo 6 _) _ = .long
    decide +kernel
  · show 0 < min 1 |Rounding.roundTo 6 _|
    decide +kernel

/-- A context cannot turn a score of four fifths around. -/
theorem applyContext_long {fused : FusedResult} (hscore : fused.score = 4 / 5)
    (hpre : fused.preContextScore = 0) (hthreshold : fused.threshold = 3 / 20)
    {context : Option ContextInput}
    (hcontext : ∀ c, context = some c → c.weight = 3 / 20 ∧ 0 < c.confidence)
    (hdirection : fused.direction = .long) (hconfidence : 0 < fused.confidence) :
    (applyContext fused context).direction = .long ∧
      0 < (applyContext fused context).confidence ∧
      (applyContext fused context).preContextScore = if context.isSome then 4 / 5 else 0 := by
  unfold applyContext
  cases context with
  | none => exact ⟨hdirection, hconfidence, hpre⟩
  | some c =>
      obtain ⟨hweight, hpositive⟩ := hcontext c rfl
      have hshare : 0 < min 1 c.confidence := lt_min one_pos hpositive
      have hone : min 1 c.confidence ≤ 1 := min_le_left 1 c.confidence
      have hsign : -1 ≤ (signOf c.direction : ℚ) := by cases c.direction <;> norm_num [signOf]
      have hnudge : -(3 / 20) ≤ c.weight * signOf c.direction * min 1 c.confidence := by
        rw [hweight]
        nlinarith
      simp only [if_neg (not_le.mpr hpositive), Option.isSome_some, if_true]
      refine ⟨?_, ?_, hscore⟩
      · unfold directionForScore
        rw [if_pos]
        rw [hscore, hthreshold]
        linarith
      · refine lt_min one_pos (abs_pos.mpr ?_)
        rw [hscore]
        linarith

/-- **What is decided on a stub.** -/
theorem decideOutcome_stub (last : RecentDecisions) (symbol : Symbol) (timeframe : Timeframe)
    (bucketTs now : Time) (r : RunRequest) (price : ℚ) (configured : List Timeframe)
    (gate : GateState) (risk : RiskParams) :
    let outcome := decideOutcome last symbol timeframe bucketTs now (stubRunner .long r) price
      configured gate risk
    outcome.action = .persist ∧ outcome.fused.direction = .long ∧ 0 < outcome.fused.confidence ∧
      outcome.fused.preContextScore
        = if (parentContext last symbol timeframe configured now).isSome then 4 / 5 else 0 := by
  intro outcome
  obtain ⟨fused, hfuse, hscore, hpre, hthreshold, hdirection, hconfidence, hvotes⟩ := fuse_stub r
  obtain ⟨hlong, hsure, hnudged⟩ := applyContext_long hscore hpre hthreshold
    (fun c => @parentContext_some last symbol timeframe configured now c) hdirection hconfidence
  set inputs := decisionInputs last symbol timeframe bucketTs now (stubRunner .long r) price
    configured gate with hinputs
  have houtcome : outcome = decideFused inputs backtestOrch risk
      (applyContext fused inputs.parentContext) := by
    refine Option.get_of_eq_some _ ?_
    unfold computeDecision
    show (fuse (stubRunner .long r) (regimeOf (stubRunner .long r)) _).map _ = _
    rw [hfuse]
    rfl
  have hcoverage : backtestOrch.coverageMin ≤ inputs.coverage := by
    show backtestOrch.coverageMin ≤ coverageOf (stubRunner .long r)
    have hfull : coverageOf (stubRunner .long r) = 1 := by
      simp [coverageOf, agentFamilies, stubRunner]
    rw [hfull]
    norm_num [backtestOrch]
  obtain ⟨haction, hfused⟩ := decideFused_persists risk
    ((applyContext_hasVotes fused inputs.parentContext).trans hvotes) hcoverage
    (fun hflat => absurd (hlong.symm.trans hflat) (by decide))
  rw [houtcome, hfused]
  exact ⟨haction, hlong, hsure, hnudged⟩

end ForexAi
