/-
Sizing and the gates on the parameters as they are resolved.

`Decisions.Risk` and `Decisions.Engine` compute with finite parameters.  An override can be
infinite or not a number, and then the same formulas give something else: a stop distance
that is not a number is not above zero, so nothing is divided by it and the ratio is zero,
and so are the units.  Here the formulas are on `Extended` numbers; where every parameter is
finite they are the ones before (`computeDecisionResolved_resolved`).

Of a gate its key and its verdict are kept, of a veto its code: the texts are formatted from
the same numbers as before.
-/
import ForexAi.Data.RiskConfig
import ForexAi.Decisions.Engine

namespace ForexAi

open Extended

structure ResolvedSizing where
  positionSizeUnits : Extended ℚ
  stopLoss : Extended ℚ
  takeProfit : Extended ℚ
  rrRatio : Extended ℚ
  riskPctAccount : Extended ℚ
  atr : ℚ
  price : ℚ

structure ResolvedOutcome where
  passed : Bool
  sizing : Option ResolvedSizing
  gates : List (GateKey × Bool)
  paper : Bool

structure ResolvedDecision where
  action : DecisionAction
  fused : FusedResult
  status : Option DecisionStatus := none
  risk : Option ResolvedOutcome := none
  coverage : ℚ := 0
  skipReason : Option SkipReason := none
  vetoCode : Option String := none

namespace ResolvedParams

variable (params : ResolvedParams)

/-- Units by the money at risk over the stop distance. -/
def unitsByRisk (atr : ℚ) : Extended ℚ :=
  let slDistance := params.knob .slAtrMultiple * fin atr
  if fin 0 < slDistance then fin params.paperEquity * params.knob .maxRiskPctAccount / slDistance
  else fin 0

/-- Units by the exposure cap. -/
def unitsByExposure (price : ℚ) : Extended ℚ :=
  if 0 < price then fin params.paperEquity * params.knob .maxExposurePct / fin price else fin 0

/-- `compute_sizing`. -/
def computeSizing (price atr : ℚ) (direction : Direction) : ResolvedSizing :=
  let s : Extended ℚ := fin (signOf direction)
  let slDistance := params.knob .slAtrMultiple * fin atr
  let tpDistance := params.knob .tpAtrMultiple * fin atr
  let units := roundTo 6 (least (params.unitsByRisk atr) (params.unitsByExposure price))
  let notional := units * fin price
  let riskPct :=
    if params.paperEquity = 0 then fin 0
    else roundTo 4 (notional * slDistance / fin params.paperEquity)
  { positionSizeUnits := units
    stopLoss := roundTo 8 (fin price - s * slDistance)
    takeProfit := roundTo 8 (fin price + s * tpDistance)
    rrRatio := if fin 0 < slDistance then roundTo 4 (tpDistance / slDistance) else fin 0
    riskPctAccount := least riskPct (fin 1)
    atr
    price }

/-- A gate on a used share. -/
def usedOk (used : ℚ) (cap : RiskKnob) : Bool :=
  decide (fin used + params.knob .maxRiskPctAccount ≤ params.knob cap)

/-- The gates on a candidate that can be sized. -/
def sizedGates (sizing : ResolvedSizing) (gate : GateState) : List (GateKey × Bool) :=
  [ (.rr, decide (params.knob .minRr ≤ sizing.rrRatio)),
    (.exposure, params.usedOk gate.exposureUsedPct .maxExposurePct),
    (.correlation, !gate.correlationTriggered ||
      params.usedOk gate.correlationUsedPct .correlationCapPct),
    (.dailyLoss, params.usedOk gate.dailyLossUsedPct .maxDailyLossPct),
    (.drawdown, params.usedOk gate.drawdownUsedPct .maxDrawdownPct) ]

/-- `assess`. -/
def assess (direction : Direction) (deps : RiskDeps) (gate : GateState) : ResolvedOutcome :=
  if direction = .flat then
    { passed := true, sizing := none, paper := false,
      gates := (gateKeys ++ [GateKey.flat]).map fun key => (key, true) }
  else
    match deps.sizable with
    | none =>
        { passed := false, sizing := none, paper := false,
          gates := (gateKeys.map fun key => (key, false)) ++ [(.sizing, false)] }
    | some (atr, price) =>
        let sizing := params.computeSizing price atr direction
        let gates := params.sizedGates sizing gate
        let allOk := gates.all (·.2)
        { passed := allOk, sizing := some sizing, gates, paper := allOk && params.riskEnabled }

end ResolvedParams

/-- `_first_failing`. -/
def ResolvedOutcome.firstFailing (outcome : ResolvedOutcome) (key : GateKey) : Option String :=
  (outcome.gates.find? fun g => decide (g.1 = key)).bind fun g =>
    if g.2 then none else some key.code

/-- The code of the first failing gate. -/
def ResolvedOutcome.blockedVeto (outcome : ResolvedOutcome) : String :=
  (gateKeys.findSome? outcome.firstFailing).getD "risk"

/-- What is decided on a fused result. -/
def decideResolved (inputs : DecisionInputs) (orch : OrchParams) (params : ResolvedParams)
    (fused : FusedResult) : ResolvedDecision :=
  if fused.hasVotes = false then
    { action := .skip, fused, skipReason := some .noVotes }
  else if inputs.coverage < orch.coverageMin then
    { action := .skip, fused, coverage := inputs.coverage,
      skipReason := some .insufficientCoverage }
  else if fused.direction = .flat then
    { action := .skip, fused, coverage := inputs.coverage, skipReason := some .weakFlat }
  else
    let riskOutcome := params.assess fused.direction ⟨inputs.atr, inputs.price⟩ inputs.gate
    let promotable := decide (orch.agreementMin ≤ fused.agreement)
    let persist (status : DecisionStatus) (vetoCode : Option String) : ResolvedDecision :=
      { action := .persist, fused, status := some status, risk := some riskOutcome,
        coverage := inputs.coverage, vetoCode }
    if promotable = false then persist .analysis (some "low_agreement")
    else if riskOutcome.passed && riskOutcome.paper then persist .paper none
    else if riskOutcome.passed then persist .analysis (some "risk_disabled")
    else persist .blocked (some riskOutcome.blockedVeto)

/-- `compute_decision`; `none` is `fuse`'s `KeyError`. -/
def computeDecisionResolved (inputs : DecisionInputs) (orch : OrchParams)
    (params : ResolvedParams) : Option ResolvedDecision :=
  (fuse inputs.signals inputs.regime orch.fusion).map fun fused =>
    decideResolved inputs orch params (applyContext fused inputs.parentContext)

@[simp] theorem decideResolved_fused (inputs : DecisionInputs) (orch : OrchParams)
    (params : ResolvedParams) (fused : FusedResult) :
    (decideResolved inputs orch params fused).fused = fused := by
  unfold decideResolved
  simp only
  split_ifs <;> rfl

/-! ### Finite parameters -/

def SizingResult.resolved (s : SizingResult) : ResolvedSizing where
  positionSizeUnits := fin s.positionSizeUnits
  stopLoss := fin s.stopLoss
  takeProfit := fin s.takeProfit
  rrRatio := fin s.rrRatio
  riskPctAccount := fin s.riskPctAccount
  atr := s.atr
  price := s.price

def RiskOutcome.resolved (r : RiskOutcome) : ResolvedOutcome where
  passed := r.passed
  sizing := r.sizing.map (·.resolved)
  gates := r.gates.map fun g => (g.key, g.ok)
  paper := r.paper

@[simp] theorem RiskOutcome.resolved_passed (r : RiskOutcome) : r.resolved.passed = r.passed := rfl

@[simp] theorem RiskOutcome.resolved_paper (r : RiskOutcome) : r.resolved.paper = r.paper := rfl

def DecisionOutcome.resolved (d : DecisionOutcome) : ResolvedDecision where
  action := d.action
  fused := d.fused
  status := d.status
  risk := d.risk.map (·.resolved)
  coverage := d.coverage
  skipReason := d.skipReason
  vetoCode := d.veto.map (·.1)

section Finite

variable (params : RiskParams)

theorem computeSizing_resolved (price atr : ℚ) (direction : Direction) :
    params.resolved.computeSizing price atr direction
      = (computeSizing price atr direction params).resolved := by
  have hrisk : params.resolved.unitsByRisk atr = fin (params.unitsByRisk atr) := by
    unfold ResolvedParams.unitsByRisk RiskParams.unitsByRisk RiskParams.resolved
    simp only [fin_mul_fin, fin_lt_fin, fin_div_fin, RiskParams.knob]
    split <;> rfl
  have hexposure : params.resolved.unitsByExposure price = fin (params.unitsByExposure price) := by
    unfold ResolvedParams.unitsByExposure RiskParams.unitsByExposure RiskParams.resolved
    simp only [fin_mul_fin, fin_div_fin, RiskParams.knob]
    split <;> rfl
  unfold ResolvedParams.computeSizing ForexAi.computeSizing SizingResult.resolved
  rw [hrisk, hexposure]
  unfold RiskParams.resolved
  simp only [least_fin, roundTo_fin, fin_mul_fin, fin_sub_fin, fin_add_fin, fin_div_fin,
    fin_lt_fin, RiskParams.knob]
  congr 1
  · split <;> rfl
  · split <;> simp only [least_fin]

theorem sizedGates_resolved (sizing : SizingResult) (gate : GateState) :
    params.resolved.sizedGates sizing.resolved gate
      = (sizedGates sizing gate params).map fun g => (g.key, g.ok) := by
  unfold ResolvedParams.sizedGates ResolvedParams.usedOk ForexAi.sizedGates usedGate
    RiskParams.resolved SizingResult.resolved
  simp only [List.map_cons, List.map_nil, fin_add_fin, fin_le_fin, RiskParams.knob]

theorem assess_resolved (direction : Direction) (deps : RiskDeps) (gate : GateState) :
    params.resolved.assess direction deps gate = (assess direction deps gate params).resolved := by
  unfold ResolvedParams.assess ForexAi.assess
  by_cases hflat : direction = .flat
  · rw [if_pos hflat, if_pos hflat]
    rfl
  · rw [if_neg hflat, if_neg hflat]
    cases deps.sizable with
    | none => rfl
    | some pair =>
        simp only [computeSizing_resolved, sizedGates_resolved, List.all_map]
        rfl

theorem firstFailing_resolved (key : GateKey) (outcome : RiskOutcome) :
    outcome.resolved.firstFailing key = (firstFailing key outcome).map (·.1) := by
  have hfind : (outcome.resolved.gates.find? fun g => decide (g.1 = key))
      = (outcome.gate key).map fun g => (g.key, g.ok) := by
    unfold RiskOutcome.resolved RiskOutcome.gate
    rw [List.find?_map]
    rfl
  unfold ResolvedOutcome.firstFailing ForexAi.firstFailing
  rw [hfind]
  cases outcome.gate key with
  | none => rfl
  | some g =>
      simp only [Option.map_some, Option.bind_some]
      split <;> rfl

theorem blockedVeto_resolved (outcome : RiskOutcome) :
    outcome.resolved.blockedVeto = (blockedVeto outcome).1 := by
  have hfirst : outcome.resolved.firstFailing
      = Option.map (·.1) ∘ fun key => firstFailing key outcome :=
    funext fun key => firstFailing_resolved key outcome
  unfold ResolvedOutcome.blockedVeto ForexAi.blockedVeto
  rw [hfirst, ← List.map_findSome?]
  cases gateKeys.findSome? fun key => firstFailing key outcome <;> rfl

theorem decideResolved_resolved (inputs : DecisionInputs) (orch : OrchParams)
    (fused : FusedResult) :
    decideResolved inputs orch params.resolved fused
      = (decideFused inputs orch params fused).resolved := by
  unfold decideResolved decideFused
  simp only [assess_resolved, blockedVeto_resolved, RiskOutcome.resolved_passed,
    RiskOutcome.resolved_paper]
  split_ifs <;> rfl

/-- **On finite parameters the two decisions are one.** -/
theorem computeDecisionResolved_resolved (inputs : DecisionInputs) (orch : OrchParams) :
    computeDecisionResolved inputs orch params.resolved
      = (computeDecision inputs orch params).map (·.resolved) := by
  unfold computeDecisionResolved computeDecision
  rw [Option.map_map]
  congr 1
  funext fused
  exact decideResolved_resolved params inputs orch _

end Finite

end ForexAi
