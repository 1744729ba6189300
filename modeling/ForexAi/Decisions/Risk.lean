/-
The risk gate: paper sizing and the gates an intent has to pass.

`computeSizing` turns an ATR into a stop, a target and a number of units; `assess`
evaluates the gates on it.  The gate is fail-closed: with the ATR or the price
missing every gate fails.

The detail of a gate is kept as the data its text is formatted from.
-/
import ForexAi.Decisions.Fusion

namespace ForexAi

open Rounding

/-- Resolved risk configuration.  The paper equity has no runtime override, and the settings
admit positive ones only. -/
structure RiskParams where
  maxRiskPctAccount : ℚ
  maxExposurePct : ℚ
  maxDailyLossPct : ℚ
  maxDrawdownPct : ℚ
  minRr : ℚ
  slAtrMultiple : ℚ
  tpAtrMultiple : ℚ
  volTargetPct : ℚ
  correlationCapPct : ℚ
  riskEnabled : Bool
  paperEquity : ℚ
  paper_equity_pos : 0 < paperEquity

/-- The settings' defaults. -/
def RiskParams.default : RiskParams where
  maxRiskPctAccount := 1 / 100
  maxExposurePct := 3 / 10
  maxDailyLossPct := 3 / 100
  maxDrawdownPct := 1 / 10
  minRr := 3 / 2
  slAtrMultiple := 3 / 2
  tpAtrMultiple := 5 / 2
  volTargetPct := 1 / 5
  correlationCapPct := 3 / 20
  riskEnabled := true
  paperEquity := 100000
  paper_equity_pos := by norm_num

structure SizingResult where
  positionSizeUnits : ℚ
  stopLoss : ℚ
  takeProfit : ℚ
  rrRatio : ℚ
  riskPctAccount : ℚ
  atr : ℚ
  price : ℚ

/-- Runtime aggregate state fed into the gates. -/
structure GateState where
  exposureUsedPct : ℚ := 0
  correlationUsedPct : ℚ := 0
  dailyLossUsedPct : ℚ := 0
  drawdownUsedPct : ℚ := 0
  correlationTriggered : Bool := false
  deriving DecidableEq

/-- The keys of the gates, in the order they are evaluated; `flat` and `sizing` stand for the
two ways out before any of them is. -/
inductive GateKey where
  | rr | exposure | correlation | dailyLoss | drawdown | flat | sizing
  deriving DecidableEq, Repr

/-- `_GATE_KEYS`. -/
def gateKeys : List GateKey := [.rr, .exposure, .correlation, .dailyLoss, .drawdown]

/-- `GateReason.code`. -/
def GateKey.code : GateKey → String
  | rr => "rr"
  | exposure => "exposure"
  | correlation => "correlation"
  | dailyLoss => "daily_loss"
  | drawdown => "drawdown"
  | flat => "flat"
  | sizing => "sizing_impossible"

/-- What a gate's detail is formatted from. -/
inductive GateDetail where
  /-- "flat direction requires no sizing" -/
  | flatDirection
  /-- "cannot size: ATR/price unavailable" -/
  | cannotSize
  /-- "ATR/price unavailable; cannot size" -/
  | sizingUnavailable
  /-- "rr=… (min …)", the ratio to three digits -/
  | ratio (rr minRr : ℚ)
  /-- "exposure=… (cap …)" and its like, the value used to four digits -/
  | used (value cap : ℚ)
  deriving DecidableEq

/-- What the value of a `used` detail is called in its text. -/
def GateKey.label : GateKey → String
  | correlation => "corr_basket"
  | key => key.code

structure GateReason where
  key : GateKey
  ok : Bool
  detail : GateDetail
  deriving DecidableEq

structure RiskOutcome where
  passed : Bool
  sizing : Option SizingResult
  gates : List GateReason
  paper : Bool

/-- `gates.get(key)`. -/
def RiskOutcome.gate (r : RiskOutcome) (key : GateKey) : Option GateReason :=
  r.gates.find? fun g => decide (g.key = key)

structure RiskDeps where
  atr : Option ℚ
  price : Option ℚ

/-- Units by the money at risk over the stop distance. -/
def RiskParams.unitsByRisk (params : RiskParams) (atr : ℚ) : ℚ :=
  let slDistance := params.slAtrMultiple * atr
  if 0 < slDistance then params.paperEquity * params.maxRiskPctAccount / slDistance else 0

/-- Units by the exposure cap, on an account without positions. -/
def RiskParams.unitsByExposure (params : RiskParams) (price : ℚ) : ℚ :=
  if 0 < price then params.paperEquity * params.maxExposurePct / price else 0

/-- `compute_sizing`. -/
def computeSizing (price atr : ℚ) (direction : Direction) (params : RiskParams) : SizingResult :=
  let s : ℚ := signOf direction
  let slDistance := params.slAtrMultiple * atr
  let tpDistance := params.tpAtrMultiple * atr
  let units := roundTo 6 (min (params.unitsByRisk atr) (params.unitsByExposure price))
  let notional := units * price
  let riskPct :=
    if params.paperEquity = 0 then 0 else roundTo 4 (notional * slDistance / params.paperEquity)
  { positionSizeUnits := units
    stopLoss := roundTo 8 (price - s * slDistance)
    takeProfit := roundTo 8 (price + s * tpDistance)
    rrRatio := if 0 < slDistance then roundTo 4 (tpDistance / slDistance) else 0
    riskPctAccount := min riskPct 1
    atr
    price }

/-- A gate on a used share: what is used and the risk of one more position stay under the cap. -/
def usedGate (key : GateKey) (used cap : ℚ) (params : RiskParams) : GateReason where
  key := key
  ok := decide (used + params.maxRiskPctAccount ≤ cap)
  detail := .used used cap

/-- The gates on a candidate that can be sized. -/
def sizedGates (sizing : SizingResult) (gate : GateState) (params : RiskParams) :
    List GateReason :=
  let correlation :=
    usedGate .correlation gate.correlationUsedPct params.correlationCapPct params
  [ { key := .rr, ok := decide (params.minRr ≤ sizing.rrRatio),
      detail := .ratio sizing.rrRatio params.minRr },
    usedGate .exposure gate.exposureUsedPct params.maxExposurePct params,
    { correlation with ok := !gate.correlationTriggered || correlation.ok },
    usedGate .dailyLoss gate.dailyLossUsedPct params.maxDailyLossPct params,
    usedGate .drawdown gate.drawdownUsedPct params.maxDrawdownPct params ]

/-- The ATR and the price of a candidate that can be sized: both there and positive. -/
def RiskDeps.sizable (deps : RiskDeps) : Option (ℚ × ℚ) :=
  match deps.atr, deps.price with
  | some atr, some price => if atr ≤ 0 ∨ price ≤ 0 then none else some (atr, price)
  | _, _ => none

/-- `assess`. -/
def assess (direction : Direction) (deps : RiskDeps) (gate : GateState) (params : RiskParams) :
    RiskOutcome :=
  if direction = .flat then
    { passed := true, sizing := none, paper := false,
      gates := (gateKeys ++ [GateKey.flat]).map fun key => ⟨key, true, .flatDirection⟩ }
  else
    match deps.sizable with
    | none =>
        { passed := false, sizing := none, paper := false,
          gates := (gateKeys.map fun key => ⟨key, false, .cannotSize⟩) ++
            [⟨.sizing, false, .sizingUnavailable⟩] }
    | some (atr, price) =>
        let sizing := computeSizing price atr direction params
        let gates := sizedGates sizing gate params
        let allOk := gates.all (·.ok)
        { passed := allOk, sizing := some sizing, gates, paper := allOk && params.riskEnabled }

/-! ### Reading an outcome -/

theorem sizable_some {deps : RiskDeps} {atr price : ℚ} (h : deps.sizable = some (atr, price)) :
    deps.atr = some atr ∧ deps.price = some price ∧ 0 < atr ∧ 0 < price := by
  unfold RiskDeps.sizable at h
  split at h
  · rename_i a p ha hp
    by_cases hneg : a ≤ 0 ∨ p ≤ 0
    · rw [if_pos hneg] at h
      exact absurd h (by simp)
    · rw [if_neg hneg] at h
      obtain ⟨rfl, rfl⟩ := Prod.mk.inj (Option.some.inj h)
      push Not at hneg
      exact ⟨ha, hp, hneg.1, hneg.2⟩
  · exact absurd h (by simp)

theorem sizable_of_pos {deps : RiskDeps} {atr price : ℚ} (hatr : deps.atr = some atr)
    (hprice : deps.price = some price) (hatrpos : 0 < atr) (hpricepos : 0 < price) :
    deps.sizable = some (atr, price) := by
  unfold RiskDeps.sizable
  rw [hatr, hprice]
  exact if_neg (by simp [not_le.mpr hatrpos, not_le.mpr hpricepos])

/-- Without an ATR, or with one that is not positive, nothing can be sized. -/
theorem sizable_none {deps : RiskDeps} (h : ∀ atr, deps.atr = some atr → atr ≤ 0) :
    deps.sizable = none := by
  cases hs : deps.sizable with
  | none => rfl
  | some pair =>
      obtain ⟨hatr, -, hpos, -⟩ := @sizable_some deps pair.1 pair.2 hs
      exact absurd (h _ hatr) (not_le.mpr hpos)

/-- With a positive ATR and price a candidate is sized. -/
theorem assess_sizing {direction : Direction} (hdir : direction ≠ .flat) {atr price : ℚ}
    (hatr : 0 < atr) (hprice : 0 < price) (gate : GateState) (params : RiskParams) :
    (assess direction ⟨some atr, some price⟩ gate params).sizing
      = some (computeSizing price atr direction params) := by
  unfold assess
  rw [if_neg hdir, sizable_of_pos rfl rfl hatr hprice]

/-- A candidate that is not flat is sized, or fails at every gate. -/
theorem assess_cases {direction : Direction} (hdir : direction ≠ .flat) (deps : RiskDeps)
    (gate : GateState) (params : RiskParams) :
    (deps.sizable = none ∧ (assess direction deps gate params).passed = false ∧
      (assess direction deps gate params).sizing = none ∧
      (assess direction deps gate params).paper = false ∧
      ∀ g ∈ (assess direction deps gate params).gates, g.ok = false) ∨
    ∃ atr price, deps.sizable = some (atr, price) ∧
      (assess direction deps gate params).sizing
        = some (computeSizing price atr direction params) ∧
      (assess direction deps gate params).passed
        = (sizedGates (computeSizing price atr direction params) gate params).all (·.ok) := by
  unfold assess
  rw [if_neg hdir]
  cases hs : deps.sizable with
  | none =>
      refine Or.inl ⟨rfl, rfl, rfl, rfl, ?_⟩
      intro g hg
      rcases List.mem_append.mp hg with hg | hg
      · obtain ⟨key, -, rfl⟩ := List.mem_map.mp hg
        rfl
      · rw [List.mem_singleton.mp hg]
  | some pair => exact Or.inr ⟨pair.1, pair.2, rfl, rfl, rfl⟩

end ForexAi
