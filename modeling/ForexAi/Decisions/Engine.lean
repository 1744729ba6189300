/-
The decision engine: fuse, gate, decide.

`computeDecision` is the pure transformation from a snapshot of inputs to an
outcome.  Around it are the stored signals and what the live path reads of them:
`resolveAtrPrice` takes the ATR from the latest technical row.
-/
import ForexAi.Decisions.Risk
import ForexAi.Lib.Newest

namespace ForexAi

open Rounding

/-- Orchestrator tuning. -/
structure OrchParams where
  coverageMin : ℚ := 1 / 2
  agreementMin : ℚ := 1 / 2
  threshold : ℚ := 3 / 20
  hysteresis : ℚ := 1 / 25
  contextWeight : ℚ := 3 / 20
  cooldownSeconds : ℕ := 1800
  weights : List (String × Weights) := []

/-- All inputs a decision needs. -/
structure DecisionInputs where
  symbol : Symbol
  timeframe : Timeframe
  bucketTs : Time
  now : Time
  signals : Signals
  regime : String
  atr : Option ℚ
  price : Option ℚ
  coverage : ℚ
  gate : GateState
  parentContext : Option ContextInput

inductive DecisionAction where
  | skip | persist
  deriving DecidableEq, Repr

inductive SkipReason where
  | noVotes | insufficientCoverage | weakFlat
  deriving DecidableEq, Repr

inductive DecisionStatus where
  | analysis | paper | blocked
  deriving DecidableEq, Repr

/-- What a veto's reason is formatted from. -/
inductive VetoReason where
  /-- "agreement=…", to three digits -/
  | agreement (value : ℚ)
  | text (s : String)
  | gate (detail : GateDetail)
  deriving DecidableEq

structure DecisionOutcome where
  action : DecisionAction
  fused : FusedResult
  status : Option DecisionStatus := none
  risk : Option RiskOutcome := none
  coverage : ℚ := 0
  skipReason : Option SkipReason := none
  veto : Option (String × VetoReason) := none

/-- `AGENT_FAMILIES`. -/
def agentFamilies : List AgentId := [.technical, .regime, .fundamental, .sentiment]

/-- `_coverage`: the share of the families that have a signal. -/
def coverageOf (signals : Signals) : ℚ :=
  (agentFamilies.filter fun a => (signals a).isSome).length / agentFamilies.length

/-- The regime the regime agent's signal names. -/
def regimeOf (signals : Signals) : String :=
  match signals .regime with
  | none => "unknown"
  | some signal => ((signal.features.get "regime").map Feature.str).getD "unknown"

/-- `_first_failing`. -/
def firstFailing (key : GateKey) (outcome : RiskOutcome) : Option (String × VetoReason) :=
  match outcome.gate key with
  | some g => if g.ok then none else some (key.code, .gate g.detail)
  | none => none

/-- The veto of a blocked candidate. -/
def blockedVeto (outcome : RiskOutcome) : String × VetoReason :=
  (gateKeys.findSome? fun key => firstFailing key outcome).getD ("risk", .text "risk gate failed")

/-- The fusion parameters of an orchestrator. -/
def OrchParams.fusion (orch : OrchParams) : FusionParams where
  threshold := orch.threshold
  hysteresis := orch.hysteresis
  weights := if orch.weights.isEmpty then defaultWeights else orch.weights

/-- What is decided on a fused result. -/
def decideFused (inputs : DecisionInputs) (orch : OrchParams) (risk : RiskParams)
    (fused : FusedResult) : DecisionOutcome :=
  if fused.hasVotes = false then
    { action := .skip, fused, skipReason := some .noVotes }
  else if inputs.coverage < orch.coverageMin then
    { action := .skip, fused, coverage := inputs.coverage,
      skipReason := some .insufficientCoverage }
  else if fused.direction = .flat then
    { action := .skip, fused, coverage := inputs.coverage, skipReason := some .weakFlat }
  else
    let riskOutcome := assess fused.direction ⟨inputs.atr, inputs.price⟩ inputs.gate risk
    let promotable := decide (orch.agreementMin ≤ fused.agreement)
    let persist (status : DecisionStatus) (veto : Option (String × VetoReason)) :
        DecisionOutcome :=
      { action := .persist, fused, status := some status, risk := some riskOutcome,
        coverage := inputs.coverage, veto }
    if promotable = false then
      persist .analysis (some ("low_agreement", .agreement fused.agreement))
    else if riskOutcome.passed && riskOutcome.paper then persist .paper none
    else if riskOutcome.passed then
      persist .analysis (some ("risk_disabled", .text "risk gate disabled"))
    else persist .blocked (some (blockedVeto riskOutcome))

/-- `compute_decision`; `none` is `fuse`'s `KeyError`. -/
def computeDecision (inputs : DecisionInputs) (orch : OrchParams) (risk : RiskParams) :
    Option DecisionOutcome :=
  (fuse inputs.signals inputs.regime orch.fusion).map fun fused =>
    decideFused inputs orch risk (applyContext fused inputs.parentContext)

/-- Without weights of its own an orchestrator always decides. -/
theorem computeDecision_default (inputs : DecisionInputs) {orch : OrchParams}
    (h : orch.weights = []) (risk : RiskParams) :
    (computeDecision inputs orch risk).isSome = true := by
  unfold computeDecision
  rw [Option.isSome_map]
  refine fuse_default inputs.signals inputs.regime ?_
  unfold OrchParams.fusion
  rw [h]
  rfl

/-- The outcome is about the result that is decided on. -/
@[simp] theorem decideFused_fused (inputs : DecisionInputs) (orch : OrchParams) (risk : RiskParams)
    (fused : FusedResult) : (decideFused inputs orch risk fused).fused = fused := by
  unfold decideFused
  simp only
  split_ifs <;> rfl

/-- A decision with votes, coverage and a direction persists, whatever the gates say. -/
theorem decideFused_persists {inputs : DecisionInputs} {orch : OrchParams} (risk : RiskParams)
    {fused : FusedResult} (hvotes : fused.hasVotes = true)
    (hcoverage : orch.coverageMin ≤ inputs.coverage) (hdirection : fused.direction ≠ .flat) :
    (decideFused inputs orch risk fused).action = .persist ∧
      (decideFused inputs orch risk fused).fused = fused := by
  unfold decideFused
  rw [if_neg (by simp [hvotes]), if_neg (not_lt.mpr hcoverage), if_neg hdirection]
  simp only
  by_cases hpromotable : decide (orch.agreementMin ≤ fused.agreement) = false
  · rw [if_pos hpromotable]
    exact ⟨rfl, rfl⟩
  · rw [if_neg hpromotable]
    split
    · exact ⟨rfl, rfl⟩
    · split <;> exact ⟨rfl, rfl⟩

/-! ### Stored signals -/

/-- The stored form of a signal. -/
def AgentSignal.toRow (s : AgentSignal) : AgentSignal :=
  { s with confidence := roundTo 4 s.confidence }

/-- The identity of a stored signal. -/
def AgentSignal.SameIdentity (a b : AgentSignal) : Prop :=
  a.agentId = b.agentId ∧ a.symbol = b.symbol ∧ a.timeframe = b.timeframe ∧
    a.bucketTs = b.bucketTs

instance : DecidableRel AgentSignal.SameIdentity := fun a b => by
  unfold AgentSignal.SameIdentity
  infer_instance

/-- `save_signals` of one signal: the first writer of an identity wins. -/
def saveSignal (rows : List AgentSignal) (s : AgentSignal) : List AgentSignal :=
  if rows.any fun r => decide (r.SameIdentity s.toRow) then rows else rows ++ [s.toRow]

/-- The newest of the rows, the later one on a tie. -/
def newestSignal (rows : List AgentSignal) : Option AgentSignal :=
  rows.foldl (fun best row =>
    match best with
    | none => some row
    | some b => if b.createdAt ≤ row.createdAt then some row else some b) none

/-- `load_latest_per_agent`; with a `now`, the fresh ones only. -/
def loadLatestPerAgent (rows : List AgentSignal) (symbol : Symbol) (timeframe : Timeframe)
    (now : Option Time) : Signals := fun agent =>
  (newestSignal (rows.filter fun r =>
    decide (r.symbol = symbol ∧ r.timeframe = timeframe ∧ r.agentId = agent))).filter fun r =>
      now.all fun t => decide (t ≤ r.validUntil)

/-- `_resolve_atr_price`: the ATR of the latest technical row, the latest stored close. -/
def resolveAtrPrice (rows : List AgentSignal) (candles : Series) (symbol : Symbol)
    (timeframe : Timeframe) (bucketTs : Time) : Option ℚ × Option ℚ :=
  ((loadLatestPerAgent rows symbol timeframe none .technical).bind fun signal =>
      signal.features.getNumber "atr14",
    ((candles.rows.filter fun c => decide (c.ts ≤ bucketTs)).getLast?).map (·.close))

theorem newestSignal_eq (rows : List AgentSignal) :
    newestSignal rows
      = Newest.pick (fun a b : AgentSignal => a.createdAt ≤ b.createdAt) rows := by
  unfold newestSignal Newest.pick
  congr 1
  funext best row
  cases best <;> rfl

theorem newestSignal_concat (rows : List AgentSignal) (s : AgentSignal)
    (h : ∀ r ∈ rows, r.createdAt ≤ s.createdAt) : newestSignal (rows ++ [s]) = some s := by
  rw [newestSignal_eq, Newest.pick_le_iff]
  exact ⟨rows, [], rfl, h, by simp⟩

/-- A signal with an identity of its own that is not older than any stored one is the latest
row once it is saved. -/
theorem loadLatest_saveSignal {rows : List AgentSignal} {s : AgentSignal}
    (hnew : ∀ r ∈ rows, ¬ r.SameIdentity s.toRow) (hlate : ∀ r ∈ rows, r.createdAt ≤ s.createdAt) :
    loadLatestPerAgent (saveSignal rows s) s.symbol s.timeframe none s.agentId
      = some s.toRow := by
  have hsave : saveSignal rows s = rows ++ [s.toRow] := by
    unfold saveSignal
    rw [if_neg]
    rw [List.any_eq_true]
    rintro ⟨r, hr, hsame⟩
    exact hnew r hr (by simpa using hsame)
  unfold loadLatestPerAgent
  rw [hsave, List.filter_append,
    List.filter_cons_of_pos (by simp [AgentSignal.toRow]), List.filter_nil,
    newestSignal_concat _ s.toRow fun r hr => hlate r (List.mem_filter.mp hr).1]
  rfl

end ForexAi
