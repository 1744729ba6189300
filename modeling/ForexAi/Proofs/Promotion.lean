/-
Promotion is fail-closed and complete.

A decision is a paper trade exactly when nothing stands against it (`Promotes`): there are
votes, coverage and a direction, enough agreement, an ATR and a price that are positive, five
open gates, and the master switch is on.  The branches of `decideFused` are the reasons one by
one, so the equivalence goes through one equivalence a call: the gates (`sizedGates_all`), the
risk pass (`assess_passed_iff`), the decision (`decideFused_paper_iff`).

A blocked decision names its reason.  That rests on the gates' keys being `gateKeys` and
nothing else (`find_gate`): whatever gate failed, the look-up by key finds it, so the fallback
text of the veto is never used.
-/
import ForexAi.Decisions.Engine
import Mathlib.Data.List.Basic

namespace ForexAi

/-! ### The gates

Each gate compares two figures of the sizing and the account.  Open gates are written out as
one statement on these, with the comparisons the code makes.
-/

/-- The five gates on a candidate, written out. -/
structure GatesOpen (sizing : SizingResult) (gate : GateState) (params : RiskParams) : Prop where
  rr : params.minRr ≤ sizing.rrRatio
  exposure : gate.exposureUsedPct + params.maxRiskPctAccount ≤ params.maxExposurePct
  correlation : gate.correlationTriggered = true →
    gate.correlationUsedPct + params.maxRiskPctAccount ≤ params.correlationCapPct
  dailyLoss : gate.dailyLossUsedPct + params.maxRiskPctAccount ≤ params.maxDailyLossPct
  drawdown : gate.drawdownUsedPct + params.maxRiskPctAccount ≤ params.maxDrawdownPct

theorem sizedGates_all {sizing : SizingResult} {gate : GateState} {params : RiskParams} :
    (sizedGates sizing gate params).all (·.ok) = true ↔ GatesOpen sizing gate params := by
  unfold sizedGates usedGate
  simp only [List.all_cons, List.all_nil, Bool.and_true, Bool.and_eq_true, Bool.or_eq_true,
    Bool.not_eq_true', decide_eq_true_eq]
  constructor
  · rintro ⟨hrr, hexposure, hcorrelation, hdaily, hdrawdown⟩
    refine ⟨hrr, hexposure, fun htriggered => ?_, hdaily, hdrawdown⟩
    rcases hcorrelation with hfree | hcap
    · rw [hfree] at htriggered
      exact absurd htriggered Bool.false_ne_true
    · exact hcap
  · rintro ⟨hrr, hexposure, hcorrelation, hdaily, hdrawdown⟩
    refine ⟨hrr, hexposure, ?_, hdaily, hdrawdown⟩
    cases htriggered : gate.correlationTriggered with
    | false => exact Or.inl rfl
    | true => exact Or.inr (hcorrelation htriggered)

/-- What has to be there for the gates to be open: a positive ATR and price, and the gates. -/
def SizedOpen (direction : Direction) (deps : RiskDeps) (gate : GateState) (params : RiskParams) :
    Prop :=
  ∃ atr price, deps.atr = some atr ∧ deps.price = some price ∧ 0 < atr ∧ 0 < price ∧
    GatesOpen (computeSizing price atr direction params) gate params

/-- The risk pass of a direction: it can be sized and every gate is open. -/
theorem assess_passed_iff {direction : Direction} (hdir : direction ≠ .flat) {deps : RiskDeps}
    {gate : GateState} {params : RiskParams} :
    (assess direction deps gate params).passed = true ↔ SizedOpen direction deps gate params := by
  unfold assess
  rw [if_neg hdir]
  cases hs : deps.sizable with
  | none =>
      refine iff_of_false Bool.false_ne_true ?_
      rintro ⟨atr, price, hatr, hprice, hatrpos, hpricepos, -⟩
      rw [sizable_of_pos hatr hprice hatrpos hpricepos] at hs
      exact absurd hs (by simp)
  | some pair =>
      obtain ⟨atr, price⟩ := pair
      obtain ⟨hatr, hprice, hatrpos, hpricepos⟩ := sizable_some hs
      refine sizedGates_all.trans ⟨fun hopen => ⟨atr, price, hatr, hprice, hatrpos, hpricepos,
        hopen⟩, ?_⟩
      rintro ⟨atr', price', hatr', hprice', -, -, hopen⟩
      rw [hatr] at hatr'
      rw [hprice] at hprice'
      obtain rfl := Option.some.inj hatr'
      obtain rfl := Option.some.inj hprice'
      exact hopen

theorem assess_paper (direction : Direction) (deps : RiskDeps) (gate : GateState)
    (params : RiskParams) (hdir : direction ≠ .flat) :
    (assess direction deps gate params).paper
      = ((assess direction deps gate params).passed && params.riskEnabled) := by
  unfold assess
  rw [if_neg hdir]
  cases deps.sizable with
  | none => rfl
  | some pair => rfl

theorem assess_sized {direction : Direction} (hdir : direction ≠ .flat) {deps : RiskDeps}
    {gate : GateState} {params : RiskParams}
    (hpassed : (assess direction deps gate params).passed = true) :
    (assess direction deps gate params).sizing.isSome = true := by
  rcases assess_cases hdir deps gate params with ⟨-, hfailed, -⟩ | ⟨atr, price, -, hsizing, -⟩
  · rw [hfailed] at hpassed
    exact absurd hpassed Bool.false_ne_true
  · rw [hsizing]
    rfl

/-! ### The failing gate

The veto is looked up by the key of the first gate that failed.  The keys are fixed and
different, so the look-up can not miss.
-/

/-- With the keys in order, the look-up by key finds every gate. -/
theorem find_gate {outcome : RiskOutcome} (hkeys : outcome.gates.map (·.key) = gateKeys)
    {g : GateReason} (hg : g ∈ outcome.gates) : outcome.gate g.key = some g := by
  have hnodup : (outcome.gates.map (·.key)).Nodup := by
    rw [hkeys]
    decide
  obtain ⟨found, hfound⟩ : ∃ found, outcome.gate g.key = some found := by
    refine Option.isSome_iff_exists.mp ?_
    unfold RiskOutcome.gate
    rw [List.find?_isSome]
    exact ⟨g, hg, by simp⟩
  have hmem := List.mem_of_find?_eq_some hfound
  have hkey : found.key = g.key := by simpa using List.find?_some hfound
  rw [hfound, List.inj_on_of_nodup_map hnodup hmem hg hkey]

theorem assess_failing {direction : Direction} (hdir : direction ≠ .flat) {deps : RiskDeps}
    {gate : GateState} {params : RiskParams}
    (hfailed : (assess direction deps gate params).passed = false) :
    ∃ key ∈ gateKeys, ∃ g, (assess direction deps gate params).gate key = some g ∧
      g.ok = false := by
  unfold assess at hfailed ⊢
  rw [if_neg hdir] at hfailed ⊢
  cases hs : deps.sizable with
  | none => exact ⟨.rr, by decide, ⟨.rr, false, .cannotSize⟩, rfl, rfl⟩
  | some pair =>
      rw [hs] at hfailed
      have hclosed : (sizedGates (computeSizing pair.2 pair.1 direction params) gate params).all
          (·.ok) = false := hfailed
      obtain ⟨g, hg, hok⟩ := List.all_eq_false.mp hclosed
      have hkey : g.key ∈ gateKeys := List.mem_map.mpr ⟨g, hg, rfl⟩
      exact ⟨g.key, hkey, g, find_gate rfl hg, by simpa using hok⟩

/-- The veto is the first of the failing gates. -/
theorem blockedVeto_names {outcome : RiskOutcome}
    (h : ∃ key ∈ gateKeys, ∃ g, outcome.gate key = some g ∧ g.ok = false) :
    ∃ key ∈ gateKeys, ∃ g, outcome.gate key = some g ∧ g.ok = false ∧
      blockedVeto outcome = (key.code, .gate g.detail) := by
  have hfirst {key : GateKey} {veto : String × VetoReason}
      (hveto : firstFailing key outcome = some veto) :
      ∃ g, outcome.gate key = some g ∧ g.ok = false ∧ veto = (key.code, .gate g.detail) := by
    unfold firstFailing at hveto
    split at hveto
    · rename_i g hg
      split at hveto
      · exact absurd hveto (by simp)
      · rename_i hok
        exact ⟨g, hg, by simpa using hok, (Option.some.inj hveto).symm⟩
    · exact absurd hveto (by simp)
  obtain ⟨key, hkey, g, hg, hok⟩ := h
  have hfails : firstFailing key outcome = some (key.code, .gate g.detail) := by
    unfold firstFailing
    rw [hg]
    exact if_neg (by simp [hok])
  have hsome : (gateKeys.findSome? fun key => firstFailing key outcome).isSome = true :=
    List.findSome?_isSome_iff.mpr ⟨key, hkey, by rw [hfails]; rfl⟩
  obtain ⟨veto, hveto⟩ := Option.isSome_iff_exists.mp hsome
  obtain ⟨named, hnamed, hfound⟩ := List.exists_of_findSome?_eq_some hveto
  obtain ⟨g', hg', hok', heq⟩ := hfirst hfound
  refine ⟨named, hnamed, g', hg', hok', ?_⟩
  unfold blockedVeto
  rw [hveto]
  exact heq

/-! ### The decision -/

/-- Nothing stands against a paper trade. -/
structure Promotes (inputs : DecisionInputs) (orch : OrchParams) (risk : RiskParams)
    (fused : FusedResult) : Prop where
  votes : fused.hasVotes = true
  coverage : orch.coverageMin ≤ inputs.coverage
  direction : fused.direction ≠ .flat
  agreement : orch.agreementMin ≤ fused.agreement
  gates : SizedOpen fused.direction ⟨inputs.atr, inputs.price⟩ inputs.gate risk
  enabled : risk.riskEnabled = true

/-- What a persisted outcome carries. -/
structure Accounted (outcome : DecisionOutcome) : Prop where
  risk : outcome.action = .persist → outcome.risk.isSome = true
  sizing : outcome.status = some .paper → (outcome.risk.bind (·.sizing)).isSome = true
  veto : outcome.status = some .blocked → ∃ assessed, outcome.risk = some assessed ∧
    ∃ key ∈ gateKeys, ∃ g, assessed.gate key = some g ∧ g.ok = false ∧
      outcome.veto = some (key.code, .gate g.detail)

variable (inputs : DecisionInputs) (orch : OrchParams) (risk : RiskParams) (fused : FusedResult)

theorem decideFused_paper_iff :
    (decideFused inputs orch risk fused).status = some .paper ↔
      Promotes inputs orch risk fused := by
  unfold decideFused
  by_cases hvotes : fused.hasVotes = false
  · rw [if_pos hvotes]
    exact iff_of_false (by simp) fun h => by simp [h.votes] at hvotes
  rw [if_neg hvotes]
  by_cases hcoverage : inputs.coverage < orch.coverageMin
  · rw [if_pos hcoverage]
    exact iff_of_false (by simp) fun h => absurd hcoverage (not_lt.mpr h.coverage)
  rw [if_neg hcoverage]
  by_cases hflat : fused.direction = .flat
  · rw [if_pos hflat]
    exact iff_of_false (by simp) fun h => h.direction hflat
  rw [if_neg hflat]
  simp only
  by_cases hpromotable : orch.agreementMin ≤ fused.agreement
  · rw [if_neg (by simpa using hpromotable), assess_paper _ _ _ _ hflat]
    by_cases hpassed :
        (assess fused.direction ⟨inputs.atr, inputs.price⟩ inputs.gate risk).passed = true
    · rw [hpassed]
      by_cases henabled : risk.riskEnabled = true
      · rw [henabled]
        exact iff_of_true rfl ⟨by simpa using hvotes, not_lt.mp hcoverage, hflat, hpromotable,
          (assess_passed_iff hflat).mp hpassed, henabled⟩
      · rw [Bool.eq_false_of_not_eq_true henabled]
        exact iff_of_false (by simp) fun h => henabled h.enabled
    · rw [Bool.eq_false_of_not_eq_true hpassed]
      exact iff_of_false (by simp) fun h => hpassed ((assess_passed_iff hflat).mpr h.gates)
  · rw [if_pos (by simpa using hpromotable)]
    exact iff_of_false (by simp) fun h => hpromotable h.agreement

theorem decideFused_accounted : Accounted (decideFused inputs orch risk fused) := by
  unfold decideFused
  by_cases hvotes : fused.hasVotes = false
  · rw [if_pos hvotes]
    exact ⟨by simp, by simp, by simp⟩
  rw [if_neg hvotes]
  by_cases hcoverage : inputs.coverage < orch.coverageMin
  · rw [if_pos hcoverage]
    exact ⟨by simp, by simp, by simp⟩
  rw [if_neg hcoverage]
  by_cases hflat : fused.direction = .flat
  · rw [if_pos hflat]
    exact ⟨by simp, by simp, by simp⟩
  rw [if_neg hflat]
  simp only
  split
  · exact ⟨fun _ => rfl, by simp, by simp⟩
  · split
    · rename_i hpaper
      exact ⟨fun _ => rfl, fun _ => assess_sized hflat (Bool.and_eq_true _ _ ▸ hpaper).1, by simp⟩
    · split
      · exact ⟨fun _ => rfl, by simp, by simp⟩
      · rename_i hpassed
        refine ⟨fun _ => rfl, by simp, fun _ => ⟨_, rfl, ?_⟩⟩
        obtain ⟨key, hkey, g, hg, hok, hveto⟩ := blockedVeto_names
          (assess_failing hflat (Bool.eq_false_of_not_eq_true hpassed))
        exact ⟨key, hkey, g, hg, hok, by rw [hveto]⟩

/-- **Promotion is fail-closed and complete**, and every outcome accounts for itself. -/
theorem promotion :
    ((computeDecision inputs orch risk).bind (·.status) = some .paper ↔
      ∃ votes, fuse inputs.signals inputs.regime orch.fusion = some votes ∧
        Promotes inputs orch risk (applyContext votes inputs.parentContext)) ∧
    ∀ outcome ∈ computeDecision inputs orch risk, Accounted outcome := by
  unfold computeDecision
  cases fuse inputs.signals inputs.regime orch.fusion with
  | none => simp
  | some votes =>
      simp only [Option.map_some, Option.bind_some, Option.mem_def]
      refine ⟨(decideFused_paper_iff _ _ _ _).trans ?_, ?_⟩
      · constructor
        · exact fun h => ⟨votes, rfl, h⟩
        · rintro ⟨votes', heq, h⟩
          rw [Option.some.inj heq]
          exact h
      · rintro outcome houtcome
        rw [← Option.some.inj houtcome]
        exact decideFused_accounted _ _ _ _

end ForexAi
