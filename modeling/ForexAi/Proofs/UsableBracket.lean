/-
When a paper decision has a bracket that can be used.

A bracket is usable when there is something to trade, the stop is where the trade loses and
the target where it wins.  Three things stand in the way, and none of them closes a gate.
An override admits zero, and a stop multiple that is not finite, and each leaves no units
(`units_pos_iff`); the units are rounded to six digits, so a small account at a large price
has none either; and the two prices are rounded to eight digits, so a distance that does not
clear the rounding (`Clears`) puts the stop or the target on the price.

What the gates do give is that the two caps are numbers: a cap that is `nan` closes the gate
of the exposure (`usedOk_finite`), as a target multiple that is `nan` closes the one of the
ratio, unless there is no stop distance.
-/
import ForexAi.Decisions.ResolvedRisk
import ForexAi.Proofs.Fusion

namespace ForexAi

open Extended

/-! ### The sides of a price

The prices of the bracket are rounded, and strictly on a side means strictly after rounding.
`Clears` is that for a distance, in both directions.
-/

/-- The side on which a trade loses. -/
def Direction.Losing (direction : Direction) (price : ℚ) (x : Extended ℚ) : Prop :=
  match direction with
  | .long => x < fin price
  | .short => fin price < x
  | .flat => False

/-- The side on which a trade wins. -/
def Direction.Winning (direction : Direction) (price : ℚ) (x : Extended ℚ) : Prop :=
  match direction with
  | .long => fin price < x
  | .short => x < fin price
  | .flat => False

/-- A bracket that can be used. -/
structure ResolvedSizing.Usable (s : ResolvedSizing) (direction : Direction) : Prop where
  units : fin 0 < s.positionSizeUnits
  stop : direction.Losing s.price s.stopLoss
  target : direction.Winning s.price s.takeProfit

/-- `x - distance` is below half a unit of the eighth digit above the largest number of eight
digits below `x`, or right there if that one is even: it rounds to something below `x`. -/
def Clears (x distance : ℚ) : Prop :=
  Rounding.RoundsBelow ((x - distance) * 10 ^ 8) (⌈x * 10 ^ 8⌉ - 1)

instance (x distance : ℚ) : Decidable (Clears x distance) := by
  unfold Clears
  infer_instance

theorem clears_iff (x distance : ℚ) :
    Rounding.roundTo 8 (x - distance) < x ↔ Clears x distance :=
  Rounding.roundTo_lt_iff 8 _ x

theorem clears_neg_iff (x distance : ℚ) :
    x < Rounding.roundTo 8 (x + distance) ↔ Clears (-x) distance := by
  rw [← clears_iff, show -x - distance = -(x + distance) from by ring, Rounding.roundTo_neg,
    neg_lt_neg_iff]

theorem losing_iff {direction : Direction} (hdir : direction ≠ .flat) (price distance : ℚ) :
    direction.Losing price (fin (Rounding.roundTo 8 (price - signOf direction * distance))) ↔
      Clears (signOf direction * price) distance := by
  cases direction with
  | long =>
      simp only [Direction.Losing, signOf, fin_lt_fin, Int.cast_one, one_mul]
      exact clears_iff price distance
  | short =>
      simp only [Direction.Losing, signOf, fin_lt_fin, Int.cast_neg, Int.cast_one, neg_one_mul,
        sub_neg_eq_add]
      exact clears_neg_iff price distance
  | flat => exact absurd rfl hdir

theorem winning_iff {direction : Direction} (hdir : direction ≠ .flat) (price distance : ℚ) :
    direction.Winning price (fin (Rounding.roundTo 8 (price + signOf direction * distance))) ↔
      Clears (-(signOf direction * price)) distance := by
  cases direction with
  | long =>
      simp only [Direction.Winning, signOf, fin_lt_fin, Int.cast_one, one_mul]
      exact clears_neg_iff price distance
  | short =>
      simp only [Direction.Winning, signOf, fin_lt_fin, Int.cast_neg, Int.cast_one, neg_one_mul,
        ← sub_eq_add_neg, neg_neg]
      exact clears_iff price distance
  | flat => exact absurd rfl hdir

/-! ### What the gates give

A comparison with `nan` is false, so an open gate is a comparison of numbers.  That is where
the finiteness of what was computed comes from, and not from the settings.
-/

variable {params : ResolvedParams} {atr price : ℚ}

/-- A share that is compared has a value: what is below zero or above one is not admitted, and
`nan` does not compare. -/
theorem shares_finite {parseFloat : String → Option (Extended ℚ)} {settings : RiskParams}
    (hparams : Produced parseFloat settings params) {k : RiskKnob}
    (hbounds : k.bounds = (0, some 1))
    (hnan : params.knob k ≠ nan) : ∃ share, params.knob k = fin share := by
  rcases hparams.knob_cases k with heq | hin
  · exact ⟨_, heq⟩
  · unfold RiskKnob.outOfBounds at hin
    rw [hbounds] at hin
    cases hx : params.knob k with
    | fin share => exact ⟨share, rfl⟩
    | inf negative =>
        rw [hx] at hin
        cases negative with
        | false => exact absurd hin (by decide)
        | true => exact absurd hin (by decide)
    | nan => exact absurd hx hnan

/-- An open gate on a used share compares two numbers. -/
theorem usedOk_comparable {used : ℚ} {cap : RiskKnob} (h : params.usedOk used cap = true) :
    params.knob .maxRiskPctAccount ≠ nan ∧ params.knob cap ≠ nan := by
  have hle : fin used + params.knob .maxRiskPctAccount ≤ params.knob cap := of_decide_eq_true h
  refine ⟨fun hnan => ?_, fun hnan => ?_⟩
  · rw [hnan, fin_add_nan] at hle
    exact not_nan_le _ hle
  · rw [hnan] at hle
    exact not_le_nan _ hle

/-- More than half a unit of the sixth digit, by a money amount over a distance. -/
theorem half_unit_lt_iff {money distance : ℚ} (hpos : 0 < distance) :
    1 / 2 / 10 ^ 6 < money / distance ↔ distance < 2 * 10 ^ 6 * money := by
  rw [lt_div_iff₀ hpos]
  constructor
  · intro h
    linarith
  · intro h
    linarith

/-- The units the risk allows: the risked money over the stop distance where that is finite and
positive, else none. -/
theorem unitsByRisk_cases {risk : ℚ} (hrisk : params.knob .maxRiskPctAccount = fin risk)
    (hatr : 0 < atr) :
    (∃ multiple, params.knob .slAtrMultiple = fin multiple ∧ 0 < multiple ∧
        params.unitsByRisk atr = fin (params.paperEquity * risk / (multiple * atr))) ∨
      ((∀ multiple, params.knob .slAtrMultiple = fin multiple → ¬ 0 < multiple) ∧
        params.unitsByRisk atr = fin 0) := by
  unfold ResolvedParams.unitsByRisk
  cases hsl : params.knob .slAtrMultiple with
  | fin multiple =>
      by_cases hmultiple : 0 < multiple
      · refine Or.inl ⟨multiple, rfl, hmultiple, ?_⟩
        simp only [hrisk, fin_mul_fin, fin_lt_fin, if_pos (mul_pos hmultiple hatr), fin_div_fin]
      · have hdistance : ¬ 0 < multiple * atr := fun hpos =>
          hmultiple (pos_of_mul_pos_left hpos hatr.le)
        refine Or.inr ⟨fun other heq => ?_, ?_⟩
        · rwa [← Extended.fin.inj heq]
        · simp only [fin_mul_fin, fin_lt_fin, if_neg hdistance]
  | inf negative =>
      refine Or.inr ⟨fun other heq => absurd heq (by simp), ?_⟩
      simp only [hrisk, inf_mul_fin hatr, fin_mul_fin, fin_div_inf, ite_self]
  | nan =>
      refine Or.inr ⟨fun other heq => absurd heq (by simp), ?_⟩
      simp only [nan_mul, not_lt_nan, if_false]

theorem size_pos_iff {exposure units : ℚ} (hexposure : params.knob .maxExposurePct = fin exposure)
    (hprice : 0 < price) (hunits : params.unitsByRisk atr = fin units) (direction : Direction) :
    fin 0 < (params.computeSizing price atr direction).positionSizeUnits ↔
      1 / 2 / 10 ^ 6 < units ∧ price < 2 * 10 ^ 6 * (params.paperEquity * exposure) := by
  have hcap : params.unitsByExposure price = fin (params.paperEquity * exposure / price) := by
    unfold ResolvedParams.unitsByExposure
    rw [if_pos hprice, hexposure, fin_mul_fin, fin_div_fin]
  show fin 0 < roundTo 6 (least (params.unitsByRisk atr) (params.unitsByExposure price)) ↔ _
  rw [hunits, hcap, least_fin, roundTo_fin, fin_lt_fin, ← not_le, Rounding.roundTo_nonpos_iff,
    not_le, lt_min_iff, half_unit_lt_iff hprice]

/-- **When there is something to trade**: a finite stop distance, and more than half a unit of
the sixth digit by each of the two caps. -/
theorem units_pos_iff {risk exposure : ℚ} (hrisk : params.knob .maxRiskPctAccount = fin risk)
    (hexposure : params.knob .maxExposurePct = fin exposure) (hatr : 0 < atr) (hprice : 0 < price)
    (direction : Direction) :
    fin 0 < (params.computeSizing price atr direction).positionSizeUnits ↔
      (∃ multiple, params.knob .slAtrMultiple = fin multiple ∧ 0 < multiple ∧
        multiple * atr < 2 * 10 ^ 6 * (params.paperEquity * risk)) ∧
      price < 2 * 10 ^ 6 * (params.paperEquity * exposure) := by
  rcases unitsByRisk_cases hrisk hatr with ⟨multiple, hsl, hmultiple, hunits⟩ | ⟨hnone, hunits⟩
  · rw [size_pos_iff hexposure hprice hunits, half_unit_lt_iff (mul_pos hmultiple hatr)]
    refine and_congr_left fun _ => ⟨fun h => ⟨multiple, hsl, hmultiple, h⟩, ?_⟩
    rintro ⟨other, heq, -, h⟩
    rwa [Extended.fin.inj (hsl.symm.trans heq)]
  · rw [size_pos_iff hexposure hprice hunits]
    refine iff_of_false (fun h => absurd h.1 (by norm_num)) ?_
    rintro ⟨⟨multiple, hsl, hpos, -⟩, -⟩
    exact hnone multiple hsl hpos

theorem stop_iff {direction : Direction} (hdir : direction ≠ .flat) {multiple : ℚ}
    (hsl : params.knob .slAtrMultiple = fin multiple) :
    direction.Losing price (params.computeSizing price atr direction).stopLoss ↔
      Clears (signOf direction * price) (multiple * atr) := by
  show direction.Losing price
    (roundTo 8 (fin price - fin (signOf direction : ℚ) * (params.knob .slAtrMultiple * fin atr))) ↔
      _
  rw [hsl, fin_mul_fin, fin_mul_fin, fin_sub_fin, roundTo_fin]
  exact losing_iff hdir price (multiple * atr)

/-- With a stop distance and the gate of the ratio open, the target is on its side unless it is
rounded away. -/
theorem target_iff {direction : Direction} (hdir : direction ≠ .flat) {multiple : ℚ}
    (hsl : params.knob .slAtrMultiple = fin multiple) (hmultiple : 0 < multiple) (hatr : 0 < atr)
    (hratio : params.knob .minRr ≤ (params.computeSizing price atr direction).rrRatio) :
    direction.Winning price (params.computeSizing price atr direction).takeProfit ↔
      params.knob .tpAtrMultiple = inf false ∨ ∃ target, params.knob .tpAtrMultiple = fin target ∧
        Clears (-(signOf direction * price)) (target * atr) := by
  show direction.Winning price
    (roundTo 8 (fin price + fin (signOf direction : ℚ) * (params.knob .tpAtrMultiple * fin atr))) ↔
      _
  cases htp : params.knob .tpAtrMultiple with
  | fin target =>
      simp only [fin_mul_fin, fin_add_fin, roundTo_fin]
      rw [winning_iff hdir]
      constructor
      · exact fun h => Or.inr ⟨target, rfl, h⟩
      · rintro (heq | ⟨_, heq, h⟩)
        · exact absurd heq (by simp)
        · rwa [← Extended.fin.inj heq] at h
  | inf negative =>
      rw [inf_mul_fin hatr]
      have hside : direction.Winning price
          (roundTo 8 (fin price + fin (signOf direction : ℚ) * inf negative)) ↔
            negative = false := by
        cases direction with
        | long =>
            rw [fin_mul_inf (by norm_num [signOf]), fin_add_inf, roundTo_inf]
            exact fin_lt_inf price negative
        | short =>
            rw [neg_mul_inf (by norm_num [signOf]), fin_add_inf, roundTo_inf]
            exact (inf_lt_fin price (!negative)).trans (by simp)
        | flat => exact absurd rfl hdir
      rw [hside]
      simp
  | nan =>
      have hnone : (params.computeSizing price atr direction).rrRatio = nan := by
        unfold ResolvedParams.computeSizing
        simp only [hsl, htp, fin_mul_fin, fin_lt_fin, mul_pos hmultiple hatr, if_true, nan_mul,
          nan_div, roundTo_nan]
      rw [hnone] at hratio
      exact absurd hratio (not_le_nan _)

/-! ### The decision

A decision on paper has passed the size and all the gates; what they left open is in
`ResolvedParams.Brackets`.
-/

/-- A paper decision is on a candidate that was sized and whose gates are open. -/
theorem decideResolved_paper {inputs : DecisionInputs} {orch : OrchParams} {fused : FusedResult}
    (h : (decideResolved inputs orch params fused).status = some .paper) :
    fused.direction ≠ .flat ∧ ∃ atr price, inputs.atr = some atr ∧ inputs.price = some price ∧
      0 < atr ∧ 0 < price ∧
      (decideResolved inputs orch params fused).risk.bind (·.sizing)
        = some (params.computeSizing price atr fused.direction) ∧
      params.knob .minRr ≤ (params.computeSizing price atr fused.direction).rrRatio ∧
      params.usedOk inputs.gate.exposureUsedPct .maxExposurePct = true := by
  unfold decideResolved at h ⊢
  by_cases hvotes : fused.hasVotes = false
  · rw [if_pos hvotes] at h
    exact absurd h (by simp)
  rw [if_neg hvotes] at h ⊢
  by_cases hcoverage : inputs.coverage < orch.coverageMin
  · rw [if_pos hcoverage] at h
    exact absurd h (by simp)
  rw [if_neg hcoverage] at h ⊢
  by_cases hflat : fused.direction = .flat
  · rw [if_pos hflat] at h
    exact absurd h (by simp)
  rw [if_neg hflat] at h ⊢
  refine ⟨hflat, ?_⟩
  simp only at h ⊢
  split at h
  · exact absurd h (by simp)
  · rename_i hpromotable
    rw [if_neg hpromotable]
    split at h
    · rename_i hpaper
      rw [if_pos hpaper]
      have hpassed := (Bool.and_eq_true _ _ ▸ hpaper).1
      unfold ResolvedParams.assess at hpassed ⊢
      rw [if_neg hflat] at hpassed ⊢
      cases hs : (⟨inputs.atr, inputs.price⟩ : RiskDeps).sizable with
      | none =>
          rw [hs] at hpassed
          exact absurd hpassed Bool.false_ne_true
      | some pair =>
          rw [hs] at hpassed
          obtain ⟨atr, price⟩ := pair
          obtain ⟨hatr, hprice, hatrpos, hpricepos⟩ := sizable_some hs
          have hgates := List.all_eq_true.mp hpassed
          exact ⟨atr, price, hatr, hprice, hatrpos, hpricepos, rfl,
            of_decide_eq_true (hgates _ (List.mem_cons_self ..)),
            hgates _ (List.mem_cons_of_mem _ (List.mem_cons_self ..))⟩
    · split at h <;> exact absurd h (by simp)

/-- Where the bracket of a paper decision can be used. -/
structure ResolvedParams.Brackets (params : ResolvedParams) (price atr : ℚ)
    (direction : Direction) : Prop where
  /-- the stop distance is finite, clears the rounding, and leaves units of the money at risk -/
  stop : ∃ multiple share, params.knob .slAtrMultiple = fin multiple ∧
    params.knob .maxRiskPctAccount = fin share ∧ 0 < multiple ∧
    multiple * atr < 2 * 10 ^ 6 * (params.paperEquity * share) ∧
    Clears (signOf direction * price) (multiple * atr)
  /-- the price leaves units of the exposure cap -/
  exposure : ∃ share, params.knob .maxExposurePct = fin share ∧
    price < 2 * 10 ^ 6 * (params.paperEquity * share)
  /-- the target distance is infinite, or clears the rounding -/
  target : params.knob .tpAtrMultiple = inf false ∨
    ∃ multiple, params.knob .tpAtrMultiple = fin multiple ∧
      Clears (-(signOf direction * price)) (multiple * atr)

/-- **When a paper decision has a usable bracket**, under any overrides. -/
theorem usable_bracket_iff {parseFloat : String → Option (Extended ℚ)} {settings : RiskParams}
    (hparams : Produced parseFloat settings params) {inputs : DecisionInputs} {orch : OrchParams}
    {decision : ResolvedDecision}
    (hdecided : computeDecisionResolved inputs orch params = some decision)
    (hpaper : decision.status = some .paper) (hatr : inputs.atr = some atr)
    (hprice : inputs.price = some price) :
    (∃ sizing, decision.risk.bind (·.sizing) = some sizing ∧
        sizing.Usable decision.fused.direction) ↔
      params.Brackets price atr decision.fused.direction := by
  obtain ⟨votes, -, rfl⟩ := Option.map_eq_some_iff.mp hdecided
  generalize applyContext votes inputs.parentContext = fused at hpaper ⊢
  obtain ⟨hdir, atr', price', hatr', hprice', hatrpos, hpricepos, hsizing, hratio, hexposed⟩ :=
    decideResolved_paper hpaper
  obtain rfl := Option.some.inj (hatr.symm.trans hatr')
  obtain rfl := Option.some.inj (hprice.symm.trans hprice')
  rw [hsizing, decideResolved_fused]
  obtain ⟨risk, hrisk⟩ := shares_finite hparams rfl (usedOk_comparable hexposed).1
  obtain ⟨exposure, hexposure⟩ := shares_finite hparams rfl (usedOk_comparable hexposed).2
  have hunits := units_pos_iff hrisk hexposure hatrpos hpricepos fused.direction
  constructor
  · rintro ⟨_, heq, husable⟩
    obtain rfl := Option.some.inj heq
    obtain ⟨⟨multiple, hsl, hmultiple, hsmall⟩, hcheap⟩ := hunits.mp husable.units
    exact ⟨⟨multiple, risk, hsl, hrisk, hmultiple, hsmall, (stop_iff hdir hsl).mp husable.stop⟩,
      ⟨exposure, hexposure, hcheap⟩,
      (target_iff hdir hsl hmultiple hatrpos hratio).mp husable.target⟩
  · rintro ⟨⟨multiple, share, hsl, hshare, hmultiple, hsmall, hclears⟩, ⟨cap, hcap, hcheap⟩,
      htarget⟩
    obtain rfl := Extended.fin.inj (hrisk.symm.trans hshare)
    obtain rfl := Extended.fin.inj (hexposure.symm.trans hcap)
    exact ⟨_, rfl, ⟨hunits.mpr ⟨⟨multiple, hsl, hmultiple, hsmall⟩, hcheap⟩,
      (stop_iff hdir hsl).mpr hclears,
      (target_iff hdir hsl hmultiple hatrpos hratio).mpr htarget⟩⟩

/-! ### An override of zero -/

/-- Four agents that agree. -/
def agreed : DecisionInputs where
  symbol := .eurusd
  timeframe := .H1
  bucketTs := 0
  now := 0
  signals := hourlySignals fun _ => (.long, 1 / 2)
  regime := "unknown"
  atr := some (1 / 1000)
  price := some (11 / 10)
  coverage := 1
  gate := {}
  parentContext := none

/-- `{"max_risk_pct_account": 0}`. -/
def noRiskOverride : SettingValue :=
  .dict fun key => if key = "max_risk_pct_account" then some (.int 0) else none

/-- A paper decision without units. -/
theorem noRisk_unusable : ¬ ∀ (parseFloat : String → Option (Extended ℚ)) (settings : RiskParams)
    (params : ResolvedParams) (inputs : DecisionInputs) (orch : OrchParams)
    (decision : ResolvedDecision) (price atr : ℚ), Produced parseFloat settings params →
      inputs.price = some price → inputs.atr = some atr → 0 < price → 0 < atr →
      computeDecisionResolved inputs orch params = some decision →
      decision.status = some .paper →
      ∃ sizing, decision.risk.bind (·.sizing) = some sizing ∧
        sizing.Usable decision.fused.direction := by
  intro h
  have hloaded : (loadRiskParams (fun _ => none) .default (some noRiskOverride)).isSome = true := by
    decide +kernel
  obtain ⟨params, hparams⟩ := Option.isSome_iff_exists.mp hloaded
  have hdecided : ((loadRiskParams (fun _ => none) .default (some noRiskOverride)).bind
      (computeDecisionResolved agreed {})).map (fun d =>
        (d.status, (d.risk.bind (·.sizing)).map (·.positionSizeUnits)))
      = some (some .paper, some (fin 0)) := by
    decide +kernel
  rw [hparams, Option.bind_some] at hdecided
  obtain ⟨decision, hdecision, hfields⟩ := Option.map_eq_some_iff.mp hdecided
  obtain ⟨hpaper, hunits⟩ := Prod.mk.inj hfields
  obtain ⟨sizing, hsizing, husable⟩ := h (fun _ => none) .default params agreed {} decision
    (11 / 10) (1 / 1000) (Or.inl ⟨some noRiskOverride, hparams⟩) rfl rfl (by norm_num)
    (by norm_num) hdecision hpaper
  rw [hsizing] at hunits
  have hzero : sizing.positionSizeUnits = fin 0 := Option.some.inj hunits
  have hpos := husable.units
  rw [hzero] at hpos
  exact absurd hpos (by decide +kernel)

/-- Without an override the bracket can be used. -/
theorem agreed_usable : ∃ decision,
    computeDecisionResolved agreed {} RiskParams.default.resolved = some decision ∧
      decision.status = some .paper ∧ ∃ sizing, decision.risk.bind (·.sizing) = some sizing ∧
        sizing.Usable decision.fused.direction := by
  have hdecided : (computeDecisionResolved agreed {} RiskParams.default.resolved).map (fun d =>
      (d.status, d.fused.direction)) = some (some .paper, .long) := by
    decide +kernel
  obtain ⟨decision, hdecision, hfields⟩ := Option.map_eq_some_iff.mp hdecided
  obtain ⟨hpaper, hlong⟩ := Prod.mk.inj hfields
  have hparams : Produced (fun _ => none) .default RiskParams.default.resolved :=
    Or.inl ⟨none, rfl⟩
  refine ⟨decision, hdecision, hpaper, (usable_bracket_iff hparams hdecision hpaper rfl rfl).mpr ?_⟩
  rw [hlong]
  exact ⟨⟨3 / 2, 1 / 100, rfl, rfl, by norm_num, by decide +kernel, by decide +kernel⟩,
    ⟨3 / 10, rfl, by decide +kernel⟩, Or.inr ⟨5 / 2, rfl, by decide +kernel⟩⟩

end ForexAi
