/-
What a size risks, and what it says it risks.

The units are the smaller of two numbers: the money at risk over the stop distance, and the
exposure cap over the price.  Per unit of equity they are `unitShare`, and the exposure cap
holds whatever the price (`notional_le`).  What the stop costs is the share times the distance
of the stop as it stands after the rounding to eight digits (`stopGap`, `risked_eq`), so the
risk cap holds where that rounding does not take the stop further away, or where the exposure
cap leaves room for what it adds (`risked_le_iff`).

The reported risk is computed back from the notional, which has the price in it already, times
the stop distance: it is the share times the distance times the price (`reported_eq`).  A price
of one hides the factor where the stop is no longer than its eight digits, and so do a share of
nothing and the clamp at one.
-/
import ForexAi.Decisions.Risk
import Mathlib.Tactic.FieldSimp

namespace ForexAi

open Rounding

/-- `compute_sizing` with its roundings done by `round`. -/
def sizingWith (round : ℕ → ℚ → ℚ) (price atr : ℚ) (direction : Direction)
    (params : RiskParams) : SizingResult :=
  let s : ℚ := signOf direction
  let slDistance := params.slAtrMultiple * atr
  let tpDistance := params.tpAtrMultiple * atr
  let units := round 6 (min (params.unitsByRisk atr) (params.unitsByExposure price))
  let notional := units * price
  let riskPct :=
    if params.paperEquity = 0 then 0 else round 4 (notional * slDistance / params.paperEquity)
  { positionSizeUnits := units
    stopLoss := round 8 (price - s * slDistance)
    takeProfit := round 8 (price + s * tpDistance)
    rrRatio := if 0 < slDistance then round 4 (tpDistance / slDistance) else 0
    riskPctAccount := min riskPct 1
    atr
    price }

theorem sizingWith_roundTo : sizingWith roundTo = computeSizing := rfl

/-- `compute_sizing` before its roundings to four and to six digits; the stop and the target
keep theirs to eight. -/
def sizingExact : ℚ → ℚ → Direction → RiskParams → SizingResult :=
  sizingWith fun digits x => if digits = 8 then roundTo digits x else x

/-- The share of the equity lost when a position of this size is closed at its stop. -/
def SizingResult.risked (s : SizingResult) (equity : ℚ) : ℚ :=
  s.positionSizeUnits * |s.price - s.stopLoss| / equity

/-- The units per unit of equity: as many as the risk allows, or as the exposure cap does. -/
def RiskParams.unitShare (params : RiskParams) (price atr : ℚ) : ℚ :=
  min (params.maxRiskPctAccount / (params.slAtrMultiple * atr)) (params.maxExposurePct / price)

/-- How far the price is from the stop that `slDistance` asks for, in eight digits. -/
def stopGap (price slDistance : ℚ) (direction : Direction) : ℚ :=
  |price - roundTo 8 (price - signOf direction * slDistance)|

section Exact

variable {price atr : ℚ} {direction : Direction} {params : RiskParams}

/-- The units are the share of the equity. -/
theorem sizingExact_units (hprice : 0 < price) (hstop : 0 < params.slAtrMultiple * atr) :
    (sizingExact price atr direction params).positionSizeUnits
      = params.unitShare price atr * params.paperEquity := by
  show min (params.unitsByRisk atr) (params.unitsByExposure price) = _
  unfold RiskParams.unitsByRisk RiskParams.unitsByExposure RiskParams.unitShare
  simp only [if_pos hprice, if_pos hstop]
  rw [min_mul_of_nonneg _ _ params.paper_equity_pos.le, div_mul_eq_mul_div, div_mul_eq_mul_div,
    mul_comm params.paperEquity, mul_comm params.paperEquity]

/-- **What the stop costs.** -/
theorem risked_eq (hprice : 0 < price) (hstop : 0 < params.slAtrMultiple * atr) :
    (sizingExact price atr direction params).risked params.paperEquity
      = params.unitShare price atr * stopGap price (params.slAtrMultiple * atr) direction := by
  unfold SizingResult.risked
  rw [sizingExact_units hprice hstop, mul_right_comm,
    mul_div_cancel_right₀ _ params.paper_equity_pos.ne']
  rfl

/-- The notional stays under the exposure cap. -/
theorem notional_le (hprice : 0 < price) (hstop : 0 < params.slAtrMultiple * atr) :
    (sizingExact price atr direction params).positionSizeUnits * price
      ≤ params.maxExposurePct * params.paperEquity := by
  have hshare : params.unitShare price atr ≤ params.maxExposurePct / price := min_le_right _ _
  have hpos : 0 ≤ params.paperEquity * price := (mul_pos params.paper_equity_pos hprice).le
  calc (sizingExact price atr direction params).positionSizeUnits * price
      = params.unitShare price atr * (params.paperEquity * price) := by
        rw [sizingExact_units hprice hstop, mul_assoc]
    _ ≤ params.maxExposurePct / price * (params.paperEquity * price) :=
        mul_le_mul_of_nonneg_right hshare hpos
    _ = params.maxExposurePct * params.paperEquity := by
        field_simp

/-- **When the stop costs no more than the risk allowed**: it is no further away than it was
before its rounding, or the exposure cap leaves room. -/
theorem risked_le_iff (hprice : 0 < price) (hstop : 0 < params.slAtrMultiple * atr) {gap : ℚ}
    (hgap : 0 ≤ gap) :
    params.unitShare price atr * gap ≤ params.maxRiskPctAccount ↔
      params.maxRiskPctAccount * gap ≤ params.maxRiskPctAccount * (params.slAtrMultiple * atr) ∨
        params.maxExposurePct * gap ≤ params.maxRiskPctAccount * price := by
  unfold RiskParams.unitShare
  rw [min_mul_of_nonneg _ _ hgap, min_le_iff, div_mul_eq_mul_div, div_mul_eq_mul_div,
    div_le_iff₀ hstop, div_le_iff₀ hprice]

/-- **The reported risk has the price in it**, and is clamped at one. -/
theorem reported_eq (hprice : 0 < price) (hstop : 0 < params.slAtrMultiple * atr) :
    (sizingExact price atr direction params).riskPctAccount
      = min (params.unitShare price atr * (price * (params.slAtrMultiple * atr))) 1 := by
  have hequity := params.paper_equity_pos
  show min (if params.paperEquity = 0 then 0 else
    (sizingExact price atr direction params).positionSizeUnits * price
      * (params.slAtrMultiple * atr) / params.paperEquity) 1 = _
  rw [if_neg hequity.ne', sizingExact_units hprice hstop]
  congr 1
  field_simp

/-- Where a number clamped at one is another. -/
theorem min_one_eq_iff {x y : ℚ} : min x 1 = y ↔ (x = y ∧ y ≤ 1) ∨ (1 ≤ x ∧ y = 1) := by
  constructor
  · rintro rfl
    rcases le_total x 1 with hle | hle
    · exact Or.inl ⟨(min_eq_left hle).symm, min_le_right x 1⟩
    · exact Or.inr ⟨hle, min_eq_right hle⟩
  · rintro (⟨rfl, hle⟩ | ⟨hle, rfl⟩)
    · exact min_eq_left hle
    · exact min_eq_right hle

/-- **When sizing risks what it says.**  Where a position is taken at all, the rounding of the
stop has to respect the risk allowed, and the price times the stop distance has to be the
distance of the rounded stop, or the clamp has to hide that it is not. -/
theorem sizing_risk_iff (hprice : 0 < price) (hatr : 0 < atr)
    (hmultiple : 0 < params.slAtrMultiple) :
    let s := sizingExact price atr direction params
    let slDistance := params.slAtrMultiple * atr
    let gap := stopGap price slDistance direction
    let share := params.unitShare price atr
    (s.risked params.paperEquity ≤ params.maxRiskPctAccount ∧
      s.positionSizeUnits * price ≤ params.maxExposurePct * params.paperEquity ∧
      s.riskPctAccount = s.risked params.paperEquity) ↔
    share = 0 ∨
      (params.maxRiskPctAccount * gap ≤ params.maxRiskPctAccount * slDistance ∨
        params.maxExposurePct * gap ≤ params.maxRiskPctAccount * price) ∧
      ((price * slDistance = gap ∧ share * gap ≤ 1) ∨
        (1 ≤ share * (price * slDistance) ∧ share * gap = 1)) := by
  intro s slDistance gap share
  have hstop : 0 < slDistance := mul_pos hmultiple hatr
  have hrisked : s.risked params.paperEquity = share * gap := risked_eq hprice hstop
  have hreported : s.riskPctAccount = min (share * (price * slDistance)) 1 :=
    reported_eq hprice hstop
  have hcap : s.positionSizeUnits * price ≤ params.maxExposurePct * params.paperEquity :=
    notional_le hprice hstop
  have hgap : 0 ≤ gap := abs_nonneg _
  have hroom : share * gap ≤ params.maxRiskPctAccount ↔
      params.maxRiskPctAccount * gap ≤ params.maxRiskPctAccount * slDistance ∨
        params.maxExposurePct * gap ≤ params.maxRiskPctAccount * price :=
    risked_le_iff hprice hstop hgap
  rw [hrisked, hreported, hroom, min_one_eq_iff]
  constructor
  · rintro ⟨hle, -, hsame | hclamp⟩
    · rcases mul_eq_mul_left_iff.mp hsame.1 with hfactor | hzero
      · exact Or.inr ⟨hle, Or.inl ⟨hfactor, hsame.2⟩⟩
      · exact Or.inl hzero
    · exact Or.inr ⟨hle, Or.inr hclamp⟩
  · rintro (hzero | ⟨hle, hsame | hclamp⟩)
    · -- Of no units the risk is nothing, and the risk allowed is not below that.
      have hallowed : 0 ≤ params.maxRiskPctAccount := by
        have hmin : share ≤ params.maxRiskPctAccount / slDistance := min_le_left _ _
        rw [hzero, le_div_iff₀ hstop, zero_mul] at hmin
        exact hmin
      refine ⟨hroom.mp ?_, hcap, Or.inl ⟨?_, ?_⟩⟩
      · rw [hzero, zero_mul]
        exact hallowed
      · rw [hzero, zero_mul, zero_mul]
      · rw [hzero, zero_mul]
        exact zero_le_one
    · exact ⟨hle, hcap, Or.inl ⟨by rw [hsame.1], hsame.2⟩⟩
    · exact ⟨hle, hcap, Or.inr hclamp⟩

end Exact

/-- At a price of 150 the stop costs 0.15 per cent of the account and 22.5 per cent are
reported. -/
theorem yen_reported : ¬ ∀ (price atr : ℚ) (direction : Direction) (params : RiskParams),
    0 < price → 0 < atr → direction ≠ .flat → 0 < params.slAtrMultiple →
      let s := sizingExact price atr direction params
      s.risked params.paperEquity ≤ params.maxRiskPctAccount ∧
      s.positionSizeUnits * price ≤ params.maxExposurePct * params.paperEquity ∧
      s.riskPctAccount = s.risked params.paperEquity := by
  intro h
  have hclaim := h 150 (1 / 2) .long .default (by norm_num) (by norm_num) (by decide)
    (by decide +kernel)
  exact absurd hclaim.2.2 (by decide +kernel)

/-- At a price of one, with a stop of no more than eight digits, it is right. -/
theorem parity_reported :
    let s := sizingExact 1 (1 / 200) .long .default
    s.risked RiskParams.default.paperEquity ≤ RiskParams.default.maxRiskPctAccount ∧
    s.positionSizeUnits * 1 ≤ RiskParams.default.maxExposurePct * RiskParams.default.paperEquity ∧
    s.riskPctAccount = s.risked RiskParams.default.paperEquity :=
  (sizing_risk_iff one_pos (by norm_num) (by decide +kernel)).mpr
    (Or.inr ⟨Or.inl (by decide +kernel), Or.inl (by decide +kernel)⟩)

/-- The rounding of the stop alone takes the risk over what is allowed. -/
example : RiskParams.default.maxRiskPctAccount <
    (sizingExact (11 / 10) (33333337 / 1000000000) .long .default).risked
      RiskParams.default.paperEquity := by decide +kernel

end ForexAi
