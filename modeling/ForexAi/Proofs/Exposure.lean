/-
The exposure cap.

The gate adds `max_risk_pct_account` to the exposure in use and compares the sum with
the cap.  The exposure is notional over equity; what a candidate adds to it is its own
notional over equity, which depends on the stop distance and can be as large as the
cap itself.  So a passed candidate stays under the cap only when its units fit in
what is left, and `Fits` is that condition on the inputs: the units by risk, or the
units by the cap of an empty account, rounded as the sizing rounds them.

`exposure_after_pass` is one admission.  `exposure_capped_iff` adds the runs: books
that are filled at the assessed price and on which positions may be closed in
between stay under the cap after every fill if and only if every fill fits.
-/
import ForexAi.Backtest.Fills
import ForexAi.Lib.Runs

namespace ForexAi

open Rounding

/-! ### One admission

The gate does not ask what the candidate will use.  What it will use is known as soon as its
units are, and comparing that with what is left is the condition.
-/

namespace RiskParams

/-- Units that, rounded to six digits, fit in what `used` leaves of the cap. -/
def Fits (params : RiskParams) (used price units : ℚ) : Prop :=
  RoundsBelow (units * 10 ^ 6) ⌊(params.maxExposurePct - used) * params.paperEquity / price * 10 ^ 6⌋

/-- The sized units fit: by risk, or by the cap of an empty account. -/
def SizedFits (params : RiskParams) (used price atr : ℚ) : Prop :=
  params.Fits used price (params.unitsByRisk atr) ∨
    params.Fits used price (params.unitsByExposure price)

instance (params : RiskParams) (used price units : ℚ) :
    Decidable (params.Fits used price units) := by
  unfold Fits
  infer_instance

instance (params : RiskParams) (used price atr : ℚ) :
    Decidable (params.SizedFits used price atr) := by
  unfold SizedFits
  infer_instance

/-- The units of a sizing fit beside what is used exactly when one of the two bounds does. -/
theorem sized_le_cap_iff (params : RiskParams) {price : ℚ} (hprice : 0 < price) (used atr : ℚ)
    (direction : Direction) :
    used + (computeSizing price atr direction params).positionSizeUnits * price
        / params.paperEquity ≤ params.maxExposurePct ↔
      params.SizedFits used price atr := by
  have hequity := params.paper_equity_pos
  have hpow : (0 : ℚ) ≤ 10 ^ 6 := by norm_num
  set units := min (params.unitsByRisk atr) (params.unitsByExposure price) with hunits
  have hsized : (computeSizing price atr direction params).positionSizeUnits =
      roundTo 6 units := rfl
  have hroom : used + roundTo 6 units * price / params.paperEquity ≤ params.maxExposurePct ↔
      roundTo 6 units ≤ (params.maxExposurePct - used) * params.paperEquity / price := by
    rw [le_div_iff₀ hprice, ← le_sub_iff_add_le', div_le_iff₀ hequity]
  rw [hsized, hroom, roundTo_le_iff, hunits, min_mul_of_nonneg _ _ hpow, roundsBelow_min]
  rfl

end RiskParams

/-- **One admission.**  A candidate that is sized stays under the cap exactly when its units
fit. -/
theorem exposure_after_pass {direction : Direction} (hdir : direction ≠ .flat) {atr price : ℚ}
    {gate : GateState} {params : RiskParams} {sizing : SizingResult}
    (hsizing : (assess direction ⟨some atr, some price⟩ gate params).sizing = some sizing) :
    gate.exposureUsedPct + sizing.positionSizeUnits * price / params.paperEquity
        ≤ params.maxExposurePct ↔
      params.SizedFits gate.exposureUsedPct price atr := by
  rcases assess_cases hdir ⟨some atr, some price⟩ gate params with
    ⟨-, -, hnone, -⟩ | ⟨a, p, hsizable, hsome, -⟩
  · rw [hnone] at hsizing
    exact absurd hsizing (by simp)
  · obtain ⟨hatr, hprice, -, hpos⟩ := sizable_some hsizable
    obtain rfl : atr = a := Option.some.inj hatr
    obtain rfl : price = p := Option.some.inj hprice
    rw [hsome] at hsizing
    rw [← Option.some.inj hsizing]
    exact params.sized_le_cap_iff hpos _ atr direction

/-! ### Runs of admissions

Equity is constant along a run, so the exposure is a sum of notionals over it.  A closed
position gives its part back, and a fill adds its own.
-/

/-- A candidate as it meets the gate: what is decided, its ATR and price, and the other uses
the gate reads. -/
structure Candidate where
  symbol : Symbol
  timeframe : Timeframe
  direction : Direction
  atr : ℚ
  price : ℚ
  ts : Time
  gate : GateState

/-- What happens to a book: a candidate is assessed and, when it passes, filled; or a position
is closed. -/
inductive BookEvent where
  | candidate (c : Candidate)
  | exit (symbol : Symbol)

namespace Candidate

/-- The exposure of a book at constant equity. -/
def exposure (params : RiskParams) (book : PositionSet) : ℚ :=
  book.totalNotional / params.paperEquity

/-- The assessment, with the exposure the book has. -/
def outcome (c : Candidate) (params : RiskParams) (book : PositionSet) : RiskOutcome :=
  assess c.direction ⟨some c.atr, some c.price⟩
    { c.gate with exposureUsedPct := exposure params book } params

/-- The fill a passed candidate schedules. -/
def scheduled (c : Candidate) (params : RiskParams) (book : PositionSet) : Option PendingFill :=
  if (c.outcome params book).passed = true then
    (c.outcome params book).sizing.bind fun s =>
      Intent.schedule
        { direction := c.direction, units := s.positionSizeUnits, stopLoss := some s.stopLoss,
          takeProfit := some s.takeProfit }
        ((book.openFor c.symbol).map (·.side))
  else none

/-- The position a scheduled fill opens at the assessed price. -/
def position (c : Candidate) (act : PendingFill) : Position where
  symbol := c.symbol
  timeframe := c.timeframe
  units := act.units
  entryPrice := c.price
  entryTs := c.ts
  side := act.openDirection
  stopLoss := act.stopLoss
  takeProfit := act.takeProfit
  costs := 0

/-- The book a scheduled fill finds: without the position it closes. -/
def freed (c : Candidate) (book : PositionSet) : PositionSet := book.close c.symbol

/-- The fill that is executed: one of a positive size. -/
def filled (c : Candidate) (params : RiskParams) (book : PositionSet) : Option PendingFill :=
  (c.scheduled params book).filter fun act => decide (0 < act.units)

end Candidate

/-- The book after an event. -/
def BookEvent.step (params : RiskParams) (book : PositionSet) : BookEvent → PositionSet
  | .exit symbol => book.close symbol
  | .candidate c =>
      match c.scheduled params book with
      | none => book
      | some act =>
          if 0 < act.units then c.freed book ++ [c.position act] else c.freed book

/-- Right after a fill the book is under the cap. -/
def BookEvent.UnderCap (params : RiskParams) (book : PositionSet) : BookEvent → Prop
  | .exit _ => True
  | .candidate c => (c.filled params book).isSome = true →
      Candidate.exposure params (BookEvent.step params book (.candidate c)) ≤ params.maxExposurePct

/-- What is filled fits beside the rest of the book. -/
def BookEvent.FillFits (params : RiskParams) (book : PositionSet) : BookEvent → Prop
  | .exit _ => True
  | .candidate c => (c.filled params book).isSome = true →
      params.SizedFits (Candidate.exposure params (c.freed book)) c.price c.atr

theorem scheduled_units {c : Candidate} {params : RiskParams} {book : PositionSet}
    {act : PendingFill} (h : c.scheduled params book = some act) :
    0 < c.price ∧
      act.units = (computeSizing c.price c.atr c.direction params).positionSizeUnits := by
  unfold Candidate.scheduled at h
  by_cases hpass : (c.outcome params book).passed = true
  · rw [if_pos hpass] at h
    obtain ⟨sizing, hsizing, hschedule⟩ := Option.bind_eq_some_iff.mp h
    by_cases hflat : c.direction = .flat
    · unfold Intent.schedule at hschedule
      rw [if_pos (Or.inl hflat)] at hschedule
      exact absurd hschedule (by simp)
    · rcases assess_cases hflat ⟨some c.atr, some c.price⟩
        { c.gate with exposureUsedPct := Candidate.exposure params book } params with
        ⟨-, -, hnone, -⟩ | ⟨a, p, hsizable, hsome, -⟩
      · have hboth := hnone.symm.trans hsizing
        exact absurd hboth (by simp)
      · obtain ⟨hatr, hprice, -, hpos⟩ := sizable_some hsizable
        obtain rfl : c.atr = a := Option.some.inj hatr
        obtain rfl : c.price = p := Option.some.inj hprice
        have hsame := Option.some.inj (hsome.symm.trans hsizing)
        refine ⟨hpos, ?_⟩
        unfold Intent.schedule at hschedule
        split at hschedule
        · exact absurd hschedule (by simp)
        · rw [← Option.some.inj hschedule, hsame]
  · rw [if_neg hpass] at h
    exact absurd h (by simp)

theorem totalNotional_append (book : PositionSet) (p : Position) :
    PositionSet.totalNotional (book ++ [p]) = book.totalNotional + p.notional := by
  simp [PositionSet.totalNotional]

/-- **One step of a run.**  It ends under the cap exactly when what it fills fits. -/
theorem underCap_iff_fits (params : RiskParams) (book : PositionSet) (e : BookEvent) :
    e.UnderCap params book ↔ e.FillFits params book := by
  cases e with
  | exit symbol => exact Iff.rfl
  | candidate c =>
      refine imp_congr_right fun hfilled => ?_
      obtain ⟨act, hact⟩ := Option.isSome_iff_exists.mp hfilled
      obtain ⟨hscheduled, hunits⟩ := Option.filter_eq_some_iff.mp hact
      have hpositive : 0 < act.units := by simpa using hunits
      obtain ⟨hprice, hsized⟩ := scheduled_units hscheduled
      have hstep : BookEvent.step params book (.candidate c)
          = c.freed book ++ [c.position act] := by
        unfold BookEvent.step
        simp only [hscheduled]
        rw [if_pos hpositive]
      have hexposure : Candidate.exposure params (c.freed book ++ [c.position act])
          = Candidate.exposure params (c.freed book)
            + (computeSizing c.price c.atr c.direction params).positionSizeUnits * c.price
              / params.paperEquity := by
        unfold Candidate.exposure
        rw [totalNotional_append, add_div]
        show _ + act.units * c.price / params.paperEquity = _
        rw [hsized]
      rw [hstep, hexposure]
      exact params.sized_le_cap_iff hprice _ c.atr c.direction

/-- **The exposure cap.**  A candidate that passes stays under the cap exactly when its units
fit in what is left of it, and a run of admissions at constant equity is under the cap after
every fill exactly when every fill fits. -/
theorem exposure_capped_iff (params : RiskParams) :
    (∀ (direction : Direction) (atr price : ℚ) (gate : GateState) (sizing : SizingResult),
      direction ≠ .flat →
      (assess direction ⟨some atr, some price⟩ gate params).passed = true →
      (assess direction ⟨some atr, some price⟩ gate params).sizing = some sizing →
      (gate.exposureUsedPct + sizing.positionSizeUnits * price / params.paperEquity
          ≤ params.maxExposurePct ↔
        params.SizedFits gate.exposureUsedPct price atr)) ∧
    ∀ (book : PositionSet) (events : List BookEvent),
      Runs.Along (BookEvent.step params) (BookEvent.UnderCap params) book events ↔
        Runs.Along (BookEvent.step params) (BookEvent.FillFits params) book events := by
  refine ⟨?_, ?_⟩
  · intro direction atr price gate sizing hdir _ hsizing
    exact exposure_after_pass hdir hsizing
  · intro book events
    constructor
    · exact Runs.Along.mono fun book e => (underCap_iff_fits params book e).mp
    · exact Runs.Along.mono fun book e => (underCap_iff_fits params book e).mpr

/-! ### A wide stop and a tight one -/

/-- On an empty account a candidate with a wide stop stays under the cap. -/
theorem wideStop_under_cap :
    0 + (computeSizing (11 / 10) (1 / 10) .long .default).positionSizeUnits * (11 / 10)
      / RiskParams.default.paperEquity ≤ RiskParams.default.maxExposurePct :=
  ((exposure_capped_iff .default).1 .long (1 / 10) (11 / 10) {} _ (by decide) (by decide +kernel)
    (assess_sizing (by decide) (by norm_num) (by norm_num) _ _)).mpr (by decide +kernel)

/-- A long that is decided on at 1.10 with the given ATR. -/
def longAt (symbol : Symbol) (atr : ℚ) : Candidate where
  symbol := symbol
  timeframe := .H1
  direction := .long
  atr := atr
  price := 11 / 10
  ts := seconds 3600
  gate := {}

/-- With a quarter of the account in use a tight stop is sized to the whole cap and passes; and
a wide stop followed by a tight one leaves the book over the cap. -/
theorem tightStop_over_cap :
    (¬ ∀ (params : RiskParams) (direction : Direction) (atr price : ℚ) (gate : GateState)
      (sizing : SizingResult), direction ≠ .flat →
      (assess direction ⟨some atr, some price⟩ gate params).passed = true →
      (assess direction ⟨some atr, some price⟩ gate params).sizing = some sizing →
      gate.exposureUsedPct + sizing.positionSizeUnits * price / params.paperEquity
        ≤ params.maxExposurePct) ∧
    ¬ ∀ (params : RiskParams) (events : List BookEvent),
      Runs.Along (BookEvent.step params) (BookEvent.UnderCap params) [] events := by
  constructor
  · intro h
    have hcap := h .default .long (1 / 1000) (11 / 10) { exposureUsedPct := 1 / 4 } _ (by decide)
      (by decide +kernel) (assess_sizing (by decide) (by norm_num) (by norm_num) _ _)
    exact absurd hcap (by decide +kernel)
  · intro h
    have hcap := (h .default [.candidate (longAt .eurusd (1 / 10)),
      .candidate (longAt .gbpusd (1 / 1000))]).2.1 (by decide +kernel)
    exact absurd hcap (by decide +kernel)

end ForexAi
