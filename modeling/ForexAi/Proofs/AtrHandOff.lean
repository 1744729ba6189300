/-
The ATR between the technical agent and the risk gate.

The agent puts its ATR under `features["indicators"]["atr14"]`; both consumers, the
live path and the backtest, look for `features["atr14"]`.  The two never meet:
`atr_below_indicators` says where the value is, `features_atr14` that nothing is
where it is looked for, and `atr_not_handed_off` puts them together for every window
the agent accepts.  The gate then cannot size, and no candidate passes it.
-/
import ForexAi.Agents.Technical
import ForexAi.Backtest.Engine

namespace ForexAi

open Columns Technical

/-! ### Where the ATR is, and where it is looked for

The features of a signal are a dictionary with another one inside.  Both consumers look a name
up in the outer one, where the agent puts other names.
-/

/-- Nothing is stored at the top of the features under `atr14`. -/
theorem features_atr14 (r : Readings) (prevDaily : Option PrevDaily) :
    (r.features prevDaily).getNumber "atr14" = none := by
  simp [Features.getNumber, Features.get, Readings.features, List.lookup_cons]

theorem atr_below_indicators (r : Readings) (prevDaily : Option PrevDaily) :
    ∃ indicators, (r.features prevDaily).get "indicators" = some (.dict indicators) ∧
      Features.getNumber indicators "atr14" = r.atr := by
  refine ⟨r.indicators, ?_, ?_⟩
  · simp [Features.get, Readings.features, List.lookup_cons]
  · cases hatr : r.atr <;>
      simp [Features.getNumber, Features.get, Readings.indicators, List.lookup_cons,
        Feature.ofOption,
        hatr]

variable [SquareRoot]

/-- The backtest finds no ATR in a signal of the agent. -/
theorem atrOf_analyze {ctx : AnalysisContext} (h : minBars ≤ ctx.candles.length) :
    atrOf (some (analyze ctx)) = none := by
  show (analyze ctx).features.getNumber "atr14" = none
  rw [analyze_features h]
  exact features_atr14 _ _

/-- Neither does the live path, once the signal is the latest of its series. -/
theorem resolveAtrPrice_analyze {ctx : AnalysisContext} (h : minBars ≤ ctx.candles.length)
    {rows : List AgentSignal} (hnew : ∀ r ∈ rows, ¬ r.SameIdentity (analyze ctx).toRow)
    (hlate : ∀ r ∈ rows, r.createdAt ≤ ctx.now) (candles : Series) (bucketTs : Time) :
    (resolveAtrPrice (saveSignal rows (analyze ctx)) candles ctx.symbol ctx.timeframe bucketTs).1
      = none := by
  have hctx : (analyze ctx).symbol = ctx.symbol ∧ (analyze ctx).timeframe = ctx.timeframe ∧
      (analyze ctx).agentId = .technical ∧ (analyze ctx).createdAt = ctx.now := by
    unfold analyze
    rw [if_neg (not_lt.mpr h)]
    exact ⟨rfl, rfl, rfl, rfl⟩
  obtain ⟨hsymbol, htimeframe, hagent, hcreated⟩ := hctx
  have hlatest := @loadLatest_saveSignal rows (analyze ctx) hnew fun r hr => by
    rw [hcreated]
    exact hlate r hr
  rw [hsymbol, htimeframe, hagent] at hlatest
  unfold resolveAtrPrice
  rw [hlatest]
  exact atrOf_analyze h

omit [SquareRoot] in
/-- Without an ATR no candidate passes the gate. -/
theorem assess_without_atr {direction : Direction} (hdir : direction ≠ .flat) (price : Option ℚ)
    (gate : GateState) (params : RiskParams) :
    (assess direction ⟨none, price⟩ gate params).passed = false := by
  have hnone : (⟨none, price⟩ : RiskDeps).sizable = none :=
    sizable_none fun atr h => absurd h (by simp)
  rcases assess_cases hdir ⟨none, price⟩ gate params with ⟨-, hfail, -⟩ | ⟨atr, p, hsome, -⟩
  · exact hfail
  · rw [hnone] at hsome
    exact absurd hsome (by simp)

/-! ### The hand-off -/

/-- What the hand-off is to do for one window: both consumers read the last ATR of the window
out of the agent's signal. -/
def HandsOff (ctx : AnalysisContext) : Prop :=
  atrOf (some (analyze ctx)) = lastValid (atr ctx.candles 14) ∧
    ∀ (rows : List AgentSignal) (candles : Series) (bucketTs : Time),
      (∀ r ∈ rows, ¬ r.SameIdentity (analyze ctx).toRow) →
      (∀ r ∈ rows, r.createdAt ≤ ctx.now) →
      (resolveAtrPrice (saveSignal rows (analyze ctx)) candles ctx.symbol ctx.timeframe
        bucketTs).1 = lastValid (atr ctx.candles 14)

/-- **The ATR is never handed off.**  For every window the agent accepts there is an ATR,
neither consumer reads it, and whatever the gate is handed instead, it does not pass. -/
theorem atr_not_handed_off (ctx : AnalysisContext) (h : minBars ≤ ctx.candles.length) :
    (∃ a, lastValid (atr ctx.candles 14) = some a ∧
      atrOf (some (analyze ctx)) ≠ some a ∧
      ∀ (rows : List AgentSignal) (candles : Series) (bucketTs : Time),
        (∀ r ∈ rows, ¬ r.SameIdentity (analyze ctx).toRow) →
        (∀ r ∈ rows, r.createdAt ≤ ctx.now) →
        (resolveAtrPrice (saveSignal rows (analyze ctx)) candles ctx.symbol ctx.timeframe
          bucketTs).1 ≠ some a) ∧
    ¬ HandsOff ctx ∧
    ∀ (direction : Direction) (price : Option ℚ) (gate : GateState) (params : RiskParams),
      direction ≠ .flat →
      (assess direction ⟨atrOf (some (analyze ctx)), price⟩ gate params).passed = false := by
  have hlong : 14 ≤ ctx.candles.length := le_trans (by decide) h
  obtain ⟨a, ha⟩ := @lastValid_atr ctx.candles 14 (by norm_num) hlong
  have hnone := atrOf_analyze h
  refine ⟨⟨a, ha, ?_, ?_⟩, ?_, ?_⟩
  · rw [hnone]
    exact Option.some_ne_none a ∘ Eq.symm
  · intro rows candles bucketTs hnew hlate
    rw [resolveAtrPrice_analyze h hnew hlate]
    exact Option.some_ne_none a ∘ Eq.symm
  · rintro ⟨hbacktest, -⟩
    rw [hnone, ha] at hbacktest
    exact absurd hbacktest (by simp)
  · intro direction price gate params hdir
    rw [hnone]
    exact assess_without_atr hdir price gate params

/-! ### A quiet day -/

omit [SquareRoot]

/-- The root that is always zero.  It stands in where every deviation is zero. -/
@[reducible] def SquareRoot.zero : SquareRoot where
  sqrt := fun _ => 0
  nonneg := fun _ _ => le_refl 0

/-- Thirty-four hours around 1.10, each with a range of two pips and the same close. -/
def quietDay : AnalysisContext where
  symbol := .eurusd
  timeframe := .H1
  bucketTs := seconds 118800
  candles := (List.range 34).map fun i =>
    { ts := seconds (3600 * i), openPrice := 11 / 10, high := 11001 / 10000,
      low := 10999 / 10000, close := 11 / 10 }
  now := seconds 122400
  prevDaily := none

/-- The quiet day has an ATR that neither consumer reads. -/
theorem quietDay_not_handed_off : ¬ @HandsOff SquareRoot.zero quietDay :=
  (@atr_not_handed_off SquareRoot.zero quietDay (by decide)).2.1

/-- On the quiet day the backtest gets no ATR, though the window has one. -/
theorem quietDay_atr_lost : ¬ ∀ (_ : SquareRoot) (ctx : AnalysisContext),
    (∀ c ∈ ctx.candles, c.Valid) → minBars ≤ ctx.candles.length → HandsOff ctx := by
  intro h
  have hlong : minBars ≤ quietDay.candles.length := by decide
  have hread := (h SquareRoot.zero quietDay (by decide +kernel) hlong).1
  rw [@atrOf_analyze SquareRoot.zero quietDay hlong] at hread
  obtain ⟨a, ha⟩ := @lastValid_atr quietDay.candles 14 (by norm_num) (le_trans (by decide) hlong)
  rw [ha] at hread
  exact absurd hread (by simp)

end ForexAi
