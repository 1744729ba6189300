/-
What a stop and a target pay.

A decision is sized at one bar's close and filled at the next bar's open, and the thresholds
keep the places they were given at the close.  `exit_price_for` compares a bar's close with
them and pays the threshold itself.  So what a stop pays was settled when the order was filled:
a loss when the open was on the right side of the stop, a gain when the market gapped over it,
and likewise for the target.

`SizedFill.Between` is the open being on the right side of both, up to what rounds to nothing.
A run whose fills all are between their thresholds pays no gain as a stop and no loss as a
target: the invariant is that every open position would pay honestly at its own thresholds
(`honest_apply`, `honest_run`).  A fill that is not between them pays the wrong way as soon as
a bar closes where it opened (`gap_dishonest`).
-/
import ForexAi.Broker.Runs
import ForexAi.Decisions.Risk

namespace ForexAi

open Rounding

/-! ### Honest trades

A threshold was honest or not when the position was opened, and it does not move.  A trade is
closed at a threshold, or by a signal, of which nothing is asked.
-/

/-- A stop is no gain and a target no loss. -/
structure Trade.Honest (t : Trade) : Prop where
  stop : t.exitReason = .stopLoss → t.grossPnl ≤ 0
  target : t.exitReason = .takeProfit → 0 ≤ t.grossPnl

/-- Closed at one of its thresholds the position makes an honest trade. -/
structure Position.Bracketed (p : Position) : Prop where
  stop : ∀ s, p.stopLoss = some s → roundTo 6 (PaperBroker.grossAt p s) ≤ 0
  target : ∀ t, p.takeProfit = some t → 0 ≤ roundTo 6 (PaperBroker.grossAt p t)

/-- Of a stop and a target, tested one after the other, the reason names the one that is met. -/
theorem threshold_hit {met met' : ℚ → Bool} {last price : ℚ} {sl tp : Option ℚ}
    {reason : ExitReason}
    (h : (match sl.filter met with
      | some s => (s, ExitReason.stopLoss, true)
      | none =>
          match tp.filter met' with
          | some t => (t, .takeProfit, true)
          | none => (last, .signal, false)) = (price, reason, true)) :
    (reason = .stopLoss ∧ sl = some price) ∨ (reason = .takeProfit ∧ tp = some price) := by
  cases hs : sl.filter met with
  | some s =>
      rw [hs] at h
      obtain ⟨rfl, hrest⟩ := Prod.mk.inj h
      exact Or.inl ⟨(Prod.mk.inj hrest).1.symm, (Option.filter_eq_some_iff.mp hs).1⟩
  | none =>
      rw [hs] at h
      cases ht : tp.filter met' with
      | some t =>
          rw [ht] at h
          obtain ⟨rfl, hrest⟩ := Prod.mk.inj h
          exact Or.inr ⟨(Prod.mk.inj hrest).1.symm, (Option.filter_eq_some_iff.mp ht).1⟩
      | none =>
          rw [ht] at h
          exact absurd h (by simp)

/-- A bar that hits a position closes it at the threshold the reason names. -/
theorem exitPriceFor_hit {p : Position} {close price : ℚ} {sl tp : Option ℚ} {reason : ExitReason}
    (h : p.exitPriceFor close sl tp = (price, reason, true)) :
    (reason = .stopLoss ∧ sl = some price) ∨ (reason = .takeProfit ∧ tp = some price) := by
  unfold Position.exitPriceFor at h
  split at h
  · exact threshold_hit h
  · exact threshold_hit h

namespace PaperBroker

variable [Digest]

omit [Digest] in
/-- Every closed trade is honest, and every open position will make an honest one. -/
structure HonestInv (b : PaperBroker) : Prop where
  closed : ∀ t ∈ b.trades, t.Honest
  bracketed : ∀ p ∈ b.positions, p.Bracketed

/-- What a call closes it closes at a threshold, or on a signal. -/
theorem effect_closed_reason {b : PaperBroker} {op : Op} {p : Position} {price : ℚ}
    {reason : ExitReason} {ts : Time} (h : op.effect b = .closed p price reason ts) :
    reason = .signal ∨ (reason = .stopLoss ∧ p.stopLoss = some price) ∨
      (reason = .takeProfit ∧ p.takeProfit = some price) := by
  cases op with
  | enterAtNextOpen symbol timeframe direction refPrice ts' stopLoss takeProfit units =>
      exact absurd h (effect_enter_ne_closed b _ _ _ _ _ _ _ _ _ _ _ _)
  | evaluateExit symbol close ts' =>
      simp only [Op.effect] at h
      split at h
      · exact absurd h (by simp)
      · rename_i pos hpos
        by_cases hhit : (pos.exitPriceFor close pos.stopLoss pos.takeProfit).2.2 = true
        · rw [if_pos hhit] at h
          obtain ⟨rfl, rfl, rfl, -⟩ := Effect.closed.inj h
          exact Or.inr (exitPriceFor_hit (Prod.ext rfl (Prod.ext rfl hhit)))
        · rw [if_neg hhit] at h
          exact absurd h (by simp)
  | closeOnSignal symbol price' ts' =>
      simp only [Op.effect] at h
      split at h
      · exact absurd h (by simp)
      · obtain ⟨-, -, rfl, -⟩ := Effect.closed.inj h
        exact Or.inl rfl
  | markPosition symbol price' => exact absurd h (by simp [Op.effect])
  | state ts' => exact absurd h (by simp [Op.effect])

/-- A call keeps the account honest when what it opens is bracketed. -/
theorem honest_apply {b : PaperBroker} (h : HonestInv b) {op : Op}
    (hopen : ∀ p, op.effect b = .opened p → p.Bracketed) : HonestInv (op.apply b) := by
  cases heff : op.effect b with
  | idle =>
      obtain ⟨-, hpositions, htrades⟩ := apply_idle heff
      exact ⟨by rw [htrades]; exact h.closed, by rw [hpositions]; exact h.bracketed⟩
  | opened p =>
      obtain ⟨-, hpositions, htrades, -⟩ := apply_opened heff
      refine ⟨by rw [htrades]; exact h.closed, ?_⟩
      intro q hq
      rw [hpositions, List.mem_append, List.mem_singleton] at hq
      rcases hq with hq | rfl
      · exact h.bracketed q hq
      · exact hopen q heff
  | closed p price reason ts =>
      obtain ⟨-, hpositions, htrades, hfound⟩ := apply_closed heff
      have hbracketed := h.bracketed p (PositionSet.openFor_mem hfound)
      constructor
      · intro t ht
        rw [htrades, List.mem_append, List.mem_singleton] at ht
        rcases ht with ht | rfl
        · exact h.closed t ht
        · rcases effect_closed_reason heff with rfl | ⟨rfl, hstop⟩ | ⟨rfl, htarget⟩
          · exact ⟨fun hc => absurd hc (by simp [closePosition]),
              fun hc => absurd hc (by simp [closePosition])⟩
          · exact ⟨fun _ => hbracketed.stop price hstop,
              fun hc => absurd hc (by simp [closePosition])⟩
          · exact ⟨fun hc => absurd hc (by simp [closePosition]),
              fun _ => hbracketed.target price htarget⟩
      · intro q hq
        rw [hpositions] at hq
        exact h.bracketed q (PositionSet.close_subset hq)

end PaperBroker

/-! ### Sized fills

The order carries the thresholds from the close it was sized at, and the fill brings another
price.  What the fill earns at a threshold is a matter of which of the two is higher.
-/

/-- A decision's order: sized on the close of one bar, filled at the open of a later one. -/
structure SizedFill where
  symbol : Symbol
  timeframe : Timeframe
  direction : Direction
  close : ℚ
  atr : ℚ
  params : RiskParams
  openPrice : ℚ
  ts : Time
  close_pos : 0 < close
  atr_pos : 0 < atr
  sl_multiple_pos : 0 < params.slAtrMultiple
  tp_multiple_pos : 0 < params.tpAtrMultiple

namespace SizedFill

variable (f : SizedFill)

def sizing : SizingResult := computeSizing f.close f.atr f.direction f.params

/-- The call the order is filled with. -/
def op : PaperBroker.Op :=
  .enterAtNextOpen f.symbol f.timeframe f.direction f.openPrice f.ts (some f.sizing.stopLoss)
    (some f.sizing.takeProfit) (some f.sizing.positionSizeUnits)

/-- What the units earn from the open to a price, on the side of the order. -/
def earns (price : ℚ) : ℚ :=
  signOf f.direction * (f.sizing.positionSizeUnits * (price - f.openPrice))

/-- The open is between the stop and the target, up to what rounds to nothing. -/
structure Between : Prop where
  stop : f.earns f.sizing.stopLoss ≤ 1 / 2 / 10 ^ 6
  target : -(1 / 2 / 10 ^ 6) ≤ f.earns f.sizing.takeProfit

/-- The position the order opens. -/
def position (costs : ℚ) : Position where
  symbol := f.symbol
  timeframe := f.timeframe
  units := f.sizing.positionSizeUnits
  entryPrice := f.openPrice
  entryTs := f.ts
  side := f.direction
  stopLoss := some f.sizing.stopLoss
  takeProfit := some f.sizing.takeProfit
  costs := costs

variable {f}

theorem grossAt_position (hdir : f.direction ≠ .flat) (costs price : ℚ) :
    PaperBroker.grossAt (f.position costs) price = f.earns price := by
  unfold PaperBroker.grossAt earns position
  cases hside : f.direction with
  | long => simp [signOf]
  | short =>
      simp [signOf]
      ring
  | flat => exact absurd hside hdir

theorem bracketed_iff (hdir : f.direction ≠ .flat) (costs : ℚ) :
    (f.position costs).Bracketed ↔ f.Between := by
  have hstop := roundTo_nonpos_iff 6 (f.earns f.sizing.stopLoss)
  have htarget := roundTo_nonneg_iff 6 (f.earns f.sizing.takeProfit)
  constructor
  · intro h
    have hs := h.stop _ rfl
    have ht := h.target _ rfl
    rw [grossAt_position hdir] at hs ht
    exact ⟨hstop.mp hs, htarget.mp ht⟩
  · intro h
    constructor
    · intro s hs
      rw [grossAt_position hdir, ← Option.some.inj hs]
      exact hstop.mpr h.stop
    · intro t ht
      rw [grossAt_position hdir, ← Option.some.inj ht]
      exact htarget.mpr h.target

theorem thresholds_ordered (hdir : f.direction ≠ .flat) :
    if f.direction = .long then f.sizing.stopLoss ≤ f.sizing.takeProfit
    else f.sizing.takeProfit ≤ f.sizing.stopLoss := by
  have hsl := mul_pos f.sl_multiple_pos f.atr_pos
  have htp := mul_pos f.tp_multiple_pos f.atr_pos
  unfold sizing computeSizing
  cases hside : f.direction with
  | long =>
      rw [if_pos rfl]
      refine roundTo_mono 8 ?_
      simp only [signOf]
      push_cast
      linarith
  | short =>
      rw [if_neg (by decide)]
      refine roundTo_mono 8 ?_
      simp only [signOf]
      push_cast
      linarith
  | flat => exact absurd hside hdir

theorem earns_sign (hdir : f.direction ≠ .flat) (hunits : 0 < f.sizing.positionSizeUnits)
    (price : ℚ) :
    (0 < f.earns price → if f.direction = .long then f.openPrice < price else price < f.openPrice) ∧
    (f.earns price < 0 →
      if f.direction = .long then price < f.openPrice else f.openPrice < price) := by
  unfold earns
  cases hside : f.direction with
  | long =>
      simp only [signOf, Int.cast_one, one_mul, if_true]
      constructor
      · intro h
        linarith [(pos_iff_pos_of_mul_pos h).mp hunits]
      · intro h
        linarith [(pos_iff_neg_of_mul_neg h).mp hunits]
  | short =>
      simp only [signOf, Int.cast_neg, Int.cast_one, neg_mul, one_mul, ← mul_neg, reduceCtorEq,
        if_false]
      constructor
      · intro h
        linarith [(pos_iff_pos_of_mul_pos h).mp hunits]
      · intro h
        linarith [(pos_iff_neg_of_mul_neg h).mp hunits]
  | flat => exact absurd hside hdir

/-- A fill that is not between its thresholds is hit at its own open, and pays the wrong way. -/
theorem exitPriceFor_gap (hdir : f.direction ≠ .flat) (hunits : 0 < f.sizing.positionSizeUnits)
    (hgap : ¬ f.Between) (costs : ℚ) :
    ∃ price reason,
      (f.position costs).exitPriceFor f.openPrice (some f.sizing.stopLoss)
          (some f.sizing.takeProfit) = (price, reason, true) ∧
      ((reason = .stopLoss ∧ 0 < roundTo 6 (f.earns price)) ∨
        (reason = .takeProfit ∧ roundTo 6 (f.earns price) < 0)) := by
  have hunit : (0 : ℚ) < 1 / 2 / 10 ^ 6 := by norm_num
  have hordered := thresholds_ordered hdir
  unfold Position.exitPriceFor
  rw [show (f.position costs).side = f.direction from rfl]
  by_cases hstop : f.earns f.sizing.stopLoss ≤ 1 / 2 / 10 ^ 6
  · -- The target is behind the open, and the stop is behind the target.
    have hloss : f.earns f.sizing.takeProfit < -(1 / 2 / 10 ^ 6) :=
      not_le.mp fun htarget => hgap ⟨hstop, htarget⟩
    have hbehind := (earns_sign hdir hunits f.sizing.takeProfit).2 (by linarith)
    refine ⟨f.sizing.takeProfit, .takeProfit, ?_, Or.inr ⟨rfl, ?_⟩⟩
    · by_cases hlong : f.direction = .long
      · rw [if_pos hlong] at hordered hbehind ⊢
        have hclear : ¬ f.openPrice ≤ f.sizing.stopLoss := by linarith
        simp [Option.filter, hclear, hbehind.le]
      · rw [if_neg hlong] at hordered hbehind ⊢
        have hclear : ¬ f.sizing.stopLoss ≤ f.openPrice := by linarith
        simp [Option.filter, hclear, hbehind.le]
    · exact not_le.mp fun hc => absurd ((roundTo_nonneg_iff 6 _).mp hc) (not_le.mpr hloss)
  · have hahead := (earns_sign hdir hunits f.sizing.stopLoss).1 (by linarith)
    refine ⟨f.sizing.stopLoss, .stopLoss, ?_, Or.inl ⟨rfl, ?_⟩⟩
    · by_cases hlong : f.direction = .long
      · rw [if_pos hlong] at hahead ⊢
        simp [Option.filter, hahead.le]
      · rw [if_neg hlong] at hahead ⊢
        simp [Option.filter, hahead.le]
    · exact not_le.mp fun hc => hstop ((roundTo_nonpos_iff 6 _).mp hc)

end SizedFill

namespace PaperBroker

variable [Digest]

/-- An order that is filled has a side and units, and its symbol was free. -/
theorem effect_sizedFill {b : PaperBroker} {f : SizedFill} {p : Position}
    (h : f.op.effect b = .opened p) :
    f.direction ≠ .flat ∧ 0 < f.sizing.positionSizeUnits ∧ ∃ costs, p = f.position costs := by
  unfold SizedFill.op at h
  simp only [Op.effect] at h
  split at h
  · exact absurd h (by simp)
  · rename_i hskip
    push Not at hskip
    split at h
    · exact absurd h (by simp)
    · exact ⟨hskip.1, hskip.2, _, (Effect.opened.inj h).symm⟩

theorem evaluateExit_not_opened {b : PaperBroker} {symbol : Symbol} {close : ℚ} {ts : Time}
    {p : Position} : (Op.evaluateExit symbol close ts).effect b ≠ .opened p := by
  simp only [Op.effect]
  split
  · simp
  · split <;> simp

/-- Whatever is filled along the calls is a sized order that opens between its thresholds. -/
def FillsBetween (b : PaperBroker) : List Op → Prop
  | [] => True
  | op :: rest =>
      (∀ p, op.effect b = .opened p → ∃ f : SizedFill, f.op = op ∧ f.Between) ∧
        FillsBetween (op.apply b) rest

/-- Fills between their thresholds keep a whole run honest. -/
theorem honest_run {ops : List Op} {b : PaperBroker} (h : HonestInv b)
    (hfills : FillsBetween b ops) :
    HonestInv (b.run ops) := by
  induction ops generalizing b with
  | nil => exact h
  | cons op rest ih =>
      rw [run_cons]
      refine ih (honest_apply h fun p heff => ?_) hfills.2
      obtain ⟨f, rfl, hbetween⟩ := hfills.1 p heff
      obtain ⟨hdir, -, costs, rfl⟩ := effect_sizedFill heff
      exact (SizedFill.bracketed_iff hdir costs).mpr hbetween

omit [Digest] in
theorem honestInv_new (startEquity : ℚ) (seed : ℤ) (costParams : CostParams) :
    HonestInv (new startEquity seed costParams) :=
  ⟨fun t ht => absurd ht (by simp [new]), fun p hp => absurd hp (by simp [new])⟩

/-- A fill over a threshold pays the wrong way when its bar closes where it opened. -/
theorem gap_dishonest {b : PaperBroker} {f : SizedFill} {p : Position}
    (hfilled : f.op.effect b = .opened p) (hgap : ¬ f.Between) (ts : Time) :
    ∃ t ∈ (b.run [f.op, .evaluateExit f.symbol f.openPrice ts]).trades, ¬ t.Honest := by
  obtain ⟨hdir, hunits, costs, rfl⟩ := effect_sizedFill hfilled
  obtain ⟨-, hpositions, -, -, hfree⟩ := apply_opened hfilled
  have hfound : (f.op.apply b).positions.openFor f.symbol = some (f.position costs) := by
    rw [hpositions]
    exact PositionSet.openFor_append_self hfree
  obtain ⟨price, reason, hhit, hwrong⟩ := SizedFill.exitPriceFor_gap hdir hunits hgap costs
  have hexit : (Op.evaluateExit f.symbol f.openPrice ts).effect (f.op.apply b)
      = .closed (f.position costs) price reason ts := by
    simp only [Op.effect, hfound]
    rw [show (f.position costs).stopLoss = some f.sizing.stopLoss from rfl,
      show (f.position costs).takeProfit = some f.sizing.takeProfit from rfl, hhit]
    rfl
  refine ⟨((f.op.apply b).closePosition (f.position costs) price reason ts).1, ?_, ?_⟩
  · rw [run_cons, run_cons, run_nil, (apply_closed hexit).2.2.1]
    simp
  · intro h
    have hgross : ((f.op.apply b).closePosition (f.position costs) price reason ts).1.grossPnl
        = roundTo 6 (f.earns price) := by
      show roundTo 6 (grossAt (f.position costs) price) = _
      rw [SizedFill.grossAt_position hdir]
    rcases hwrong with ⟨rfl, hgain⟩ | ⟨rfl, hloss⟩
    · exact absurd (h.stop rfl) (by rw [hgross]; exact not_le.mpr hgain)
    · exact absurd (h.target rfl) (by rw [hgross]; exact not_le.mpr hloss)

/-- **When stops and targets are honest.**  A run whose fills all open between their thresholds
closes honest trades only; and of an order filled on the way, every such continuation is honest
exactly when it opened between them. -/
theorem stops_honest_iff (startEquity : ℚ) (seed : ℤ) (costParams : CostParams) :
    (∀ ops, FillsBetween (new startEquity seed costParams) ops →
      ∀ t ∈ ((new startEquity seed costParams).run ops).trades, t.Honest) ∧
    ∀ ops (f : SizedFill) p, FillsBetween (new startEquity seed costParams) ops →
      f.op.effect ((new startEquity seed costParams).run ops) = .opened p →
      ((∀ later, FillsBetween (f.op.apply ((new startEquity seed costParams).run ops)) later →
          ∀ t ∈ (((new startEquity seed costParams).run ops).run (f.op :: later)).trades,
            t.Honest) ↔
        f.Between) := by
  have hfresh := honestInv_new startEquity seed costParams
  refine ⟨fun ops hfills => (honest_run hfresh hfills).closed, ?_⟩
  intro ops f p hfills hfilled
  constructor
  · intro hhonest
    by_contra hgap
    obtain ⟨t, ht, hwrong⟩ := gap_dishonest hfilled hgap f.ts
    refine hwrong (hhonest [.evaluateExit f.symbol f.openPrice f.ts] ?_ t ht)
    exact ⟨fun p' hp' => absurd hp' evaluateExit_not_opened, trivial⟩
  · intro hbetween later hlater
    have hrun : FillsBetween ((new startEquity seed costParams).run ops) (f.op :: later) :=
      ⟨fun _ _ => ⟨f, rfl, hbetween⟩, hlater⟩
    exact (honest_run (honest_run hfresh hfills) hrun).closed

omit [Digest] in
/-- Long, sized at 1.10 with the stop at 1.097, filled at 1.08. -/
def gapDown : SizedFill where
  symbol := .eurusd
  timeframe := .H1
  direction := .long
  close := 11 / 10
  atr := 1 / 500
  params := .default
  openPrice := 108 / 100
  ts := 0
  close_pos := by norm_num
  atr_pos := by norm_num
  sl_multiple_pos := by decide +kernel
  tp_multiple_pos := by decide +kernel

theorem gapDown_filled : ∃ p, gapDown.op.effect (new 100000 0 ⟨0, 0⟩) = .opened p := by
  have hopens : ¬ (gapDown.direction = .flat ∨ gapDown.sizing.positionSizeUnits ≤ 0) := by
    decide +kernel
  unfold SizedFill.op
  simp only [Op.effect]
  rw [if_neg hopens, if_neg (by simp [new])]
  exact ⟨_, rfl⟩

omit [Digest] in
/-- The stop of an order filled below it closes with a gain. -/
theorem gapDown_dishonest : ¬ ∀ (_ : Digest) (startEquity : ℚ) (seed : ℤ) (costParams : CostParams)
    (f : SizedFill) (close : ℚ) (ts : Time),
    ∀ t ∈ ((new startEquity seed costParams).run [f.op, .evaluateExit f.symbol close ts]).trades,
      t.Honest := by
  intro h
  have hgap : ¬ gapDown.Between := fun hbetween => absurd hbetween.stop (by decide +kernel)
  obtain ⟨p, hfilled⟩ := @gapDown_filled Digest.zero
  obtain ⟨t, ht, hwrong⟩ := @gap_dishonest Digest.zero _ _ _ hfilled hgap 0
  exact hwrong (h Digest.zero 100000 0 ⟨0, 0⟩ gapDown gapDown.openPrice 0 t ht)

end PaperBroker

end ForexAi
