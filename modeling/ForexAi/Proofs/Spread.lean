/-
What a wider spread does to an account.

Two brokers that differ in their spread alone are given the same calls.  Nothing a call
decides reads a cost: whether a position is opened, where it is left and why depends on the
positions, the marks and the prices.  So the two stay in step, position by position and
trade by trade, and differ only in what they were charged (`Costlier`, `costlier_apply`).
A charge goes up with the spread, whatever the price and the draw, and every charge leaves
the cash; the net result of a trade is rounded after its charges, and rounding is monotone.

Without a spread and slippage there is no charge.
-/
import ForexAi.Proofs.Cash

namespace ForexAi

open Rounding

/-- One position under two spreads. -/
structure PositionCostlier (p q : Position) : Prop where
  same : q = { p with costs := q.costs }
  costs : p.costs ≤ q.costs
  units : 0 < p.units

/-- One trade under two spreads. -/
structure TradeCostlier (t u : Trade) : Prop where
  same : u = { t with costs := u.costs, netPnl := u.netPnl }
  costs : t.costs ≤ u.costs
  net : u.netPnl ≤ t.netPnl

namespace PositionSet

variable {ps qs : PositionSet}

/-- The two brokers find a position of a symbol together. -/
theorem openFor_costlier (h : List.Forall₂ PositionCostlier ps qs) (symbol : Symbol) :
    Option.Rel PositionCostlier (ps.openFor symbol) (qs.openFor symbol) := by
  unfold openFor
  induction h with
  | nil => exact Option.Rel.none
  | @cons p q _ _ hpq _ ih =>
      have hsymbol : q.symbol = p.symbol := by rw [hpq.same]
      by_cases hp : p.symbol = symbol
      · rw [List.find?_cons_of_pos (by simpa using hp),
          List.find?_cons_of_pos (by simpa [hsymbol] using hp)]
        exact Option.Rel.some hpq
      · rw [List.find?_cons_of_neg (by simpa using hp),
          List.find?_cons_of_neg (by simpa [hsymbol] using hp)]
        exact ih

theorem isSome_openFor_costlier (h : List.Forall₂ PositionCostlier ps qs) (symbol : Symbol) :
    (qs.openFor symbol).isSome = (ps.openFor symbol).isSome := by
  have hfound := openFor_costlier h symbol
  generalize ps.openFor symbol = found at hfound ⊢
  generalize qs.openFor symbol = found' at hfound ⊢
  cases hfound with
  | none => rfl
  | some _ => rfl

theorem close_costlier (h : List.Forall₂ PositionCostlier ps qs) (symbol : Symbol) :
    List.Forall₂ PositionCostlier (ps.close symbol) (qs.close symbol) := by
  unfold close
  induction h with
  | nil => exact List.Forall₂.nil
  | @cons p q _ _ hpq hrest ih =>
      have hsymbol : q.symbol = p.symbol := by rw [hpq.same]
      by_cases hp : p.symbol = symbol
      · rw [List.eraseP_cons_of_pos (by simpa using hp),
          List.eraseP_cons_of_pos (by simpa [hsymbol] using hp)]
        exact hrest
      · rw [List.eraseP_cons_of_neg (by simpa using hp),
          List.eraseP_cons_of_neg (by simpa [hsymbol] using hp)]
        exact List.Forall₂.cons hpq ih

/-- At the same marks the positions are worth the same. -/
theorem unrealized_costlier (h : List.Forall₂ PositionCostlier ps qs)
    (lastMark : Symbol → Option ℚ) :
    (qs.map fun q => q.unrealized ((lastMark q.symbol).getD q.entryPrice)).sum
      = (ps.map fun p => p.unrealized ((lastMark p.symbol).getD p.entryPrice)).sum := by
  induction h with
  | nil => rfl
  | @cons p q _ _ hpq _ ih =>
      have hone : q.unrealized ((lastMark q.symbol).getD q.entryPrice)
          = p.unrealized ((lastMark p.symbol).getD p.entryPrice) := by
        rw [hpq.same]
        rfl
      rw [List.map_cons, List.map_cons, List.sum_cons, List.sum_cons, hone, ih]

end PositionSet

namespace PaperBroker

/-- A broker and one with a wider spread, after the same calls. -/
structure Costlier (b c : PaperBroker) : Prop where
  seed : c.seed = b.seed
  slippage : c.costParams.slippagePct = b.costParams.slippagePct
  spread : b.costParams.spread ≤ c.costParams.spread
  marks : c.lastMark = b.lastMark
  cash : c.cash ≤ b.cash
  equity : c.equity ≤ b.equity
  positions : List.Forall₂ PositionCostlier b.positions c.positions
  trades : List.Forall₂ TradeCostlier b.trades c.trades

variable {b c : PaperBroker}

/-- **A wider spread never raises the equity.** -/
theorem Costlier.totalEquity (h : Costlier b c) : c.totalEquity ≤ b.totalEquity := by
  unfold PaperBroker.totalEquity markOf
  rw [h.marks, PositionSet.unrealized_costlier h.positions]
  exact add_le_add_left h.cash _

variable [Digest]

/-- **A fill is charged more under a wider spread.** -/
theorem Costlier.fillCost (h : Costlier b c) (symbol : Symbol) (side : Direction)
    {units : ℚ} (hunits : 0 ≤ units) (price : ℚ) :
    b.fillCost symbol side units price ≤ c.fillCost symbol side units price := by
  have hslip : slippageBps c.seed symbol side (units * price) c.costParams
      = slippageBps b.seed symbol side (units * price) b.costParams := by
    unfold slippageBps
    rw [h.seed, h.slippage]
  unfold PaperBroker.fillCost costPerUnit
  rw [hslip]
  have hspread := h.spread
  refine mul_le_mul_of_nonneg_right ?_ hunits
  simp only
  linarith

/-- Closing a position under both spreads. -/
theorem Costlier.close (h : Costlier b c) {p q : Position} (hpq : PositionCostlier p q)
    (price : ℚ) (reason : ExitReason) (ts : Time) :
    Costlier (b.closePosition p price reason ts).2 (c.closePosition q price reason ts).2 := by
  obtain ⟨hsame, hcosts, hunits⟩ := hpq
  generalize q.costs = entry at hsame hcosts
  subst hsame
  have hcost : b.fillCost p.symbol p.side p.units price + p.costs
      ≤ c.fillCost p.symbol p.side p.units price + entry :=
    add_le_add (h.fillCost p.symbol p.side hunits.le price) hcosts
  have hcash := h.cash
  refine ⟨h.seed, h.slippage, h.spread, h.marks, ?_, h.equity, ?_, ?_⟩
  · show c.cash + grossAt p price - (c.fillCost p.symbol p.side p.units price + entry)
      ≤ b.cash + grossAt p price - (b.fillCost p.symbol p.side p.units price + p.costs)
    linarith
  · exact PositionSet.close_costlier h.positions p.symbol
  · refine List.rel_append h.trades (List.Forall₂.cons ⟨rfl, roundTo_mono 6 hcost, ?_⟩
      List.Forall₂.nil)
    exact roundTo_mono 6 (sub_le_sub_left hcost (grossAt p price))

/-- Opening a position under both spreads. -/
theorem Costlier.enter (h : Costlier b c) (symbol : Symbol) (timeframe : Timeframe)
    (direction : Direction) (refPrice : ℚ) (ts : Time) (stopLoss takeProfit units : Option ℚ) :
    Costlier (b.enterAtNextOpen symbol timeframe direction refPrice ts stopLoss takeProfit units)
      (c.enterAtNextOpen symbol timeframe direction refPrice ts stopLoss takeProfit units) := by
  unfold enterAtNextOpen
  cases units with
  | none => exact h
  | some u =>
      simp only
      by_cases hskip : direction = .flat ∨ u ≤ 0
      · rw [if_pos hskip, if_pos hskip]
        exact h
      · have hunits : 0 < u := not_le.mp fun hle => hskip (Or.inr hle)
        rw [if_neg hskip, if_neg hskip, PositionSet.isSome_openFor_costlier h.positions]
        by_cases hopen : (b.positions.openFor symbol).isSome = true
        · rw [if_pos hopen, if_pos hopen]
          exact h
        · rw [if_neg hopen, if_neg hopen]
          have hcost := h.fillCost symbol direction hunits.le refPrice
          refine ⟨h.seed, h.slippage, h.spread, ?_, sub_le_sub h.cash hcost, h.equity, ?_, h.trades⟩
          · show Function.update c.lastMark symbol (some refPrice) = _
            rw [h.marks]
          · exact List.rel_append h.positions
              (List.Forall₂.cons ⟨rfl, hcost, hunits⟩ List.Forall₂.nil)

/-- A bar's close under both spreads. -/
theorem Costlier.evaluate (h : Costlier b c) (symbol : Symbol) (close : ℚ) (ts : Time) :
    Costlier (b.evaluateExit symbol close ts).2 (c.evaluateExit symbol close ts).2 := by
  have hfound := PositionSet.openFor_costlier h.positions symbol
  unfold evaluateExit
  generalize b.positions.openFor symbol = found at hfound
  generalize c.positions.openFor symbol = found' at hfound
  cases hfound with
  | none => exact h
  | @some p q hpq =>
      have hexit : q.exitPriceFor close q.stopLoss q.takeProfit
          = p.exitPriceFor close p.stopLoss p.takeProfit := by
        rw [hpq.same]
        rfl
      simp only [hexit]
      by_cases hhit : (p.exitPriceFor close p.stopLoss p.takeProfit).2.2 = true
      · rw [if_pos hhit, if_pos hhit]
        exact h.close hpq _ _ ts
      · rw [if_neg hhit, if_neg hhit]
        exact h

/-- A signal's close under both spreads. -/
theorem Costlier.signal (h : Costlier b c) (symbol : Symbol) (price : ℚ) (ts : Time) :
    Costlier (b.closeOnSignal symbol price ts).2 (c.closeOnSignal symbol price ts).2 := by
  have hfound := PositionSet.openFor_costlier h.positions symbol
  unfold closeOnSignal
  generalize b.positions.openFor symbol = found at hfound
  generalize c.positions.openFor symbol = found' at hfound
  cases hfound with
  | none => exact h
  | some hpq => exact h.close hpq price .signal ts

/-- **The two brokers stay in step.** -/
theorem costlier_apply (h : Costlier b c) (op : Op) : Costlier (op.apply b) (op.apply c) := by
  cases op with
  | enterAtNextOpen symbol timeframe direction refPrice ts stopLoss takeProfit units =>
      exact h.enter symbol timeframe direction refPrice ts stopLoss takeProfit units
  | evaluateExit symbol close ts => exact h.evaluate symbol close ts
  | closeOnSignal symbol price ts => exact h.signal symbol price ts
  | markPosition symbol price =>
      refine ⟨h.seed, h.slippage, h.spread, ?_, h.cash, h.equity, h.positions, h.trades⟩
      show Function.update c.lastMark symbol (some price) = _
      rw [h.marks]
      rfl
  | state ts =>
      exact ⟨h.seed, h.slippage, h.spread, h.marks, h.cash, h.totalEquity, h.positions, h.trades⟩

theorem costlier_run (h : Costlier b c) (ops : List Op) : Costlier (b.run ops) (c.run ops) := by
  induction ops generalizing b c with
  | nil => exact h
  | cons op rest ih => exact ih (costlier_apply h op)

/-! ### Without costs

Nothing that is charged comes from anything but the half spread and the slippage.  Without
them an account is its gross results.
-/

theorem fillCost_free (hspread : b.costParams.spread = 0) (hslippage : b.costParams.slippagePct = 0)
    (symbol : Symbol) (side : Direction) (units price : ℚ) :
    b.fillCost symbol side units price = 0 := by
  unfold PaperBroker.fillCost
  rw [costPerUnit_of_slippage_off _ _ _ _ _ hslippage, hspread]
  simp

/-- Nothing was charged: not for a position, not for a trade. -/
structure Free (b : PaperBroker) : Prop where
  spread : b.costParams.spread = 0
  slippage : b.costParams.slippagePct = 0
  entries : ∀ p ∈ b.positions, p.costs = 0
  trades : ∀ t ∈ b.trades, t.grossPnl = roundTo 6 (tradeGross t) ∧ t.netPnl = t.grossPnl
  cash : b.cash = b.startEquity + (b.trades.map tradeGross).sum

theorem free_apply (h : b.Free) (op : Op) : (op.apply b).Free := by
  have hspread : (op.apply b).costParams.spread = 0 := by rw [apply_costParams]; exact h.spread
  have hslippage : (op.apply b).costParams.slippagePct = 0 := by
    rw [apply_costParams]
    exact h.slippage
  cases heff : op.effect b with
  | idle =>
      obtain ⟨hcash, hpositions, htrades⟩ := apply_idle heff
      refine ⟨hspread, hslippage, ?_, ?_, ?_⟩
      · rw [hpositions]
        exact h.entries
      · rw [htrades]
        exact h.trades
      · rw [hcash, htrades, apply_startEquity]
        exact h.cash
  | opened p =>
      obtain ⟨hcash, hpositions, htrades, hcosts, -⟩ := apply_opened heff
      rw [fillCost_free h.spread h.slippage] at hcosts
      refine ⟨hspread, hslippage, fun q hq => ?_, ?_, ?_⟩
      · rw [hpositions] at hq
        rcases List.mem_append.mp hq with hq | hq
        · exact h.entries q hq
        · rw [List.mem_singleton.mp hq]
          exact hcosts
      · rw [htrades]
        exact h.trades
      · rw [hcash, htrades, apply_startEquity, hcosts, sub_zero]
        exact h.cash
  | closed p price reason ts =>
      obtain ⟨hcash, hpositions, htrades, hopen⟩ := apply_closed heff
      have hcosts : p.costs = 0 := h.entries p (PositionSet.openFor_mem hopen)
      have hfree : b.fillCost p.symbol p.side p.units price + p.costs = 0 := by
        rw [fillCost_free h.spread h.slippage, hcosts, add_zero]
      refine ⟨hspread, hslippage, fun q hq => ?_, fun t ht => ?_, ?_⟩
      · rw [hpositions] at hq
        exact h.entries q (PositionSet.close_subset hq)
      · rw [htrades] at ht
        rcases List.mem_append.mp ht with ht | ht
        · exact h.trades t ht
        · rw [List.mem_singleton.mp ht]
          refine ⟨rfl, ?_⟩
          show roundTo 6 (grossAt p price - (b.fillCost p.symbol p.side p.units price + p.costs))
            = roundTo 6 (grossAt p price)
          rw [hfree, sub_zero]
      · rw [hcash, htrades, apply_startEquity, hfree, sub_zero, h.cash, List.map_append,
          List.sum_append, List.map_singleton, List.sum_singleton, add_assoc]
        rfl

theorem free_run (h : b.Free) (ops : List Op) : (b.run ops).Free := by
  induction ops generalizing b with
  | nil => exact h
  | cons op rest ih => exact ih (free_apply h op)

omit [Digest] in
theorem free_new (startEquity : ℚ) (seed : ℤ) :
    (new startEquity seed { spread := 0, slippagePct := 0 }).Free :=
  ⟨rfl, rfl, fun p hp => absurd hp (by simp [new]), fun t ht => absurd ht (by simp [new]),
    by simp [new]⟩

/-- **Costs only hurt.**  After any calls the account with the wider spread has no more cash
and equity, and its trades are the same but for higher costs and no higher net result; and
without a spread and slippage the net result of every trade is its gross result, and the cash
is the start equity and what the trades earned. -/
theorem costs_only_hurt (startEquity : ℚ) (seed : ℤ) (slippagePct : ℚ) {spread wider : ℚ}
    (h : spread ≤ wider) (ops : List Op) :
    Costlier ((new startEquity seed ⟨spread, slippagePct⟩).run ops)
        ((new startEquity seed ⟨wider, slippagePct⟩).run ops) ∧
      ((new startEquity seed ⟨wider, slippagePct⟩).run ops).totalEquity
        ≤ ((new startEquity seed ⟨spread, slippagePct⟩).run ops).totalEquity ∧
      ((new startEquity seed { spread := 0, slippagePct := 0 }).run ops).Free := by
  have hnew : Costlier (new startEquity seed ⟨spread, slippagePct⟩)
      (new startEquity seed ⟨wider, slippagePct⟩) :=
    ⟨rfl, rfl, h, rfl, le_refl _, le_refl _, List.Forall₂.nil, List.Forall₂.nil⟩
  have hrun := costlier_run hnew ops
  exact ⟨hrun, hrun.totalEquity, free_run (free_new startEquity seed) ops⟩

omit [Digest] in
/-- A round trip under no spread and under one of a pip. -/
theorem roundTrip_costlier :
    @Costlier (@run Digest.zero (new 100000 0 ⟨0, 0⟩) roundTrip)
        (@run Digest.zero (new 100000 0 ⟨1 / 10000, 0⟩) roundTrip) ∧
      (@run Digest.zero (new 100000 0 ⟨1 / 10000, 0⟩) roundTrip).totalEquity
        ≤ (@run Digest.zero (new 100000 0 ⟨0, 0⟩) roundTrip).totalEquity ∧
      (@run Digest.zero (new 100000 0 { spread := 0, slippagePct := 0 }) roundTrip).Free :=
  @costs_only_hurt Digest.zero 100000 0 0 0 (1 / 10000) (by norm_num) roundTrip

end PaperBroker

end ForexAi
