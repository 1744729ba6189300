/-
What of a bar depends on what.

A bar reads less of a ledger than a ledger holds.  Which orders act, which row is closed
and which is opened is decided by the rows: the orders, the positions, the decisions.  The
cash, the marks and the snapshots never flow back into them.  One thing outside the rows
does: the seed in the paper broker, which the last fill left there, prices the next exit.

`closes` names that one place: the trade in which a bar closes the position that was open
before it.  Two books with the same table that agree on it have the same table after the
bar (`processBar_alike`), and after a bar that fills an order they have the same seed.

The other half is about bars that do nothing.  On a bar at which no order is due and
nothing is breached the rows stay as they are (`handBar_idle`), and what a bar leaves open
it has not breached (`openRow_processBar`).
-/
import ForexAi.Broker.Bars
import ForexAi.Broker.Runs

namespace ForexAi

/-! ### Two books with the same rows

The draws of a fill depend on the seed that its order brings, and those of an exit on the seed
in the broker.  Everything else is priced by the bar, the row and the cost parameters.
-/

namespace Book

/-- The same positions, in the table and in the broker, at the same costs. -/
structure Alike (b b' : Book) : Prop where
  table : b'.table = b.table
  positions : b'.paper.positions = b.paper.positions
  costParams : b'.paper.costParams = b.paper.costParams

variable [Digest]

/-- The trade in which the bar closes the position that was open before it. -/
def closes (b : Book) (symbol : Symbol) (bar : Bar) (acting : Option PaperOrderRow) :
    Option Trade :=
  match b.table.openRow symbol with
  | none => none
  | some row =>
      if acting.isSome then
        some (b.paper.closePosition row.toPosition bar.openPrice .signal bar.ts).1
      else
        let (price, reason, hit) :=
          row.toPosition.exitPriceFor bar.close row.stopLoss row.takeProfit
        if hit then some (b.paper.closePosition row.toPosition price reason bar.ts).1 else none

omit [Digest] in
theorem restore_seed (b : Book) : b.restore.paper.seed = b.paper.seed ∧
    b.restore.paper.costParams = b.paper.costParams := by
  show (b.paper.adopt b.latest).seed = _ ∧ (b.paper.adopt b.latest).costParams = _
  cases b.latest <;> exact ⟨rfl, rfl⟩

omit [Digest] in
theorem alike_restore {b b' : Book} (htable : b'.table = b.table)
    (hcost : b'.paper.costParams = b.paper.costParams) : b.restore.Alike b'.restore := by
  refine ⟨htable, ?_, ?_⟩
  · show b'.table.openPositions = b.table.openPositions
    rw [htable]
  · rw [b.restore_seed.2, b'.restore_seed.2, hcost]

theorem closePosition_trade {b b' : PaperBroker} (hseed : b'.seed = b.seed)
    (hcost : b'.costParams = b.costParams) (pos : Position) (price : ℚ) (reason : ExitReason)
    (ts : Time) :
    (b'.closePosition pos price reason ts).1 = (b.closePosition pos price reason ts).1 := by
  unfold PaperBroker.closePosition PaperBroker.fillCost
  rw [hseed, hcost]

/-- Closing the same trade keeps two books alike. -/
theorem Alike.close {b b' : Book} (h : b.Alike b') (pos : Position) (price : ℚ)
    (reason : ExitReason) (ts : Time)
    (htrade : (b'.paper.closePosition pos price reason ts).1
      = (b.paper.closePosition pos price reason ts).1) :
    (b.persist (some (b.paper.closePosition pos price reason ts).1,
        (b.paper.closePosition pos price reason ts).2)).Alike
      (b'.persist (some (b'.paper.closePosition pos price reason ts).1,
        (b'.paper.closePosition pos price reason ts).2)) := by
  refine ⟨?_, ?_, h.costParams⟩
  · show b'.table.close _ = b.table.close _
    rw [htrade, h.table]
  · show PositionSet.close b'.paper.positions pos.symbol
      = PositionSet.close b.paper.positions pos.symbol
    rw [h.positions]

/-- With the same seed an exit is the same. -/
theorem Alike.evaluateExit {b b' : Book} (h : b.Alike b') (hseed : b'.paper.seed = b.paper.seed)
    (symbol : Symbol) (close : ℚ) (ts : Time) :
    (b.evaluateExit symbol close ts).Alike (b'.evaluateExit symbol close ts) := by
  unfold Book.evaluateExit
  cases hpos : b.paper.positions.openFor symbol with
  | none =>
      rw [PaperBroker.evaluateExit_none hpos,
        PaperBroker.evaluateExit_none (b := b'.paper) (by rw [h.positions]; exact hpos)]
      exact h
  | some pos =>
      have hpos' : b'.paper.positions.openFor symbol = some pos := by
        rw [h.positions]
        exact hpos
      rcases PaperBroker.evaluateExit_both hpos hpos' close ts with
        ⟨heq, heq'⟩ | ⟨price, reason, -, heq, heq'⟩
      · rw [heq, heq']
        exact h
      · rw [heq, heq']
        exact h.close pos price reason ts (closePosition_trade hseed h.costParams _ _ _ _)

/-- A fill leaves the order's seed in the broker, whatever was there before. -/
theorem Alike.fill {b b' : Book} (h : b.Alike b') (hagree : b.Agrees) {order : PaperOrderRow}
    (price : ℚ) (ts : Time) (hfree : b.paper.positions.openFor order.symbol = none) :
    (b.fill order price ts).Alike (b'.fill order price ts) ∧
      (b.fill order price ts).paper.seed = order.seed ∧
      (b'.fill order price ts).paper.seed = order.seed := by
  have hagree' : b'.Agrees := by
    show b'.paper.positions = b'.table.openPositions
    rw [h.positions, h.table]
    exact hagree
  have hfree' : b'.paper.positions.openFor order.symbol = none := by
    rw [h.positions]
    exact hfree
  have hpos : b'.paper.filledPosition order price ts = b.paper.filledPosition order price ts := by
    unfold PaperBroker.filledPosition PaperBroker.fillCost PaperBroker.reseed
    simp only [h.costParams]
  obtain ⟨table, hins, -, heq⟩ := fill_eq hagree price ts hfree
  obtain ⟨table', hins', -, heq'⟩ := fill_eq hagree' price ts hfree'
  rw [hpos, h.table, hins] at hins'
  obtain rfl := Option.some.inj hins'
  rw [heq, heq', PaperBroker.fillOrder_eq price ts hfree, PaperBroker.fillOrder_eq price ts hfree']
  refine ⟨⟨rfl, ?_, h.costParams⟩, rfl, rfl⟩
  show b'.paper.positions ++ [_] = b.paper.positions ++ [_]
  rw [h.positions, hpos]

theorem evaluateExit_keeps (b : Book) (symbol : Symbol) (close : ℚ) (ts : Time) :
    (b.evaluateExit symbol close ts).paper.seed = b.paper.seed ∧
      (b.evaluateExit symbol close ts).paper.costParams = b.paper.costParams := by
  unfold evaluateExit
  rcases b.paper.evaluateExit_cases symbol close ts with heq | ⟨pos, price, reason, -, -, heq⟩
  · rw [heq]
    exact ⟨rfl, rfl⟩
  · rw [heq]
    exact ⟨rfl, rfl⟩

/-- Up to the snapshot a bar is `settleBar`; the snapshot touches neither the table nor what
prices a trade. -/
theorem processBar_settled (interval : Option ℕ) (b : Book) (symbol : Symbol) (bar : Bar)
    (acting : Option PaperOrderRow) :
    (b.processBar interval symbol bar acting).table = (b.settleBar symbol bar acting).table ∧
      (b.processBar interval symbol bar acting).paper.seed
        = (b.settleBar symbol bar acting).paper.seed ∧
      (b.processBar interval symbol bar acting).paper.costParams
        = (b.settleBar symbol bar acting).paper.costParams := by
  unfold processBar
  simp only
  split <;> exact ⟨rfl, rfl, rfl⟩

omit [Digest] in
/-- What a broker finds open after a restore. -/
theorem openFor_restore (b : Book) (symbol : Symbol) :
    b.restore.paper.positions.openFor symbol = (b.table.openRow symbol).map (·.toPosition) :=
  PositionTable.openFor_openPositions b.table symbol

/-- Without an acting order a bar is its exit. -/
theorem settleBar_alike_none {b b' : Book} (htable : b'.table = b.table)
    (hcost : b'.paper.costParams = b.paper.costParams) {symbol : Symbol} {bar : Bar}
    (hcloses : b'.closes symbol bar none = b.closes symbol bar none) :
    (b'.settleBar symbol bar none).table = (b.settleBar symbol bar none).table := by
  have halike := alike_restore htable hcost
  show (b'.restore.evaluateExit symbol bar.close bar.ts).table
    = (b.restore.evaluateExit symbol bar.close bar.ts).table
  have hpos := b.openFor_restore symbol
  have hpos' := b'.openFor_restore symbol
  rw [htable] at hpos'
  unfold closes at hcloses
  rw [htable] at hcloses
  unfold evaluateExit
  cases hrow : b.table.openRow symbol with
  | none =>
      rw [hrow] at hpos hpos'
      rw [PaperBroker.evaluateExit_none hpos, PaperBroker.evaluateExit_none hpos']
      exact htable
  | some row =>
      rw [hrow] at hpos hpos' hcloses
      rcases PaperBroker.evaluateExit_both hpos hpos' bar.close bar.ts with
        ⟨heq, heq'⟩ | ⟨price, reason, hhit, heq, heq'⟩
      · rw [heq, heq']
        exact htable
      · have hhit₀ : row.toPosition.exitPriceFor bar.close row.stopLoss row.takeProfit
            = (price, reason, true) := hhit
        simp only [hhit₀, Option.isSome_none, Bool.false_eq_true, if_false, if_true,
          Option.some.injEq] at hcloses
        have htrade : (b'.restore.paper.closePosition row.toPosition price reason bar.ts).1
            = (b.restore.paper.closePosition row.toPosition price reason bar.ts).1 := by
          rw [closePosition_trade b'.restore_seed.1 b'.restore_seed.2, hcloses,
            closePosition_trade b.restore_seed.1 b.restore_seed.2]
        rw [heq, heq']
        exact (halike.close row.toPosition price reason bar.ts htrade).table

theorem free_closeOnSignal {b : Book} (hagree : b.Agrees) {symbol : Symbol} {pos : Position}
    (hpos : b.paper.positions.openFor symbol = some pos) (price : ℚ) (ts : Time) :
    (b.closeOnSignal symbol price ts).paper.positions.openFor symbol = none := by
  have hdistinct : b.paper.positions.Pairwise fun p q => p.symbol ≠ q.symbol := by
    rw [show b.paper.positions = b.table.openPositions from hagree]
    exact PositionTable.openPositions_distinct b.table
  unfold closeOnSignal
  rw [PaperBroker.closeOnSignal_some hpos]
  show PositionSet.openFor (b.paper.positions.close pos.symbol) symbol = none
  rw [PositionSet.openFor_symbol hpos]
  exact PositionSet.openFor_close hdistinct symbol

/-- The open of a bar with an acting order closes what was open and fills the order. -/
theorem actAtOpen_alike {b b' : Book} (htable : b'.table = b.table)
    (hcost : b'.paper.costParams = b.paper.costParams) {symbol : Symbol} {bar : Bar}
    {order : PaperOrderRow} (hsymbol : order.symbol = symbol)
    (hcloses : b'.closes symbol bar (some order) = b.closes symbol bar (some order)) :
    (b.restore.actAtOpen symbol bar (some order)).Alike
        (b'.restore.actAtOpen symbol bar (some order)) ∧
      (b.restore.actAtOpen symbol bar (some order)).paper.seed = order.seed ∧
      (b'.restore.actAtOpen symbol bar (some order)).paper.seed = order.seed := by
  have halike := alike_restore htable hcost
  have hpos := b.openFor_restore symbol
  have hpos' := b'.openFor_restore symbol
  rw [htable] at hpos'
  unfold closes at hcloses
  rw [htable] at hcloses
  subst hsymbol
  unfold actAtOpen
  simp only
  cases hrow : b.table.openRow order.symbol with
  | none =>
      rw [hrow] at hpos hpos'
      rw [if_neg (by rw [hpos]; simp), if_neg (by rw [hpos']; simp)]
      exact halike.fill b.agrees_restore bar.openPrice bar.ts hpos
  | some row =>
      rw [hrow] at hpos hpos' hcloses
      simp only [Option.isSome_some, if_true, Option.some.injEq] at hcloses
      rw [if_pos (by rw [hpos]; rfl), if_pos (by rw [hpos']; rfl)]
      have htrade : (b'.restore.paper.closePosition row.toPosition bar.openPrice .signal bar.ts).1
          = (b.restore.paper.closePosition row.toPosition bar.openPrice .signal bar.ts).1 := by
        rw [closePosition_trade b'.restore_seed.1 b'.restore_seed.2, hcloses,
          closePosition_trade b.restore_seed.1 b.restore_seed.2]
      have hclosed := halike.close row.toPosition bar.openPrice .signal bar.ts htrade
      have hagree := agrees_closeOnSignal b.agrees_restore order.symbol bar.openPrice bar.ts
      have hfree := free_closeOnSignal b.agrees_restore hpos bar.openPrice bar.ts
      unfold closeOnSignal at hagree hfree ⊢
      rw [PaperBroker.closeOnSignal_some hpos] at hagree hfree ⊢
      rw [PaperBroker.closeOnSignal_some hpos']
      exact hclosed.fill hagree bar.openPrice bar.ts hfree

/-- **Two books with the same table that close the same trade at a bar** have the same table
after it, and the same seed if an order acts on it. -/
theorem processBar_alike {b b' : Book} (htable : b'.table = b.table)
    (hcost : b'.paper.costParams = b.paper.costParams) {symbol : Symbol} {bar : Bar}
    {acting : Option PaperOrderRow} (hacting : ∀ o, acting = some o → o.symbol = symbol)
    (hcloses : b'.closes symbol bar acting = b.closes symbol bar acting) (interval : Option ℕ) :
    (b'.processBar interval symbol bar acting).table
        = (b.processBar interval symbol bar acting).table ∧
      ∀ o, acting = some o → (b.processBar interval symbol bar acting).paper.seed = o.seed ∧
        (b'.processBar interval symbol bar acting).paper.seed = o.seed := by
  rw [(b.processBar_settled interval symbol bar acting).1,
    (b'.processBar_settled interval symbol bar acting).1,
    (b.processBar_settled interval symbol bar acting).2.1,
    (b'.processBar_settled interval symbol bar acting).2.1]
  cases acting with
  | none => exact ⟨settleBar_alike_none htable hcost hcloses, fun o h => absurd h (by simp)⟩
  | some order =>
      obtain ⟨halike, hseed, hseed'⟩ :=
        actAtOpen_alike htable hcost (hacting order rfl) hcloses
      refine ⟨?_, fun o h => ?_⟩
      · exact (halike.evaluateExit (hseed'.trans hseed.symm) symbol bar.close bar.ts).table
      · obtain rfl := Option.some.inj h
        exact ⟨(evaluateExit_keeps _ symbol bar.close bar.ts).1.trans hseed,
          (evaluateExit_keeps _ symbol bar.close bar.ts).1.trans hseed'⟩

/-- Neither a close nor a fill changes the cost parameters. -/
theorem actAtOpen_costParams (b : Book) (symbol : Symbol) (bar : Bar)
    (acting : Option PaperOrderRow) :
    (b.actAtOpen symbol bar acting).paper.costParams = b.paper.costParams := by
  have hclose : (b.closeOnSignal symbol bar.openPrice bar.ts).paper.costParams
      = b.paper.costParams := by
    unfold closeOnSignal
    rw [persist_paper]
    exact PaperBroker.apply_costParams b.paper (.closeOnSignal symbol bar.openPrice bar.ts)
  have hfill : ∀ (c : Book) (order : PaperOrderRow),
      (c.fill order bar.openPrice bar.ts).paper.costParams = c.paper.costParams := by
    intro c order
    unfold fill
    split
    · rfl
    · exact PaperBroker.apply_costParams (c.paper.reseed order.seed)
        (.enterAtNextOpen order.symbol order.timeframe order.side bar.openPrice bar.ts
          order.stopLoss order.takeProfit (some order.units))
  exact actAtOpen_preserves (P := fun c => c.paper.costParams = b.paper.costParams) rfl hclose
    fun order _ c hc => (hfill c order).trans hc

/-- The cost parameters never change, and without an acting order neither does the seed. -/
theorem processBar_keeps (interval : Option ℕ) (b : Book) (symbol : Symbol) (bar : Bar)
    (acting : Option PaperOrderRow) :
    (b.processBar interval symbol bar acting).paper.costParams = b.paper.costParams ∧
      (acting = none → (b.processBar interval symbol bar acting).paper.seed = b.paper.seed) := by
  rw [(b.processBar_settled interval symbol bar acting).2.1,
    (b.processBar_settled interval symbol bar acting).2.2]
  have hexit := evaluateExit_keeps (b.restore.actAtOpen symbol bar acting) symbol bar.close bar.ts
  refine ⟨?_, fun h => ?_⟩
  · exact hexit.2.trans ((actAtOpen_costParams b.restore symbol bar acting).trans b.restore_seed.2)
  · subst h
    exact hexit.1.trans b.restore_seed.1

/-! ### What a bar leaves open -/

/-- An exit leaves open what its close does not breach. -/
theorem openRow_evaluateExit {b : Book} (hagree : b.Agrees) {symbol : Symbol} {close : ℚ}
    {ts : Time} {q : PaperPositionRow}
    (hq : (b.evaluateExit symbol close ts).table.openRow symbol = some q) :
    b.table.openRow symbol = some q ∧
      (q.toPosition.exitPriceFor close q.stopLoss q.takeProfit).2.2 = false := by
  have hpos : b.paper.positions.openFor symbol = (b.table.openRow symbol).map (·.toPosition) := by
    rw [show b.paper.positions = b.table.openPositions from hagree]
    exact PositionTable.openFor_openPositions b.table symbol
  unfold evaluateExit at hq
  cases hrow : b.table.openRow symbol with
  | none =>
      rw [hrow] at hpos
      rw [PaperBroker.evaluateExit_none hpos] at hq
      rw [show b.table.openRow symbol = some q from hq] at hrow
      exact absurd hrow (by simp)
  | some row =>
      rw [hrow] at hpos
      rcases PaperBroker.evaluateExit_some hpos close ts with ⟨hno, heq⟩ | ⟨price, reason, -, heq⟩
      · rw [heq] at hq
        rw [show b.table.openRow symbol = some q from hq] at hrow
        obtain rfl := Option.some.inj hrow
        exact ⟨rfl, hno⟩
      · rw [heq] at hq
        have hclosed : (b.table.close (b.paper.closePosition row.toPosition price reason
            ts).1).openRow symbol = none := by
          rw [PositionTable.openRow_eq_none_iff, PositionTable.close_openPositions]
          show (b.table.openPositions.close row.toPosition.symbol).openFor symbol = none
          rw [PositionSet.openFor_symbol hpos]
          exact PositionSet.openFor_close (PositionTable.openPositions_distinct b.table) symbol
        rw [show (b.table.close _).openRow symbol = some q from hq] at hclosed
        exact absurd hclosed (by simp)

/-- On a free symbol a fill opens the order's row. -/
theorem openRow_fill {b : Book} (hagree : b.Agrees) {order : PaperOrderRow} (price : ℚ)
    (ts : Time) (hfree : b.paper.positions.openFor order.symbol = none) :
    (b.fill order price ts).table.openRow order.symbol
      = some (.ofPosition order.id (b.paper.filledPosition order price ts)) := by
  obtain ⟨table, -, hrows, heq⟩ := fill_eq hagree price ts hfree
  rw [heq]
  exact PositionTable.openRow_of_mem (t := table)
    (r := .ofPosition order.id (b.paper.filledPosition order price ts))
    (by rw [hrows]; exact List.mem_append_right _ List.mem_cons_self) rfl

/-- **What a bar leaves open its close has not breached**: the row that was open, if no order
acts, and else the row of the acting order. -/
theorem openRow_processBar (interval : Option ℕ) {b : Book} {symbol : Symbol} {bar : Bar}
    {acting : Option PaperOrderRow} (hacting : ∀ o, acting = some o → o.symbol = symbol)
    {q : PaperPositionRow}
    (hq : (b.processBar interval symbol bar acting).table.openRow symbol = some q) :
    (q.toPosition.exitPriceFor bar.close q.stopLoss q.takeProfit).2.2 = false ∧
      ((acting = none ∧ b.table.openRow symbol = some q) ∨
        ∃ o, acting = some o ∧ q.entryTs = bar.ts ∧ q.timeframe = o.timeframe) := by
  rw [(b.processBar_settled interval symbol bar acting).1] at hq
  have hact : (b.restore.actAtOpen symbol bar acting).Agrees ∧
      ∀ r, (b.restore.actAtOpen symbol bar acting).table.openRow symbol = some r →
        (acting = none ∧ b.table.openRow symbol = some r) ∨
          ∃ o, acting = some o ∧ r.entryTs = bar.ts ∧ r.timeframe = o.timeframe := by
    unfold actAtOpen
    cases acting with
    | none => exact ⟨b.agrees_restore, fun r hr => Or.inl ⟨rfl, hr⟩⟩
    | some order =>
        obtain rfl := hacting order rfl
        have hfilled : ∀ c : Book, c.Agrees → c.paper.positions.openFor order.symbol = none →
            (c.fill order bar.openPrice bar.ts).Agrees ∧
            ∀ r, (c.fill order bar.openPrice bar.ts).table.openRow order.symbol = some r →
              (some order = none ∧ b.table.openRow order.symbol = some r) ∨
                ∃ o, some order = some o ∧ r.entryTs = bar.ts ∧ r.timeframe = o.timeframe := by
          intro c hagree hfree
          refine ⟨agrees_fill hagree bar.openPrice bar.ts hfree, fun r hr => ?_⟩
          rw [openRow_fill hagree bar.openPrice bar.ts hfree] at hr
          obtain rfl := Option.some.inj hr
          exact Or.inr ⟨order, rfl, rfl, rfl⟩
        simp only
        cases hpos : b.restore.paper.positions.openFor order.symbol with
        | none =>
            rw [if_neg (by simp)]
            exact hfilled _ b.agrees_restore hpos
        | some pos =>
            rw [if_pos (show (some pos).isSome = true from rfl)]
            exact hfilled _ (agrees_closeOnSignal b.agrees_restore _ _ _)
              (free_closeOnSignal b.agrees_restore hpos _ _)
  obtain ⟨hopen, hunhit⟩ := openRow_evaluateExit hact.1 hq
  exact ⟨hunhit, hact.2 q hopen⟩

omit [Digest] in
/-- Closing the row of a symbol leaves the other symbols' rows open. -/
theorem openRow_close_ne (t : PositionTable) {trade : Trade} {symbol : Symbol}
    (hne : trade.symbol ≠ symbol) : (t.close trade).openRow symbol = t.openRow symbol := by
  unfold PositionTable.openRow
  show (PositionTable.closeRow trade.symbol trade t.rows).find? _ = _
  induction t.rows with
  | nil => rfl
  | cons r rest ih =>
      unfold PositionTable.closeRow
      by_cases hr : r.openOn trade.symbol = true
      · have hsymbol : r.symbol ≠ symbol := by
          rw [(PaperPositionRow.openOn_iff.mp hr).1]
          exact hne
        rw [if_pos hr, List.find?_cons_of_neg (by simp [PaperPositionRow.openOn,
          PaperPositionRow.closeWith]), List.find?_cons_of_neg (by simp [PaperPositionRow.openOn,
          hsymbol])]
      · rw [if_neg hr]
        by_cases hother : r.openOn symbol = true
        · rw [List.find?_cons_of_pos hother, List.find?_cons_of_pos hother]
        · rw [List.find?_cons_of_neg hother, List.find?_cons_of_neg hother]
          exact ih

/-- **A bar leaves the open rows of the other symbols alone.** -/
theorem openRow_processBar_ne (interval : Option ℕ) (b : Book) {symbol other : Symbol}
    (hne : symbol ≠ other) (bar : Bar) {acting : Option PaperOrderRow}
    (hacting : ∀ o, acting = some o → o.symbol = symbol) :
    (b.processBar interval symbol bar acting).table.openRow other = b.table.openRow other := by
  have hpersist : ∀ (c : Book) (closed : Option Trade × PaperBroker),
      (∀ t, closed.1 = some t → t.symbol = symbol) →
        (c.persist closed).table.openRow other = c.table.openRow other := by
    intro c closed hsymbol
    unfold persist
    split
    · rfl
    · rename_i trade htrade
      exact openRow_close_ne c.table (by rw [hsymbol trade htrade]; exact hne)
  have hfill : ∀ (c : Book) (order : PaperOrderRow), order.symbol = symbol →
      (c.fill order bar.openPrice bar.ts).table.openRow other = c.table.openRow other := by
    intro c order hsymbol
    unfold fill
    split
    · rfl
    · rename_i table hins
      unfold PositionTable.openRow
      rw [PositionTable.rows_of_insert hins, List.find?_append, List.find?_cons_of_neg]
      · exact Option.or_none
      · have hne' : order.symbol ≠ other := by
          rw [hsymbol]
          exact hne
        simp [PaperPositionRow.openOn, PaperPositionRow.ofPosition, PaperBroker.filledPosition,
          hne']
  have hact : (b.restore.actAtOpen symbol bar acting).table.openRow other
      = b.table.openRow other := by
    refine actAtOpen_preserves (P := fun c => c.table.openRow other = b.table.openRow other) rfl
      (hpersist b.restore _ fun t ht => ?_)
      fun order horder c hc => (hfill c order (hacting order horder)).trans hc
    cases hpos : b.restore.paper.positions.openFor symbol with
    | none =>
        rw [PaperBroker.closeOnSignal_none hpos] at ht
        exact absurd ht (by simp)
    | some pos =>
        rw [PaperBroker.closeOnSignal_some hpos] at ht
        rw [← Option.some.inj ht]
        exact PositionSet.openFor_symbol hpos
  rw [(b.processBar_settled interval symbol bar acting).1]
  refine Eq.trans (hpersist _ _ fun t ht => ?_) hact
  rcases (b.restore.actAtOpen symbol bar acting).paper.evaluateExit_cases symbol bar.close bar.ts
    with heq | ⟨pos, price, reason, hpos, -, heq⟩
  · rw [heq] at ht
    exact absurd ht (by simp)
  · rw [heq] at ht
    rw [← Option.some.inj ht]
    exact PositionSet.openFor_symbol hpos

end Book

/-! ### What is closed stays closed

Rows are closed in place, and no row is taken out.  A trade that was written at a place can be
looked for there ever after.
-/

namespace PositionTable

/-- Every closed row stays where it is, as it is. -/
def KeepsClosed (t t' : PositionTable) : Prop :=
  ∀ (i : ℕ) (r : PaperPositionRow), t.rows[i]? = some r → r.exit.isSome = true →
    t'.rows[i]? = some r

theorem KeepsClosed.refl (t : PositionTable) : t.KeepsClosed t := fun _ _ h _ => h

theorem KeepsClosed.trans {t₁ t₂ t₃ : PositionTable} (h : t₁.KeepsClosed t₂)
    (h' : t₂.KeepsClosed t₃) : t₁.KeepsClosed t₃ :=
  fun i r hr hclosed => h' i r (h i r hr hclosed) hclosed

theorem keepsClosed_close (t : PositionTable) (trade : Trade) : t.KeepsClosed (t.close trade) := by
  unfold KeepsClosed close
  show ∀ i r, t.rows[i]? = some r → _ → (closeRow trade.symbol trade t.rows)[i]? = some r
  induction t.rows with
  | nil => intro i r hr; exact absurd hr (by simp)
  | cons q rest ih =>
      intro i r hr hclosed
      unfold closeRow
      by_cases hq : q.openOn trade.symbol = true
      · rw [if_pos hq]
        cases i with
        | zero =>
            obtain rfl : q = r := by simpa using hr
            rw [(PaperPositionRow.openOn_iff.mp hq).2] at hclosed
            exact absurd hclosed (by simp)
        | succ i => simpa using hr
      · rw [if_neg hq]
        cases i with
        | zero => simpa using hr
        | succ i => exact ih i r (by simpa using hr) hclosed

theorem keepsClosed_insert {t t' : PositionTable} {row : PaperPositionRow}
    (h : t.insert row = some t') : t.KeepsClosed t' := by
  intro i r hr _
  obtain ⟨hi, -⟩ := List.getElem?_eq_some_iff.mp hr
  rw [rows_of_insert h, List.getElem?_append_left hi]
  exact hr

/-- Where the open row of a symbol is closed, in whatever trade. -/
theorem close_index {t : PositionTable} {symbol : Symbol} {row : PaperPositionRow}
    (h : t.openRow symbol = some row) : ∃ i : ℕ, ∀ trade : Trade, trade.symbol = symbol →
      (t.close trade).rows[i]? = some (row.closeWith trade) := by
  unfold openRow at h
  unfold close
  show ∃ i : ℕ, ∀ trade : Trade, trade.symbol = symbol →
    (closeRow trade.symbol trade t.rows)[i]? = some (row.closeWith trade)
  revert h
  induction t.rows with
  | nil => intro h; exact absurd h (by simp)
  | cons q rest ih =>
      intro h
      by_cases hq : q.openOn symbol = true
      · rw [List.find?_cons_of_pos hq] at h
        obtain rfl := Option.some.inj h
        refine ⟨0, fun trade htrade => ?_⟩
        unfold closeRow
        rw [htrade, if_pos hq]
        rfl
      · rw [List.find?_cons_of_neg hq] at h
        obtain ⟨i, hi⟩ := ih h
        refine ⟨i + 1, fun trade htrade => ?_⟩
        unfold closeRow
        rw [htrade, if_neg hq, ← htrade]
        exact hi trade htrade

/-- Two tables with different trades in the same place. -/
def TradesDiffer (t t' : PositionTable) : Prop :=
  ∃ (i : ℕ) (r r' : PaperPositionRow), r ≠ r' ∧ r.exit.isSome = true ∧ r'.exit.isSome = true ∧
    t.rows[i]? = some r ∧ t'.rows[i]? = some r'

theorem TradesDiffer.later {t t' u u' : PositionTable} (h : TradesDiffer t t')
    (hkeeps : t.KeepsClosed u) (hkeeps' : t'.KeepsClosed u') : TradesDiffer u u' := by
  obtain ⟨i, r, r', hne, hr, hr', hat, hat'⟩ := h
  exact ⟨i, r, r', hne, hr, hr', hkeeps i r hat hr, hkeeps' i r' hat' hr'⟩

theorem TradesDiffer.ne {t t' : PositionTable} (h : TradesDiffer t t') : t ≠ t' := by
  rintro rfl
  obtain ⟨i, r, r', hne, -, -, hat, hat'⟩ := h
  rw [hat] at hat'
  exact hne (Option.some.inj hat')

end PositionTable

namespace Book

variable [Digest]

omit [Digest] in
theorem keepsClosed_persist (b : Book) (closed : Option Trade × PaperBroker) :
    b.table.KeepsClosed (b.persist closed).table := by
  unfold persist
  split
  · exact PositionTable.KeepsClosed.refl _
  · exact PositionTable.keepsClosed_close _ _

theorem keepsClosed_fill (b : Book) (order : PaperOrderRow) (price : ℚ) (ts : Time) :
    b.table.KeepsClosed (b.fill order price ts).table := by
  unfold fill
  split
  · exact PositionTable.KeepsClosed.refl _
  · rename_i table hins
    exact PositionTable.keepsClosed_insert hins

theorem keepsClosed_processBar (interval : Option ℕ) (b : Book) (symbol : Symbol) (bar : Bar)
    (acting : Option PaperOrderRow) :
    b.table.KeepsClosed (b.processBar interval symbol bar acting).table := by
  rw [(b.processBar_settled interval symbol bar acting).1]
  have hact : b.table.KeepsClosed (b.restore.actAtOpen symbol bar acting).table :=
    actAtOpen_preserves (P := fun c => b.table.KeepsClosed c.table)
      (PositionTable.KeepsClosed.refl _) (keepsClosed_persist b.restore _)
      fun order _ c hc => hc.trans (keepsClosed_fill c order _ _)
  exact hact.trans (keepsClosed_persist _ _)

/-- The trade a bar closes, spelled out. -/
theorem closes_eq_some {b : Book} {symbol : Symbol} {bar : Bar} {acting : Option PaperOrderRow}
    {trade : Trade} (h : b.closes symbol bar acting = some trade) :
    ∃ row price reason, b.table.openRow symbol = some row ∧
      trade = (b.paper.closePosition row.toPosition price reason bar.ts).1 ∧
      (∀ b' : Book, b'.table = b.table → b'.closes symbol bar acting
        = some (b'.paper.closePosition row.toPosition price reason bar.ts).1) := by
  unfold closes at h
  cases hrow : b.table.openRow symbol with
  | none => rw [hrow] at h; exact absurd h (by simp)
  | some row =>
      rw [hrow] at h
      simp only at h
      by_cases hacting : acting.isSome = true
      · rw [if_pos hacting] at h
        refine ⟨row, bar.openPrice, .signal, rfl, (Option.some.inj h).symm, fun b' htable => ?_⟩
        unfold closes
        rw [htable, hrow]
        exact if_pos hacting
      · rw [if_neg hacting] at h
        rcases hexit : row.toPosition.exitPriceFor bar.close row.stopLoss row.takeProfit with
          ⟨price, reason, hit⟩
        rw [hexit] at h
        by_cases hhit : hit = true
        · subst hhit
          refine ⟨row, price, reason, rfl, (Option.some.inj h).symm, fun b' htable => ?_⟩
          unfold closes
          rw [htable, hrow]
          simp only [if_neg hacting, hexit]
          rfl
        · simp only [if_neg hhit] at h
          exact absurd h (by simp)

/-- Where two brokers on the same rows do not agree on a close, there is one. -/
theorem exists_closes_of_ne {b b' : Book} {symbol : Symbol} {bar : Bar}
    {acting : Option PaperOrderRow} (htable : b.table = b'.table)
    (hne : b'.closes symbol bar acting ≠ b.closes symbol bar acting) :
    ∃ trade, b.closes symbol bar acting = some trade := by
  cases hcase : b.closes symbol bar acting with
  | some trade => exact ⟨trade, rfl⟩
  | none =>
      cases hother : b'.closes symbol bar acting with
      | none => exact absurd (hother.trans hcase.symm) hne
      | some trade =>
          obtain ⟨row, price, reason, -, -, hall⟩ := closes_eq_some hother
          rw [hall b htable] at hcase
          exact absurd hcase (by simp)

/-- **Where a bar leaves the trade it closes.**  The place is read off the table alone. -/
theorem processBar_closes (interval : Option ℕ) {t : PositionTable} {symbol : Symbol} {bar : Bar}
    {acting : Option PaperOrderRow} {row : PaperPositionRow} (hrow : t.openRow symbol = some row)
    (hacting : ∀ o, acting = some o → o.symbol = symbol) :
    ∃ i : ℕ, ∀ (b : Book) (trade : Trade), b.table = t →
      b.closes symbol bar acting = some trade →
      (b.processBar interval symbol bar acting).table.rows[i]? = some (row.closeWith trade) := by
  obtain ⟨i, hi⟩ := PositionTable.close_index hrow
  refine ⟨i, fun b trade htable hcloses => ?_⟩
  subst htable
  rw [(b.processBar_settled interval symbol bar acting).1]
  have hpos := b.openFor_restore symbol
  rw [hrow] at hpos
  have hsymbol : row.symbol = symbol := (PositionTable.openRow_spec hrow).2.1
  have htrade : ∀ price reason, (b.restore.paper.closePosition row.toPosition price reason bar.ts).1
      = (b.paper.closePosition row.toPosition price reason bar.ts).1 :=
    fun price reason => closePosition_trade b.restore_seed.1 b.restore_seed.2 _ _ _ _
  unfold closes at hcloses
  rw [hrow] at hcloses
  simp only at hcloses
  cases acting with
  | none =>
      simp only [Option.isSome_none, Bool.false_eq_true, if_false] at hcloses
      show (b.restore.persist (b.restore.paper.evaluateExit symbol bar.close bar.ts)).table.rows[i]?
        = _
      rcases PaperBroker.evaluateExit_some hpos bar.close bar.ts with
        ⟨hno, -⟩ | ⟨price, reason, hhit, heq⟩
      · rw [show (row.toPosition.exitPriceFor bar.close row.stopLoss row.takeProfit).2.2 = false
          from hno] at hcloses
        exact absurd hcloses (by simp)
      · have hhit' : row.toPosition.exitPriceFor bar.close row.stopLoss row.takeProfit
            = (price, reason, true) := hhit
        simp only [hhit', if_true] at hcloses
        rw [heq]
        show (b.table.close (b.restore.paper.closePosition row.toPosition price reason
          bar.ts).1).rows[i]? = _
        rw [htrade, Option.some.inj hcloses]
        refine hi trade ?_
        rw [← Option.some.inj hcloses]
        exact hsymbol
  | some order =>
      simp only [Option.isSome_some, if_true] at hcloses
      have hclosed : (b.restore.closeOnSignal symbol bar.openPrice bar.ts).table.rows[i]?
          = some (row.closeWith trade) := by
        unfold closeOnSignal
        rw [PaperBroker.closeOnSignal_some hpos]
        show (b.table.close (b.restore.paper.closePosition row.toPosition bar.openPrice .signal
          bar.ts).1).rows[i]? = _
        rw [htrade, Option.some.inj hcloses]
        refine hi trade ?_
        rw [← Option.some.inj hcloses]
        exact hsymbol
      have hact : b.restore.actAtOpen symbol bar (some order)
          = (b.restore.closeOnSignal symbol bar.openPrice bar.ts).fill order bar.openPrice
              bar.ts := by
        unfold actAtOpen
        simp only
        rw [if_pos (by rw [hpos]; rfl)]
      show (Book.persist _ _).table.rows[i]? = _
      refine keepsClosed_persist _ _ i _ ?_ rfl
      rw [hact]
      exact keepsClosed_fill _ order _ _ i _ hclosed rfl

/-- A different trade is a different row. -/
theorem closeWith_inj {b b' : PaperBroker} {row : PaperPositionRow} {pos : Position} {price : ℚ}
    {reason : ExitReason} {ts : Time}
    (h : row.closeWith (b.closePosition pos price reason ts).1
      = row.closeWith (b'.closePosition pos price reason ts).1) :
    (b.closePosition pos price reason ts).1 = (b'.closePosition pos price reason ts).1 := by
  have hcosts := congrArg PaperPositionRow.costs h
  have hexit := Option.some.inj (congrArg PaperPositionRow.exit h)
  have hnet := congrArg Exit.netPnl hexit
  have hcosts' : (b.closePosition pos price reason ts).1.costs
      = (b'.closePosition pos price reason ts).1.costs := hcosts
  have hnet' : (b.closePosition pos price reason ts).1.netPnl
      = (b'.closePosition pos price reason ts).1.netPnl := hnet
  unfold PaperBroker.closePosition at hcosts' hnet' ⊢
  simp only at hcosts' hnet' ⊢
  rw [hcosts', hnet']

end Book

/-! ### The orders after a bar

An order is written back once, as filled or as cancelled.  Which of them it is goes by the
open side and the orders due, and no figure of the account comes into it.
-/

/-- Order rows written back one after the other. -/
def writeOrders (orders rows : List PaperOrderRow) : List PaperOrderRow :=
  rows.foldl (fun os r => os.map fun o => if o.id = r.id then r else o) orders

theorem writeOrders_append (orders rows rows' : List PaperOrderRow) :
    writeOrders orders (rows ++ rows') = writeOrders (writeOrders orders rows) rows' :=
  List.foldl_append

theorem mem_writeOrders {orders rows : List PaperOrderRow} {o : PaperOrderRow}
    (h : o ∈ writeOrders orders rows) : o ∈ orders ∨ o ∈ rows := by
  induction rows generalizing orders with
  | nil => exact Or.inl h
  | cons r rest ih =>
      rcases ih h with hwritten | hrest
      · obtain ⟨q, hq, heq⟩ := List.mem_map.mp hwritten
        split at heq
        · exact Or.inr (heq ▸ List.mem_cons_self)
        · exact Or.inl (heq ▸ hq)
      · exact Or.inr (List.mem_cons_of_mem r hrest)

variable [Digest]

/-- The row an arbitrated order is written back as. -/
def settledRow (costParams : CostParams) (bar : Bar) (act : PendingCandidate × FillAction) :
    PaperOrderRow :=
  let order := act.1.order
  match act.2 with
  | .superseded => { order with status := .cancelled }
  | _ =>
      { order with
        status := .filled
        filledPrice := some bar.openPrice
        costs := costPerUnit bar.openPrice order.seed order.symbol order.side
          (order.units * bar.openPrice) costParams * order.units
        filledAt := some bar.ts }

namespace Ledger

theorem orders_supersededs (costParams : CostParams) (symbol : Symbol) (bar : Bar)
    (cs : List PendingCandidate) : ∀ run : UnitBarResult × Ledger, Due run.2.store symbol cs →
      ((cs.map fun c => (c, FillAction.superseded)).foldl (applyAction symbol bar) run).2.store.orders
        = writeOrders run.2.store.orders
          ((cs.map fun c => (c, FillAction.superseded)).map (settledRow costParams bar)) := by
  induction cs with
  | nil => intro run _; rfl
  | cons c rest ih =>
      intro run hdue
      have hpending := LedgerStore.statusOf_pending (hdue.pending c List.mem_cons_self)
      obtain ⟨hstep, -⟩ := acted_superseded symbol bar run (hdue.pending c List.mem_cons_self)
      rw [List.map_cons, List.foldl_cons, ih _ (hdue.settle hstep.pending)]
      have hwritten : (applyAction symbol bar run (c, .superseded)).2.store.orders
          = writeOrders run.2.store.orders [settledRow costParams bar (c, .superseded)] := by
        show (run.2.cancelPending c.order).2.store.orders = _
        unfold cancelPending
        rw [if_pos hpending]
        rfl
      rw [hwritten, List.map_cons, ← writeOrders_append]
      rfl

theorem orders_fillPending {l : Ledger} (hagree : l.book.Agrees) {order : PaperOrderRow}
    (hpending : order ∈ l.store.listPendingOrders) (hfree : l.openFor order.symbol = none)
    (bar : Bar) (c : PendingCandidate) (hc : c.order = order) {action : FillAction}
    (haction : action ≠ .superseded) :
    (l.fillPending order bar.openPrice bar.ts).2.store.orders
      = writeOrders l.store.orders
        [settledRow l.broker.paper.costParams bar (c, action)] := by
  subst hc
  obtain ⟨store, hsave, hfill, -⟩ :=
    fillPending_store hagree (LedgerStore.statusOf_pending hpending) hfree bar.openPrice bar.ts
  obtain ⟨table, -, hstore⟩ := Option.map_eq_some_iff.mp hsave
  rw [hfill]
  show store.orders = _
  rw [← hstore]
  cases action with
  | superseded => exact absurd rfl haction
  | fill => rfl
  | flip => rfl

/-- The close before a fill writes no order, and leaves the cost parameters. -/
theorem closeOnSignal_keeps (l : Ledger) (symbol : Symbol) (price : ℚ) (ts : Time) :
    (l.closeOnSignal symbol price ts).2.store.orders = l.store.orders ∧
      (l.closeOnSignal symbol price ts).2.broker.paper.costParams
        = l.broker.paper.costParams := by
  refine ⟨(l.persist_keeps _).1, ?_⟩
  · have hcost := congrArg (·.paper.costParams) (book_closeOnSignal l symbol price ts)
    refine hcost.trans ?_
    show (Book.persist _ _).paper.costParams = _
    rw [Book.persist_paper]
    exact PaperBroker.apply_costParams l.broker.paper (.closeOnSignal symbol price ts)

theorem orders_act (symbol : Symbol) (bar : Bar) (run : UnitBarResult × Ledger)
    (hagree : run.2.book.Agrees) {c : PendingCandidate}
    (hc : c.order ∈ run.2.store.listPendingOrders) (hsym : c.order.symbol = symbol) :
    (applyAction symbol bar run
        (c, if (run.2.openFor symbol).isSome then .flip else .fill)).2.store.orders
      = writeOrders run.2.store.orders [settledRow run.2.broker.paper.costParams bar
          (c, if (run.2.openFor symbol).isSome then .flip else .fill)] := by
  cases hpos : run.2.openFor symbol with
  | none => exact orders_fillPending hagree hc (by rw [hsym]; exact hpos) bar c rfl (by simp)
  | some pos =>
      obtain ⟨horders, hcost⟩ := closeOnSignal_keeps run.2 symbol bar.openPrice bar.ts
      have hqueue : (run.2.closeOnSignal symbol bar.openPrice bar.ts).2.store.listPendingOrders
          = run.2.store.listPendingOrders := run.2.listPendingOrders_persist _
      have hfill := @orders_fillPending _ (run.2.closeOnSignal symbol bar.openPrice bar.ts).2
        (by rw [book_closeOnSignal]; exact Book.agrees_closeOnSignal hagree _ _ _) c.order
        (by rw [hqueue]; exact hc)
        (by rw [hsym]; exact openFor_closeOnSignal hagree hpos bar.openPrice bar.ts) bar c rfl .flip
        (by simp)
      rw [horders, hcost] at hfill
      exact hfill

/-- **The orders after the open of a bar** are decided by the open side, the orders due and the
cost parameters. -/
theorem fillsAtOpen_orders (symbol : Symbol) (bar : Bar) (candidates : List PendingCandidate)
    (run : UnitBarResult × Ledger) (hagree : run.2.book.Agrees)
    (hdue : Due run.2.store symbol (candidatesForBar candidates bar.ts)) :
    (fillsAtOpen symbol bar candidates run).2.store.orders
      = writeOrders run.2.store.orders
        ((arbitrateFills ((run.2.openFor symbol).map (·.side))
          (candidatesForBar candidates bar.ts)).map
            (settledRow run.2.broker.paper.costParams bar)) := by
  unfold fillsAtOpen
  generalize candidatesForBar candidates bar.ts = cs at hdue ⊢
  simp only
  set cp := run.2.broker.paper.costParams with hcp
  rcases arbitrateFills_split ((run.2.openFor symbol).map (·.side)) cs with
    ⟨-, hmap⟩ | ⟨before, c, after, rfl, -, hmap⟩
  · rw [hmap]
    exact orders_supersededs cp symbol bar cs run hdue
  · rw [hmap, List.foldl_append, List.foldl_cons, Option.isSome_map]
    obtain ⟨hacted₁, hbook₁⟩ := acted_supersededs symbol bar before run hdue.before
    have horders₁ := orders_supersededs cp symbol bar before run hdue.before
    set run₁ := (before.map fun c => (c, FillAction.superseded)).foldl
      (applyAction symbol bar) run with hrun₁
    have hopen₁ : run₁.2.openFor symbol = run.2.openFor symbol :=
      Ledger.openFor_of_book hbook₁ symbol
    have hcost₁ : run₁.2.broker.paper.costParams = cp :=
      congrArg (fun b : Book => b.paper.costParams) hbook₁
    have hmid : Due run₁.2.store symbol (c :: after) := Due.drop hdue hacted₁.pending
    have hagree₁ : run₁.2.book.Agrees := by rw [hbook₁]; exact hagree
    obtain ⟨hacted₂, -⟩ := acted_act symbol bar run₁ hagree₁
      (hmid.pending c List.mem_cons_self) (hmid.symbol_eq c List.mem_cons_self)
    have horders₂ := orders_act symbol bar run₁ hagree₁ (hmid.pending c List.mem_cons_self)
      (hmid.symbol_eq c List.mem_cons_self)
    rw [hopen₁] at hacted₂ horders₂
    rw [hcost₁, horders₁] at horders₂
    rw [orders_supersededs cp symbol bar after _ (hmid.settle hacted₂.pending), horders₂,
      ← writeOrders_append, ← writeOrders_append, List.map_append, List.map_cons]
    rfl

/-- Past its exit and its mark a bar at most writes a snapshot. -/
theorem processUnitBar_ends (interval : Option ℕ) (l : Ledger) (symbol : Symbol)
    (timeframe : Timeframe) (bar : Bar) (candidates : List PendingCandidate) :
    let filled := fillsAtOpen symbol bar candidates ({ symbol, timeframe, ts := bar.ts },
      l.restoreState)
    let marked := (filled.2.evaluateExit symbol bar.close bar.ts).2.markPosition symbol bar.close
    (processUnitBar interval l symbol timeframe bar candidates).2 = marked ∨
      (processUnitBar interval l symbol timeframe bar candidates).2
        = (marked.equitySnapshot bar.ts).2 := by
  intro filled marked
  have hprocess : (processUnitBar interval l symbol timeframe bar candidates).2 =
      if (0 < filled.1.filled ∨ 0 < filled.1.exits
          + (if (filled.2.evaluateExit symbol bar.close bar.ts).1.isSome then 1 else 0)
        ∨ (marked.openFor symbol).isSome = true) ∧ marked.store.snapshotDue interval bar.ts = true
      then (marked.equitySnapshot bar.ts).2
      else marked := apply_ite Prod.snd _ _ _
  rw [hprocess]
  exact ite_eq_or_eq _ _ _ |>.symm

/-- The orders are settled at the open: neither the exit nor the snapshot writes any. -/
theorem processUnitBar_opened (interval : Option ℕ) (l : Ledger) (symbol : Symbol)
    (timeframe : Timeframe) (bar : Bar) (candidates : List PendingCandidate) :
    (processUnitBar interval l symbol timeframe bar candidates).2.store.orders
      = (fillsAtOpen symbol bar candidates
          ({ symbol, timeframe, ts := bar.ts }, l.restoreState)).2.store.orders := by
  have hexit (l' : Ledger) : (l'.evaluateExit symbol bar.close bar.ts).2.store.orders
      = l'.store.orders := (l'.persist_keeps _).1
  rcases processUnitBar_ends interval l symbol timeframe bar candidates with hend | hend
  · rw [hend, store_markPosition, hexit]
  · rw [hend, (equitySnapshot_keeps _ bar.ts).1, store_markPosition, hexit]

omit [Digest] in
/-- The side a restored broker has open is the table's. -/
theorem openSide_restoreState (l : Ledger) (symbol : Symbol) :
    (l.restoreState.openFor symbol).map (·.side)
      = (l.store.positions.openRow symbol).map (·.side) := by
  rw [openFor_restoreState, Option.map_map]
  rfl

/-- **The orders after a bar.** -/
theorem processUnitBar_orders (interval : Option ℕ) (l : Ledger) (symbol : Symbol)
    (timeframe : Timeframe) (bar : Bar) (candidates : List PendingCandidate)
    (hdue : Due l.store symbol (candidatesForBar candidates bar.ts)) :
    (processUnitBar interval l symbol timeframe bar candidates).2.store.orders
      = writeOrders l.store.orders
        ((arbitrateFills ((l.store.positions.openRow symbol).map (·.side))
          (candidatesForBar candidates bar.ts)).map
            (settledRow l.broker.paper.costParams bar)) := by
  have hcost : l.restoreState.broker.paper.costParams = l.broker.paper.costParams :=
    l.book.restore_seed.2
  have horders := fillsAtOpen_orders symbol bar candidates
    ({ symbol, timeframe, ts := bar.ts }, l.restoreState) rfl hdue
  rw [openSide_restoreState, hcost] at horders
  exact (processUnitBar_opened interval l symbol timeframe bar candidates).trans horders

end Ledger

end ForexAi
