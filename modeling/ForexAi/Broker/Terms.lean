/-
The terms of an order.

An order is filled or cancelled, and its row is written back each time; what it is an order
for stays: `OrderTerms`.  The one way a write could change them is a row that is written back
over another one, so `Knows` says of a row that it has the terms the table has under its id.
Every row the lifecycle holds is one the table had, and as nothing changes the terms it is
still known whenever it is written back.
-/
import ForexAi.Broker.Replay

namespace ForexAi

/-- What an order keeps from its submission on. -/
structure OrderTerms where
  id : OrderId
  decisionId : Option DecisionId
  symbol : Symbol
  timeframe : Timeframe
  side : Direction
  units : ℚ
  requestedPrice : ℚ
  stopLoss : Option ℚ
  takeProfit : Option ℚ
  createdAt : Time

def PaperOrderRow.terms (o : PaperOrderRow) : OrderTerms where
  id := o.id
  decisionId := o.decisionId
  symbol := o.symbol
  timeframe := o.timeframe
  side := o.side
  units := o.units
  requestedPrice := o.requestedPrice
  stopLoss := o.stopLoss
  takeProfit := o.takeProfit
  createdAt := o.createdAt

namespace LedgerStore

/-- The terms of all orders. -/
def terms (s : LedgerStore) : List OrderTerms := s.orders.map (·.terms)

/-- The row has the terms the table has under its id. -/
def Knows (s : LedgerStore) (o : PaperOrderRow) : Prop :=
  ∀ t ∈ s.terms, t.id = o.id → t = o.terms

theorem knows_of_mem {s : LedgerStore} {o : PaperOrderRow} (h : o ∈ s.orders) : s.Knows o := by
  intro t ht hid
  obtain ⟨q, hq, rfl⟩ := List.mem_map.mp ht
  rw [List.inj_on_of_nodup_map s.orders_pk hq h hid]

theorem Knows.of_terms {s s' : LedgerStore} {o : PaperOrderRow} (h : s.Knows o)
    (hterms : s'.terms = s.terms) : s'.Knows o := by
  unfold Knows
  rw [hterms]
  exact h

/-- Writing a row back with the terms it had. -/
theorem terms_updateOrder {s : LedgerStore} {o row : PaperOrderRow} (h : s.Knows o)
    (hrow : row.terms = o.terms) : (s.updateOrder row).terms = s.terms := by
  have hid : row.id = o.id := congrArg OrderTerms.id hrow
  unfold terms updateOrder
  rw [List.map_map]
  refine List.map_congr_left fun q hq => ?_
  show (if q.id = row.id then row else q).terms = q.terms
  by_cases hsame : q.id = row.id
  · rw [if_pos hsame, hrow]
    exact (h q.terms (List.mem_map_of_mem hq) (hsame.trans hid)).symm
  · rw [if_neg hsame]

theorem terms_savePosition {s s' : LedgerStore} {row : PaperPositionRow}
    (h : s.savePosition row = some s') : s'.terms = s.terms := by
  obtain ⟨_, -, rfl⟩ := Option.map_eq_some_iff.mp h
  rfl

end LedgerStore

/-! ### Every operation of the lifecycle keeps the terms -/

namespace Ledger

variable {l : Ledger} {order : PaperOrderRow}

theorem terms_cancelPending (h : l.store.Knows order) :
    (l.cancelPending order).2.store.terms = l.store.terms := by
  unfold cancelPending
  split
  · exact LedgerStore.terms_updateOrder h rfl
  · rfl

/-- Cancelling one known order after the other. -/
theorem terms_cancelAll (l : Ledger) (orders : List PaperOrderRow)
    (h : ∀ o ∈ orders, l.store.Knows o) :
    (orders.foldl (fun l o => (l.cancelPending o).2) l).store.terms = l.store.terms := by
  refine List.foldlRecOn (motive := fun l' : Ledger => l'.store.terms = l.store.terms) _ _ rfl ?_
  intro l' hl' o ho
  exact (terms_cancelPending ((h o ho).of_terms hl')).trans hl'

variable [Digest]

theorem terms_fillPending (h : l.store.Knows order) (price : ℚ) (ts : Time) :
    (l.fillPending order price ts).2.store.terms = l.store.terms := by
  unfold fillPending
  split
  · rfl
  · split
    · rfl
    · simp only
      split
      · rfl
      · split
        · rfl
        · rename_i hsave
          exact (LedgerStore.terms_savePosition hsave).trans (LedgerStore.terms_updateOrder h rfl)

theorem terms_applyAction (symbol : Symbol) (bar : Bar) (run : UnitBarResult × Ledger)
    (act : PendingCandidate × FillAction) (h : run.2.store.Knows act.1.order) :
    (applyAction symbol bar run act).2.store.terms = run.2.store.terms := by
  obtain ⟨c, action⟩ := act
  cases action with
  | superseded => exact terms_cancelPending h
  | fill => exact terms_fillPending h bar.openPrice bar.ts
  | flip =>
      have hclosed : (run.2.closeOnSignal symbol bar.openPrice bar.ts).2.store.terms
          = run.2.store.terms := congrArg (·.map (·.terms)) (run.2.persist_keeps _).1
      exact (terms_fillPending (h.of_terms hclosed) bar.openPrice bar.ts).trans hclosed

theorem terms_applyActions (symbol : Symbol) (bar : Bar) (run : UnitBarResult × Ledger)
    (acts : List (PendingCandidate × FillAction))
    (h : ∀ act ∈ acts, run.2.store.Knows act.1.order) :
    (acts.foldl (applyAction symbol bar) run).2.store.terms = run.2.store.terms := by
  refine List.foldlRecOn (motive := fun run' : UnitBarResult × Ledger =>
    run'.2.store.terms = run.2.store.terms) _ _ rfl ?_
  intro run' hrun' act hact
  exact (terms_applyAction symbol bar run' act ((h act hact).of_terms hrun')).trans hrun'

/-- **A bar keeps the terms of all orders.** -/
theorem terms_processUnitBar (interval : Option ℕ) (l : Ledger) (symbol : Symbol)
    (timeframe : Timeframe) (bar : Bar) (candidates : List PendingCandidate)
    (h : ∀ c ∈ candidates, l.store.Knows c.order) :
    (processUnitBar interval l symbol timeframe bar candidates).2.store.terms = l.store.terms := by
  unfold LedgerStore.terms
  rw [processUnitBar_opened interval l symbol timeframe bar candidates]
  exact terms_applyActions symbol bar _ _ fun act hact =>
    h act.1 (mem_candidatesForBar.mp (arbitrateFills_mem hact)).1

end Ledger

end ForexAi
