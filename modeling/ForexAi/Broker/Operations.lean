/-
The operations of a ledger broker, one call at a time.

A bar is a fixed pattern of calls; here they come in any order.  `InStep` is what every
call keeps: the in-memory positions are the open rows, and the in-memory queue holds the
pending rows.  A call names an order by its id, and works on the row the store has.
-/
import ForexAi.Broker.Live
import ForexAi.Broker.Queue

namespace ForexAi

/-- The row of an order. -/
def LedgerStore.order (s : LedgerStore) (id : OrderId) : Option PaperOrderRow :=
  s.orders.find? fun o => decide (o.id = id)

theorem LedgerStore.mem_of_order {s : LedgerStore} {id : OrderId} {o : PaperOrderRow}
    (h : s.order id = some o) : o ∈ s.orders ∧ o.id = id :=
  ⟨List.mem_of_find?_eq_some h, by simpa using List.find?_some h⟩

/-- A call of `LedgerBroker`. -/
inductive LedgerOp where
  | submit (r : Submission)
  | fill (id : OrderId) (openPrice : ℚ) (ts : Time)
  | cancel (id : OrderId)
  | evaluateExit (symbol : Symbol) (close : ℚ) (ts : Time)
  | closeOnSignal (symbol : Symbol) (price : ℚ) (ts : Time)
  | restore

namespace LedgerOp

variable [Digest]

/-- The ledger after a call. -/
def step (l : Ledger) : LedgerOp → Ledger
  | .submit r => r.submit l
  | .fill id openPrice ts =>
      (l.store.order id).elim l fun order => (l.fillPending order openPrice ts).2
  | .cancel id => (l.store.order id).elim l fun order => (l.cancelPending order).2
  | .evaluateExit symbol close ts => (l.evaluateExit symbol close ts).2
  | .closeOnSignal symbol price ts => (l.closeOnSignal symbol price ts).2
  | .restore => l.restoreState

omit [Digest] in
/-- A store call fails: the database refuses the row of a submission that passed the broker's
guards, or the position of a fill that did. -/
def refused (l : Ledger) : LedgerOp → Bool
  | .submit r =>
      if h : r.direction = .flat ∨ r.units ≤ 0 then false
      else
        !((l.openFor r.symbol).any fun pos => decide (pos.side = r.direction)) &&
          !(r.decisionId.isSome && l.broker.pending.any fun o =>
            decide (o.decisionId = r.decisionId)) &&
          l.store.refusesOrder (r.row l h)
  | .fill id _ _ =>
      (l.store.order id).any fun order => decide (order.status = .pending) &&
        (l.openFor order.symbol).isNone && (l.store.positions.openRow order.symbol).isSome
  | _ => false

/-- A call; `none` where a store call fails, which raises. -/
def call (l : Ledger) (op : LedgerOp) : Option Ledger :=
  if op.refused l then none else some (step l op)

/-- Calls one after the other, none of which may fail. -/
def calls (l : Ledger) (ops : List LedgerOp) : Option Ledger := ops.foldlM call l

theorem run_of_calls {l l' : Ledger} {ops : List LedgerOp} (h : calls l ops = some l') :
    l' = Runs.run step l ops := by
  induction ops generalizing l with
  | nil => exact (Option.some.inj h).symm
  | cons op rest ih =>
      obtain ⟨next, hnext, hrest⟩ := Option.bind_eq_some_iff.mp h
      unfold call at hnext
      split at hnext
      · exact absurd hnext (by simp)
      · rw [ih hrest, ← Option.some.inj hnext]
        rfl

theorem calls_of_accepted {l : Ledger} {ops : List LedgerOp}
    (h : Runs.Along step (fun l op => op.refused l = false) l ops) :
    calls l ops = some (Runs.run step l ops) := by
  induction ops generalizing l with
  | nil => rfl
  | cons op rest ih =>
      have hcall : call l op = some (step l op) := by
        unfold call
        rw [h.1]
        rfl
      show (call l op).bind (fun next => rest.foldlM call next) = _
      rw [hcall]
      exact ih h.2

end LedgerOp

/-! ### Book and store in step -/

/-- The in-memory side shows what the tables show. -/
structure Ledger.InStep (l : Ledger) : Prop where
  positions : l.book.Agrees
  pending : ∀ o, o ∈ l.broker.pending ↔ o ∈ l.store.listPendingOrders

/-- A row added at the end of the table. -/
theorem LedgerStore.mem_listPendingOrders_concat {s s' : LedgerStore} {row : PaperOrderRow}
    (horders : s'.orders = s.orders ++ [row]) (hpending : row.status = .pending)
    (o : PaperOrderRow) : o ∈ s'.listPendingOrders ↔ o ∈ s.listPendingOrders ∨ o = row := by
  rw [mem_listPendingOrders, mem_listPendingOrders, horders, List.mem_append, List.mem_singleton]
  constructor
  · rintro ⟨hmem | rfl, hstatus⟩
    · exact Or.inl ⟨hmem, hstatus⟩
    · exact Or.inr rfl
  · rintro (⟨hmem, hstatus⟩ | rfl)
    · exact ⟨Or.inl hmem, hstatus⟩
    · exact ⟨Or.inr rfl, hpending⟩

namespace Ledger

theorem inStep_restoreState (l : Ledger) : l.restoreState.InStep := ⟨rfl, fun _ => Iff.rfl⟩

theorem inStep_submit {l : Ledger} (h : l.InStep) (r : Submission) : (r.submit l).InStep := by
  rcases r.submit_cases l with hsame | ⟨hshape, store, hsave, hsubmit⟩
  · rw [hsame]
    exact h
  · have horders := (LedgerStore.saveOrder_some hsave).2.1
    refine ⟨?_, fun o => ?_⟩
    · rw [book_submit]
      exact h.positions
    · rw [hsubmit]
      show o ∈ l.broker.pending ++ [r.row l hshape] ↔ o ∈ store.listPendingOrders
      rw [List.mem_append, List.mem_singleton, h.pending,
        LedgerStore.mem_listPendingOrders_concat horders rfl]

/-- An order that leaves the table's queue leaves the one in memory too. -/
theorem inStep_settle {l l' : Ledger} (h : l.InStep) {id : OrderId} (hbook : l'.book.Agrees)
    (hqueue : l'.broker.pending = l.broker.pending.filter fun o => decide (o.id ≠ id))
    (htable : ∀ o, o ∈ l'.store.listPendingOrders ↔ o ∈ l.store.listPendingOrders ∧ o.id ≠ id) :
    l'.InStep := by
  refine ⟨hbook, fun o => ?_⟩
  rw [hqueue, htable, List.mem_filter, h.pending, decide_eq_true_eq]

theorem inStep_cancelPending {l : Ledger} (h : l.InStep) (order : PaperOrderRow) :
    (l.cancelPending order).2.InStep := by
  have hbook : (l.cancelPending order).2.book.Agrees := by
    rw [book_cancelPending]
    exact h.positions
  by_cases hpending : l.store.statusOf order.id = some .pending
  · have hcancel : (l.cancelPending order).2 = { l.dropPending order.id with
        store := l.store.updateOrder { order with status := .cancelled } } := by
      unfold cancelPending
      rw [if_pos hpending]
    refine inStep_settle h hbook (by rw [hcancel]; rfl) fun o => ?_
    rw [hcancel]
    exact LedgerStore.mem_listPendingOrders_cancelled l.store order o
  · unfold cancelPending
    rw [if_neg hpending]
    exact h

/-- A persisted close touches no order. -/
theorem inStep_persist {l : Ledger} (h : l.InStep) {closed : Option Trade × PaperBroker}
    (hbook : (l.book.persist closed).Agrees) : (l.persist closed).2.InStep := by
  refine ⟨?_, fun o => ?_⟩
  · rw [book_persist]
    exact hbook
  · rw [(l.persist_keeps closed).2.2.2, h.pending, l.listPendingOrders_persist closed]

variable [Digest]

theorem inStep_fillPending {l : Ledger} (h : l.InStep) {order : PaperOrderRow}
    (hrow : order ∈ l.store.orders) (price : ℚ) (ts : Time) :
    (l.fillPending order price ts).2.InStep := by
  by_cases hpending : l.store.statusOf order.id = some .pending
  · cases hopen : l.openFor order.symbol with
    | some pos =>
        unfold fillPending
        rw [if_neg (not_not.mpr hpending), if_pos (by rw [hopen]; rfl)]
        exact h
    | none =>
        have hstatus : order.status = .pending := by
          rw [LedgerStore.statusOf_of_mem hrow] at hpending
          exact Option.some.inj hpending
        obtain ⟨-, hbook, htable, -⟩ := fill_pending_iff h.positions
          (LedgerStore.mem_listPendingOrders.mpr ⟨hrow, hstatus⟩) hopen price ts
        obtain ⟨row, filled, store, hfill, -⟩ := fillPending_eq h.positions hpending hopen price ts
        refine inStep_settle h ?_ (by rw [hfill]; rfl) htable
        rw [hbook]
        exact Book.agrees_fill h.positions price ts hopen
  · unfold fillPending
    rw [if_pos hpending]
    exact h

omit [Digest] in
/-- In step, a fill is refused in memory before the unique index could refuse it. -/
theorem fill_not_refused {l : Ledger} (h : l.InStep) (id : OrderId) (price : ℚ) (ts : Time) :
    (LedgerOp.fill id price ts).refused l = false := by
  show (l.store.order id).any _ = false
  cases l.store.order id with
  | none => rfl
  | some order =>
      have hsame : l.openFor order.symbol
          = (l.store.positions.openRow order.symbol).map (·.toPosition) := by
        rw [← PositionTable.openFor_openPositions]
        exact congrArg (PositionSet.openFor · order.symbol) h.positions
      simp only [Option.any_some, hsame]
      cases l.store.positions.openRow order.symbol <;> simp

theorem inStep_evaluateExit {l : Ledger} (h : l.InStep) (symbol : Symbol) (close : ℚ)
    (ts : Time) : (l.evaluateExit symbol close ts).2.InStep := by
  refine inStep_persist h ?_
  rcases l.broker.paper.evaluateExit_cases symbol close ts with hnone | ⟨pos, price,
    reason, -, -, hsome⟩
  · rw [hnone]
    exact Book.agrees_persist_none h.positions
  · rw [hsome]
    exact Book.agrees_persist_close h.positions pos price reason ts

theorem inStep_closeOnSignal {l : Ledger} (h : l.InStep) (symbol : Symbol) (price : ℚ)
    (ts : Time) : (l.closeOnSignal symbol price ts).2.InStep :=
  inStep_persist h (Book.agrees_closeOnSignal h.positions symbol price ts)

/-- **Every call keeps the two sides in step.** -/
theorem inStep_step {l : Ledger} (h : l.InStep) (op : LedgerOp) : (LedgerOp.step l op).InStep := by
  cases op with
  | submit r => exact inStep_submit h r
  | fill id openPrice ts =>
      show ((l.store.order id).elim l _).InStep
      cases horder : l.store.order id with
      | none => exact h
      | some order => exact inStep_fillPending h (LedgerStore.mem_of_order horder).1 openPrice ts
  | cancel id =>
      show ((l.store.order id).elim l _).InStep
      cases l.store.order id with
      | none => exact h
      | some order => exact inStep_cancelPending h order
  | evaluateExit symbol close ts => exact inStep_evaluateExit h symbol close ts
  | closeOnSignal symbol price ts => exact inStep_closeOnSignal h symbol price ts
  | restore => exact inStep_restoreState l

end Ledger

end ForexAi
