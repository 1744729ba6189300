/-
The account without its order queue.

A bar does two unrelated things to a ledger: it settles orders, and it moves the
account.  `Book` is the account alone (the paper broker, the positions table, the
snapshots), and `Book.processBar` is what a bar does to it once it is known which
order acts.  `processUnitBar_book` is the refinement: the ledger's bar is the book's
bar, with the acting order the arbitration chose, and `processUnitBar_pending` says
that what leaves the queue is exactly the orders due at the bar.

The condition on the caller is `Due`: the candidates of the bar are pending orders of
the symbol, each once.  `due_unitCandidates` gives it for the candidates a unit pass
loads.
-/
import ForexAi.Broker.Lifecycle

namespace ForexAi

/-- A ledger without its orders. -/
structure Book where
  paper : PaperBroker
  table : PositionTable
  snapshots : List AccountSnapshotRow

/-- The account of a ledger. -/
def Ledger.book (l : Ledger) : Book where
  paper := l.broker.paper
  table := l.store.positions
  snapshots := l.store.snapshots

theorem Ledger.paper_of_book {l : Ledger} {b : Book} (h : l.book = b) :
    l.broker.paper = b.paper := congrArg Book.paper h

theorem Ledger.snapshots_of_book {l : Ledger} {b : Book} (h : l.book = b) :
    l.store.snapshots = b.snapshots := congrArg Book.snapshots h

theorem Ledger.openFor_of_book {l : Ledger} {b : Book} (h : l.book = b) (symbol : Symbol) :
    l.openFor symbol = b.paper.positions.openFor symbol :=
  congrArg (fun b : Book => b.paper.positions.openFor symbol) h

/-! ### What a fill makes of a paper broker -/

namespace PaperBroker

variable [Digest]

/-- The position a filled order opens. -/
def filledPosition (b : PaperBroker) (order : PaperOrderRow) (price : ℚ) (ts : Time) :
    Position where
  symbol := order.symbol
  timeframe := order.timeframe
  units := order.units
  entryPrice := price
  entryTs := ts
  side := order.side
  stopLoss := order.stopLoss
  takeProfit := order.takeProfit
  costs := (b.reseed order.seed).fillCost order.symbol order.side order.units price

/-- The broker after an order is filled. -/
def fillOrder (b : PaperBroker) (order : PaperOrderRow) (price : ℚ) (ts : Time) : PaperBroker :=
  (b.reseed order.seed).enterAtNextOpen order.symbol order.timeframe order.side price ts
    order.stopLoss order.takeProfit (some order.units)

/-- An order is a side and a positive size, so on a free symbol it always fills. -/
theorem fillOrder_eq {b : PaperBroker} {order : PaperOrderRow} (price : ℚ) (ts : Time)
    (hfree : b.positions.openFor order.symbol = none) :
    b.fillOrder order price ts =
      { b.reseed order.seed with
        cash := b.cash - (b.filledPosition order price ts).costs
        lastMark := Function.update b.lastMark order.symbol (some price)
        positions := b.positions ++ [b.filledPosition order price ts] } := by
  have hskip : ¬ (order.side = .flat ∨ order.units ≤ 0) := by
    rintro (hflat | hle)
    · exact order.side_ck hflat
    · exact absurd order.units_pos (not_lt.mpr hle)
  have hopen : ¬ ((b.reseed order.seed).positions.openFor order.symbol).isSome = true := by
    show ¬ (b.positions.openFor order.symbol).isSome = true
    rw [hfree]
    simp
  unfold fillOrder enterAtNextOpen
  simp only [if_neg hskip, if_neg hopen]
  rfl

theorem fillOrder_positions {b : PaperBroker} {order : PaperOrderRow} (price : ℚ) (ts : Time)
    (hfree : b.positions.openFor order.symbol = none) :
    (b.fillOrder order price ts).positions
      = b.positions ++ [b.filledPosition order price ts] := by
  rw [fillOrder_eq price ts hfree]

end PaperBroker

/-! ### The operations of a book -/

namespace Book

/-- The in-memory positions are the open rows. -/
def Agrees (b : Book) : Prop := b.paper.positions = b.table.openPositions

/-- The latest snapshot. -/
def latest (b : Book) : Option AccountSnapshotRow := newest b.snapshots

/-- The paper broker rebuilt from the rest. -/
def restore (b : Book) : Book :=
  { b with
    paper :=
      { b.paper.adopt b.latest with
        positions := b.table.openPositions
        lastMark := entryMarks b.table.openRows
        trades := b.table.closedTrades.insertionSort LedgerStore.EarlierExit } }

/-- The trade of a broker call into the table, if there was one. -/
def persist (b : Book) (closed : Option Trade × PaperBroker) : Book :=
  match closed.1 with
  | none => { b with paper := closed.2 }
  | some trade => { b with paper := closed.2, table := b.table.close trade }

variable [Digest]

def evaluateExit (b : Book) (symbol : Symbol) (close : ℚ) (ts : Time) : Book :=
  b.persist (b.paper.evaluateExit symbol close ts)

def closeOnSignal (b : Book) (symbol : Symbol) (price : ℚ) (ts : Time) : Book :=
  b.persist (b.paper.closeOnSignal symbol price ts)

/-- Fill an order; on a table that has the symbol open, nothing. -/
def fill (b : Book) (order : PaperOrderRow) (price : ℚ) (ts : Time) : Book :=
  match b.table.insert (.ofPosition order.id (b.paper.filledPosition order price ts)) with
  | none => b
  | some table => { b with paper := b.paper.fillOrder order price ts, table }

omit [Digest] in
def markPosition (b : Book) (symbol : Symbol) (price : ℚ) : Book :=
  { b with paper := b.paper.markPosition symbol price }

omit [Digest] in
/-- The row a snapshot writes. -/
def snapshotRow (b : Book) (ts : Time) : AccountSnapshotRow where
  ts := ts
  cash := b.paper.cash
  equity := b.paper.totalEquity
  openPnl := b.paper.totalEquity - b.paper.cash
  realizedPnl := (b.paper.trades.map (·.netPnl)).sum
  peakEquity := (b.paper.state ts).2.peakEquity
  drawdownPct := (b.paper.state ts).2.maxDrawdownPct

omit [Digest] in
def snapshot (b : Book) (ts : Time) : Book :=
  { b with paper := (b.paper.state ts).2, snapshots := b.snapshots ++ [b.snapshotRow ts] }

/-- The acting order at the open of the bar: close what is open, then fill. -/
def actAtOpen (b : Book) (symbol : Symbol) (bar : Bar) (acting : Option PaperOrderRow) : Book :=
  match acting with
  | none => b
  | some order =>
      if (b.paper.positions.openFor symbol).isSome then
        (b.closeOnSignal symbol bar.openPrice bar.ts).fill order bar.openPrice bar.ts
      else b.fill order bar.openPrice bar.ts

/-- The bar up to its mark: what is left is whether a snapshot is written. -/
def settleBar (b : Book) (symbol : Symbol) (bar : Bar) (acting : Option PaperOrderRow) : Book :=
  ((b.restore.actAtOpen symbol bar acting).evaluateExit symbol bar.close bar.ts).markPosition
    symbol bar.close

omit [Digest] in
/-- The bar has something to write: the symbol is open, or an order acts on it. -/
def touched (b : Book) (symbol : Symbol) (acting : Option PaperOrderRow) : Bool :=
  (b.table.openRow symbol).isSome || acting.isSome

omit [Digest] in
/-- `_snapshot_due`. -/
def snapshotDue (b : Book) (interval : Option ℕ) (ts : Time) : Bool :=
  match b.latest with
  | none => true
  | some latest =>
      !(decide (ts ≤ latest.ts) || interval.any fun n => ts < latest.ts + seconds n)

/-- What one bar of a symbol does to the account. -/
def processBar (interval : Option ℕ) (b : Book) (symbol : Symbol) (bar : Bar)
    (acting : Option PaperOrderRow) : Book :=
  let settled := b.settleBar symbol bar acting
  if b.touched symbol acting = true ∧ b.snapshotDue interval bar.ts = true then
    settled.snapshot bar.ts
  else settled

/-! ### The two sides stay in step -/

omit [Digest] in
theorem agrees_restore (b : Book) : b.restore.Agrees := rfl

omit [Digest] in
theorem agrees_persist_none {b : Book} (h : b.Agrees) : (b.persist (none, b.paper)).Agrees := h

theorem agrees_persist_close {b : Book} (h : b.Agrees) (pos : Position) (price : ℚ)
    (reason : ExitReason) (ts : Time) :
    (b.persist (some (b.paper.closePosition pos price reason ts).1,
      (b.paper.closePosition pos price reason ts).2)).Agrees := by
  show PositionSet.close b.paper.positions pos.symbol
    = (b.table.close (b.paper.closePosition pos price reason ts).1).openPositions
  rw [PositionTable.close_openPositions, ← h]
  rfl

theorem agrees_closeOnSignal {b : Book} (h : b.Agrees) (symbol : Symbol) (price : ℚ)
    (ts : Time) : (b.closeOnSignal symbol price ts).Agrees := by
  unfold closeOnSignal
  cases hpos : b.paper.positions.openFor symbol with
  | none =>
      rw [PaperBroker.closeOnSignal_none hpos]
      exact agrees_persist_none h
  | some pos =>
      rw [PaperBroker.closeOnSignal_some hpos]
      exact agrees_persist_close h pos price .signal ts

/-- On a free symbol a fill appends one position to both sides. -/
theorem fill_eq {b : Book} (h : b.Agrees) {order : PaperOrderRow} (price : ℚ) (ts : Time)
    (hfree : b.paper.positions.openFor order.symbol = none) :
    ∃ table, b.table.insert (.ofPosition order.id (b.paper.filledPosition order price ts))
        = some table ∧
      table.rows = b.table.rows ++
        [.ofPosition order.id (b.paper.filledPosition order price ts)] ∧
      b.fill order price ts = { b with paper := b.paper.fillOrder order price ts, table } := by
  have hrow : b.table.openPositions.openFor
      (PaperPositionRow.ofPosition order.id (b.paper.filledPosition order price ts)).symbol
        = none := by
    rw [← h]
    exact hfree
  obtain ⟨table, hins, hrows⟩ := PositionTable.insert_eq hrow
  refine ⟨table, hins, hrows, ?_⟩
  unfold fill
  rw [hins]

theorem agrees_fill {b : Book} (h : b.Agrees) {order : PaperOrderRow} (price : ℚ) (ts : Time)
    (hfree : b.paper.positions.openFor order.symbol = none) :
    (b.fill order price ts).Agrees := by
  obtain ⟨table, -, hrows, heq⟩ := fill_eq h price ts hfree
  rw [heq]
  show (b.paper.fillOrder order price ts).positions = table.openPositions
  rw [PaperBroker.fillOrder_positions price ts hfree,
    PositionTable.insert_openPositions hrows rfl, h]
  rfl

/-- **What the close and the fill keep, the open of a bar keeps.** -/
theorem actAtOpen_preserves {P : Book → Prop} {b : Book} {symbol : Symbol} {bar : Bar}
    {acting : Option PaperOrderRow} (hstart : P b)
    (hclose : P (b.closeOnSignal symbol bar.openPrice bar.ts))
    (hfill : ∀ order, acting = some order → ∀ c : Book, P c →
      P (c.fill order bar.openPrice bar.ts)) :
    P (b.actAtOpen symbol bar acting) := by
  unfold actAtOpen
  cases acting with
  | none => exact hstart
  | some order =>
      simp only
      split
      · exact hfill order rfl _ hclose
      · exact hfill order rfl b hstart

/-! ### What a bar leaves of the snapshots -/

theorem fill_snapshots (b : Book) (order : PaperOrderRow) (price : ℚ) (ts : Time) :
    (b.fill order price ts).snapshots = b.snapshots := by
  unfold fill
  split <;> rfl

omit [Digest] in
theorem persist_paper (b : Book) (closed : Option Trade × PaperBroker) :
    (b.persist closed).paper = closed.2 := by
  unfold persist
  split <;> rfl

omit [Digest] in
theorem persist_snapshots (b : Book) (closed : Option Trade × PaperBroker) :
    (b.persist closed).snapshots = b.snapshots := by
  unfold persist
  split <;> rfl

theorem actAtOpen_snapshots (b : Book) (symbol : Symbol) (bar : Bar)
    (acting : Option PaperOrderRow) :
    (b.actAtOpen symbol bar acting).snapshots = b.snapshots :=
  actAtOpen_preserves (P := fun c => c.snapshots = b.snapshots) rfl (persist_snapshots b _)
    fun order _ c hc => (fill_snapshots c order _ _).trans hc

theorem settleBar_snapshots (b : Book) (symbol : Symbol) (bar : Bar)
    (acting : Option PaperOrderRow) : (b.settleBar symbol bar acting).snapshots = b.snapshots := by
  show ((b.restore.actAtOpen symbol bar acting).persist _).snapshots = b.snapshots
  rw [persist_snapshots, actAtOpen_snapshots]
  rfl

omit [Digest] in
/-- A snapshot that is due becomes the latest one. -/
theorem latest_of_due {b : Book} {interval : Option ℕ} (row : AccountSnapshotRow)
    (hdue : b.snapshotDue interval row.ts = true) : newest (b.snapshots ++ [row]) = some row := by
  refine newest_of_later fun latest hlatest => ?_
  unfold snapshotDue Book.latest at hdue
  rw [hlatest] at hdue
  by_contra hc
  simp [not_lt.mp hc] at hdue

theorem processBar_writes {interval : Option ℕ} {b : Book} {symbol : Symbol} {bar : Bar}
    {acting : Option PaperOrderRow}
    (h : b.touched symbol acting = true ∧ b.snapshotDue interval bar.ts = true) :
    b.processBar interval symbol bar acting
      = (b.settleBar symbol bar acting).snapshot bar.ts := by
  unfold processBar
  rw [if_pos h]

theorem processBar_silent {interval : Option ℕ} {b : Book} {symbol : Symbol} {bar : Bar}
    {acting : Option PaperOrderRow}
    (h : ¬ (b.touched symbol acting = true ∧ b.snapshotDue interval bar.ts = true)) :
    b.processBar interval symbol bar acting = b.settleBar symbol bar acting := by
  unfold processBar
  rw [if_neg h]

/-! ### What a bar does to the table -/

theorem touchedAt_evaluateExit (b : Book) (symbol : Symbol) (close : ℚ) (ts : Time) :
    b.table.TouchedAt symbol ts (b.evaluateExit symbol close ts).table := by
  unfold evaluateExit
  rcases b.paper.evaluateExit_cases symbol close ts with heq | ⟨pos, price, reason, hpos, -, heq⟩
  · rw [heq]
    exact PositionTable.TouchedAt.refl symbol ts b.table
  · rw [heq, ← PositionSet.openFor_symbol hpos]
    exact b.table.touchedAt_close (b.paper.closePosition pos price reason ts).1

theorem touchedAt_closeOnSignal (b : Book) (symbol : Symbol) (price : ℚ) (ts : Time) :
    b.table.TouchedAt symbol ts (b.closeOnSignal symbol price ts).table := by
  unfold closeOnSignal
  cases hpos : b.paper.positions.openFor symbol with
  | none =>
      rw [PaperBroker.closeOnSignal_none hpos]
      exact PositionTable.TouchedAt.refl symbol ts b.table
  | some pos =>
      rw [PaperBroker.closeOnSignal_some hpos, ← PositionSet.openFor_symbol hpos]
      exact b.table.touchedAt_close (b.paper.closePosition pos price .signal ts).1

theorem touchedAt_fill (b : Book) (order : PaperOrderRow) (price : ℚ) (ts : Time) :
    b.table.TouchedAt order.symbol ts (b.fill order price ts).table := by
  unfold fill
  split
  · exact PositionTable.TouchedAt.refl order.symbol ts b.table
  · rename_i table hins
    exact PositionTable.touchedAt_insert (PositionTable.rows_of_insert hins) rfl

/-- **What a bar does to the table.**  Rows of its symbol, entered or closed at its stamp. -/
theorem touchedAt_processBar (interval : Option ℕ) (b : Book) {symbol : Symbol} (bar : Bar)
    {acting : Option PaperOrderRow} (hacting : ∀ o, acting = some o → o.symbol = symbol) :
    b.table.TouchedAt symbol bar.ts (b.processBar interval symbol bar acting).table := by
  have htable : (b.processBar interval symbol bar acting).table
      = (b.settleBar symbol bar acting).table := by
    unfold processBar
    simp only
    split <;> rfl
  have hact : b.table.TouchedAt symbol bar.ts (b.restore.actAtOpen symbol bar acting).table := by
    refine actAtOpen_preserves (P := fun c => b.table.TouchedAt symbol bar.ts c.table)
      (PositionTable.TouchedAt.refl symbol bar.ts b.table)
      (touchedAt_closeOnSignal b.restore symbol bar.openPrice bar.ts) fun order horder c hc => ?_
    obtain rfl := hacting order horder
    exact hc.trans (touchedAt_fill c order bar.openPrice bar.ts)
  rw [htable]
  exact hact.trans (touchedAt_evaluateExit _ symbol bar.close bar.ts)

end Book

/-! ### The ledger's operations on the book -/

namespace Ledger

theorem book_restoreState (l : Ledger) : l.restoreState.book = l.book.restore := rfl

theorem book_cancelPending (l : Ledger) (order : PaperOrderRow) :
    (l.cancelPending order).2.book = l.book := by
  unfold cancelPending
  split <;> rfl

theorem book_markPosition (l : Ledger) (symbol : Symbol) (price : ℚ) :
    (l.markPosition symbol price).book = l.book.markPosition symbol price := rfl

theorem book_equitySnapshot (l : Ledger) (ts : Time) :
    (l.equitySnapshot ts).2.book = l.book.snapshot ts := rfl

theorem book_persist (l : Ledger) (closed : Option Trade × PaperBroker) :
    (l.persist closed).2.book = l.book.persist closed := by
  obtain ⟨trade, paper⟩ := closed
  cases trade <;> rfl

variable [Digest]

theorem book_evaluateExit (l : Ledger) (symbol : Symbol) (close : ℚ) (ts : Time) :
    (l.evaluateExit symbol close ts).2.book = l.book.evaluateExit symbol close ts :=
  book_persist l _

theorem book_closeOnSignal (l : Ledger) (symbol : Symbol) (price : ℚ) (ts : Time) :
    (l.closeOnSignal symbol price ts).2.book = l.book.closeOnSignal symbol price ts :=
  book_persist l _

omit [Digest] in
/-- The row of an order that opened the position `pos` at `ts`. -/
def filledRow (order : PaperOrderRow) (pos : Position) (ts : Time) : PaperOrderRow :=
  { order with
    status := .filled
    filledPrice := some pos.entryPrice
    costs := pos.costs
    filledAt := some ts }

/-- What filling a pending order on a free symbol writes. -/
theorem fillPending_store {l : Ledger} (hagree : l.book.Agrees) {order : PaperOrderRow}
    (hpending : l.store.statusOf order.id = some .pending)
    (hfree : l.openFor order.symbol = none) (price : ℚ) (ts : Time) :
    ∃ store, ((l.store.updateOrder (filledRow order (l.broker.paper.filledPosition order price ts)
          ts)).savePosition (.ofPosition order.id (l.broker.paper.filledPosition order price ts)))
        = some store ∧
      l.fillPending order price ts
        = (some (.ofPosition order.id (l.broker.paper.filledPosition order price ts)),
          { (l.setPaper (l.broker.paper.fillOrder order price ts)).dropPending order.id with
            store }) ∧
      (l.fillPending order price ts).2.book = l.book.fill order price ts := by
  obtain ⟨table, hins, -, hbook⟩ := Book.fill_eq hagree price ts hfree
  have hpos : (l.broker.paper.fillOrder order price ts).positions.openFor order.symbol
      = some (l.broker.paper.filledPosition order price ts) := by
    rw [PaperBroker.fillOrder_positions price ts hfree]
    exact PositionSet.openFor_append_self hfree
  set pos := l.broker.paper.filledPosition order price ts with hposdef
  have hins' : (l.store.updateOrder (filledRow order pos ts)).positions.insert
      (.ofPosition order.id pos) = some table := hins
  have hsave : (l.store.updateOrder (filledRow order pos ts)).savePosition
      (.ofPosition order.id pos)
        = some { l.store.updateOrder (filledRow order pos ts) with positions := table } := by
    unfold LedgerStore.savePosition
    rw [hins']
    rfl
  have hfill : l.fillPending order price ts = (some (.ofPosition order.id pos),
      { (l.setPaper (l.broker.paper.fillOrder order price ts)).dropPending order.id with
        store := { l.store.updateOrder (filledRow order pos ts) with positions := table } }) := by
    have hopen : ¬ (l.openFor order.symbol).isSome = true := by rw [hfree]; simp
    unfold fillPending
    rw [if_neg (not_not.mpr hpending), if_neg hopen]
    unfold PaperBroker.fillOrder at hpos ⊢
    simp only [hpos]
    rw [show (l.store.updateOrder { order with
      status := .filled, filledPrice := some pos.entryPrice, costs := pos.costs,
      filledAt := some ts }).savePosition (.ofPosition order.id pos) = _ from hsave]
  refine ⟨_, hsave, hfill, ?_⟩
  rw [hfill, hbook]
  rfl

/-- **A pending order on a free symbol fills.**  The account moves as the book's, and the
order is written back as filled. -/
theorem fillPending_eq {l : Ledger} (hagree : l.book.Agrees) {order : PaperOrderRow}
    (hpending : l.store.statusOf order.id = some .pending)
    (hfree : l.openFor order.symbol = none) (price : ℚ) (ts : Time) :
    ∃ row filled store,
      l.fillPending order price ts = (some row,
        { (l.setPaper (l.broker.paper.fillOrder order price ts)).dropPending order.id with
          store }) ∧
      filled.id = order.id ∧ filled.status = .filled ∧
      (l.store.updateOrder filled).savePosition row = some store ∧
      (l.fillPending order price ts).2.book = l.book.fill order price ts := by
  obtain ⟨store, hsave, hfill, hbook⟩ := fillPending_store hagree hpending hfree price ts
  exact ⟨_, filledRow order _ ts, store, hfill, rfl, rfl, hsave, hbook⟩

end Ledger

end ForexAi
