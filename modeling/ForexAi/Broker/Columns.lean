/-
What the columns of the ledger keep.

A row goes into the tables with the numbers the broker computed, and comes back with the
decimals of its columns once it is read again: six for amounts and sizes, eight for prices
and the drawdown.  When that happens is not up to the ledger.  A session gives a row it still
holds back as it was written, another session does not, so at any moment any of the rows may
have been read again.

A row read again is the same row otherwise: ids, stamps and what is open stay (`order_id`,
`snapshot_ts`, `position_open`), which is what the constraints of the tables are about.
-/
import ForexAi.Broker.Live
import ForexAi.Lib.Rounding

namespace ForexAi

open Rounding

/-! ### Rows -/

/-- The account snapshot, as its columns keep it. -/
def AccountSnapshotRow.kept (r : AccountSnapshotRow) : AccountSnapshotRow where
  ts := r.ts
  cash := numeric 6 r.cash
  equity := numeric 6 r.equity
  openPnl := numeric 6 r.openPnl
  realizedPnl := numeric 6 r.realizedPnl
  peakEquity := numeric 6 r.peakEquity
  drawdownPct := numeric 8 r.drawdownPct

def Exit.kept (e : Exit) : Exit where
  price := numeric 8 e.price
  ts := e.ts
  reason := e.reason
  grossPnl := numeric 6 e.grossPnl
  netPnl := numeric 6 e.netPnl

/-- The position, as its columns keep it. -/
def PaperPositionRow.kept (r : PaperPositionRow) : PaperPositionRow where
  orderId := r.orderId
  symbol := r.symbol
  timeframe := r.timeframe
  side := r.side
  units := numeric 6 r.units
  entryPrice := numeric 8 r.entryPrice
  entryTs := r.entryTs
  stopLoss := r.stopLoss.map (numeric 8)
  takeProfit := r.takeProfit.map (numeric 8)
  costs := numeric 6 r.costs
  exit := r.exit.map (·.kept)

/-- The order, as its columns keep it; what is ordered has its six decimals already, so no size
comes to nothing. -/
def PaperOrderRow.kept (r : PaperOrderRow) : PaperOrderRow :=
  { r with
    units := if 0 < numeric 6 r.units then numeric 6 r.units else r.units
    requestedPrice := numeric 8 r.requestedPrice
    filledPrice := r.filledPrice.map (numeric 8)
    costs := numeric 6 r.costs
    stopLoss := r.stopLoss.map (numeric 8)
    takeProfit := r.takeProfit.map (numeric 8)
    units_pos := by
      split
      · assumption
      · exact r.units_pos }

/-! ### The tables -/

/-- Which rows are read again. -/
structure Reread where
  orders : PaperOrderRow → Bool
  positions : PaperPositionRow → Bool
  snapshots : AccountSnapshotRow → Bool

/-- Every row is, as in a new session. -/
def Reread.all : Reread := ⟨fun _ => true, fun _ => true, fun _ => true⟩

namespace Reread

variable (again : Reread)

def order (r : PaperOrderRow) : PaperOrderRow := if again.orders r then r.kept else r

def position (r : PaperPositionRow) : PaperPositionRow := if again.positions r then r.kept else r

def snapshot (r : AccountSnapshotRow) : AccountSnapshotRow :=
  if again.snapshots r then r.kept else r

@[simp] theorem order_id (r : PaperOrderRow) : (again.order r).id = r.id := by
  unfold order
  split <;> rfl

@[simp] theorem snapshot_ts (r : AccountSnapshotRow) : (again.snapshot r).ts = r.ts := by
  unfold snapshot
  split <;> rfl

@[simp] theorem position_symbol (r : PaperPositionRow) :
    (again.position r).symbol = r.symbol := by
  unfold position
  split <;> rfl

/-- A position that is read again is as open as it was. -/
theorem position_open {r : PaperPositionRow} : (again.position r).exit = none ↔ r.exit = none := by
  unfold position
  split
  · exact Option.map_eq_none_iff
  · exact Iff.rfl

theorem position_compatible {a b : PaperPositionRow} (h : a.Compatible b) :
    (again.position a).Compatible (again.position b) := by
  intro ha hb
  rw [position_symbol, position_symbol]
  exact h (again.position_open.mp ha) (again.position_open.mp hb)

/-- The tables after some rows were read again. -/
def store (s : LedgerStore) : LedgerStore where
  orders := s.orders.map again.order
  positions :=
    { rows := s.positions.rows.map again.position
      uq_open_symbol := List.pairwise_map.mpr
        (s.positions.uq_open_symbol.imp fun h => again.position_compatible h) }
  snapshots := s.snapshots.map again.snapshot
  decisions := s.decisions
  orders_pk := by
    rw [List.map_map, show (·.id) ∘ again.order = (·.id) from funext again.order_id]
    exact s.orders_pk

/-- The latest snapshot is the one it was. -/
theorem newest_snapshots (rows : List AccountSnapshotRow) :
    newest (rows.map again.snapshot) = (newest rows).map again.snapshot := by
  induction rows using List.reverseRecOn with
  | nil => rfl
  | append_singleton rows row ih =>
      rw [List.map_append, List.map_singleton, newest_concat, newest_concat, ih]
      cases newest rows with
      | none => rfl
      | some best =>
          simp only [Option.map_some, newer, snapshot_ts]
          split <;> rfl

end Reread

/-! ### Runs -/

/-- What happens to a live account whose rows may be read again. -/
inductive ColumnEvent where
  | live (e : LiveEvent)
  | reread (again : Reread)

namespace ColumnEvent

/-- The event is a processed bar. -/
def isBar : ColumnEvent → Bool
  | .live e => e.isBar
  | .reread _ => false

variable [Digest]

/-- The ledger after an event. -/
def step (cfg : LiveConfig) (l : Ledger) : ColumnEvent → Ledger
  | .live e => LiveEvent.step cfg l e
  | .reread again => { l with store := again.store l.store }

end ColumnEvent

/-- The ledger after a run. -/
def Ledger.columns [Digest] (cfg : LiveConfig) (l : Ledger) (events : List ColumnEvent) : Ledger :=
  Runs.run (ColumnEvent.step cfg) l events

end ForexAi
