/-
The tables of the paper ledger.

Orders, positions, account snapshots, and the decisions they refer to.  What the
database and the one writer never let in is part of the types: an order names a
side and a positive size, order ids are distinct, a symbol has at most one open
position.  A position row is open exactly when it has no exit.

Numbers are exact: the store gives back the values that were written.  What its columns make
of them once a row is read again is told in `Broker.Columns`.
-/
import ForexAi.Broker.Paper
import ForexAi.Lib.Newest
import Mathlib.Data.List.Sort
import Mathlib.Data.List.Nodup

namespace ForexAi

abbrev OrderId := ℕ

abbrev DecisionId := ℕ

/-! ### Rows -/

/-- `PaperOrderStatus`. -/
inductive OrderStatus where
  | pending | filled | cancelled | rejected
  deriving DecidableEq, Repr

/-- One order of the paper ledger. -/
structure PaperOrderRow where
  id : OrderId
  decisionId : Option DecisionId
  symbol : Symbol
  timeframe : Timeframe
  side : Direction
  status : OrderStatus
  units : ℚ
  requestedPrice : ℚ
  filledPrice : Option ℚ
  costs : ℚ
  stopLoss : Option ℚ
  takeProfit : Option ℚ
  seed : ℤ
  filledAt : Option Time
  createdAt : Time
  side_ck : side ≠ .flat
  units_pos : 0 < units

/-- What a position row gets when it is closed. -/
structure Exit where
  price : ℚ
  ts : Time
  reason : ExitReason
  grossPnl : ℚ
  netPnl : ℚ

/-- One simulated position; `OPEN` while it has no exit. -/
structure PaperPositionRow where
  orderId : OrderId
  symbol : Symbol
  timeframe : Timeframe
  side : Direction
  units : ℚ
  entryPrice : ℚ
  entryTs : Time
  stopLoss : Option ℚ
  takeProfit : Option ℚ
  costs : ℚ
  exit : Option Exit

/-- A point-in-time account snapshot. -/
structure AccountSnapshotRow where
  ts : Time
  cash : ℚ
  equity : ℚ
  openPnl : ℚ
  realizedPnl : ℚ
  peakEquity : ℚ
  drawdownPct : ℚ

/-- What the ledger reads of a sponsoring decision. -/
structure DecisionRef where
  bucketTs : Time
  validUntil : Time

namespace PaperPositionRow

/-- The in-memory position an open row is restored to. -/
def toPosition (r : PaperPositionRow) : Position where
  symbol := r.symbol
  timeframe := r.timeframe
  units := r.units
  entryPrice := r.entryPrice
  entryTs := r.entryTs
  side := r.side
  stopLoss := r.stopLoss
  takeProfit := r.takeProfit
  costs := r.costs

/-- The trade a closed row is restored to. -/
def toTrade (r : PaperPositionRow) : Option Trade :=
  r.exit.map fun e =>
    { symbol := r.symbol, timeframe := r.timeframe, side := r.side, units := r.units,
      entryTs := r.entryTs, entryPrice := r.entryPrice, exitTs := e.ts, exitPrice := e.price,
      grossPnl := e.grossPnl, costs := r.costs, netPnl := e.netPnl, exitReason := e.reason }

/-- The row of a freshly opened position. -/
def ofPosition (orderId : OrderId) (p : Position) : PaperPositionRow where
  orderId := orderId
  symbol := p.symbol
  timeframe := p.timeframe
  side := p.side
  units := p.units
  entryPrice := p.entryPrice
  entryTs := p.entryTs
  stopLoss := p.stopLoss
  takeProfit := p.takeProfit
  costs := p.costs
  exit := none

/-- The row after the round trip `t`. -/
def closeWith (r : PaperPositionRow) (t : Trade) : PaperPositionRow :=
  { r with
    costs := t.costs
    exit := some { price := t.exitPrice, ts := t.exitTs, reason := t.exitReason,
                   grossPnl := t.grossPnl, netPnl := t.netPnl } }

@[simp] theorem toPosition_ofPosition (orderId : OrderId) (p : Position) :
    (ofPosition orderId p).toPosition = p := rfl

@[simp] theorem toPosition_symbol (r : PaperPositionRow) : r.toPosition.symbol = r.symbol := rfl

/-- The row is `OPEN` and of the symbol. -/
def openOn (symbol : Symbol) (r : PaperPositionRow) : Bool :=
  decide (r.symbol = symbol) && r.exit.isNone

theorem openOn_iff {symbol : Symbol} {r : PaperPositionRow} :
    r.openOn symbol = true ↔ r.symbol = symbol ∧ r.exit = none := by
  simp [openOn]

theorem exit_isNone_eq_false {r : PaperPositionRow} (h : r.exit ≠ none) : r.exit.isNone = false :=
  Option.isNone_eq_false_iff.mpr (Option.isSome_iff_ne_none.mpr h)

/-- `uq_positions_open_symbol`: not two open rows of one symbol. -/
def Compatible (a b : PaperPositionRow) : Prop :=
  a.exit = none → b.exit = none → a.symbol ≠ b.symbol

end PaperPositionRow

/-! ### The positions table

Open rows and restored positions are two views of the table.  The unique index says of both
that a symbol is there at most once, so looking a symbol up gives the same in either.
-/

/-- The positions table, under its unique index. -/
structure PositionTable where
  rows : List PaperPositionRow
  uq_open_symbol : rows.Pairwise PaperPositionRow.Compatible

namespace PositionTable

/-- The open row of a symbol. -/
def openRow (t : PositionTable) (symbol : Symbol) : Option PaperPositionRow :=
  t.rows.find? (·.openOn symbol)

/-- The open rows. -/
def openRows (t : PositionTable) : List PaperPositionRow := t.rows.filter (·.exit.isNone)

/-- The open rows as in-memory positions. -/
def openPositions (t : PositionTable) : PositionSet := t.openRows.map (·.toPosition)

/-- The closed rows as trades, in the order they were opened in. -/
def closedTrades (t : PositionTable) : List Trade := t.rows.filterMap (·.toTrade)

/-- No open row of the new one's symbol: the insert passes the unique index. -/
private theorem insert_compatible {rows : List PaperPositionRow} {row : PaperPositionRow}
    (h : rows.Pairwise PaperPositionRow.Compatible)
    (hfree : rows.find? (·.openOn row.symbol) = none) :
    (rows ++ [row]).Pairwise PaperPositionRow.Compatible := by
  rw [List.pairwise_append]
  refine ⟨h, List.pairwise_singleton _ _, ?_⟩
  intro a ha b hb hopen _ hsym
  rw [List.mem_singleton.mp hb] at hsym
  have hnot := List.find?_eq_none.mp hfree a ha
  exact hnot (PaperPositionRow.openOn_iff.mpr ⟨hsym, hopen⟩)

/-- Insert a row; `none` when the unique index refuses it. -/
def insert (t : PositionTable) (row : PaperPositionRow) : Option PositionTable :=
  if h : t.openRow row.symbol = none then
    some { rows := t.rows ++ [row], uq_open_symbol := insert_compatible t.uq_open_symbol h }
  else none

/-- Close the symbol's open row in place. -/
def closeRow (symbol : Symbol) (t : Trade) : List PaperPositionRow → List PaperPositionRow
  | [] => []
  | r :: rest =>
      if r.openOn symbol = true then r.closeWith t :: rest else r :: closeRow symbol t rest

private theorem closeRow_compatible {symbol : Symbol} {t : Trade} {r : PaperPositionRow} :
    ∀ {rows : List PaperPositionRow}, (∀ b ∈ rows, r.Compatible b) →
      ∀ b ∈ closeRow symbol t rows, r.Compatible b := by
  intro rows
  induction rows with
  | nil => intro _ b hb; exact absurd hb (by simp [closeRow])
  | cons q rest ih =>
      intro h b hb
      unfold closeRow at hb
      split at hb
      · rcases List.mem_cons.mp hb with rfl | hb
        · intro _ hopen
          exact absurd hopen (by simp [PaperPositionRow.closeWith])
        · exact h b (List.mem_cons_of_mem q hb)
      · rcases List.mem_cons.mp hb with rfl | hb
        · exact h b List.mem_cons_self
        · exact ih (fun b hb => h b (List.mem_cons_of_mem q hb)) b hb

private theorem closeRow_pairwise {symbol : Symbol} {t : Trade} :
    ∀ {rows : List PaperPositionRow}, rows.Pairwise PaperPositionRow.Compatible →
      (closeRow symbol t rows).Pairwise PaperPositionRow.Compatible := by
  intro rows
  induction rows with
  | nil => intro h; exact h
  | cons r rest ih =>
      intro h
      obtain ⟨hhead, hrest⟩ := List.pairwise_cons.mp h
      unfold closeRow
      split
      · refine List.pairwise_cons.mpr ⟨?_, hrest⟩
        intro b _ hopen
        exact absurd hopen (by simp [PaperPositionRow.closeWith])
      · exact List.pairwise_cons.mpr ⟨closeRow_compatible hhead, ih hrest⟩

/-- Close the open row of the trade's symbol. -/
def close (t : PositionTable) (trade : Trade) : PositionTable where
  rows := closeRow trade.symbol trade t.rows
  uq_open_symbol := closeRow_pairwise t.uq_open_symbol

/-! #### Rows and positions -/

theorem openRow_spec {t : PositionTable} {symbol : Symbol} {r : PaperPositionRow}
    (h : t.openRow symbol = some r) : r ∈ t.rows ∧ r.symbol = symbol ∧ r.exit = none := by
  refine ⟨List.mem_of_find?_eq_some h, ?_⟩
  exact PaperPositionRow.openOn_iff.mp (List.find?_some h)

/-- The unique index, read as a lookup: an open row is the one its symbol finds. -/
theorem openRow_of_mem {t : PositionTable} {r : PaperPositionRow} (h : r ∈ t.rows)
    (hopen : r.exit = none) : t.openRow r.symbol = some r := by
  have hsymm : Std.Symm PaperPositionRow.Compatible :=
    ⟨fun _ _ hab ha hb hsym => hab hb ha hsym.symm⟩
  cases hrow : t.openRow r.symbol with
  | none =>
      exact absurd (PaperPositionRow.openOn_iff.mpr ⟨rfl, hopen⟩)
        (List.find?_eq_none.mp hrow r h)
  | some q =>
      obtain ⟨hq, hsym, hqopen⟩ := openRow_spec hrow
      by_cases hqr : q = r
      · rw [hqr]
      · exact absurd hsym (t.uq_open_symbol.forall hq h hqr hqopen hopen)

/-- Looking a symbol up among the restored positions is looking it up in the table. -/
theorem openFor_openPositions (t : PositionTable) (symbol : Symbol) :
    t.openPositions.openFor symbol = (t.openRow symbol).map (·.toPosition) := by
  unfold openPositions openRows openRow PositionSet.openFor
  induction t.rows with
  | nil => rfl
  | cons r rest ih =>
      by_cases hopen : r.exit = none
      · by_cases hsym : r.symbol = symbol
        · simp [PaperPositionRow.openOn, hopen, hsym]
        · simpa [PaperPositionRow.openOn, hopen, hsym] using ih
      · simpa [PaperPositionRow.openOn, PaperPositionRow.exit_isNone_eq_false hopen] using ih

theorem openRows_distinct (t : PositionTable) :
    t.openRows.Pairwise fun a b => a.symbol ≠ b.symbol := by
  refine (t.uq_open_symbol.filter _).imp_of_mem ?_
  intro a b ha hb hab
  exact hab (by simpa using (List.mem_filter.mp ha).2) (by simpa using (List.mem_filter.mp hb).2)

/-- The unique index, read on the restored positions. -/
theorem openPositions_distinct (t : PositionTable) :
    t.openPositions.Pairwise fun a b => a.symbol ≠ b.symbol :=
  List.pairwise_map.mpr t.openRows_distinct

theorem openRow_eq_none_iff (t : PositionTable) (symbol : Symbol) :
    t.openRow symbol = none ↔ t.openPositions.openFor symbol = none := by
  rw [openFor_openPositions, Option.map_eq_none_iff]

theorem insert_eq {t : PositionTable} {row : PaperPositionRow}
    (h : t.openPositions.openFor row.symbol = none) :
    ∃ t', t.insert row = some t' ∧ t'.rows = t.rows ++ [row] := by
  have hfree := (t.openRow_eq_none_iff row.symbol).mpr h
  refine ⟨⟨t.rows ++ [row], insert_compatible t.uq_open_symbol hfree⟩, ?_, rfl⟩
  unfold insert
  rw [dif_pos hfree]

/-- A row that passes the unique index comes last. -/
theorem rows_of_insert {t t' : PositionTable} {row : PaperPositionRow}
    (h : t.insert row = some t') : t'.rows = t.rows ++ [row] := by
  unfold insert at h
  split at h
  · rw [← Option.some.inj h]
  · exact absurd h (by simp)

theorem insert_openPositions {t t' : PositionTable} {row : PaperPositionRow}
    (h : t'.rows = t.rows ++ [row]) (hopen : row.exit = none) :
    t'.openPositions = t.openPositions ++ [row.toPosition] := by
  unfold openPositions openRows
  rw [h]
  simp [hopen]

/-- Closing a row closes the position it was restored to. -/
theorem close_openPositions (t : PositionTable) (trade : Trade) :
    (t.close trade).openPositions = t.openPositions.close trade.symbol := by
  unfold openPositions openRows PositionSet.close
  show ((closeRow trade.symbol trade t.rows).filter _).map _ = _
  induction t.rows with
  | nil => rfl
  | cons r rest ih =>
      unfold closeRow
      by_cases hopen : r.exit = none
      · by_cases hsym : r.symbol = trade.symbol
        · simp [PaperPositionRow.openOn, PaperPositionRow.closeWith, hopen, hsym]
        · simpa [PaperPositionRow.openOn, hopen, hsym] using ih
      · simpa [PaperPositionRow.openOn, PaperPositionRow.exit_isNone_eq_false hopen] using ih

/-- What is in the table after a close: the row that was open, with its exit, and the
other rows as they were. -/
theorem mem_close {t : PositionTable} {trade : Trade} {r : PaperPositionRow}
    (h : r ∈ (t.close trade).rows) :
    r ∈ t.rows ∨ ∃ q, t.openRow trade.symbol = some q ∧ r = q.closeWith trade := by
  unfold openRow
  revert h
  show r ∈ closeRow trade.symbol trade t.rows → _
  induction t.rows with
  | nil => intro h'; exact Or.inl h'
  | cons q rest ih =>
      intro h'
      unfold closeRow at h'
      by_cases hq : q.openOn trade.symbol = true
      · rw [if_pos hq] at h'
        rw [List.find?_cons_of_pos hq]
        rcases List.mem_cons.mp h' with rfl | hr
        · exact Or.inr ⟨q, rfl, rfl⟩
        · exact Or.inl (List.mem_cons_of_mem q hr)
      · rw [if_neg hq] at h'
        rw [List.find?_cons_of_neg hq]
        rcases List.mem_cons.mp h' with rfl | hr
        · exact Or.inl List.mem_cons_self
        · rcases ih hr with hr | hr
          · exact Or.inl (List.mem_cons_of_mem q hr)
          · exact Or.inr hr

/-! #### What a bar may do to the table -/

/-- The rows of `t'` are rows of `t`, or rows of the symbol that were entered or closed at
`ts`: entered at `ts` or by the row `t` had open, and closed, if at all, at `ts`. -/
def TouchedAt (symbol : Symbol) (ts : Time) (t t' : PositionTable) : Prop :=
  ∀ r ∈ t'.rows, r ∈ t.rows ∨
    (r.symbol = symbol ∧
      (r.entryTs = ts ∨ ∃ q, t.openRow symbol = some q ∧ r.entryTs = q.entryTs) ∧
      ∀ e, r.exit = some e → e.ts = ts)

theorem TouchedAt.refl (symbol : Symbol) (ts : Time) (t : PositionTable) :
    TouchedAt symbol ts t t :=
  fun _ hr => Or.inl hr

theorem TouchedAt.trans {symbol : Symbol} {ts : Time} {t₁ t₂ t₃ : PositionTable}
    (h : TouchedAt symbol ts t₁ t₂) (h' : TouchedAt symbol ts t₂ t₃) :
    TouchedAt symbol ts t₁ t₃ := by
  intro r hr
  rcases h' r hr with hmem | ⟨hsym, hentry, hexit⟩
  · exact h r hmem
  · refine Or.inr ⟨hsym, ?_, hexit⟩
    rcases hentry with hts | ⟨q, hq, hentry⟩
    · exact Or.inl hts
    · obtain ⟨hqmem, hqsym, hqopen⟩ := openRow_spec hq
      rcases h q hqmem with hold | ⟨-, hqentry, -⟩
      · refine Or.inr ⟨q, ?_, hentry⟩
        rw [← hqsym]
        exact openRow_of_mem hold hqopen
      · rcases hqentry with hts | ⟨q', hq', hqentry⟩
        · exact Or.inl (hentry.trans hts)
        · exact Or.inr ⟨q', hq', hentry.trans hqentry⟩

theorem touchedAt_insert {t t' : PositionTable} {row : PaperPositionRow}
    (h : t'.rows = t.rows ++ [row]) (hopen : row.exit = none) :
    TouchedAt row.symbol row.entryTs t t' := by
  intro r hr
  rw [h, List.mem_append, List.mem_singleton] at hr
  rcases hr with hr | rfl
  · exact Or.inl hr
  · refine Or.inr ⟨rfl, Or.inl rfl, fun e he => ?_⟩
    rw [hopen] at he
    exact absurd he (by simp)

theorem touchedAt_close (t : PositionTable) (trade : Trade) :
    TouchedAt trade.symbol trade.exitTs t (t.close trade) := by
  intro r hr
  rcases mem_close hr with hr | ⟨q, hq, rfl⟩
  · exact Or.inl hr
  · refine Or.inr ⟨(openRow_spec hq).2.1, Or.inr ⟨q, hq, rfl⟩, fun e he => ?_⟩
    rw [← Option.some.inj he]

end PositionTable

/-! ### The snapshots table

The newest snapshot is asked for by its stamp.  A row that is later than all the others is the
newest from then on.
-/

/-- The later of the newest row so far and the next one. -/
def newer : Option AccountSnapshotRow → AccountSnapshotRow → Option AccountSnapshotRow
  | none, row => some row
  | some best, row => if best.ts < row.ts then some row else some best

/-- `ORDER BY ts DESC LIMIT 1`. -/
def newest (rows : List AccountSnapshotRow) : Option AccountSnapshotRow :=
  rows.foldl newer none

theorem newest_concat (rows : List AccountSnapshotRow) (row : AccountSnapshotRow) :
    newest (rows ++ [row]) = newer (newest rows) row := by
  unfold newest
  rw [List.foldl_append]
  rfl

theorem newest_eq (rows : List AccountSnapshotRow) :
    newest rows = Newest.pick (fun a b : AccountSnapshotRow => a.ts < b.ts) rows := by
  unfold newest Newest.pick
  congr 1
  funext best row
  cases best <;> rfl

theorem newest_eq_none {rows : List AccountSnapshotRow} (h : newest rows = none) : rows = [] := by
  rw [newest_eq] at h
  exact Newest.pick_eq_none h

/-- A row later than the newest one becomes the newest. -/
theorem newest_of_later {rows : List AccountSnapshotRow} {row : AccountSnapshotRow}
    (h : ∀ latest, newest rows = some latest → latest.ts < row.ts) :
    newest (rows ++ [row]) = some row := by
  rw [newest_concat]
  cases hl : newest rows with
  | none => rfl
  | some latest => exact if_pos (h latest hl)

/-! ### The store -/

/-- The tables, with the constraints the database holds them to. -/
structure LedgerStore where
  orders : List PaperOrderRow
  positions : PositionTable
  snapshots : List AccountSnapshotRow
  decisions : DecisionId → Option DecisionRef
  orders_pk : (orders.map (·.id)).Nodup

namespace LedgerStore

/-- A store in which nothing has happened. -/
def empty (decisions : DecisionId → Option DecisionRef) : LedgerStore where
  orders := []
  positions := ⟨[], List.Pairwise.nil⟩
  snapshots := []
  decisions := decisions
  orders_pk := List.nodup_nil

/-- `ORDER BY created_at, id`. -/
def OlderOrder (a b : PaperOrderRow) : Prop :=
  a.createdAt < b.createdAt ∨ (a.createdAt = b.createdAt ∧ a.id ≤ b.id)

instance : DecidableRel OlderOrder := fun a b => by
  unfold OlderOrder
  infer_instance

/-- `list_pending_orders`: oldest first. -/
def listPendingOrders (s : LedgerStore) : List PaperOrderRow :=
  (s.orders.filter fun o => decide (o.status = .pending)).insertionSort OlderOrder

/-- `get_decision_bucket`. -/
def getDecisionBucket (s : LedgerStore) (decisionId : Option DecisionId) : Option Time :=
  decisionId.bind fun d => (s.decisions d).map (·.bucketTs)

theorem getDecisionBucket_congr {s s' : LedgerStore} (h : s'.decisions = s.decisions)
    (decisionId : Option DecisionId) :
    s'.getDecisionBucket decisionId = s.getDecisionBucket decisionId := by
  unfold getDecisionBucket
  rw [h]

/-- `list_pending_expired`: pending orders whose decision passed its `valid_until`. -/
def listPendingExpired (s : LedgerStore) (now : Time) : List PaperOrderRow :=
  s.listPendingOrders.filter fun o =>
    match o.decisionId.bind s.decisions with
    | none => false
    | some d => decide (d.validUntil < now)

/-- `get_open_position`. -/
def getOpenPosition (s : LedgerStore) (symbol : Symbol) : Option PaperPositionRow :=
  s.positions.openRow symbol

/-- `list_open_positions`. -/
def listOpenPositions (s : LedgerStore) : List PaperPositionRow := s.positions.openRows

/-- `ORDER BY exit_ts`. -/
def EarlierExit (a b : Trade) : Prop := a.exitTs ≤ b.exitTs

instance : DecidableRel EarlierExit := fun a b => by
  unfold EarlierExit
  infer_instance

/-- `list_closed_positions`, read as trades. -/
def listClosedPositions (s : LedgerStore) : List Trade :=
  s.positions.closedTrades.insertionSort EarlierExit

/-- `latest_snapshot`. -/
def latestSnapshot (s : LedgerStore) : Option AccountSnapshotRow := newest s.snapshots

/-- The status an order has now. -/
def statusOf (s : LedgerStore) (id : OrderId) : Option OrderStatus :=
  (s.orders.find? fun o => decide (o.id = id)).map (·.status)

/-- Writing an order back under its id keeps the ids. -/
private theorem replace_ids (orders : List PaperOrderRow) (order : PaperOrderRow) :
    (orders.map fun o => if o.id = order.id then order else o).map (·.id)
      = orders.map (·.id) := by
  rw [List.map_map]
  refine List.map_congr_left fun o _ => ?_
  show (if o.id = order.id then order else o).id = o.id
  by_cases h : o.id = order.id
  · rw [if_pos h, h]
  · rw [if_neg h]

/-- `update_order`. -/
def updateOrder (s : LedgerStore) (order : PaperOrderRow) : LedgerStore :=
  { s with
    orders := s.orders.map fun o => if o.id = order.id then order else o
    orders_pk := by rw [replace_ids]; exact s.orders_pk }

/-- The insert violates the primary key or `uq_orders_paper_decision_id`. -/
def refusesOrder (s : LedgerStore) (order : PaperOrderRow) : Bool :=
  s.orders.any fun o => decide (o.id = order.id) ||
    (order.decisionId.isSome && decide (o.decisionId = order.decisionId))

theorem refusesOrder_id {s : LedgerStore} {order : PaperOrderRow}
    (h : s.refusesOrder order = false) : order.id ∉ s.orders.map (·.id) := by
  intro hmem
  obtain ⟨o, ho, hid⟩ := List.mem_map.mp hmem
  have hany : s.refusesOrder order = true := by
    unfold refusesOrder
    rw [List.any_eq_true]
    exact ⟨o, ho, by simp [hid]⟩
  rw [h] at hany
  exact absurd hany (by simp)

/-- `save_order`; `none` when the database refuses the row. -/
def saveOrder (s : LedgerStore) (order : PaperOrderRow) : Option LedgerStore :=
  if h : s.refusesOrder order = false then
    some { s with
      orders := s.orders ++ [order]
      orders_pk := by
        rw [List.map_append, List.nodup_append_comm]
        exact List.nodup_cons.mpr ⟨refusesOrder_id h, s.orders_pk⟩ }
  else none

/-- An order that is saved is added at the end, and nothing else changes. -/
theorem saveOrder_some {s s' : LedgerStore} {order : PaperOrderRow}
    (h : s.saveOrder order = some s') :
    s.refusesOrder order = false ∧ s'.orders = s.orders ++ [order] ∧
      s'.positions = s.positions ∧ s'.snapshots = s.snapshots ∧ s'.decisions = s.decisions := by
  unfold saveOrder at h
  by_cases hunique : s.refusesOrder order = false
  · rw [dif_pos hunique] at h
    obtain rfl := Option.some.inj h
    exact ⟨hunique, rfl, rfl, rfl, rfl⟩
  · rw [dif_neg hunique] at h
    exact absurd h (by simp)

/-- `save_position`; `none` when the unique index refuses the row. -/
def savePosition (s : LedgerStore) (row : PaperPositionRow) : Option LedgerStore :=
  (s.positions.insert row).map fun positions => { s with positions }

/-- `_persist_close`: the round trip into the symbol's open row. -/
def persistClose (s : LedgerStore) (t : Trade) : LedgerStore :=
  { s with positions := s.positions.close t }

/-- `save_snapshot`. -/
def saveSnapshot (s : LedgerStore) (row : AccountSnapshotRow) : LedgerStore :=
  { s with snapshots := s.snapshots ++ [row] }

/-! ### The status of an order

An order is found by its id, and written back under it.  Writing one order back leaves the
status of the others as it is.
-/

theorem statusOf_of_mem {s : LedgerStore} {o : PaperOrderRow} (h : o ∈ s.orders) :
    s.statusOf o.id = some o.status := by
  have hpk := s.orders_pk
  unfold statusOf
  revert h hpk
  induction s.orders with
  | nil => intro h; exact absurd h (by simp)
  | cons q rest ih =>
      intro h hpk
      rw [List.map_cons, List.nodup_cons] at hpk
      by_cases hq : q.id = o.id
      · rw [List.find?_cons_of_pos (by simpa using hq)]
        rcases List.mem_cons.mp h with rfl | ho
        · rfl
        · exact absurd (List.mem_map.mpr ⟨o, ho, hq.symm⟩) hpk.1
      · rw [List.find?_cons_of_neg (by simpa using hq)]
        rcases List.mem_cons.mp h with rfl | ho
        · exact absurd rfl hq
        · exact ih ho hpk.2

theorem mem_listPendingOrders {s : LedgerStore} {o : PaperOrderRow} :
    o ∈ s.listPendingOrders ↔ o ∈ s.orders ∧ o.status = .pending := by
  unfold listPendingOrders
  rw [List.mem_insertionSort, List.mem_filter, decide_eq_true_eq]

theorem statusOf_pending {s : LedgerStore} {o : PaperOrderRow} (h : o ∈ s.listPendingOrders) :
    s.statusOf o.id = some .pending := by
  obtain ⟨hmem, hstatus⟩ := mem_listPendingOrders.mp h
  rw [statusOf_of_mem hmem, hstatus]

/-- Writing an order back as settled takes it, and no other, out of the queue. -/
theorem mem_listPendingOrders_updateOrder {s : LedgerStore} {order : PaperOrderRow}
    (h : order.status ≠ .pending) (o : PaperOrderRow) :
    o ∈ (s.updateOrder order).listPendingOrders ↔
      o ∈ s.listPendingOrders ∧ o.id ≠ order.id := by
  rw [mem_listPendingOrders, mem_listPendingOrders]
  constructor
  · rintro ⟨hmem, hstatus⟩
    obtain ⟨q, hq, heq⟩ := List.mem_map.mp hmem
    by_cases hid : q.id = order.id
    · rw [if_pos hid] at heq
      exact absurd (heq ▸ hstatus) h
    · rw [if_neg hid] at heq
      subst heq
      exact ⟨⟨hq, hstatus⟩, hid⟩
  · rintro ⟨⟨hmem, hstatus⟩, hid⟩
    exact ⟨List.mem_map.mpr ⟨o, hmem, if_neg hid⟩, hstatus⟩

theorem mem_listPendingOrders_cancelled (s : LedgerStore) (order o : PaperOrderRow) :
    o ∈ (s.updateOrder { order with status := .cancelled }).listPendingOrders ↔
      o ∈ s.listPendingOrders ∧ o.id ≠ order.id :=
  mem_listPendingOrders_updateOrder
    (show ({ order with status := .cancelled } : PaperOrderRow).status ≠ .pending by simp) o

end LedgerStore

end ForexAi
