/-
The ledger broker: a paper broker whose every move is written down.

`LedgerBroker` keeps a `PaperBroker` for the arithmetic and writes what it does
into the tables.  All that an account knows from one bar to the next is what the
tables hold: `restoreState` rebuilds the paper broker from them.

The link between the two sides is `Agrees`: the in-memory positions are the open
rows, in order.  A restore establishes it and every operation keeps it, so a
lookup in the broker and a lookup in the table never differ.
-/
import ForexAi.Broker.Store

namespace ForexAi

/-- `LedgerBroker`, less the store it writes through. -/
structure LedgerBroker where
  seed : ℤ
  paper : PaperBroker
  pending : List PaperOrderRow

/-- A broker and its store: what one session holds. -/
structure Ledger where
  broker : LedgerBroker
  store : LedgerStore

/-- What the broker factory builds every broker from. -/
structure BrokerConfig where
  startEquity : ℚ
  seed : ℤ
  costParams : CostParams

/-- `self._paper.seed = seed`. -/
def PaperBroker.reseed (b : PaperBroker) (seed : ℤ) : PaperBroker := { b with seed := seed }

/-- The account figures of a snapshot, where there is one. -/
def PaperBroker.adopt (b : PaperBroker) : Option AccountSnapshotRow → PaperBroker
  | none => b
  | some row =>
      { b with
        cash := row.cash
        equity := row.equity
        peakEquity := row.peakEquity
        maxDrawdownPct := row.drawdownPct }

/-- Each open symbol marked at its entry. -/
def entryMarks (rows : List PaperPositionRow) : Symbol → Option ℚ :=
  rows.foldl (fun marks r => Function.update marks r.symbol (some r.entryPrice)) fun _ => none

namespace Ledger

/-- A session on the store: a fresh broker. -/
def session (cfg : BrokerConfig) (store : LedgerStore) : Ledger where
  broker :=
    { seed := cfg.seed
      paper := PaperBroker.new cfg.startEquity cfg.seed cfg.costParams
      pending := [] }
  store := store

/-- The session's paper broker replaced. -/
def setPaper (l : Ledger) (paper : PaperBroker) : Ledger :=
  { l with broker := { l.broker with paper := paper } }

/-- An order taken off the in-memory queue. -/
def dropPending (l : Ledger) (id : OrderId) : Ledger :=
  { l with
    broker := { l.broker with pending := l.broker.pending.filter fun o => decide (o.id ≠ id) } }

/-- `open_for`. -/
def openFor (l : Ledger) (symbol : Symbol) : Option Position :=
  l.broker.paper.positions.openFor symbol

/-- `restore_state`: rebuild the broker from the tables. -/
def restoreState (l : Ledger) : Ledger :=
  { l with
    broker :=
      { l.broker with
        paper :=
          { l.broker.paper.adopt l.store.latestSnapshot with
            positions := l.store.positions.openPositions
            lastMark := entryMarks l.store.listOpenPositions
            trades := l.store.listClosedPositions }
        pending := l.store.listPendingOrders } }

/-- The row `submit_paper_order` builds. -/
def newOrder (l : Ledger) (id : OrderId) (createdAt : Time) (symbol : Symbol)
    (timeframe : Timeframe) (direction : Direction) (refPrice units : ℚ)
    (decisionId : Option DecisionId) (stopLoss takeProfit : Option ℚ)
    (h : ¬ (direction = .flat ∨ units ≤ 0)) : PaperOrderRow where
  id := id
  decisionId := decisionId
  symbol := symbol
  timeframe := timeframe
  side := direction
  status := .pending
  units := units
  requestedPrice := refPrice
  filledPrice := none
  costs := 0
  stopLoss := stopLoss
  takeProfit := takeProfit
  seed := l.broker.seed
  filledAt := none
  createdAt := createdAt
  side_ck := fun hflat => h (Or.inl hflat)
  units_pos := lt_of_not_ge fun hle => h (Or.inr hle)

/-- `submit_paper_order`: a `PENDING` row and no fill.  The id and the creation time are
the new row's; a row the database refuses leaves the session as it was. -/
def submitPaperOrder (l : Ledger) (id : OrderId) (createdAt : Time) (symbol : Symbol)
    (timeframe : Timeframe) (direction : Direction) (refPrice units : ℚ)
    (decisionId : Option DecisionId) (stopLoss takeProfit : Option ℚ) :
    Option PaperOrderRow × Ledger :=
  if h : direction = .flat ∨ units ≤ 0 then (none, l)
  else if (l.openFor symbol).any (fun pos => decide (pos.side = direction)) then (none, l)
  else if decisionId.isSome ∧ l.broker.pending.any (fun o => decide (o.decisionId = decisionId))
    then (none, l)
  else
    let order := l.newOrder id createdAt symbol timeframe direction refPrice units decisionId
      stopLoss takeProfit h
    match l.store.saveOrder order with
    | none => (none, l)
    | some store =>
        (some order,
          { broker := { l.broker with pending := l.broker.pending ++ [order] }, store })

/-- `cancel_pending`. -/
def cancelPending (l : Ledger) (order : PaperOrderRow) : Option PaperOrderRow × Ledger :=
  if l.store.statusOf order.id = some .pending then
    let cancelled := { order with status := .cancelled }
    (some cancelled,
      { l.dropPending order.id with store := l.store.updateOrder cancelled })
  else (none, l)

variable [Digest]

/-- `fill_pending`: fill a pending order at the open of its bar. -/
def fillPending (l : Ledger) (order : PaperOrderRow) (openPrice : ℚ) (ts : Time) :
    Option PaperPositionRow × Ledger :=
  if l.store.statusOf order.id ≠ some .pending then (none, l)
  else if (l.openFor order.symbol).isSome then (none, l)
  else
    let paper := (l.broker.paper.reseed order.seed).enterAtNextOpen order.symbol order.timeframe
      order.side openPrice ts order.stopLoss order.takeProfit (some order.units)
    match paper.positions.openFor order.symbol with
    | none => (none, l.setPaper paper)
    | some pos =>
        let filled := { order with
          status := .filled, filledPrice := some pos.entryPrice, costs := pos.costs,
          filledAt := some ts }
        let row := PaperPositionRow.ofPosition order.id pos
        -- The unique index cannot refuse the row once the broker has been restored.
        match (l.store.updateOrder filled).savePosition row with
        | none => (none, l)
        | some store => (some row, { (l.setPaper paper).dropPending order.id with store })

/-- Write down the trade of a broker call, if there was one. -/
def persist (l : Ledger) (closed : Option Trade × PaperBroker) : Option Trade × Ledger :=
  match closed.1 with
  | none => (none, l.setPaper closed.2)
  | some trade =>
      (some trade, { l.setPaper closed.2 with store := l.store.persistClose trade })

/-- `evaluate_exit`. -/
def evaluateExit (l : Ledger) (symbol : Symbol) (close : ℚ) (ts : Time) : Option Trade × Ledger :=
  l.persist (l.broker.paper.evaluateExit symbol close ts)

/-- `close_on_signal`. -/
def closeOnSignal (l : Ledger) (symbol : Symbol) (price : ℚ) (ts : Time) :
    Option Trade × Ledger :=
  l.persist (l.broker.paper.closeOnSignal symbol price ts)

omit [Digest] in
/-- `mark_position`. -/
def markPosition (l : Ledger) (symbol : Symbol) (price : ℚ) : Ledger :=
  l.setPaper (l.broker.paper.markPosition symbol price)

omit [Digest] in
/-- The row `equity_snapshot` writes. -/
def snapshotRow (l : Ledger) (ts : Time) : AccountSnapshotRow :=
  let state := l.broker.paper.state ts
  { ts := ts
    cash := state.1.cash
    equity := state.1.equity
    openPnl := state.1.equity - state.1.cash
    realizedPnl := (l.broker.paper.trades.map (·.netPnl)).sum
    peakEquity := state.2.peakEquity
    drawdownPct := state.2.maxDrawdownPct }

omit [Digest] in
/-- `equity_snapshot`. -/
def equitySnapshot (l : Ledger) (ts : Time) : AccountSnapshotRow × Ledger :=
  (l.snapshotRow ts,
    { l.setPaper (l.broker.paper.state ts).2 with
      store := l.store.saveSnapshot (l.snapshotRow ts) })

end Ledger

end ForexAi
