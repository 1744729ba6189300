/-
The portfolio as the API shows it.

The reader selects from the three ledger tables and writes to none.  A position is shown
with the decision of its order, which the position row does not have: the query joins the
orders in, and a position whose order is missing would not be shown at all.  The account is
shown as its latest snapshot, with all figures zero while there is none.

Rows of one moment the database may return in any order; here they come in the order of the
table.  The broker books no margin, so a snapshot shows none.
-/
import ForexAi.Broker.Store
import ForexAi.Lib.Latest

namespace ForexAi

/-- `PaperPositionStatus`. -/
inductive PositionStatus where
  | opened | closed
  deriving DecidableEq, Repr

def PositionStatus.value : PositionStatus → String
  | .opened => "OPEN"
  | .closed => "CLOSED"

def OrderStatus.value : OrderStatus → String
  | .pending => "PENDING"
  | .filled => "FILLED"
  | .cancelled => "CANCELLED"
  | .rejected => "REJECTED"

def PaperPositionRow.status (r : PaperPositionRow) : PositionStatus :=
  if r.exit.isNone then .opened else .closed

/-- A position with the decision of its order. -/
structure PortfolioPosition where
  orderId : OrderId
  decisionId : Option DecisionId
  symbol : Symbol
  timeframe : Timeframe
  side : Direction
  units : ℚ
  entryPrice : ℚ
  entryTs : Time
  stopLoss : Option ℚ
  takeProfit : Option ℚ
  status : String
  exitPrice : Option ℚ
  exitTs : Option Time
  exitReason : Option String
  grossPnl : Option ℚ
  netPnl : Option ℚ
  deriving DecidableEq

structure PortfolioOrder where
  id : OrderId
  decisionId : Option DecisionId
  symbol : Symbol
  timeframe : Timeframe
  side : Direction
  orderType : String
  status : String
  units : ℚ
  requestedPrice : ℚ
  filledPrice : Option ℚ
  costs : ℚ
  stopLoss : Option ℚ
  takeProfit : Option ℚ
  filledAt : Option Time
  createdAt : Time
  deriving DecidableEq

structure PortfolioEquityPoint where
  ts : Time
  cash : ℚ
  equity : ℚ
  openPnl : ℚ
  realizedPnl : ℚ
  peakEquity : ℚ
  drawdownPct : ℚ
  marginUsed : ℚ
  deriving DecidableEq

structure PortfolioSummary where
  asOf : Option Time
  cash : ℚ
  equity : ℚ
  openPnl : ℚ
  realizedPnl : ℚ
  peakEquity : ℚ
  drawdownPct : ℚ
  marginUsed : ℚ
  openPositions : ℕ
  openOrders : ℕ
  deriving DecidableEq

namespace Portfolio

def positionStatuses : List String := [PositionStatus.opened, .closed].map (·.value)

def orderStatuses : List String :=
  [OrderStatus.pending, .filled, .cancelled, .rejected].map (·.value)

/-- `_checked_status`; `repr` is how the language writes a text. -/
def checkedStatus (repr : String → String) (status : Option String) (allowed : List String)
    (label : String) : Except String (Option String) :=
  match status with
  | none => .ok none
  | some s =>
      if s ∉ allowed then .error ("invalid " ++ label ++ " status: " ++ repr s)
      else .ok (some s)

/-- `_position`. -/
def position (r : PaperPositionRow) (decisionId : Option DecisionId) : PortfolioPosition where
  orderId := r.orderId
  decisionId := decisionId
  symbol := r.symbol
  timeframe := r.timeframe
  side := r.side
  units := r.units
  entryPrice := r.entryPrice
  entryTs := r.entryTs
  stopLoss := r.stopLoss
  takeProfit := r.takeProfit
  status := r.status.value
  exitPrice := r.exit.map (·.price)
  exitTs := r.exit.map (·.ts)
  exitReason := r.exit.map (·.reason.value)
  grossPnl := r.exit.map (·.grossPnl)
  netPnl := r.exit.map (·.netPnl)

/-- `_order`. -/
def order (o : PaperOrderRow) : PortfolioOrder where
  id := o.id
  decisionId := o.decisionId
  symbol := o.symbol
  timeframe := o.timeframe
  side := o.side
  orderType := "NEXT_OPEN"
  status := o.status.value
  units := o.units
  requestedPrice := o.requestedPrice
  filledPrice := o.filledPrice
  costs := o.costs
  stopLoss := o.stopLoss
  takeProfit := o.takeProfit
  filledAt := o.filledAt
  createdAt := o.createdAt

/-- `_equity_point`. -/
def equityPoint (row : AccountSnapshotRow) : PortfolioEquityPoint where
  ts := row.ts
  cash := row.cash
  equity := row.equity
  openPnl := row.openPnl
  realizedPnl := row.realizedPnl
  peakEquity := row.peakEquity
  drawdownPct := row.drawdownPct
  marginUsed := 0

/-- `_empty_summary`. -/
def emptySummary : PortfolioSummary where
  asOf := none
  cash := 0
  equity := 0
  openPnl := 0
  realizedPnl := 0
  peakEquity := 0
  drawdownPct := 0
  marginUsed := 0
  openPositions := 0
  openOrders := 0

/-- The positions joined to their orders: a row for each order of the position. -/
def joined (s : LedgerStore) : List (PaperPositionRow × Option DecisionId) :=
  s.positions.rows.flatMap fun r =>
    (s.orders.filter fun o => o.id = r.orderId).map fun o => (r, o.decisionId)

/-- The row passes a status filter. -/
def passes (status : Option String) (value : String) : Bool := status.all (· = value)

/-- `list_positions`. -/
def listPositions (repr : String → String) (s : LedgerStore) (status : Option String)
    (limit : ℕ) : Except String (List PortfolioPosition) := do
  let status ← checkedStatus repr status positionStatuses "position"
  let rows := (joined s).filter fun row => passes status row.1.status.value
  return (Latest.latest (·.1.entryTs) limit rows).map fun row => position row.1 row.2

/-- `list_orders`. -/
def listOrders (repr : String → String) (s : LedgerStore) (status : Option String)
    (limit : ℕ) : Except String (List PortfolioOrder) := do
  let status ← checkedStatus repr status orderStatuses "order"
  let rows := s.orders.filter fun o => passes status o.status.value
  return (Latest.latest (·.createdAt) limit rows).map order

/-- `load_equity_history`. -/
def loadEquityHistory (s : LedgerStore) (limit : ℕ) : List PortfolioEquityPoint :=
  (Latest.latest (·.ts) limit s.snapshots).reverse.map equityPoint

/-- `load_portfolio_summary`. -/
def loadPortfolioSummary (s : LedgerStore) : PortfolioSummary :=
  match (Latest.latest (·.ts) 1 s.snapshots).head? with
  | none => emptySummary
  | some snapshot =>
      { asOf := some snapshot.ts
        cash := snapshot.cash
        equity := snapshot.equity
        openPnl := snapshot.openPnl
        realizedPnl := snapshot.realizedPnl
        peakEquity := snapshot.peakEquity
        drawdownPct := snapshot.drawdownPct
        marginUsed := 0
        openPositions := (s.positions.rows.filter fun r => r.status = .opened).length
        openOrders := (s.orders.filter fun o => o.status = .pending).length }

/-! ### The requests -/

/-- `MAX_LIMIT`. -/
def maxLimit : ℕ := 1000

/-- The query of a listing passes its schema. -/
def Admissible (statuses : List String) (status : Option String) (limit : ℕ) : Prop :=
  (∀ s ∈ status, s ∈ statuses) ∧ 1 ≤ limit ∧ limit ≤ maxLimit

instance (statuses : List String) (status : Option String) (limit : ℕ) :
    Decidable (Admissible statuses status limit) := by
  unfold Admissible
  infer_instance

/-- `GET /portfolio/positions`; `none` where the query is refused. -/
def portfolioPositions (repr : String → String) (s : LedgerStore) (status : Option String)
    (limit : Option ℕ) : Option (Except String (List PortfolioPosition)) :=
  if Admissible positionStatuses status (limit.getD 100) then
    some (listPositions repr s status (limit.getD 100))
  else none

/-- `GET /portfolio/orders`. -/
def portfolioOrders (repr : String → String) (s : LedgerStore) (status : Option String)
    (limit : Option ℕ) : Option (Except String (List PortfolioOrder)) :=
  if Admissible orderStatuses status (limit.getD 50) then
    some (listOrders repr s status (limit.getD 50))
  else none

/-- `GET /portfolio/equity`. -/
def portfolioEquity (s : LedgerStore) (limit : Option ℕ) : Option (List PortfolioEquityPoint) :=
  if 1 ≤ limit.getD 500 ∧ limit.getD 500 ≤ maxLimit then
    some (loadEquityHistory s (limit.getD 500))
  else none

end Portfolio

end ForexAi
