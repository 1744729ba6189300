/-
The deterministic paper broker.

Cash, a position set, closed trades, and the two watermarks (peak equity and
maximum drawdown) that `state` moves.  Entries are charged when a position is
opened and exits when it is closed; the numbers a closed trade reports are rounded
to six digits, the cash is not.

Each operation has its small lemmas beside it, so that nothing above this file
unfolds one.
-/
import ForexAi.Broker.Positions
import ForexAi.Lib.Rounding
import Mathlib.Data.Rat.Floor

namespace ForexAi

open Rounding

/-- A closed round trip. -/
structure Trade where
  symbol : Symbol
  timeframe : Timeframe
  side : Direction
  units : ℚ
  entryTs : Time
  entryPrice : ℚ
  exitTs : Time
  exitPrice : ℚ
  grossPnl : ℚ
  costs : ℚ
  netPnl : ℚ
  exitReason : ExitReason
  deriving DecidableEq

structure PaperBroker where
  startEquity : ℚ
  cash : ℚ
  seed : ℤ
  costParams : CostParams
  equity : ℚ
  peakEquity : ℚ
  maxDrawdownPct : ℚ
  positions : PositionSet
  trades : List Trade
  lastMark : Symbol → Option ℚ

/-- The broker after a bar, as `state` reports it. -/
structure BrokerState where
  ts : Time
  equity : ℚ
  cash : ℚ
  openPositions : PositionSet
  trades : List Trade

namespace PaperBroker

/-- A fresh broker. -/
def new (startEquity : ℚ) (seed : ℤ) (costParams : CostParams) : PaperBroker where
  startEquity := startEquity
  cash := startEquity
  seed := seed
  costParams := costParams
  equity := startEquity
  peakEquity := startEquity
  maxDrawdownPct := 0
  positions := []
  trades := []
  lastMark := fun _ => none

/-- `mark_position`. -/
def markPosition (b : PaperBroker) (symbol : Symbol) (price : ℚ) : PaperBroker :=
  { b with lastMark := Function.update b.lastMark symbol (some price) }

/-- The price an open position is valued at: its symbol's last mark, or its entry. -/
def markOf (b : PaperBroker) (p : Position) : ℚ := (b.lastMark p.symbol).getD p.entryPrice

/-- `total_equity`. -/
def totalEquity (b : PaperBroker) : ℚ :=
  b.cash + (b.positions.map fun p => p.unrealized (b.markOf p)).sum

variable [Digest]

/-- What a fill of `units` at `price` is charged. -/
def fillCost (b : PaperBroker) (symbol : Symbol) (side : Direction) (units price : ℚ) : ℚ :=
  costPerUnit price b.seed symbol side (units * price) b.costParams * units

/-- `enter_at_next_open`: open a position at `refPrice`, the open of the fill bar. -/
def enterAtNextOpen (b : PaperBroker) (symbol : Symbol) (timeframe : Timeframe)
    (direction : Direction) (refPrice : ℚ) (ts : Time)
    (stopLoss takeProfit units : Option ℚ) : PaperBroker :=
  match units with
  | none => b
  | some u =>
      if direction = .flat ∨ u ≤ 0 then b
      else if (b.positions.openFor symbol).isSome then b
      else
        let costTotal := b.fillCost symbol direction u refPrice
        { b with
          cash := b.cash - costTotal
          lastMark := Function.update b.lastMark symbol (some refPrice)
          positions := b.positions ++
            [{ symbol, timeframe, units := u, entryPrice := refPrice, entryTs := ts,
               side := direction, stopLoss, takeProfit, costs := costTotal }] }

/-- What a position earns, costs aside, when it is left at `price`. -/
def grossAt (pos : Position) (price : ℚ) : ℚ :=
  if pos.side = .long then pos.units * (price - pos.entryPrice)
  else pos.units * (pos.entryPrice - price)

/-- `_close` of the position `pos` its callers looked up. -/
def closePosition (b : PaperBroker) (pos : Position) (price : ℚ) (reason : ExitReason)
    (ts : Time) : Trade × PaperBroker :=
  let costTotal := b.fillCost pos.symbol pos.side pos.units price + pos.costs
  let gross := grossAt pos price
  let trade : Trade :=
    { symbol := pos.symbol, timeframe := pos.timeframe, side := pos.side, units := pos.units,
      entryTs := pos.entryTs, entryPrice := pos.entryPrice, exitTs := ts, exitPrice := price,
      grossPnl := roundTo 6 gross, costs := roundTo 6 costTotal,
      netPnl := roundTo 6 (gross - costTotal), exitReason := reason }
  (trade,
    { b with
      cash := b.cash + gross - costTotal
      trades := b.trades ++ [trade]
      positions := b.positions.close pos.symbol })

/-- `evaluate_exit`: the stop and the target against a bar's close. -/
def evaluateExit (b : PaperBroker) (symbol : Symbol) (close : ℚ) (ts : Time) :
    Option Trade × PaperBroker :=
  match b.positions.openFor symbol with
  | none => (none, b)
  | some pos =>
      let (exitPrice, reason, hit) := pos.exitPriceFor close pos.stopLoss pos.takeProfit
      if hit then
        let closed := b.closePosition pos exitPrice reason ts
        (some closed.1, closed.2)
      else (none, b)

/-- `close_on_signal`. -/
def closeOnSignal (b : PaperBroker) (symbol : Symbol) (price : ℚ) (ts : Time) :
    Option Trade × PaperBroker :=
  match b.positions.openFor symbol with
  | none => (none, b)
  | some pos =>
      let closed := b.closePosition pos price .signal ts
      (some closed.1, closed.2)

omit [Digest] in
/-- `state`: value the account and move the watermarks. -/
def state (b : PaperBroker) (ts : Time) : BrokerState × PaperBroker :=
  let equity := b.totalEquity
  let peak := if b.peakEquity < equity then equity else b.peakEquity
  let dd := (peak - equity) / peak
  let b' : PaperBroker :=
    { b with
      equity := equity
      peakEquity := peak
      maxDrawdownPct := if 0 < peak ∧ b.maxDrawdownPct < dd then dd else b.maxDrawdownPct }
  ({ ts, equity, cash := b.cash, openPositions := b.positions, trades := b.trades }, b')

/-! ### The two ways to close -/

theorem closeOnSignal_some {b : PaperBroker} {symbol : Symbol} {pos : Position}
    (h : b.positions.openFor symbol = some pos) (price : ℚ) (ts : Time) :
    b.closeOnSignal symbol price ts =
      (some (b.closePosition pos price .signal ts).1,
        (b.closePosition pos price .signal ts).2) := by
  unfold closeOnSignal
  rw [h]

theorem closeOnSignal_none {b : PaperBroker} {symbol : Symbol}
    (h : b.positions.openFor symbol = none) (price : ℚ) (ts : Time) :
    b.closeOnSignal symbol price ts = (none, b) := by
  unfold closeOnSignal
  rw [h]

theorem evaluateExit_none {b : PaperBroker} {symbol : Symbol}
    (h : b.positions.openFor symbol = none) (close : ℚ) (ts : Time) :
    b.evaluateExit symbol close ts = (none, b) := by
  unfold evaluateExit
  rw [h]

/-- A bar's close leaves the broker as it is, or closes the symbol's position at the
threshold it breached. -/
theorem evaluateExit_some {b : PaperBroker} {symbol : Symbol} {pos : Position}
    (h : b.positions.openFor symbol = some pos) (close : ℚ) (ts : Time) :
    ((pos.exitPriceFor close pos.stopLoss pos.takeProfit).2.2 = false ∧
      b.evaluateExit symbol close ts = (none, b)) ∨
    ∃ price reason, pos.exitPriceFor close pos.stopLoss pos.takeProfit = (price, reason, true) ∧
      b.evaluateExit symbol close ts =
        (some (b.closePosition pos price reason ts).1,
          (b.closePosition pos price reason ts).2) := by
  unfold evaluateExit
  rw [h]
  rcases hexit : pos.exitPriceFor close pos.stopLoss pos.takeProfit with ⟨price, reason, hit⟩
  cases hit with
  | false => exact Or.inl ⟨rfl, by simp [hexit]⟩
  | true => exact Or.inr ⟨price, reason, rfl, by simp [hexit]⟩

/-- Two brokers with the same position open both leave it, or both close it at one price. -/
theorem evaluateExit_both {b b' : PaperBroker} {symbol : Symbol} {pos : Position}
    (h : b.positions.openFor symbol = some pos) (h' : b'.positions.openFor symbol = some pos)
    (close : ℚ) (ts : Time) :
    (b.evaluateExit symbol close ts = (none, b) ∧ b'.evaluateExit symbol close ts = (none, b')) ∨
    ∃ price reason, pos.exitPriceFor close pos.stopLoss pos.takeProfit = (price, reason, true) ∧
      b.evaluateExit symbol close ts =
        (some (b.closePosition pos price reason ts).1, (b.closePosition pos price reason ts).2) ∧
      b'.evaluateExit symbol close ts =
        (some (b'.closePosition pos price reason ts).1,
          (b'.closePosition pos price reason ts).2) := by
  unfold evaluateExit
  rw [h, h']
  rcases hexit : pos.exitPriceFor close pos.stopLoss pos.takeProfit with ⟨price, reason, hit⟩
  cases hit with
  | false => exact Or.inl ⟨by simp [hexit], by simp [hexit]⟩
  | true => exact Or.inr ⟨price, reason, rfl, by simp [hexit], by simp [hexit]⟩

/-- Every close of a symbol goes through its open position. -/
theorem evaluateExit_cases (b : PaperBroker) (symbol : Symbol) (close : ℚ) (ts : Time) :
    b.evaluateExit symbol close ts = (none, b) ∨
    ∃ pos price reason, b.positions.openFor symbol = some pos ∧
      pos.exitPriceFor close pos.stopLoss pos.takeProfit = (price, reason, true) ∧
      b.evaluateExit symbol close ts =
        (some (b.closePosition pos price reason ts).1,
          (b.closePosition pos price reason ts).2) := by
  cases hpos : b.positions.openFor symbol with
  | none => exact Or.inl (evaluateExit_none hpos close ts)
  | some pos =>
      rcases evaluateExit_some hpos close ts with ⟨-, heq⟩ | ⟨price, reason, hhit, heq⟩
      · exact Or.inl heq
      · exact Or.inr ⟨pos, price, reason, rfl, hhit, heq⟩

end PaperBroker

end ForexAi
