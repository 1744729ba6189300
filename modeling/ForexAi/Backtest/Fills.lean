/-
Scheduling and executing a backtest fill.

A decision is scheduled at a bar's close and executed at the next bar's open.  What
is scheduled depends on the position the symbol has then: the same side keeps it,
the other side closes it first, flat does nothing.
-/
import ForexAi.Broker.Paper
import ForexAi.Decisions.Engine

namespace ForexAi

/-- What a paper outcome asks for. -/
structure Intent where
  direction : Direction
  units : ℚ
  stopLoss : Option ℚ
  takeProfit : Option ℚ

/-- What `_schedule_fill` reads of an outcome. -/
def DecisionOutcome.intent (outcome : DecisionOutcome) : Intent :=
  let sizing := outcome.risk.bind (·.sizing)
  { direction := outcome.fused.direction
    units := (sizing.map (·.positionSizeUnits)).getD 0
    stopLoss := sizing.map (·.stopLoss)
    takeProfit := sizing.map (·.takeProfit) }

/-- `_PendingFill`. -/
structure PendingFill where
  closeExisting : Bool
  openDirection : Direction
  units : ℚ
  stopLoss : Option ℚ
  takeProfit : Option ℚ
  deriving DecidableEq

/-- What the intent schedules beside the side the symbol is open on. -/
def Intent.schedule (intent : Intent) (current : Option Direction) : Option PendingFill :=
  if intent.direction = .flat ∨ current = some intent.direction then none
  else
    some { closeExisting := current.isSome, openDirection := intent.direction,
           units := intent.units, stopLoss := intent.stopLoss, takeProfit := intent.takeProfit }

/-- `_schedule_fill`: nothing on the last bar, and nothing that would keep the position. -/
def scheduleFill (positions : PositionSet) (symbol : Symbol) (totalBars i : ℕ) (intent : Intent) :
    Option PendingFill :=
  if totalBars ≤ i + 1 then none
  else intent.schedule ((positions.openFor symbol).map (·.side))

variable [Digest]

/-- `_apply_fill`. -/
def applyFill (fine : Timeframe) (broker : PaperBroker) (symbol : Symbol) (act : PendingFill)
    (price : ℚ) (ts : Time) : PaperBroker :=
  let closed := if act.closeExisting then (broker.closeOnSignal symbol price ts).2 else broker
  closed.enterAtNextOpen symbol fine act.openDirection price ts act.stopLoss act.takeProfit
    (some act.units)

end ForexAi
