/-
Open positions and their profit and loss.

A position set is an ordered list.  A symbol is looked up by its first entry and
closed by removing that entry; that there is at most one is the broker's business,
not the set's.
-/
import ForexAi.Broker.Costs

namespace ForexAi

/-- Why a position was closed. -/
inductive ExitReason where
  | signal | stopLoss | takeProfit
  deriving DecidableEq, Repr

/-- The string stored with a closed trade. -/
def ExitReason.value : ExitReason → String
  | signal => "signal"
  | stopLoss => "stop_loss"
  | takeProfit => "take_profit"

/-- One open simulated position. -/
structure Position where
  symbol : Symbol
  timeframe : Timeframe
  units : ℚ
  entryPrice : ℚ
  entryTs : Time
  side : Direction
  stopLoss : Option ℚ
  takeProfit : Option ℚ
  costs : ℚ
  deriving DecidableEq

namespace Position

def notional (p : Position) : ℚ := p.units * p.entryPrice

/-- Unrealized profit and loss at the given price. -/
def unrealized (p : Position) (price : ℚ) : ℚ :=
  p.units * (if p.side = .long then price - p.entryPrice else p.entryPrice - price)

/-- `exit_price_for`: what a bar closing at `price` does to the position, as
`(exit_price, reason, hit)`.  The stop is tested before the target. -/
def exitPriceFor (p : Position) (price : ℚ) (sl tp : Option ℚ) : ℚ × ExitReason × Bool :=
  if p.side = .long then
    match sl.filter (fun s => decide (price ≤ s)) with
    | some s => (s, .stopLoss, true)
    | none =>
        match tp.filter (fun t => decide (t ≤ price)) with
        | some t => (t, .takeProfit, true)
        | none => (price, .signal, false)
  else
    match sl.filter (fun s => decide (s ≤ price)) with
    | some s => (s, .stopLoss, true)
    | none =>
        match tp.filter (fun t => decide (price ≤ t)) with
        | some t => (t, .takeProfit, true)
        | none => (price, .signal, false)

@[simp] theorem unrealized_entryPrice (p : Position) : p.unrealized p.entryPrice = 0 := by
  simp [unrealized]

/-- `bool({p[:3], p[3:]} & target)`. -/
def touches (p : Position) (target : List (List Char)) : Bool :=
  p.symbol.basket.any fun c => target.contains c

end Position

/-- `PositionSet`. -/
abbrev PositionSet := List Position

namespace PositionSet

def openFor (ps : PositionSet) (symbol : Symbol) : Option Position :=
  ps.find? fun p => p.symbol = symbol

def totalNotional (ps : PositionSet) : ℚ := (ps.map (·.notional)).sum

/-- Notional of the long positions sharing a currency with `symbol`. -/
def basketNotional (ps : PositionSet) (symbol : Symbol) : ℚ :=
  ((ps.filter fun p => decide (p.side = .long) && p.touches symbol.basket).map (·.notional)).sum

def correlationTriggered (ps : PositionSet) (symbol : Symbol) : Bool :=
  ps.any fun p => decide (p.side = .long) && p.touches symbol.basket

/-- Remove the first position of `symbol`. -/
def close (ps : PositionSet) (symbol : Symbol) : PositionSet :=
  ps.eraseP fun p => p.symbol = symbol

/-! ### Looking up and closing -/

@[simp] theorem openFor_nil (symbol : Symbol) : openFor [] symbol = none := rfl

theorem openFor_symbol {ps : PositionSet} {symbol : Symbol} {p : Position}
    (h : ps.openFor symbol = some p) : p.symbol = symbol := by
  simpa using List.find?_some h

theorem openFor_mem {ps : PositionSet} {symbol : Symbol} {p : Position}
    (h : ps.openFor symbol = some p) : p ∈ ps :=
  List.mem_of_find?_eq_some h

theorem openFor_eq_none {ps : PositionSet} {symbol : Symbol} :
    ps.openFor symbol = none ↔ ∀ p ∈ ps, p.symbol ≠ symbol := by
  simp [openFor]

/-- A position appended on a free symbol is the one found there. -/
theorem openFor_append_self {ps : PositionSet} {p : Position}
    (h : ps.openFor p.symbol = none) : openFor (ps ++ [p]) p.symbol = some p := by
  unfold openFor at h ⊢
  rw [List.find?_append, h]
  simp

/-- Closing a symbol takes its first position out and leaves the others in place. -/
theorem close_perm {ps : PositionSet} {symbol : Symbol} {p : Position}
    (h : ps.openFor symbol = some p) : ps.Perm (p :: ps.close symbol) := by
  induction ps with
  | nil => simp at h
  | cons q rest ih =>
      unfold openFor at h
      unfold close
      by_cases hq : q.symbol = symbol
      · rw [List.find?_cons_of_pos (by simpa using hq)] at h
        rw [List.eraseP_cons_of_pos (by simpa using hq)]
        rw [Option.some.inj h]
      · rw [List.find?_cons_of_neg (by simpa using hq)] at h
        rw [List.eraseP_cons_of_neg (by simpa using hq)]
        exact ((ih h).cons q).trans (List.Perm.swap p q _)

/-- With one position a symbol, a closed symbol is free. -/
theorem openFor_close {ps : PositionSet} (h : ps.Pairwise fun a b => a.symbol ≠ b.symbol)
    (symbol : Symbol) : (ps.close symbol).openFor symbol = none := by
  induction ps with
  | nil => rfl
  | cons q rest ih =>
      obtain ⟨hhead, hrest⟩ := List.pairwise_cons.mp h
      unfold close
      by_cases hq : q.symbol = symbol
      · rw [List.eraseP_cons_of_pos (by simpa using hq), openFor_eq_none]
        intro p hp hsym
        exact hhead p hp (hq.trans hsym.symm)
      · rw [List.eraseP_cons_of_neg (by simpa using hq)]
        unfold openFor
        rw [List.find?_cons_of_neg (by simpa using hq)]
        exact ih hrest

theorem close_subset {ps : PositionSet} {symbol : Symbol} {p : Position}
    (h : p ∈ ps.close symbol) : p ∈ ps :=
  List.mem_of_mem_eraseP h

end PositionSet

end ForexAi
