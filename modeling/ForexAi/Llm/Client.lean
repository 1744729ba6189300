/-
The daily ceiling on what a language model may cost.

A reservation is paid for in advance, at an estimate for each token, and refused where the day's
spend would pass the budget.  The spend belongs to the UTC day it was recorded on.  Nothing
clears it at midnight: the first call of a new day does, whichever it is (`rollover`), unless the
budget is zero, and then there is nothing to clear.

The clock shows seconds since the epoch.  Amounts and readings are computed exactly.
-/
import ForexAi.Lib.Runs
import Mathlib.Algebra.Order.Floor.Ring
import Mathlib.Data.Rat.Floor

namespace ForexAi

/-- `DailyBudgetBreaker`. -/
structure DailyBudgetBreaker where
  budget : ℚ
  day : ℤ := 0
  spent : ℚ := 0
  spent_nonneg : 0 ≤ spent
  spent_le : spent ≤ budget

/-- `_DOLLARS_PER_TOKEN`. -/
def dollarsPerToken : ℚ := 5 / 1000000

/-- The estimated cost of some tokens. -/
def tokenCost (tokens : ℕ) : ℚ := tokens * dollarsPerToken

theorem tokenCost_nonneg (tokens : ℕ) : 0 ≤ tokenCost tokens :=
  mul_nonneg (Nat.cast_nonneg tokens) (by decide +kernel)

/-- `int(now // 86400)`. -/
def utcDay (now : ℚ) : ℤ := ⌊now / 86400⌋

theorem utcDay_mono {now later : ℚ} (h : now ≤ later) : utcDay now ≤ utcDay later :=
  Int.floor_le_floor (div_le_div_of_nonneg_right h (by decide))

namespace DailyBudgetBreaker

/-- `__init__`. -/
def new (budgetUsd : ℚ) : DailyBudgetBreaker where
  budget := max 0 budgetUsd
  spent_nonneg := le_refl 0
  spent_le := le_max_left 0 budgetUsd

/-- `_rollover`. -/
def rollover (b : DailyBudgetBreaker) (now : ℚ) : DailyBudgetBreaker :=
  if utcDay now ≠ b.day then
    { b with
      day := utcDay now
      spent := 0
      spent_nonneg := le_refl 0
      spent_le := b.spent_nonneg.trans b.spent_le }
  else b

/-- `remaining`; reading it may roll the day over. -/
def remaining (b : DailyBudgetBreaker) (now : ℚ) : ℚ × DailyBudgetBreaker :=
  if b.budget ≤ 0 then (0, b)
  else
    let b := b.rollover now
    (max 0 (b.budget - b.spent), b)

/-- `reserve`, which `authorize` is: the breaker after it, and what `LLMUnavailable` says where
it is refused. -/
def reserve (b : DailyBudgetBreaker) (now : ℚ) (tokens : ℕ) :
    Except String Unit × DailyBudgetBreaker :=
  if b.budget ≤ 0 then (.error "LLM_DAILY_BUDGET_USD is 0; no LLM spend permitted", b)
  else
    let b := b.rollover now
    let cost := tokenCost tokens
    if h : b.budget < b.spent + cost then (.error "LLM daily budget reached", b)
    else
      (.ok (),
        { b with
          spent := b.spent + cost
          spent_nonneg := add_nonneg b.spent_nonneg (tokenCost_nonneg tokens)
          spent_le := not_lt.mp h })

end DailyBudgetBreaker

/-- What a breaker is asked. -/
inductive BudgetRequest where
  | reserve (tokens : ℕ)
  | remaining

/-- One call of a breaker, at the clock's reading. -/
structure BudgetCall where
  now : ℚ
  request : BudgetRequest

namespace DailyBudgetBreaker

/-- One call of a run: the breaker, and the reservations that succeeded so far, with their
times and tokens. -/
def step (s : DailyBudgetBreaker × List (ℚ × ℕ)) (c : BudgetCall) :
    DailyBudgetBreaker × List (ℚ × ℕ) :=
  match c.request with
  | .remaining => ((s.1.remaining c.now).2, s.2)
  | .reserve tokens =>
      match s.1.reserve c.now tokens with
      | (.ok (), b) => (b, s.2 ++ [(c.now, tokens)])
      | (.error _, b) => (b, s.2)

/-- A run of a new breaker. -/
def run (budgetUsd : ℚ) (calls : List BudgetCall) : DailyBudgetBreaker × List (ℚ × ℕ) :=
  Runs.run step (new budgetUsd, []) calls

/-- What the reservations of a day cost. -/
def costOn (granted : List (ℚ × ℕ)) (day : ℤ) : ℚ :=
  ((granted.filter fun g => decide (utcDay g.1 = day)).map fun g => tokenCost g.2).sum

/-- What is recorded as spent on a day. -/
def spentOn (b : DailyBudgetBreaker) (day : ℤ) : ℚ := if b.day = day then b.spent else 0

end DailyBudgetBreaker

end ForexAi
