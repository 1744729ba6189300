/-
The risk gate of the live account.

`build_ledger_gate` reads the gate off the ledger: the open rows, the net profits of the
rows closed today, and the account figures the broker was restored with.  Today is the UTC
day of `now`.
-/
import ForexAi.Broker.Ledger
import ForexAi.Decisions.Risk
import ForexAi.Lib.Grid

namespace ForexAi

/-- `_utc_day_start`. -/
def utcDayStart (now : Time) : Time := Grid.floor Timeframe.D1.length now

/-- `load_realized_pnl_since`: the net profits of the rows closed from `start` on and before
`stop`. -/
def LedgerStore.loadRealizedPnlSince (s : LedgerStore) (start stop : Time) : ℚ :=
  (((s.positions.rows.filterMap (·.exit)).filter
    fun e => decide (start ≤ e.ts ∧ e.ts < stop)).map (·.netPnl)).sum

/-- The gate, and the projections of the ledger it is reported with. -/
structure LedgerGateView where
  gate : GateState
  equity : ℚ
  peakEquity : ℚ
  realizedToday : ℚ
  cumulativeRealized : ℚ
  openNotional : ℚ
  openPositionCount : ℕ

/-- `build_ledger_gate`. -/
def buildLedgerGate (l : Ledger) (symbol : Symbol) (now : Time) : LedgerGateView :=
  let positions := l.store.positions.openPositions
  let paper := l.broker.paper
  let equity := if paper.equity = 0 then paper.startEquity else paper.equity
  let exposurePct := if equity = 0 then 0 else positions.totalNotional / equity
  let correlationPct := if equity = 0 then 0 else positions.basketNotional symbol / equity
  let dayStart := utcDayStart now
  let realizedToday := l.store.loadRealizedPnlSince dayStart (dayStart + Timeframe.D1.length)
  let dailyLossPct := if equity = 0 then 0 else max 0 (-realizedToday) / equity
  { gate :=
      { exposureUsedPct := exposurePct
        correlationUsedPct := correlationPct
        dailyLossUsedPct := dailyLossPct
        drawdownUsedPct := paper.maxDrawdownPct
        correlationTriggered := positions.correlationTriggered symbol }
    equity
    peakEquity := paper.peakEquity
    realizedToday
    cumulativeRealized := l.store.loadRealizedPnlSince 0 (now + Timeframe.D1.length)
    openNotional := positions.totalNotional
    openPositionCount := l.store.positions.openRows.length }

/-! ### The rows as trades -/

/-- The realized profit of a window, read on the restored trades. -/
theorem loadRealizedPnlSince_eq (s : LedgerStore) (start stop : Time) :
    s.loadRealizedPnlSince start stop = ((s.positions.closedTrades.filter
      fun t => decide (start ≤ t.exitTs ∧ t.exitTs < stop)).map (·.netPnl)).sum := by
  unfold LedgerStore.loadRealizedPnlSince PositionTable.closedTrades
  refine congrArg List.sum ?_
  induction s.positions.rows with
  | nil => rfl
  | cons r rest ih =>
      cases hexit : r.exit with
      | none =>
          have htrade : r.toTrade = none := by
            unfold PaperPositionRow.toTrade
            rw [hexit]
            rfl
          rw [List.filterMap_cons_none hexit, List.filterMap_cons_none htrade, ih]
      | some e =>
          obtain ⟨t, htrade, hts, hpnl⟩ : ∃ t, r.toTrade = some t ∧ t.exitTs = e.ts ∧
              t.netPnl = e.netPnl := by
            unfold PaperPositionRow.toTrade
            rw [hexit]
            exact ⟨_, rfl, rfl, rfl⟩
          rw [List.filterMap_cons_some hexit, List.filterMap_cons_some htrade]
          by_cases hin : start ≤ e.ts ∧ e.ts < stop
          · rw [List.filter_cons_of_pos (by simpa using hin),
              List.filter_cons_of_pos (by rw [hts]; simpa using hin), List.map_cons, List.map_cons,
              ih, hpnl]
          · rw [List.filter_cons_of_neg (by simpa using hin),
              List.filter_cons_of_neg (by rw [hts]; simpa using hin), ih]

end ForexAi
