/-
The live gate beside the backtest's.

The two builders read one account in two representations: the backtest's off a paper broker,
the live one off the rows that mirror it.  Exposure, correlation and drawdown are the same
figures.  The net profit of the day is the same too, but the backtest divides its loss by
the start equity and the live gate by the equity.  So the gates are equal exactly when the
day has no net loss or the account stands at its start equity.
-/
import ForexAi.Backtest.Stub
import ForexAi.Broker.Runs
import ForexAi.Decisions.LedgerGate

namespace ForexAi

/-- `_gate` of the driver; it raises where it divides by zero, on an empty account that had no
start equity. -/
def Driver.gateOrRaise (d : Driver) (broker : PaperBroker) (symbol : Symbol) (ts : Time) :
    Option GateState :=
  if broker.totalEquity = 0 ∧ d.cfg.startEquity = 0 then none
  else some (d.gate broker symbol ts)

/-- The ledger shows the account of a paper broker: its positions are the open rows, its trades
the closed ones, in whatever order, and the account figures are the same. -/
structure MirroredBy (b : PaperBroker) (l : Ledger) : Prop where
  positions : l.store.positions.openPositions.Perm b.positions
  trades : l.store.positions.closedTrades.Perm b.trades
  startEquity : l.broker.paper.startEquity = b.startEquity
  equity : l.broker.paper.equity = b.totalEquity
  drawdown : l.broker.paper.maxDrawdownPct = b.maxDrawdownPct

/-! ### Every account is mirrored

A mirror is needed for the condition to be exact: an account that no ledger shows would make
it true of nothing.
-/

/-- The closed row of a trade. -/
def Trade.toRow (t : Trade) : PaperPositionRow where
  orderId := 0
  symbol := t.symbol
  timeframe := t.timeframe
  side := t.side
  units := t.units
  entryPrice := t.entryPrice
  entryTs := t.entryTs
  stopLoss := none
  takeProfit := none
  costs := t.costs
  exit := some { price := t.exitPrice, ts := t.exitTs, reason := t.exitReason,
                 grossPnl := t.grossPnl, netPnl := t.netPnl }

/-- The trades as closed rows, then the positions as open ones. -/
theorem mirror_compatible {b : PaperBroker}
    (h : b.positions.Pairwise fun p q => p.symbol ≠ q.symbol) :
    (b.trades.map Trade.toRow ++ b.positions.map (PaperPositionRow.ofPosition 0)).Pairwise
      PaperPositionRow.Compatible := by
  have hclosed : ∀ t : Trade, t.toRow.exit ≠ none := fun t => by simp [Trade.toRow]
  rw [List.pairwise_append, List.pairwise_map, List.pairwise_map]
  refine ⟨?_, ?_, ?_⟩
  · exact List.pairwise_of_forall fun t _ hopen => absurd hopen (hclosed t)
  · exact h.imp fun hne _ _ => hne
  · intro r hr _ _ hopen
    obtain ⟨t, -, rfl⟩ := List.mem_map.mp hr
    exact absurd hopen (hclosed t)

/-- A ledger that mirrors the broker. -/
def PaperBroker.mirror (b : PaperBroker)
    (h : b.positions.Pairwise fun p q => p.symbol ≠ q.symbol) : Ledger where
  broker := { seed := b.seed, paper := { b with equity := b.totalEquity }, pending := [] }
  store :=
    { LedgerStore.empty fun _ => none with
      positions :=
        { rows := b.trades.map Trade.toRow ++ b.positions.map (PaperPositionRow.ofPosition 0)
          uq_open_symbol := mirror_compatible h } }

theorem mirroredBy_mirror {b : PaperBroker}
    (h : b.positions.Pairwise fun p q => p.symbol ≠ q.symbol) : MirroredBy b (b.mirror h) where
  positions := by
    show (List.map _ (List.filter _ (_ ++ _))).Perm _
    have hclosed : (b.trades.map Trade.toRow).filter (·.exit.isNone) = [] := by
      refine List.filter_eq_nil_iff.mpr fun r hr => ?_
      obtain ⟨t, -, rfl⟩ := List.mem_map.mp hr
      simp [Trade.toRow]
    have hopen : (b.positions.map (PaperPositionRow.ofPosition 0)).filter (·.exit.isNone)
        = b.positions.map (PaperPositionRow.ofPosition 0) := by
      refine List.filter_eq_self.mpr fun r hr => ?_
      obtain ⟨p, -, rfl⟩ := List.mem_map.mp hr
      rfl
    rw [List.filter_append, hclosed, hopen, List.nil_append, List.map_map]
    exact List.Perm.of_eq (List.map_id b.positions)
  trades := by
    show (List.filterMap _ (_ ++ _)).Perm _
    have htrades : (b.trades.map Trade.toRow).filterMap (·.toTrade) = b.trades := by
      rw [List.filterMap_map]
      exact List.filterMap_some
    have hopen : (b.positions.map (PaperPositionRow.ofPosition 0)).filterMap (·.toTrade) = [] := by
      rw [List.filterMap_map]
      exact List.filterMap_eq_nil_iff.mpr fun p _ => rfl
    rw [List.filterMap_append, htrades, hopen, List.append_nil]
  startEquity := rfl
  equity := rfl
  drawdown := rfl

/-! ### The figures

Sums over positions and trades do not depend on the order of the rows.  So each figure of one
account is that of the other, but for what a loss is divided by.
-/

namespace PositionSet

theorem totalNotional_perm {ps qs : PositionSet} (h : ps.Perm qs) :
    ps.totalNotional = qs.totalNotional :=
  (h.map _).sum_eq

theorem basketNotional_perm {ps qs : PositionSet} (h : ps.Perm qs) (symbol : Symbol) :
    ps.basketNotional symbol = qs.basketNotional symbol :=
  ((h.filter _).map _).sum_eq

theorem correlationTriggered_perm {ps qs : PositionSet} (h : ps.Perm qs) (symbol : Symbol) :
    ps.correlationTriggered symbol = qs.correlationTriggered symbol :=
  h.any_eq

end PositionSet

/-- What the live account realized today is what the backtest counts for the day. -/
theorem realizedToday_eq {b : PaperBroker} {l : Ledger} (h : MirroredBy b l) (now : Time) :
    l.store.loadRealizedPnlSince (utcDayStart now) (utcDayStart now + Timeframe.D1.length)
      = Driver.dailyLoss b.trades (Driver.dayOf now) := by
  rw [loadRealizedPnlSince_eq, ((h.trades.filter _).map _).sum_eq]
  unfold Driver.dailyLoss
  refine congrArg (fun p => ((b.trades.filter p).map (·.netPnl)).sum) (funext fun t => ?_)
  exact decide_eq_decide.mpr (Grid.same_cell_iff (Timeframe.length_pos .D1) t.exitTs now).symm

/-- Two shares of one loss are equal when there is none, or the two wholes are. -/
theorem loss_shares_iff {loss equity start : ℚ} (hequity : equity ≠ 0) :
    loss / equity = (if start = 0 then 0 else loss / start) ↔
      loss = 0 ∨ (start ≠ 0 ∧ equity = start) := by
  by_cases hloss : loss = 0
  · simp [hloss]
  · by_cases hstart : start = 0
    · simp [hstart, hloss, hequity]
    · rw [if_neg hstart, div_eq_div_iff hequity hstart, mul_right_inj' hloss]
      simp [hloss, hstart, eq_comm]

/-! ### Parity -/

/-- The day has no net loss, or the account stands at its start equity.  An empty account counts
as one at its start equity, where it had one. -/
def SameDenominator (d : Driver) (b : PaperBroker) (now : Time) : Prop :=
  ¬ (b.totalEquity = 0 ∧ d.cfg.startEquity = 0) ∧
    (0 ≤ ((b.trades.filter fun t =>
        decide (Driver.dayOf t.exitTs = Driver.dayOf now)).map (·.netPnl)).sum ∨
      b.totalEquity = d.cfg.startEquity ∨ b.totalEquity = 0)

theorem gate_parity_of_mirrored (d : Driver) {b : PaperBroker} {l : Ledger} (h : MirroredBy b l)
    (hstart : b.startEquity = d.cfg.startEquity) (symbol : Symbol) (now : Time) :
    d.gateOrRaise b symbol now = some (buildLedgerGate l symbol now).gate ↔
      SameDenominator d b now := by
  unfold Driver.gateOrRaise SameDenominator
  by_cases hraise : b.totalEquity = 0 ∧ d.cfg.startEquity = 0
  · rw [if_pos hraise]
    simp [hraise]
  · rw [if_neg hraise]
    set equity := if b.totalEquity = 0 then d.cfg.startEquity else b.totalEquity with hequity
    have hnonzero : equity ≠ 0 := by
      rw [hequity]
      by_cases hzero : b.totalEquity = 0
      · rw [if_pos hzero]
        exact fun hc => hraise ⟨hzero, hc⟩
      · rw [if_neg hzero]
        exact hzero
    set loss := max 0 (-Driver.dailyLoss b.trades (Driver.dayOf now)) with hloss
    have hbacktest : d.gate b symbol now =
        { exposureUsedPct := b.positions.totalNotional / equity
          correlationUsedPct := b.positions.basketNotional symbol / equity
          dailyLossUsedPct := if d.cfg.startEquity = 0 then 0 else loss / d.cfg.startEquity
          drawdownUsedPct := b.maxDrawdownPct
          correlationTriggered := b.positions.correlationTriggered symbol } := rfl
    have hlive : (buildLedgerGate l symbol now).gate =
        { exposureUsedPct := b.positions.totalNotional / equity
          correlationUsedPct := b.positions.basketNotional symbol / equity
          dailyLossUsedPct := loss / equity
          drawdownUsedPct := b.maxDrawdownPct
          correlationTriggered := b.positions.correlationTriggered symbol } := by
      unfold buildLedgerGate
      simp only [h.equity, h.startEquity, hstart, h.drawdown, realizedToday_eq h,
        PositionSet.totalNotional_perm h.positions, PositionSet.basketNotional_perm h.positions,
        PositionSet.correlationTriggered_perm h.positions, ← hequity, ← hloss, if_neg hnonzero]
    have hnoloss : loss = 0 ↔ 0 ≤ Driver.dailyLoss b.trades (Driver.dayOf now) := by
      rw [hloss, max_eq_left_iff, neg_nonpos]
    rw [hbacktest, hlive, Option.some_inj, GateState.mk.injEq]
    simp only [true_and, and_true]
    have hstands : (d.cfg.startEquity ≠ 0 ∧ equity = d.cfg.startEquity) ∨ loss = 0 ↔
        loss = 0 ∨ b.totalEquity = d.cfg.startEquity ∨ b.totalEquity = 0 := by
      by_cases hzero : b.totalEquity = 0
      · have hpositive : d.cfg.startEquity ≠ 0 := fun hc => hraise ⟨hzero, hc⟩
        simp [hequity, hzero, hpositive]
      · have hsame : d.cfg.startEquity ≠ 0 ∧ equity = d.cfg.startEquity ↔
            b.totalEquity = d.cfg.startEquity := by
          rw [hequity, if_neg hzero]
          exact ⟨fun h => h.2, fun h => ⟨fun hc => hzero (h.trans hc), h⟩⟩
        rw [hsame]
        simp [hzero, or_comm]
    rw [eq_comm, loss_shares_iff hnonzero, or_comm, hstands, hnoloss]
    exact (and_iff_right hraise).symm

variable [Digest]

/-- **Gate parity.**  After any history of a paper broker, for any ledger that mirrors it, any
symbol and any instant, the live gate is the backtest's exactly when the day has no net loss
or the account stands at its start equity. -/
theorem gate_parity_iff (d : Driver) (seed : ℤ) (costParams : CostParams)
    (ops : List PaperBroker.Op) (l : Ledger)
    (h : MirroredBy ((PaperBroker.new d.cfg.startEquity seed costParams).run ops) l)
    (symbol : Symbol) (now : Time) :
    d.gateOrRaise ((PaperBroker.new d.cfg.startEquity seed costParams).run ops) symbol now
        = some (buildLedgerGate l symbol now).gate ↔
      SameDenominator d ((PaperBroker.new d.cfg.startEquity seed costParams).run ops) now :=
  gate_parity_of_mirrored d h (PaperBroker.run_startEquity _ _) symbol now

/-- Every history is mirrored by some ledger. -/
theorem exists_mirror (startEquity : ℚ) (seed : ℤ) (costParams : CostParams)
    (ops : List PaperBroker.Op) :
    ∃ l, MirroredBy ((PaperBroker.new startEquity seed costParams).run ops) l :=
  ⟨_, mirroredBy_mirror (PaperBroker.distinct_run List.Pairwise.nil ops)⟩

omit [Digest]

/-- A driver without bars. -/
def idleDriver : Driver where
  cfg := stubConfig [.eurusd] [.H1] hourly_ne_nil
  risk := .default
  history := fun _ _ => .empty
  runner := stubRunner .long

/-- Long at midnight at 1.10, out an hour later at `price`. -/
def inAndOut (price : ℚ) : List PaperBroker.Op :=
  [.enterAtNextOpen .eurusd .H1 .long (11 / 10) 0 none none (some 10000),
    .closeOnSignal .eurusd price (seconds 3600)]

/-- The broker after that, without slippage. -/
def afterInAndOut (price : ℚ) : PaperBroker :=
  @PaperBroker.run Digest.zero (PaperBroker.new idleDriver.cfg.startEquity 0 {}) (inAndOut price)

/-- After a profit the gates agree. -/
theorem parity_after_profit : ∃ l, MirroredBy (afterInAndOut (12 / 10)) l ∧
    idleDriver.gateOrRaise (afterInAndOut (12 / 10)) .eurusd (seconds 7200)
      = some (buildLedgerGate l .eurusd (seconds 7200)).gate := by
  obtain ⟨l, hl⟩ := @exists_mirror Digest.zero idleDriver.cfg.startEquity 0 {} (inAndOut (12 / 10))
  refine ⟨l, hl, (@gate_parity_iff Digest.zero idleDriver 0 {} (inAndOut (12 / 10)) l hl .eurusd
    (seconds 7200)).mpr ⟨?_, Or.inl ?_⟩⟩
  · decide +kernel
  · decide +kernel

/-- After a loss they do not. -/
theorem disparity_after_loss : ¬ ∀ (_ : Digest) (d : Driver) (seed : ℤ) (costParams : CostParams)
    (ops : List PaperBroker.Op) (l : Ledger),
    MirroredBy ((PaperBroker.new d.cfg.startEquity seed costParams).run ops) l →
      ∀ symbol now, (∀ op ∈ ops, ∀ ts, op.stamp = some ts → ts ≤ now) →
        d.gateOrRaise ((PaperBroker.new d.cfg.startEquity seed costParams).run ops) symbol now
          = some (buildLedgerGate l symbol now).gate := by
  intro h
  obtain ⟨l, hl⟩ := @exists_mirror Digest.zero idleDriver.cfg.startEquity 0 {} (inAndOut 1)
  have hpast : ∀ op ∈ inAndOut 1, ∀ ts, op.stamp = some ts → ts ≤ seconds 7200 := by
    intro op hop ts hts
    have hall : ((inAndOut 1).all fun op => op.stamp.all fun ts => decide (ts ≤ seconds 7200))
        = true := by decide +kernel
    have hop' := List.all_eq_true.mp hall op hop
    rw [hts] at hop'
    simpa using hop'
  have hequal := h Digest.zero idleDriver 0 {} (inAndOut 1) l hl .eurusd (seconds 7200) hpast
  have hsame := (gate_parity_of_mirrored idleDriver hl
    (@PaperBroker.run_startEquity Digest.zero _ _) .eurusd (seconds 7200)).mp hequal
  have hnot : ¬ SameDenominator idleDriver (afterInAndOut 1) (seconds 7200) := by
    unfold SameDenominator
    decide +kernel
  exact hnot hsame

end ForexAi
