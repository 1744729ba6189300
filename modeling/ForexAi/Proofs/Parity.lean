/-
The backtest and the live lifecycle keep one account.

A decision of a bar reaches the next open in two ways.  The backtest keeps a pending fill
in memory; the ledger writes a pending order and rebuilds its broker from the tables
before every bar.  On one symbol and one timeframe, over bars that follow each other
without a gap, the two stay in step: `parity` says that after every bar they have the
same trades, the same position and the same cash, peak and drawdown.

The relation has three parts.  `Mirrors` is the account: the brokers match, the tables
hold it, and the latest snapshot carries its figures.  `Queued` is the queue: what waits
in the ledger is the order of the loop's pending fill.  `Told` is what the ledger was told
so far, which is why it refuses no new order.
-/
import ForexAi.Backtest.Loop
import ForexAi.Broker.Matching
import ForexAi.Broker.Queue
import ForexAi.Workers.Orchestrator

namespace ForexAi

/-! ### What is given -/

/-- A decision on paper, with what the writer adds when it submits it. -/
structure PaperDecision where
  id : DecisionId
  orderId : OrderId
  createdAt : Time
  refPrice : ℚ
  intent : Intent

/-- A bar, and what is decided at its close. -/
structure DecidedBar where
  candle : Candle
  decision : Option PaperDecision

/-- The submission of a decision. -/
def PaperDecision.submission (d : PaperDecision) (symbol : Symbol) (timeframe : Timeframe) :
    Submission where
  id := d.orderId
  createdAt := d.createdAt
  symbol := symbol
  timeframe := timeframe
  direction := d.intent.direction
  refPrice := d.refPrice
  units := d.intent.units
  decisionId := some d.id
  stopLoss := d.intent.stopLoss
  takeProfit := d.intent.takeProfit

/-- What a bar is to the live account: it is processed, and then its decision is submitted. -/
def DecidedBar.events (symbol : Symbol) (timeframe : Timeframe) (b : DecidedBar) : List LiveEvent :=
  .bar symbol timeframe b.candle.toBar ::
    b.decision.toList.map fun d => .submit (d.submission symbol timeframe)

/-- What a bar is to the backtest. -/
def DecidedBar.decided (b : DecidedBar) : Candle × Option Intent :=
  (b.candle, b.decision.map (·.intent))

/-- The fill that waits for an order, on a symbol that is open or not. -/
def PendingFill.ofOrder (isOpen : Bool) (o : PaperOrderRow) : PendingFill where
  closeExisting := isOpen
  openDirection := o.side
  units := o.units
  stopLoss := o.stopLoss
  takeProfit := o.takeProfit

/-! ### The relation

`Mirrors` speaks of what both sides have, `Queued` of what is still to come, and `Told` of the
past of the ledger, where the loop has nothing to compare: the ledger refuses a decision it
was told before.
-/

/-- The account: the brokers match, the tables hold it, and the latest snapshot has its
figures.  Nothing of it is later than `t`. -/
structure Mirrors (symbol : Symbol) (t : Time) (s : Loop) (l : Ledger) : Prop where
  account : s.broker.Matches l.broker.paper
  filed : l.book.Filed symbol
  stored : ∀ row, l.store.latestSnapshot = some row →
    (row.cash, row.peakEquity, row.drawdownPct)
      = (l.broker.paper.cash, l.broker.paper.peakEquity, l.broker.paper.maxDrawdownPct) ∧
    row.ts ≤ t
  settled : s.broker.positions = [] → s.broker.Settled
  sorted : s.broker.trades.Pairwise LedgerStore.EarlierExit
  past : ∀ trade ∈ s.broker.trades, trade.exitTs ≤ t
  seed : l.broker.seed = s.broker.seed

/-- The queue: the order that waits in the ledger, if one does, is that of the loop's pending
fill, and it is due one bar after `t`. -/
structure Queued (fine : Timeframe) (symbol : Symbol) (t : Time) (s : Loop) (l : Ledger)
    (acting : Option PaperOrderRow) : Prop where
  queue : l.store.listPendingOrders = acting.toList
  waits : s.pending = acting.map (.ofOrder (s.broker.positions.openFor symbol).isSome)
  due : ∀ o, acting = some o → o.symbol = symbol ∧ o.timeframe = fine ∧ o.seed = s.broker.seed ∧
    l.store.getDecisionBucket o.decisionId = some t ∧
    (s.broker.positions.openFor symbol).map (·.side) ≠ some o.side

/-- What the ledger was told: orders with ids of the list, on decisions made by `t`. -/
structure Told (ids : List OrderId) (t : Time) (l : Ledger) : Prop where
  rows : ∀ o ∈ l.store.orders, o.id ∈ ids ∧
    ∃ u ≤ t, l.store.getDecisionBucket o.decisionId = some u
  queue : ∀ o ∈ l.broker.pending, ∃ u ≤ t, l.store.getDecisionBucket o.decisionId = some u

namespace Mirrors

variable {fine : Timeframe} {symbol : Symbol} {t : Time} {s : Loop} {l : Ledger}

/-- The open row of the symbol is the open position of the loop. -/
theorem openRow (h : Mirrors symbol t s l) :
    (l.store.positions.openRow symbol).map (·.toPosition) = s.broker.positions.openFor symbol := by
  rw [← PositionTable.openFor_openPositions, ← h.account.positions]
  exact congrArg (PositionSet.openFor · symbol) (show _ = _ from h.filed.agrees).symm

theorem own (h : Mirrors symbol t s l) : ∀ p ∈ s.broker.positions, p.symbol = symbol := by
  rw [← h.account.positions, show l.broker.paper.positions = l.store.positions.openPositions
    from h.filed.agrees]
  exact h.filed.serial.openPositions_own

/-- A restore brings back what the loop still has. -/
theorem restored (h : Mirrors symbol t s l) :
    s.broker.Matches l.book.restore.paper ∧ l.book.restore.Filed symbol := by
  have htrades : l.book.table.closedTrades = s.broker.trades :=
    h.filed.trades.symm.trans h.account.trades
  have hfiled : l.book.restore.Filed symbol :=
    Book.filed_restore h.filed.serial (by rw [htrades]; exact h.sorted)
  have hadopt : (l.book.paper.adopt l.book.latest).cash = l.broker.paper.cash ∧
      (l.book.paper.adopt l.book.latest).peakEquity = l.broker.paper.peakEquity ∧
      (l.book.paper.adopt l.book.latest).maxDrawdownPct = l.broker.paper.maxDrawdownPct := by
    cases hlatest : l.book.latest with
    | none => exact ⟨rfl, rfl, rfl⟩
    | some row =>
        obtain ⟨hcash, hmarks⟩ := Prod.mk.inj (h.stored row hlatest).1
        obtain ⟨hpeak, hdrawdown⟩ := Prod.mk.inj hmarks
        exact ⟨hcash, hpeak, hdrawdown⟩
  obtain ⟨hcash, hpeak, hdrawdown⟩ := hadopt
  refine ⟨h.account.trans ⟨hcash, hpeak, hdrawdown, ?_, ?_, l.book.restore_seed.1,
    l.book.restore_seed.2⟩, hfiled⟩
  · exact (show l.book.paper.positions = _ from h.filed.agrees).symm
  · rw [hfiled.trades]
    exact h.filed.trades.symm

end Mirrors

/-- **The order that waits acts on the next bar**, and no other does. -/
theorem Queued.actingFor {fine : Timeframe} {symbol : Symbol} {t : Time} {s : Loop} {l : Ledger}
    {acting : Option PaperOrderRow} (h : Queued fine symbol t s l acting)
    (hmirrors : Mirrors symbol t s l) :
    l.actingFor symbol fine (t + fine.length) = acting := by
  unfold Ledger.actingFor LedgerStore.actingAt
  cases acting with
  | none =>
      rw [LedgerStore.unitCandidates_empty h.queue]
      cases l.store.positions.openRow symbol <;> rfl
  | some o =>
      obtain ⟨hsymbol, htimeframe, -, hbucket, hside⟩ := h.due o rfl
      have hbar : candidatesForBar (l.store.unitCandidates symbol fine) (t + fine.length)
          = [⟨o, t + fine.length⟩] := by
        rw [LedgerStore.unitCandidates_single h.queue hsymbol htimeframe hbucket]
        unfold candidatesForBar
        rw [List.filter_cons_of_pos (by simp), List.filter_nil]
        rfl
      rw [hbar]
      rw [← hmirrors.openRow, Option.map_map] at hside
      cases hrow : l.store.positions.openRow symbol with
      | none => rfl
      | some row =>
          rw [hrow] at hside
          have hne : o.side ≠ row.side := fun hc => hside (by rw [hc]; rfl)
          unfold actingOrder
          rw [Option.map_some]
          simp only
          rw [List.find?_cons_of_pos (by simpa using hne)]
          rfl

/-! ### One bar

A bar is settled on both sides by the same calls of the broker, the restored one and the one
kept in memory.  After that the ledger either writes a snapshot with the figures, or has
nothing to write because nothing has moved.
-/

section Bar

variable [Digest] {fine : Timeframe} {symbol : Symbol} {t : Time} {s : Loop} {l : Ledger}
  {acting : Option PaperOrderRow}

/-- **The loop makes the calls of the ledger's bar.** -/
theorem Queued.atClose (h : Queued fine symbol t s l acting) (hmirrors : Mirrors symbol t s l)
    (candle : Candle) :
    s.atClose fine symbol candle
      = s.broker.run (l.book.barCalls symbol candle.toBar acting) := by
  have hopen : (l.book.table.openRow symbol).isSome
      = (s.broker.positions.openFor symbol).isSome := by
    rw [← hmirrors.openRow, Option.isSome_map]
    rfl
  unfold Loop.atClose Book.barCalls PaperBroker.run
  rw [h.waits, hopen, List.foldl_append]
  cases acting with
  | none => rfl
  | some o =>
      obtain ⟨rfl, rfl, -⟩ := h.due o rfl
      simp only [Option.map_some]
      rw [applyFill_eq_run]
      rfl

omit [Digest] in
theorem Mirrors.snapshotDue (h : Mirrors symbol t s l) {ts : Time} (hts : t < ts) :
    l.book.snapshotDue none ts = true := by
  unfold Book.snapshotDue
  cases hlatest : l.book.latest with
  | none => rfl
  | some row =>
      have hlate : row.ts < ts := lt_of_le_of_lt (h.stored row hlatest).2 hts
      simp [not_le.mpr hlate]

/-- What a bar of the loop leaves: an account the watermarks have seen, and trades left one
after the other. -/
theorem Mirrors.loop_bar (h : Mirrors symbol t s l) (hqueued : Queued fine symbol t s l acting)
    {candle : Candle} (hts : t < candle.ts) (totalBars i : ℕ) (decided : Option Intent) :
    let s' := s.bar fine symbol totalBars i candle decided
    (s'.broker.positions = [] → s'.broker.Settled) ∧
      s'.broker.trades.Pairwise LedgerStore.EarlierExit ∧
      (∀ trade ∈ s'.broker.trades, trade.exitTs ≤ candle.ts) ∧
      s'.broker.seed = s.broker.seed := by
  intro s'
  set calls := l.book.barCalls symbol candle.toBar acting with hcalls
  have hclose : s.atClose fine symbol candle = s.broker.run calls := hqueued.atClose h candle
  obtain ⟨new, htrades, hnew⟩ := @PaperBroker.run_trades _ candle.ts calls
    (fun op hop u hu => Option.some.inj (hu.symm.trans (Book.barCalls_spec op hop).1)) s.broker
  have hall : s'.broker.trades = s.broker.trades ++ new := by
    show (s.atClose fine symbol candle).trades = _
    rw [hclose, htrades]
  refine ⟨fun hflat => PaperBroker.settled_state
    (b := (s.atClose fine symbol candle).markPosition symbol candle.close) hflat candle.ts,
    ?_, ?_, ?_⟩
  · rw [hall, List.pairwise_append]
    refine ⟨h.sorted, ?_, fun a ha b hb => ?_⟩
    · refine List.pairwise_of_forall_mem_list fun a ha b hb => ?_
      show a.exitTs ≤ b.exitTs
      rw [hnew a ha, hnew b hb]
    · show a.exitTs ≤ b.exitTs
      rw [hnew b hb]
      exact (h.past a ha).trans hts.le
  · intro trade htrade
    rw [hall] at htrade
    rcases List.mem_append.mp htrade with hold | hadded
    · exact (h.past trade hold).trans hts.le
    · exact (hnew trade hadded).le
  · show (s.atClose fine symbol candle).seed = _
    rw [hclose, PaperBroker.run_seed]

theorem Mirrors.loop_idle (h : Mirrors symbol t s l) (hqueued : Queued fine symbol t s l none)
    (hfree : s.broker.positions.openFor symbol = none) (candle : Candle) (totalBars i : ℕ)
    (decided : Option Intent) :
    s.broker.Matches (s.bar fine symbol totalBars i candle decided).broker := by
  have hclose : s.atClose fine symbol candle = s.broker := by
    rw [hqueued.atClose h candle]
    show (s.broker.evaluateExit symbol candle.close candle.ts).2 = s.broker
    rw [PaperBroker.evaluateExit_none hfree]
  have hflat : s.broker.positions = [] := by
    refine List.eq_nil_iff_forall_not_mem.mpr fun p hp => ?_
    exact PositionSet.openFor_eq_none.mp hfree p hp (h.own p hp)
  have hstate := PaperBroker.state_of_settled (b := s.broker.markPosition symbol candle.close) hflat
    (h.settled hflat) candle.ts
  show s.broker.Matches (((s.atClose fine symbol candle).markPosition symbol candle.close).state
    candle.ts).2
  rw [hclose]
  exact ⟨hstate.cash, hstate.peakEquity, hstate.maxDrawdownPct, hstate.positions, hstate.trades,
    hstate.seed, hstate.costParams⟩

/-- The ledger's bar up to its mark: the account is filed, and its broker matches the loop's at
the close. -/
theorem Mirrors.settles (h : Mirrors symbol t s l) (hqueued : Queued fine symbol t s l acting)
    (candle : Candle) :
    (l.book.settleBar symbol candle.toBar acting).Filed symbol ∧
      (∀ p ∈ (s.atClose fine symbol candle).positions, p.symbol = symbol) ∧
      ∃ paper, (l.book.settleBar symbol candle.toBar acting).paper
          = paper.markPosition symbol candle.close ∧
        (s.atClose fine symbol candle).Matches paper := by
  obtain ⟨hmatches, hfiled⟩ := h.restored
  have hacting : ∀ o, acting = some o → o.symbol = symbol ∧ o.seed = l.book.paper.seed := by
    intro o ho
    obtain ⟨hsymbol, -, hseed, -⟩ := hqueued.due o ho
    exact ⟨hsymbol, hseed.trans h.account.seed.symm⟩
  obtain ⟨hsettled, hpaper⟩ := Book.settleBar_run hfiled candle.toBar hacting
  have hrun : (s.atClose fine symbol candle).Matches
      (l.book.restore.paper.run (l.book.barCalls symbol candle.toBar acting)) := by
    rw [hqueued.atClose h candle]
    exact hmatches.run fun op hop => (Book.barCalls_spec op hop).2
  refine ⟨hsettled, fun p hp => hsettled.serial.openPositions_own p ?_, _, hpaper, hrun⟩
  rw [← show (l.book.settleBar symbol candle.toBar acting).paper.positions = _ from hsettled.agrees,
    hpaper]
  rw [← hrun.positions] at hp
  exact hp

/-- **A bar that writes.**  The snapshot has the figures of the broker that is left. -/
theorem Mirrors.bar_writes (h : Mirrors symbol t s l) (hqueued : Queued fine symbol t s l acting)
    {candle : Candle} (hts : t < candle.ts) (totalBars i : ℕ) (decided : Option Intent)
    {l' : Ledger} (hseed : l'.broker.seed = l.broker.seed)
    (hbook : l'.book = (l.book.settleBar symbol candle.toBar acting).snapshot candle.ts) :
    Mirrors symbol candle.ts (s.bar fine symbol totalBars i candle decided) l' := by
  obtain ⟨hsettled, hown, paper, hpaper, hclose⟩ := h.settles hqueued candle
  obtain ⟨hsettles, hsorted, hpast, hkept⟩ := h.loop_bar hqueued hts totalBars i decided
  set settled := l.book.settleBar symbol candle.toBar acting with hdef
  have hleft : l'.broker.paper = (settled.paper.state candle.ts).2 := Ledger.paper_of_book hbook
  have hlatest : l'.store.latestSnapshot = some (settled.snapshotRow candle.ts) := by
    show l'.book.latest = _
    rw [hbook]
    show newest (settled.snapshots ++ [settled.snapshotRow candle.ts]) = _
    rw [hdef, Book.settleBar_snapshots]
    exact Book.latest_of_due (settled.snapshotRow candle.ts) (h.snapshotDue hts)
  refine ⟨?_, ?_, ?_, hsettles, hsorted, hpast, (hseed.trans h.seed).trans hkept.symm⟩
  · rw [hleft, hpaper]
    exact hclose.markState hown candle.close candle.ts
  · rw [hbook]
    exact hsettled.snapshot candle.ts
  · intro row hrow
    rw [hlatest] at hrow
    obtain rfl := Option.some.inj hrow
    rw [hleft]
    exact ⟨rfl, le_refl _⟩

/-- **A bar that writes nothing.**  Nothing was open and nothing waited, so nothing moved. -/
theorem Mirrors.bar_silent (h : Mirrors symbol t s l) (hqueued : Queued fine symbol t s l none)
    (hfree : s.broker.positions.openFor symbol = none) {candle : Candle} (hts : t < candle.ts)
    (totalBars i : ℕ) (decided : Option Intent) {l' : Ledger}
    (hseed : l'.broker.seed = l.broker.seed)
    (hbook : l'.book = l.book.settleBar symbol candle.toBar none) :
    Mirrors symbol candle.ts (s.bar fine symbol totalBars i candle decided) l' := by
  obtain ⟨hsettled, -, paper, hpaper, hclose⟩ := h.settles hqueued candle
  obtain ⟨hsettles, hsorted, hpast, hkept⟩ := h.loop_bar hqueued hts totalBars i decided
  have hidle := h.loop_idle hqueued hfree candle totalBars i decided
  have hleft : l'.broker.paper = paper.markPosition symbol candle.close :=
    (Ledger.paper_of_book hbook).trans hpaper
  have hsame : s.broker.Matches l'.broker.paper := by
    rw [hqueued.atClose h candle] at hclose
    have hcalls : s.broker.run (l.book.barCalls symbol candle.toBar none) = s.broker := by
      show (s.broker.evaluateExit symbol candle.close candle.ts).2 = s.broker
      rw [PaperBroker.evaluateExit_none hfree]
    rw [hcalls] at hclose
    rw [hleft]
    exact ⟨hclose.cash, hclose.peakEquity, hclose.maxDrawdownPct, hclose.positions, hclose.trades,
      hclose.seed, hclose.costParams⟩
  refine ⟨hidle.symm.trans hsame, ?_, ?_, hsettles, hsorted, hpast,
    (hseed.trans h.seed).trans hkept.symm⟩
  · rw [hbook]
    exact hsettled
  · intro row hrow
    have hlatest : l.store.latestSnapshot = some row := by
      rw [← hrow]
      show l.book.latest = l'.book.latest
      unfold Book.latest
      rw [hbook, Book.settleBar_snapshots]
    obtain ⟨hfigures, hstamp⟩ := h.stored row hlatest
    have hmoved := h.account.symm.trans hsame
    rw [hfigures, hmoved.cash, hmoved.peakEquity, hmoved.maxDrawdownPct]
    exact ⟨rfl, hstamp.trans hts.le⟩

/-- **One bar.**  The order that waits is filled on both sides, the stop and the target are
evaluated on both, and what the loop keeps in memory the ledger has written down. -/
theorem Mirrors.bar {cfg : LiveConfig} (hinterval : cfg.snapshotInterval = none)
    (h : Mirrors symbol t s l) (hqueued : Queued fine symbol t s l acting) {candle : Candle}
    (hts : candle.ts = t + fine.length) (totalBars i : ℕ) (decided : Option Intent) :
    Mirrors symbol candle.ts (s.bar fine symbol totalBars i candle decided)
      (LiveEvent.step cfg l (.bar symbol fine candle.toBar)) := by
  have hlater : t < candle.ts := by
    rw [hts]
    exact lt_add_of_pos_right t fine.length_pos
  have hbook : (LiveEvent.step cfg l (.bar symbol fine candle.toBar)).book
      = l.book.processBar none symbol candle.toBar acting := by
    rw [Ledger.step_bar_book, hinterval]
    show l.book.processBar none symbol candle.toBar (l.actingFor symbol fine candle.ts) = _
    rw [hts, hqueued.actingFor h]
  have hseed : (LiveEvent.step cfg l (.bar symbol fine candle.toBar)).broker.seed = l.broker.seed :=
    (Ledger.step_bar_effect cfg l symbol fine candle.toBar).seed
  by_cases htouched : l.book.touched symbol acting = true
  · rw [Book.processBar_writes ⟨htouched, h.snapshotDue hlater⟩] at hbook
    exact h.bar_writes hqueued hlater totalBars i decided hseed hbook
  · rw [Book.processBar_silent fun hc => htouched hc.1] at hbook
    obtain ⟨hrow, rfl⟩ : l.book.table.openRow symbol = none ∧ acting = none := by
      unfold Book.touched at htouched
      simpa using htouched
    have hfree : s.broker.positions.openFor symbol = none := by
      rw [← h.openRow]
      exact Option.map_eq_none_iff.mpr hrow
    exact h.bar_silent hqueued hfree hlater totalBars i decided hseed hbook

end Bar

theorem Told.mono {ids ids' : List OrderId} {t t' : Time} {l : Ledger} (h : Told ids t l)
    (hids : ∀ id ∈ ids, id ∈ ids') (ht : t ≤ t') : Told ids' t' l := by
  refine ⟨fun o ho => ?_, fun o ho => ?_⟩
  · obtain ⟨hmem, u, hu, hdecision⟩ := h.rows o ho
    exact ⟨hids _ hmem, u, hu.trans ht, hdecision⟩
  · obtain ⟨u, hu, hdecision⟩ := h.queue o ho
    exact ⟨u, hu.trans ht, hdecision⟩

/-! ### The queue after a bar -/

section Queue

variable {fine : Timeframe} {symbol : Symbol} {t ts : Time} {s : Loop} {l : Ledger}
  {ids : List OrderId}

/-- The account is the book and the seed of the broker. -/
theorem Mirrors.of_book (h : Mirrors symbol t s l) {l' : Ledger} (hbook : l'.book = l.book)
    (hseed : l'.broker.seed = l.broker.seed) : Mirrors symbol t s l' := by
  have hpaper : l'.broker.paper = l.broker.paper := Ledger.paper_of_book hbook
  refine ⟨by rw [hpaper]; exact h.account, by rw [hbook]; exact h.filed, ?_, h.settled, h.sorted,
    h.past, hseed.trans h.seed⟩
  intro row hrow
  rw [hpaper]
  refine h.stored row ?_
  rw [← hrow]
  show newest l.book.snapshots = newest l'.book.snapshots
  rw [hbook]

variable [Digest] {cfg : LiveConfig}

/-- What waited is settled by the bar, whatever becomes of it. -/
theorem Queued.empties {acting : Option PaperOrderRow} (h : Queued fine symbol t s l acting)
    {bar : Bar} (hts : bar.ts = t + fine.length) :
    (LiveEvent.step cfg l (.bar symbol fine bar)).store.listPendingOrders = [] := by
  have heffect := Ledger.step_bar_effect cfg l symbol fine bar
  refine List.eq_nil_iff_forall_not_mem.mpr fun o ho => ?_
  obtain ⟨hqueue, hsettled⟩ := (heffect.pending o).mp ho
  cases acting with
  | none =>
      rw [h.queue] at hqueue
      exact absurd hqueue (by simp)
  | some q =>
      rw [h.queue, Option.toList_some, List.mem_singleton] at hqueue
      subst hqueue
      obtain ⟨hsymbol, htimeframe, -, hbucket, -⟩ := h.due o rfl
      refine hsettled (List.mem_map.mpr ⟨⟨o, t + fine.length⟩, ?_, rfl⟩)
      rw [mem_candidatesForBar,
        LedgerStore.unitCandidates_single h.queue hsymbol htimeframe hbucket]
      exact ⟨List.mem_singleton_self _, hts.symm⟩

/-- A bar tells the ledger nothing new. -/
theorem Told.bar (h : Told ids t l) (bar : Bar) :
    Told ids t (LiveEvent.step cfg l (.bar symbol fine bar)) := by
  have hdue := (due_unitCandidates l.store symbol fine).candidatesForBar bar.ts
  have hdecisions := (Ledger.step_bar_effect cfg l symbol fine bar).decisions
  have hbucket : ∀ d, (LiveEvent.step cfg l (.bar symbol fine bar)).store.getDecisionBucket d
      = l.store.getDecisionBucket d := LedgerStore.getDecisionBucket_congr hdecisions
  rw [LiveEvent.step_bar] at hbucket ⊢
  refine ⟨fun o ho => ?_, fun o ho => ?_⟩
  · obtain ⟨q, hq, hid, hdecision⟩ :=
      Ledger.orders_processUnitBar cfg.snapshotInterval l symbol fine bar _ hdue o ho
    rw [hbucket, hid, hdecision]
    exact h.rows q hq
  · have hpending := Ledger.pending_processUnitBar cfg.snapshotInterval l symbol fine bar _ o ho
    rw [hbucket]
    exact (h.rows o (LedgerStore.mem_listPendingOrders.mp hpending).1).2

end Queue

/-! ### A decision

What is decided at the close of a bar waits for the next open: as a pending fill of the loop,
and as an order of the ledger that is due one bar later.
-/

section Decision

variable {fine : Timeframe} {symbol : Symbol} {t ts : Time} {s : Loop} {l : Ledger}
  {ids : List OrderId}

/-- A decision of a later bar is none that the ledger was told of. -/
theorem Told.other_decision (hlater : t < ts) {d : DecisionId}
    (hbucket : l.store.getDecisionBucket (some d) = some ts) {d' : Option DecisionId}
    (htold : ∃ u ≤ t, l.store.getDecisionBucket d' = some u) : d' ≠ some d := by
  rintro rfl
  obtain ⟨u, hu, hdecision⟩ := htold
  rw [hbucket] at hdecision
  exact absurd (Option.some.inj hdecision) (ne_of_gt (lt_of_le_of_lt hu hlater))

/-- The order of a decision of the bar is what the ledger is told next. -/
theorem Told.queued (h : Told ids t l) (hlater : t < ts) {l' : Ledger} {order : PaperOrderRow}
    (horders : l'.store.orders = l.store.orders ++ [order])
    (hpending : l'.broker.pending = l.broker.pending ++ [order])
    (hbuckets : ∀ d, l'.store.getDecisionBucket d = l.store.getDecisionBucket d)
    (hbucket : l.store.getDecisionBucket order.decisionId = some ts) :
    Told (ids ++ [order.id]) ts l' := by
  have hkept : Told (ids ++ [order.id]) ts l :=
    h.mono (fun id hid => List.mem_append_left _ hid) hlater.le
  refine ⟨fun o ho => ?_, fun o ho => ?_⟩
  · rw [horders, List.mem_append, List.mem_singleton] at ho
    rw [hbuckets]
    rcases ho with ho | rfl
    · exact hkept.rows o ho
    · exact ⟨List.mem_append_right _ (List.mem_singleton_self _), ts, le_refl _, hbucket⟩
  · rw [hpending, List.mem_append, List.mem_singleton] at ho
    rw [hbuckets]
    rcases ho with ho | rfl
    · exact hkept.queue o ho
    · exact ⟨ts, le_refl _, hbucket⟩

/-- **A decision reaches the next open both ways**, or neither. -/
theorem Queued.of_submit (h : Mirrors symbol ts s l) (hempty : l.store.listPendingOrders = [])
    (htold : Told ids t l) (hlater : t < ts) {d : PaperDecision} (hunits : 0 < d.intent.units)
    (hbucket : l.store.getDecisionBucket (some d.id) = some ts) (hid : d.orderId ∉ ids)
    {totalBars i : ℕ} (hnext : i + 1 < totalBars)
    (hwaits : s.pending = scheduleFill s.broker.positions symbol totalBars i d.intent) :
    Told (ids ++ [d.orderId]) ts ((d.submission symbol fine).submit l) ∧
      ∃ acting, Queued fine symbol ts s ((d.submission symbol fine).submit l) acting := by
  set current := (s.broker.positions.openFor symbol).map (·.side) with hcurrent
  have hopen : (l.openFor symbol).map (·.side) = current := by
    unfold Ledger.openFor
    rw [h.account.positions]
  have hschedule : s.pending = d.intent.schedule current := by
    rw [hwaits]
    unfold scheduleFill
    rw [if_neg (by omega)]
  by_cases hsame : d.intent.direction = .flat ∨ current = some d.intent.direction
  · have hsubmit : (d.submission symbol fine).submit l = l := by
      refine Submission.submit_kept ?_
      rw [show (d.submission symbol fine).symbol = symbol from rfl, hopen]
      exact hsame
    rw [hsubmit]
    refine ⟨htold.mono (fun id hid => List.mem_append_left _ hid) hlater.le, none, hempty, ?_,
      fun o ho => absurd ho (by simp)⟩
    rw [hschedule]
    unfold Intent.schedule
    rw [if_pos hsame]
    rfl
  · obtain ⟨hdirection, hside⟩ := not_or.mp hsame
    have hskip : ¬ ((d.submission symbol fine).direction = .flat ∨
        (d.submission symbol fine).units ≤ 0) := by
      rintro (hflat | hle)
      · exact hdirection hflat
      · exact absurd hunits (not_lt.mpr hle)
    obtain ⟨horders, hpending⟩ := Submission.submit_new hskip
      (by rw [show (d.submission symbol fine).symbol = symbol from rfl, hopen]; exact hside)
      (fun o ho => Told.other_decision hlater hbucket (htold.queue o ho))
      (fun o ho => ⟨fun hc => hid ((show o.id = d.orderId from hc) ▸ (htold.rows o ho).1),
        Told.other_decision hlater hbucket (htold.rows o ho).2⟩)
    set l' := (d.submission symbol fine).submit l with hl'
    set order := (d.submission symbol fine).row l hskip with horder
    have hbuckets : ∀ d', l'.store.getDecisionBucket d' = l.store.getDecisionBucket d' :=
      LedgerStore.getDecisionBucket_congr ((d.submission symbol fine).submit_keeps l).1
    refine ⟨htold.queued hlater horders hpending hbuckets hbucket, some order, ?_, ?_, ?_⟩
    · exact LedgerStore.listPendingOrders_append hempty horders rfl
    · rw [hschedule]
      unfold Intent.schedule
      rw [if_neg hsame, hcurrent, Option.isSome_map]
      rfl
    · intro o ho
      obtain rfl := Option.some.inj ho
      exact ⟨rfl, rfl, h.seed, (hbuckets _).trans hbucket, hside⟩

variable [Digest]

/-- **One bar and its decision** keep the two sides in step. -/
theorem step_decided (cfg : LiveConfig) (hinterval : cfg.snapshotInterval = none)
    (hmirrors : Mirrors symbol t s l) {acting : Option PaperOrderRow}
    (hqueued : Queued fine symbol t s l acting) (htold : Told ids t l) {b : DecidedBar}
    (hts : b.candle.ts = t + fine.length)
    (hsized : ∀ d, b.decision = some d → 0 < d.intent.units)
    (hbucket : ∀ d, b.decision = some d →
      l.store.getDecisionBucket (some d.id) = some b.candle.ts)
    (hids : ∀ d, b.decision = some d → d.orderId ∉ ids) (totalBars i : ℕ) :
    Mirrors symbol b.candle.ts
        (s.bar fine symbol totalBars i b.candle (b.decision.map (·.intent)))
        (l.live cfg (b.events symbol fine)) ∧
      (l.live cfg (b.events symbol fine)).store.decisions = l.store.decisions ∧
      (i + 1 < totalBars →
        Told (ids ++ (b.decision.map (·.orderId)).toList) b.candle.ts
            (l.live cfg (b.events symbol fine)) ∧
          ∃ acting', Queued fine symbol b.candle.ts
            (s.bar fine symbol totalBars i b.candle (b.decision.map (·.intent)))
            (l.live cfg (b.events symbol fine)) acting') := by
  have hlater : t < b.candle.ts := by
    rw [hts]
    exact lt_add_of_pos_right t fine.length_pos
  have hbar := hmirrors.bar hinterval hqueued hts totalBars i (b.decision.map (·.intent))
  have hempty : (LiveEvent.step cfg l (.bar symbol fine b.candle.toBar)).store.listPendingOrders
      = [] := hqueued.empties hts
  have htoldBar : Told ids t (LiveEvent.step cfg l (.bar symbol fine b.candle.toBar)) :=
    htold.bar b.candle.toBar
  have hkept : (LiveEvent.step cfg l (.bar symbol fine b.candle.toBar)).store.decisions
      = l.store.decisions := (Ledger.step_bar_effect cfg l symbol fine b.candle.toBar).decisions
  generalize hclosed : LiveEvent.step cfg l (.bar symbol fine b.candle.toBar) = closed at *
  cases hdecision : b.decision with
  | none =>
      have hlive : l.live cfg (b.events symbol fine) = closed := by
        unfold DecidedBar.events Ledger.live
        rw [hdecision]
        exact hclosed
      rw [hlive]
      rw [hdecision] at hbar
      refine ⟨hbar, hkept, fun _ => ⟨?_, none, hempty, rfl, fun o ho => absurd ho (by simp)⟩⟩
      exact htoldBar.mono (fun id hid => List.mem_append_left _ hid) hlater.le
  | some d =>
      have hlive : l.live cfg (b.events symbol fine) =
          (d.submission symbol fine).submit closed := by
        unfold DecidedBar.events Ledger.live
        rw [hdecision, ← hclosed]
        rfl
      rw [hlive]
      rw [hdecision] at hbar
      obtain ⟨hdecisions, hseed⟩ := (d.submission symbol fine).submit_keeps closed
      refine ⟨hbar.of_book (Ledger.book_submit _ _) hseed, hdecisions.trans hkept, fun hnext => ?_⟩
      have hstamp : closed.store.getDecisionBucket (some d.id) = some b.candle.ts := by
        rw [LedgerStore.getDecisionBucket_congr hkept]
        exact hbucket d hdecision
      exact Queued.of_submit hbar hempty htoldBar hlater (hsized d hdecision) hstamp
        (hids d hdecision) hnext rfl

end Decision

/-! ### Runs -/

/-- The ids of the orders the bars' decisions are submitted under. -/
def orderIds (bars : List DecidedBar) : List OrderId :=
  bars.flatMap fun b => (b.decision.map (·.orderId)).toList

/-- What is granted of the bars: they follow each other without a gap, every decision has a
positive size and the bucket of its bar, and every order an id of its own. -/
structure DecidedRun (fine : Timeframe) (decisions : DecisionId → Option DecisionRef)
    (bars : List DecidedBar) : Prop where
  contiguous : bars.IsChain fun a b => b.candle.ts = a.candle.ts + fine.length
  sized : ∀ b ∈ bars, ∀ d, b.decision = some d → 0 < d.intent.units
  bucket : ∀ b ∈ bars, ∀ d, b.decision = some d →
    (decisions d.id).map (·.bucketTs) = some b.candle.ts
  ids : (orderIds bars).Nodup

namespace DecidedRun

variable {fine : Timeframe} {decisions : DecisionId → Option DecisionRef} {bars : List DecidedBar}

theorem next_stamp (h : DecidedRun fine decisions bars) {n : ℕ} {b b' : DecidedBar}
    (hb : bars[n]? = some b) (hb' : bars[n + 1]? = some b') :
    b'.candle.ts = b.candle.ts + fine.length := by
  obtain ⟨hn, rfl⟩ := List.getElem?_eq_some_iff.mp hb
  obtain ⟨hn', rfl⟩ := List.getElem?_eq_some_iff.mp hb'
  exact List.isChain_iff_getElem.mp h.contiguous n hn'

/-- The id of an order is not among the earlier ones. -/
theorem fresh_id (h : DecidedRun fine decisions bars) {n : ℕ} {b : DecidedBar}
    (hb : bars[n]? = some b) {d : PaperDecision} (hd : b.decision = some d) :
    d.orderId ∉ orderIds (bars.take n) := by
  obtain ⟨hn, rfl⟩ := List.getElem?_eq_some_iff.mp hb
  have hids := h.ids
  rw [← List.take_append_drop n bars, List.drop_eq_getElem_cons hn] at hids
  unfold orderIds at hids
  rw [List.flatMap_append, List.nodup_append] at hids
  intro hmem
  refine hids.2.2 _ hmem _ ?_ rfl
  rw [List.flatMap_cons, hd]
  exact List.mem_cons_self

end DecidedRun

/-- The backtest and the ledger show the same account: the closed rows are the trades, the open
rows the positions, and the brokers have the same cash, peak and drawdown. -/
structure SameAccount (broker : PaperBroker) (l : Ledger) : Prop where
  trades : l.store.positions.closedTrades = broker.trades
  positions : l.store.positions.openPositions = broker.positions
  cash : l.broker.paper.cash = broker.cash
  peakEquity : l.broker.paper.peakEquity = broker.peakEquity
  maxDrawdownPct : l.broker.paper.maxDrawdownPct = broker.maxDrawdownPct

theorem Mirrors.sameAccount {symbol : Symbol} {t : Time} {s : Loop} {l : Ledger}
    (h : Mirrors symbol t s l) : SameAccount s.broker l where
  trades := (show l.book.table.closedTrades = l.broker.paper.trades from
    h.filed.trades.symm).trans h.account.trades
  positions := (show l.book.table.openPositions = l.broker.paper.positions from
    (show _ = _ from h.filed.agrees).symm).trans h.account.positions
  cash := h.account.cash
  peakEquity := h.account.peakEquity
  maxDrawdownPct := h.account.maxDrawdownPct

section Run

variable [Digest] (fine : Timeframe) (symbol : Symbol) (cfg : BrokerConfig)
  (decisions : DecisionId → Option DecisionRef) (bars : List DecidedBar)

/-- The backtest after the first `n` bars. -/
def backtestAfter (n : ℕ) : Loop :=
  Loop.after fine symbol (bars.map (·.decided)) (.start cfg.startEquity cfg.seed cfg.costParams) n

/-- The live account after the first `n` bars: no snapshot interval, one session. -/
def liveAfter (n : ℕ) : Ledger :=
  (Ledger.start ⟨cfg, none⟩ decisions).live ⟨cfg, none⟩
    ((bars.take n).flatMap (·.events symbol fine))

omit [Digest] in
/-- Before the first bar nothing has happened on either side. -/
theorem mirrors_start (t : Time) :
    Mirrors symbol t (.start cfg.startEquity cfg.seed cfg.costParams)
      (Ledger.start ⟨cfg, none⟩ decisions) where
  account := ⟨rfl, rfl, rfl, rfl, rfl, rfl, rfl⟩
  filed := ⟨rfl, rfl, ⟨fun r hr => absurd hr (List.not_mem_nil), List.Pairwise.nil⟩⟩
  stored := fun row hrow => absurd hrow (by
    simp [LedgerStore.latestSnapshot, newest, Ledger.start, Ledger.session, LedgerStore.empty])
  settled := fun _ => ⟨le_refl _, fun _ => by simp [Loop.start, PaperBroker.new]⟩
  sorted := List.Pairwise.nil
  past := fun trade htrade => absurd htrade List.not_mem_nil
  seed := rfl

theorem backtestAfter_succ {n : ℕ} {b : DecidedBar} (hb : bars[n]? = some b) :
    backtestAfter fine symbol cfg bars (n + 1)
      = (backtestAfter fine symbol cfg bars n).bar fine symbol bars.length n b.candle
          (b.decision.map (·.intent)) := by
  unfold backtestAfter
  have hdecided : (bars.map (·.decided))[n]? = some b.decided := by
    rw [List.getElem?_map, hb]
    rfl
  rw [Loop.after_succ _ hdecided, List.length_map]
  rfl

theorem liveAfter_succ {n : ℕ} {b : DecidedBar} (hb : bars[n]? = some b) :
    liveAfter fine symbol cfg decisions bars (n + 1)
      = (liveAfter fine symbol cfg decisions bars n).live ⟨cfg, none⟩ (b.events symbol fine) := by
  unfold liveAfter Ledger.live
  rw [List.take_add_one, hb, List.flatMap_append, Runs.run_append, Option.toList_some,
    List.flatMap_singleton]

/-- The two runs, bar by bar.  Before every bar of the run the relation holds in full; after the
last one the queue does not matter. -/
theorem parity_run (hrun : DecidedRun fine decisions bars) (n : ℕ) :
    ∃ t, Mirrors symbol t (backtestAfter fine symbol cfg bars n)
        (liveAfter fine symbol cfg decisions bars n) ∧
      (liveAfter fine symbol cfg decisions bars n).store.decisions = decisions ∧
      ∀ b, bars[n]? = some b → b.candle.ts = t + fine.length ∧
        Told (orderIds (bars.take n)) t (liveAfter fine symbol cfg decisions bars n) ∧
        ∃ acting, Queued fine symbol t (backtestAfter fine symbol cfg bars n)
          (liveAfter fine symbol cfg decisions bars n) acting := by
  induction n with
  | zero =>
      refine ⟨bars[0]?.elim 0 fun b => b.candle.ts - fine.length,
        mirrors_start symbol cfg decisions _,
        rfl, fun b hb => ⟨?_, ?_, none, rfl, rfl, fun o ho => absurd ho (by simp)⟩⟩
      · rw [hb]
        exact (sub_add_cancel _ _).symm
      · exact ⟨fun o ho => absurd ho List.not_mem_nil, fun o ho => absurd ho List.not_mem_nil⟩
  | succ n ih =>
      obtain ⟨t, hmirrors, hdecisions, hnext⟩ := ih
      cases hb : bars[n]? with
      | none =>
          have hlength : bars.length ≤ n := List.getElem?_eq_none_iff.mp hb
          have hloop : backtestAfter fine symbol cfg bars (n + 1)
              = backtestAfter fine symbol cfg bars n := by
            refine Loop.after_beyond _ ?_
            rw [List.getElem?_map, hb]
            rfl
          have hlive : liveAfter fine symbol cfg decisions bars (n + 1)
              = liveAfter fine symbol cfg decisions bars n := by
            unfold liveAfter
            rw [List.take_of_length_le hlength, List.take_of_length_le (by omega)]
          rw [hloop, hlive]
          refine ⟨t, hmirrors, hdecisions, fun b hb' => ?_⟩
          rw [List.getElem?_eq_none_iff.mpr (by omega)] at hb'
          exact absurd hb' (by simp)
      | some b =>
          obtain ⟨hts, htold, acting, hqueued⟩ := hnext b hb
          have hmem : b ∈ bars := List.mem_of_getElem? hb
          have hids : orderIds (bars.take (n + 1))
              = orderIds (bars.take n) ++ (b.decision.map (·.orderId)).toList := by
            unfold orderIds
            rw [List.take_add_one, hb, List.flatMap_append, Option.toList_some,
              List.flatMap_singleton]
          have hbucket : ∀ d, b.decision = some d →
              (liveAfter fine symbol cfg decisions bars n).store.getDecisionBucket (some d.id)
                = some b.candle.ts := by
            intro d hd
            unfold LedgerStore.getDecisionBucket
            rw [hdecisions]
            exact hrun.bucket b hmem d hd
          obtain ⟨hmirrors', hkept, hnext'⟩ := step_decided ⟨cfg, none⟩ rfl hmirrors hqueued
            htold hts (hrun.sized b hmem) hbucket (fun d hd => hrun.fresh_id hb hd) bars.length n
          rw [backtestAfter_succ fine symbol cfg bars hb,
            liveAfter_succ fine symbol cfg decisions bars hb, hids]
          exact ⟨b.candle.ts, hmirrors', hkept.trans hdecisions, fun b' hb' =>
            ⟨hrun.next_stamp hb hb', hnext' (List.getElem?_eq_some_iff.mp hb').1⟩⟩

/-- **Backtest and live execution agree.**  On one symbol and one timeframe, over bars without a
gap and with at most one decision each, the backtest's bar loop and the live lifecycle have the
same account after every bar. -/
theorem parity (hrun : DecidedRun fine decisions bars) (n : ℕ) :
    SameAccount (backtestAfter fine symbol cfg bars n).broker
      (liveAfter fine symbol cfg decisions bars n) := by
  obtain ⟨t, hmirrors, -⟩ := parity_run fine symbol cfg decisions bars hrun n
  exact hmirrors.sameAccount

/-- **The driver agrees with the live lifecycle** on the decisions it takes: over the bars of a
symbol, from a fresh account, the ledger that is told them has the driver's account. -/
theorem driver_parity (d : Driver) {candles : List Candle} {s : DriverState}
    (hstart : Driver.loopOf symbol s = .start cfg.startEquity cfg.seed cfg.costParams)
    (hdecided : bars.map (·.decided) = d.decidedBars symbol candles s)
    (hrun : DecidedRun d.cfg.fine decisions bars) (n : ℕ) :
    SameAccount (d.fineRun symbol candles s n).broker
      (liveAfter d.cfg.fine symbol cfg decisions bars n) := by
  have hloop := congrArg Loop.broker (d.fineRun_loop symbol candles s n)
  rw [hstart, ← hdecided] at hloop
  rw [show (d.fineRun symbol candles s n).broker
    = (backtestAfter d.cfg.fine symbol cfg bars n).broker from hloop]
  obtain ⟨t, hmirrors, -⟩ := parity_run d.cfg.fine symbol cfg decisions bars hrun n
  exact hmirrors.sameAccount

end Run

/-! ### A flip and an exit -/

/-- A hundred thousand, no slippage drawn, the default costs. -/
def defaultBroker : BrokerConfig where
  startEquity := 100000
  seed := 0
  costParams := {}

/-- A thousand units in EURUSD, up or down. -/
def thousand (id : ℕ) (direction : Direction) (takeProfit : Option ℚ) : PaperDecision where
  id := id
  orderId := id
  createdAt := 0
  refPrice := 11 / 10
  intent := { direction, units := 1000, stopLoss := none, takeProfit }

/-- Long after the first hour, short after the second, and at its target in the fourth. -/
def fourBars : List DecidedBar :=
  [{ candle := ⟨seconds 3600, 110 / 100, 111 / 100, 109 / 100, 110 / 100⟩
     decision := some (thousand 1 .long none) },
   { candle := ⟨seconds 7200, 110 / 100, 112 / 100, 110 / 100, 112 / 100⟩
     decision := some (thousand 2 .short (some (108 / 100))) },
   { candle := ⟨seconds 10800, 111 / 100, 112 / 100, 109 / 100, 109 / 100⟩, decision := none },
   { candle := ⟨seconds 14400, 109 / 100, 109 / 100, 107 / 100, 107 / 100⟩, decision := none }]

/-- The decisions of the first two bars. -/
def firstTwo : DecisionId → Option DecisionRef := fun id =>
  some { bucketTs := seconds (3600 * id), validUntil := seconds 86400 }

theorem parity_fourBars :
    SameAccount (@backtestAfter Digest.zero .H1 .eurusd defaultBroker fourBars 4).broker
      (@liveAfter Digest.zero .H1 .eurusd defaultBroker firstTwo fourBars 4) :=
  @parity Digest.zero .H1 .eurusd defaultBroker firstTwo fourBars
    ⟨by decide +kernel, by decide +kernel, by decide +kernel, by decide +kernel⟩ 4

end ForexAi
