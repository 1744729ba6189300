/-
What a restore loses.

Before every bar the account is rebuilt from the newest snapshot, and a snapshot is
written only when one is due: none at the bar's stamp or after it, none within the
interval before it.  A bar that moves the cash while no snapshot is due leaves the
tables with the old figures, and the next restore brings them back: the fill's cost,
or the exit's whole result, is gone.  And what the tables have is a number of six
decimals, once the snapshot is read again.

`restore_keeps_account` is what does hold.  `KeepsAccount` is the condition on one bar,
read before it: a snapshot is due, or no order acts on the bar and its close breaches
nothing.  On a run whose bars all meet it the next restore finds the cash and the peak
the broker held, as their columns keep them, whatever sessions and submissions come
between and whichever rows are read again on the way.

The invariant is `Rebuildable`: the broker holds the stored figures, or will once it is
restored.
-/
import ForexAi.Broker.Columns

namespace ForexAi

/-- The two figures an account carries from bar to bar. -/
def PaperBroker.account (b : PaperBroker) : ℚ × ℚ := (b.cash, b.peakEquity)

namespace Book

/-- The stored figures: the latest snapshot's, before the first one the start equity. -/
def storedAccount (cfg : BrokerConfig) (b : Book) : ℚ × ℚ :=
  (b.latest.map fun row => (row.cash, row.peakEquity)).getD (cfg.startEquity, cfg.startEquity)

/-- A restore finds the stored figures. -/
def Rebuildable (cfg : BrokerConfig) (b : Book) : Prop :=
  b.restore.paper.account = b.storedAccount cfg

/-- The close of a bar breaches the stop or the target of the symbol's open position. -/
def breached (b : Book) (symbol : Symbol) (close : ℚ) : Bool :=
  (b.table.openRow symbol).any fun row =>
    (row.toPosition.exitPriceFor close row.stopLoss row.takeProfit).2.2

/-- A bar after which the tables still hold the account. -/
def KeepsAccount (interval : Option ℕ) (b : Book) (symbol : Symbol) (bar : Bar)
    (acting : Option PaperOrderRow) : Prop :=
  b.snapshotDue interval bar.ts = true ∨ (acting = none ∧ b.breached symbol bar.close = false)

instance (interval : Option ℕ) (b : Book) (symbol : Symbol) (bar : Bar)
    (acting : Option PaperOrderRow) : Decidable (b.KeepsAccount interval symbol bar acting) := by
  unfold KeepsAccount
  cases acting with
  | none => exact decidable_of_iff (b.snapshotDue interval bar.ts = true ∨
      b.breached symbol bar.close = false) (by simp)
  | some order => exact decidable_of_iff (b.snapshotDue interval bar.ts = true) (by simp)

/-- A close that does not breach the open row breaches nothing. -/
theorem not_breached {b : Book} {symbol : Symbol} {close : ℚ}
    (h : ∀ q, b.table.openRow symbol = some q →
      (q.toPosition.exitPriceFor close q.stopLoss q.takeProfit).2.2 = false) :
    b.breached symbol close = false := by
  unfold breached
  cases hq : b.table.openRow symbol with
  | none => rfl
  | some q => exact h q hq

theorem restore_account (b : Book) :
    b.restore.paper.account = (b.paper.adopt b.latest).account := rfl

theorem rebuildable_of_latest {cfg : BrokerConfig} {b : Book} {row : AccountSnapshotRow}
    (h : b.latest = some row) : b.Rebuildable cfg := by
  unfold Rebuildable storedAccount
  rw [restore_account, h]
  rfl

/-- A broker that holds the stored figures can be rebuilt. -/
theorem rebuildable_of_account {cfg : BrokerConfig} {b : Book}
    (h : b.paper.account = b.storedAccount cfg) : b.Rebuildable cfg := by
  cases hlatest : b.latest with
  | some row => exact rebuildable_of_latest hlatest
  | none =>
      unfold Rebuildable
      rw [restore_account, hlatest]
      exact h

/-! ### One bar

Under the condition a bar either writes its snapshot, which then has the broker's figures, or
leaves both figures as they were.  In both cases broker and tables agree afterwards.
-/

variable [Digest]

/-- On a bar on which no order acts and nothing is breached only the mark moves. -/
theorem settleBar_quiet {b : Book} {symbol : Symbol} {bar : Bar}
    (h : b.breached symbol bar.close = false) :
    b.settleBar symbol bar none = b.restore.markPosition symbol bar.close := by
  have hpos : b.restore.paper.positions.openFor symbol
      = (b.table.openRow symbol).map (·.toPosition) :=
    PositionTable.openFor_openPositions b.table symbol
  have hexit : b.restore.paper.evaluateExit symbol bar.close bar.ts = (none, b.restore.paper) := by
    cases hrow : b.table.openRow symbol with
    | none =>
        rw [hrow] at hpos
        exact PaperBroker.evaluateExit_none hpos bar.close bar.ts
    | some row =>
        rw [hrow] at hpos
        rcases PaperBroker.evaluateExit_some hpos bar.close bar.ts with
          ⟨-, heq⟩ | ⟨price, reason, hhit, -⟩
        · exact heq
        · unfold breached at h
          rw [hrow] at h
          have hfalse : (row.toPosition.exitPriceFor bar.close row.stopLoss row.takeProfit).2.2
              = false := h
          have htrue : (row.toPosition.exitPriceFor bar.close row.stopLoss row.takeProfit).2.2
              = true := congrArg (·.2.2) hhit
          rw [hfalse] at htrue
          exact absurd htrue (by simp)
  show (b.restore.persist (b.restore.paper.evaluateExit symbol bar.close bar.ts)).markPosition
    symbol bar.close = _
  rw [hexit]
  rfl

/-- A bar on which nothing acts and nothing is breached keeps the table. -/
theorem processBar_quiet (interval : Option ℕ) {b : Book} {symbol : Symbol} {bar : Bar}
    (h : b.breached symbol bar.close = false) :
    (b.processBar interval symbol bar none).table = b.table := by
  have hsettled : (b.settleBar symbol bar none).table = b.table := by
    rw [settleBar_quiet h]
    rfl
  unfold processBar
  simp only
  split
  · exact hsettled
  · exact hsettled

/-- **One bar.**  Under the condition the broker ends the bar with the figures the tables
hold. -/
theorem processBar_account {cfg : BrokerConfig} {interval : Option ℕ} {b : Book}
    {symbol : Symbol} {bar : Bar} {acting : Option PaperOrderRow} (hb : b.Rebuildable cfg)
    (hkeeps : b.KeepsAccount interval symbol bar acting) :
    (b.processBar interval symbol bar acting).paper.account
      = (b.processBar interval symbol bar acting).storedAccount cfg := by
  by_cases hwrite : b.touched symbol acting = true ∧ b.snapshotDue interval bar.ts = true
  · rw [processBar_writes hwrite]
    set settled := b.settleBar symbol bar acting with hsettled
    have hlatest : (settled.snapshot bar.ts).latest = some (settled.snapshotRow bar.ts) := by
      show newest (settled.snapshots ++ [settled.snapshotRow bar.ts]) = _
      rw [hsettled, settleBar_snapshots]
      exact latest_of_due (settled.snapshotRow bar.ts) hwrite.2
    unfold storedAccount
    rw [hlatest]
    rfl
  · rw [processBar_silent hwrite]
    -- Nothing was written, so nothing may have moved.
    have hquiet : acting = none ∧ b.breached symbol bar.close = false := by
      rcases hkeeps with hdue | hquiet
      · have huntouched : b.touched symbol acting = false := by
          by_contra hc
          exact hwrite ⟨by simpa using hc, hdue⟩
        unfold touched at huntouched
        rw [Bool.or_eq_false_iff] at huntouched
        refine ⟨by simpa using huntouched.2, ?_⟩
        have hrow : b.table.openRow symbol = none := by simpa using huntouched.1
        unfold breached
        rw [hrow]
        rfl
      · exact hquiet
    obtain ⟨rfl, hbreach⟩ := hquiet
    have hsame : (b.settleBar symbol bar none).storedAccount cfg = b.storedAccount cfg := by
      unfold storedAccount latest
      rw [settleBar_snapshots]
    rw [hsame, settleBar_quiet hbreach]
    exact hb

end Book

/-! ### Runs -/

namespace Ledger

variable [Digest]

/-- The condition on an event: a bar keeps the account, anything else does not matter. -/
def KeepsAccount (cfg : LiveConfig) (l : Ledger) : LiveEvent → Prop
  | .bar symbol timeframe b =>
      l.book.KeepsAccount cfg.snapshotInterval symbol b (l.actingFor symbol timeframe b.ts)
  | _ => True

instance (cfg : LiveConfig) (l : Ledger) (e : LiveEvent) : Decidable (KeepsAccount cfg l e) := by
  unfold KeepsAccount
  cases e <;> infer_instance

/-- The condition on an event of a run in which rows are read again. -/
def KeepsColumns (cfg : LiveConfig) (l : Ledger) : ColumnEvent → Prop
  | .live e => KeepsAccount cfg l e
  | .reread _ => True

instance (cfg : LiveConfig) (l : Ledger) (e : ColumnEvent) : Decidable (KeepsColumns cfg l e) := by
  unfold KeepsColumns
  cases e <;> infer_instance

/-- Between bars the tables keep their figures and the broker stays rebuildable. -/
theorem between_bars {cfg : LiveConfig} {l : Ledger} {e : LiveEvent} (he : e.isBar = false)
    (hl : l.book.Rebuildable cfg.broker) :
    (e.step cfg l).book.Rebuildable cfg.broker ∧
      (e.step cfg l).book.storedAccount cfg.broker = l.book.storedAccount cfg.broker := by
  cases e with
  | newSession =>
      refine ⟨?_, rfl⟩
      cases hlatest : l.book.latest with
      | some row =>
          exact Book.rebuildable_of_latest (b := (session cfg.broker l.store).book) hlatest
      | none =>
          refine Book.rebuildable_of_account ?_
          show (cfg.broker.startEquity, cfg.broker.startEquity) =
            Book.storedAccount cfg.broker l.book
          unfold Book.storedAccount
          rw [hlatest]
          rfl
  | submit r =>
      have hbook : (LiveEvent.step cfg l (.submit r)).book = l.book := book_submit r l
      rw [hbook]
      exact ⟨hl, rfl⟩
  | bar symbol timeframe b => exact absurd he (by simp [LiveEvent.isBar])

/-- After a bar that meets the condition the broker holds the stored figures. -/
theorem step_bar_account {cfg : LiveConfig} {l : Ledger} {symbol : Symbol}
    {timeframe : Timeframe} {b : Bar} (hl : l.book.Rebuildable cfg.broker)
    (hkeeps : KeepsAccount cfg l (.bar symbol timeframe b)) :
    (LiveEvent.step cfg l (.bar symbol timeframe b)).book.paper.account
      = (LiveEvent.step cfg l (.bar symbol timeframe b)).book.storedAccount cfg.broker := by
  rw [step_bar_book]
  exact Book.processBar_account hl hkeeps

/-! ### Rows that are read again

A value that was written is an exact number until its row is read from the table, and from
then on what the column keeps of it.  Reading a row twice changes nothing more, so the figures
move at most once.
-/

/-- Two figures, as the columns of a snapshot keep them. -/
def keptAccount (account : ℚ × ℚ) : ℚ × ℚ :=
  (Rounding.numeric 6 account.1, Rounding.numeric 6 account.2)

omit [Digest] in
theorem keptAccount_keptAccount (account : ℚ × ℚ) :
    keptAccount (keptAccount account) = keptAccount account := by
  unfold keptAccount
  rw [Rounding.numeric_numeric, Rounding.numeric_numeric]

omit [Digest] in
/-- Reading rows again leaves the broker rebuildable, and of the stored figures what their
columns keep. -/
theorem reread_account (cfg : BrokerConfig) (again : Reread) {l : Ledger}
    (hl : l.book.Rebuildable cfg) :
    Book.Rebuildable cfg { l with store := again.store l.store }.book ∧
      (Book.storedAccount cfg { l with store := again.store l.store }.book
          = l.book.storedAccount cfg ∨
        Book.storedAccount cfg { l with store := again.store l.store }.book
          = keptAccount (l.book.storedAccount cfg)) := by
  set reread := { l with store := again.store l.store }.book
  have hlatest : reread.latest = l.book.latest.map again.snapshot :=
    again.newest_snapshots l.store.snapshots
  cases hrow : l.book.latest with
  | none =>
      rw [hrow, Option.map_none] at hlatest
      have hstored : reread.storedAccount cfg = l.book.storedAccount cfg := by
        unfold Book.storedAccount
        rw [hlatest, hrow]
      refine ⟨Book.rebuildable_of_account ?_, Or.inl hstored⟩
      have haccount : l.book.paper.account = l.book.storedAccount cfg := by
        have hrestore := hl
        unfold Book.Rebuildable at hrestore
        rw [Book.restore_account, hrow] at hrestore
        exact hrestore
      rw [hstored]
      exact haccount
  | some row =>
      rw [hrow, Option.map_some] at hlatest
      refine ⟨Book.rebuildable_of_latest hlatest, ?_⟩
      unfold Book.storedAccount
      rw [hlatest, hrow]
      unfold Reread.snapshot
      split
      · exact Or.inr rfl
      · exact Or.inl rfl

/-- The invariant of a run whose bars all meet the condition. -/
theorem rebuildable_step (cfg : LiveConfig) (l : Ledger) (e : ColumnEvent)
    (hl : l.book.Rebuildable cfg.broker) (hkeeps : KeepsColumns cfg l e) :
    (e.step cfg l).book.Rebuildable cfg.broker := by
  cases e with
  | reread again => exact (reread_account cfg.broker again hl).1
  | live e =>
      cases e with
      | newSession => exact (between_bars rfl hl).1
      | submit r => exact (between_bars rfl hl).1
      | bar symbol timeframe b =>
          exact Book.rebuildable_of_account (step_bar_account hl hkeeps)

/-- One event between bars: the stored figures are the same, or what their columns keep. -/
theorem stored_step {cfg : LiveConfig} {l : Ledger} {e : ColumnEvent} (he : e.isBar = false)
    (hl : l.book.Rebuildable cfg.broker) :
    (e.step cfg l).book.Rebuildable cfg.broker ∧
      ((e.step cfg l).book.storedAccount cfg.broker = l.book.storedAccount cfg.broker ∨
        (e.step cfg l).book.storedAccount cfg.broker
          = keptAccount (l.book.storedAccount cfg.broker)) := by
  cases e with
  | reread again => exact reread_account cfg.broker again hl
  | live e =>
      obtain ⟨hnext, hsame⟩ := between_bars he hl
      exact ⟨hnext, Or.inl hsame⟩

theorem stored_run {cfg : LiveConfig} (mid : List ColumnEvent)
    (hmid : ∀ e ∈ mid, e.isBar = false) :
    ∀ l : Ledger, l.book.Rebuildable cfg.broker →
      (l.columns cfg mid).book.Rebuildable cfg.broker ∧
        ((l.columns cfg mid).book.storedAccount cfg.broker = l.book.storedAccount cfg.broker ∨
          (l.columns cfg mid).book.storedAccount cfg.broker
            = keptAccount (l.book.storedAccount cfg.broker)) := by
  induction mid with
  | nil => intro l hl; exact ⟨hl, Or.inl rfl⟩
  | cons e rest ih =>
      intro l hl
      obtain ⟨hstep, hstored⟩ := stored_step (hmid e List.mem_cons_self) hl
      obtain ⟨hrest, hlater⟩ := ih (fun e he => hmid e (List.mem_cons_of_mem _ he)) _ hstep
      refine ⟨hrest, ?_⟩
      rcases hstored with hsame | hkept
      · rw [hsame] at hlater
        exact hlater
      · rw [hkept, keptAccount_keptAccount] at hlater
        exact Or.inr (hlater.elim id id)

/-- A spread, no slippage, no snapshot interval. -/
def spreadOnly : LiveConfig where
  broker :=
    { startEquity := 100000, seed := 0
      costParams := { spread := 1 / 10000, slippagePct := 0 } }
  snapshotInterval := none

/-- Every decision has the bucket at zero. -/
def atZero : DecisionId → Option DecisionRef := fun _ =>
  some { bucketTs := 0, validUntil := seconds 14400 }

/-- A thousand units long, on the one-hour frame. -/
def longOrder (id : OrderId) (symbol : Symbol) : Submission where
  id := id
  createdAt := 0
  symbol := symbol
  timeframe := .H1
  direction := .long
  refPrice := 11 / 10
  units := 1000
  decisionId := some id
  stopLoss := none
  takeProfit := none

/-- The one-hour bar both orders fill on. -/
def fillBar : Bar where
  ts := Timeframe.H1.length
  openPrice := 11 / 10
  close := 11 / 10

/-- A hundredth of a unit long: the cost is half a millionth. -/
def smallOrder (id : OrderId) (symbol : Symbol) : Submission :=
  { longOrder id symbol with units := 1 / 100 }

end Ledger

end ForexAi
