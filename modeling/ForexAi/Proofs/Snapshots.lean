/-
What a snapshot values.

A snapshot's equity is the cash plus every open position at its last mark.  But the
marks do not survive a restore: it sets each of them to the entry price, and the bar
that follows marks one symbol.  So a snapshot values the bar's own symbol at its close
and every other open position at nothing.

`Valued` runs the account with a ghost beside it: the close of the last processed bar of
each symbol, and the curve of true equities, one point for each snapshot written.
`snapshots_true_iff` is exact: the snapshots, and the peak and the drawdown they carry,
are those of the true curve if and only if each was written while the other open
positions were worth nothing at their last closes.

That a bar of one symbol leaves the others alone is `SameElsewhere`.
-/
import ForexAi.Broker.Watermarks
import ForexAi.Proofs.Restores
import Mathlib.Algebra.BigOperators.Group.List.Basic
import Mathlib.Tactic.Linarith

namespace ForexAi

/-! ### A bar leaves the other symbols alone

Every step of a bar works on the positions of one symbol.  The others are compared as a list,
with their marks.
-/

/-- The positions of every symbol but one. -/
def PositionSet.others (ps : PositionSet) (symbol : Symbol) : List Position :=
  ps.filter fun p => p.symbol ≠ symbol

/-- What two brokers share away from a symbol. -/
structure SameElsewhere (symbol : Symbol) (b b' : PaperBroker) : Prop where
  others : b'.positions.others symbol = b.positions.others symbol
  marks : ∀ other, other ≠ symbol → b'.lastMark other = b.lastMark other
  peak : b'.peakEquity = b.peakEquity
  drawdown : b'.maxDrawdownPct = b.maxDrawdownPct

namespace SameElsewhere

theorem refl (symbol : Symbol) (b : PaperBroker) : SameElsewhere symbol b b :=
  ⟨rfl, fun _ _ => rfl, rfl, rfl⟩

theorem trans {symbol : Symbol} {b₁ b₂ b₃ : PaperBroker} (h : SameElsewhere symbol b₁ b₂)
    (h' : SameElsewhere symbol b₂ b₃) : SameElsewhere symbol b₁ b₃ :=
  ⟨h'.others.trans h.others, fun other ho => (h'.marks other ho).trans (h.marks other ho),
    h'.peak.trans h.peak, h'.drawdown.trans h.drawdown⟩

theorem markPosition (symbol : Symbol) (b : PaperBroker) (price : ℚ) :
    SameElsewhere symbol b (b.markPosition symbol price) :=
  ⟨rfl, fun _ ho => Function.update_of_ne ho _ _, rfl, rfl⟩

end SameElsewhere

theorem PositionSet.others_close (ps : PositionSet) (symbol : Symbol) :
    PositionSet.others (ps.close symbol) symbol = ps.others symbol := by
  unfold PositionSet.others PositionSet.close
  induction ps with
  | nil => rfl
  | cons q rest ih =>
      by_cases hq : q.symbol = symbol
      · rw [List.eraseP_cons_of_pos (by simpa using hq),
          List.filter_cons_of_neg (by simpa using hq)]
      · rw [List.eraseP_cons_of_neg (by simpa using hq),
          List.filter_cons_of_pos (by simpa using hq),
          List.filter_cons_of_pos (by simpa using hq), ih]

namespace PaperBroker

variable [Digest]

theorem closePosition_elsewhere (b : PaperBroker) {pos : Position} {symbol : Symbol}
    (h : pos.symbol = symbol) (price : ℚ) (reason : ExitReason) (ts : Time) :
    SameElsewhere symbol b (b.closePosition pos price reason ts).2 := by
  subst h
  exact ⟨PositionSet.others_close b.positions pos.symbol, fun _ _ => rfl, rfl, rfl⟩

theorem evaluateExit_elsewhere (b : PaperBroker) (symbol : Symbol) (close : ℚ) (ts : Time) :
    SameElsewhere symbol b (b.evaluateExit symbol close ts).2 := by
  rcases b.evaluateExit_cases symbol close ts with heq | ⟨pos, price, reason, hpos, -, heq⟩
  · rw [heq]
    exact SameElsewhere.refl symbol b
  · rw [heq]
    exact b.closePosition_elsewhere (PositionSet.openFor_symbol hpos) price reason ts

theorem closeOnSignal_elsewhere (b : PaperBroker) (symbol : Symbol) (price : ℚ) (ts : Time) :
    SameElsewhere symbol b (b.closeOnSignal symbol price ts).2 := by
  cases hpos : b.positions.openFor symbol with
  | none =>
      rw [closeOnSignal_none hpos]
      exact SameElsewhere.refl symbol b
  | some pos =>
      rw [closeOnSignal_some hpos]
      exact b.closePosition_elsewhere (PositionSet.openFor_symbol hpos) price .signal ts

theorem fillOrder_elsewhere {b : PaperBroker} {order : PaperOrderRow} (price : ℚ) (ts : Time)
    (hfree : b.positions.openFor order.symbol = none) :
    SameElsewhere order.symbol b (b.fillOrder order price ts) := by
  rw [fillOrder_eq price ts hfree]
  refine ⟨?_, fun _ ho => Function.update_of_ne ho _ _, rfl, rfl⟩
  unfold PositionSet.others
  rw [List.filter_append]
  simp [filledPosition]

end PaperBroker

namespace Book

variable [Digest]

/-- A fill on a book whose sides agree touches its own symbol only. -/
theorem fill_elsewhere {b : Book} (h : b.Agrees) (order : PaperOrderRow) (price : ℚ)
    (ts : Time) : SameElsewhere order.symbol b.paper (b.fill order price ts).paper := by
  cases hpos : b.paper.positions.openFor order.symbol with
  | none =>
      obtain ⟨table, -, -, heq⟩ := fill_eq h price ts hpos
      rw [heq]
      exact PaperBroker.fillOrder_elsewhere price ts hpos
  | some pos =>
      have hrow : b.table.insert
          (.ofPosition order.id (b.paper.filledPosition order price ts)) = none := by
        unfold PositionTable.insert
        refine dif_neg ?_
        rw [PositionTable.openRow_eq_none_iff, ← h]
        intro hc
        rw [show b.paper.positions.openFor order.symbol = none from hc] at hpos
        exact absurd hpos (by simp)
      unfold fill
      rw [hrow]
      exact SameElsewhere.refl order.symbol b.paper

/-- **A bar leaves the other symbols alone.** -/
theorem settleBar_elsewhere (b : Book) {symbol : Symbol} (bar : Bar)
    {acting : Option PaperOrderRow} (hacting : ∀ o, acting = some o → o.symbol = symbol) :
    SameElsewhere symbol b.restore.paper (b.settleBar symbol bar acting).paper := by
  have hact : SameElsewhere symbol b.restore.paper
      (b.restore.actAtOpen symbol bar acting).paper := by
    unfold actAtOpen
    cases acting with
    | none => exact SameElsewhere.refl symbol _
    | some order =>
        obtain rfl := hacting order rfl
        simp only
        split
        · have hclosed := b.restore.paper.closeOnSignal_elsewhere order.symbol bar.openPrice bar.ts
          rw [← persist_paper b.restore] at hclosed
          exact hclosed.trans (fill_elsewhere (agrees_closeOnSignal b.agrees_restore
            order.symbol bar.openPrice bar.ts) order bar.openPrice bar.ts)
        · exact fill_elsewhere b.agrees_restore order bar.openPrice bar.ts
  have hexit := (b.restore.actAtOpen symbol bar acting).paper.evaluateExit_elsewhere symbol
    bar.close bar.ts
  rw [← persist_paper (b.restore.actAtOpen symbol bar acting)] at hexit
  exact (hact.trans hexit).trans (SameElsewhere.markPosition symbol _ bar.close)

end Book

/-! ### The value of a book

A value is a sum over open positions of what each has made at a price.  Which price it is
makes the difference: the true equity takes the last close of the position's own symbol, a
snapshot the mark the broker has.
-/

/-- The profit and loss of some positions, each at its symbol's last close. -/
def pnlAt (closes : Symbol → Option ℚ) (ps : List Position) : ℚ :=
  (ps.map fun p => p.unrealized ((closes p.symbol).getD p.entryPrice)).sum

/-- Sum over the positions of a symbol and over the others. -/
theorem pnlAt_split (closes : Symbol → Option ℚ) (ps : PositionSet) (symbol : Symbol) :
    pnlAt closes ps
      = pnlAt closes (ps.filter fun p => p.symbol = symbol) + pnlAt closes (ps.others symbol) := by
  unfold pnlAt PositionSet.others
  induction ps with
  | nil => simp
  | cons q rest ih =>
      by_cases hq : q.symbol = symbol
      · rw [List.filter_cons_of_pos (by simpa using hq),
          List.filter_cons_of_neg (by simpa using hq)]
        simp only [List.map_cons, List.sum_cons, ih]
        ring
      · rw [List.filter_cons_of_neg (by simpa using hq),
          List.filter_cons_of_pos (by simpa using hq)]
        simp only [List.map_cons, List.sum_cons, ih]
        ring

theorem pnlAt_congr {closes closes' : Symbol → Option ℚ} {ps : List Position}
    (h : ∀ p ∈ ps, closes p.symbol = closes' p.symbol) : pnlAt closes ps = pnlAt closes' ps := by
  unfold pnlAt
  congr 1
  refine List.map_congr_left fun p hp => ?_
  rw [h p hp]

/-- Positions marked at their entry are worth nothing. -/
theorem pnlAt_entry {closes : Symbol → Option ℚ} {ps : List Position}
    (h : ∀ p ∈ ps, closes p.symbol = some p.entryPrice) : pnlAt closes ps = 0 := by
  unfold pnlAt
  refine List.sum_eq_zero ?_
  intro x hx
  obtain ⟨p, hp, rfl⟩ := List.mem_map.mp hx
  rw [h p hp]
  exact p.unrealized_entryPrice

theorem totalEquity_eq (b : PaperBroker) : b.totalEquity = b.cash + pnlAt b.lastMark b.positions :=
  rfl

/-- Marks of other symbols do not reach a symbol's. -/
private theorem marks_keep {symbol : Symbol} {rows : List PaperPositionRow}
    (h : ∀ b ∈ rows, symbol ≠ b.symbol) (marks : Symbol → Option ℚ) :
    rows.foldl (fun (m : Symbol → Option ℚ) (r : PaperPositionRow) =>
      Function.update m r.symbol (some r.entryPrice)) marks symbol = marks symbol := by
  induction rows generalizing marks with
  | nil => rfl
  | cons q rest ih =>
      rw [List.foldl_cons, ih fun c hc => h c (List.mem_cons_of_mem q hc)]
      exact Function.update_of_ne (h q List.mem_cons_self) _ _

/-- A restore marks every open position at its entry. -/
theorem entryMarks_of_mem {rows : List PaperPositionRow}
    (h : rows.Pairwise fun a b => a.symbol ≠ b.symbol) {r : PaperPositionRow} (hr : r ∈ rows) :
    entryMarks rows r.symbol = some r.entryPrice := by
  unfold entryMarks
  generalize (fun _ => none : Symbol → Option ℚ) = marks
  induction rows generalizing marks with
  | nil => exact absurd hr (by simp)
  | cons q rest ih =>
      obtain ⟨hhead, hrest⟩ := List.pairwise_cons.mp h
      rw [List.foldl_cons]
      rcases List.mem_cons.mp hr with rfl | hmem
      · rw [marks_keep hhead]
        exact Function.update_self _ _ _
      · exact ih hrest hmem _

theorem restore_marks (b : Book) :
    ∀ p ∈ b.restore.paper.positions, b.restore.paper.lastMark p.symbol = some p.entryPrice := by
  intro p hp
  obtain ⟨r, hr, rfl⟩ := List.mem_map.mp hp
  exact entryMarks_of_mem b.table.openRows_distinct hr

/-- What the other symbols' open positions were worth at their last closes. -/
def Book.othersPnl (b : Book) (closes : Symbol → Option ℚ) (symbol : Symbol) : ℚ :=
  pnlAt closes (b.table.openPositions.others symbol)

/-- **The equity of a bar**: the true one, less what the other symbols were worth. -/
theorem Book.totalEquity_settleBar [Digest] (b : Book) {symbol : Symbol} (bar : Bar)
    {acting : Option PaperOrderRow} (hacting : ∀ o, acting = some o → o.symbol = symbol)
    (closes : Symbol → Option ℚ) :
    (b.settleBar symbol bar acting).paper.totalEquity
      = (b.settleBar symbol bar acting).paper.cash
        + pnlAt (Function.update closes symbol (some bar.close))
            (b.settleBar symbol bar acting).paper.positions
        - b.othersPnl closes symbol := by
  have hsame := b.settleBar_elsewhere bar hacting
  set paper := (b.settleBar symbol bar acting).paper with hpaper
  have hmark : paper.lastMark symbol = some bar.close := Function.update_self _ _ _
  have hown : pnlAt paper.lastMark (paper.positions.filter fun p => p.symbol = symbol)
      = pnlAt (Function.update closes symbol (some bar.close))
          (paper.positions.filter fun p => p.symbol = symbol) := by
    refine pnlAt_congr fun p hp => ?_
    have hsym : p.symbol = symbol := by simpa using (List.mem_filter.mp hp).2
    rw [hsym, hmark, Function.update_self]
  have hne : ∀ p ∈ paper.positions.others symbol, p.symbol ≠ symbol := by
    intro p hp
    simpa using (List.mem_filter.mp hp).2
  have hothers : pnlAt paper.lastMark (paper.positions.others symbol) = 0 := by
    refine pnlAt_entry fun p hp => ?_
    rw [hsame.marks p.symbol (hne p hp)]
    rw [hsame.others] at hp
    exact restore_marks b p (List.mem_of_mem_filter hp)
  have htrue : pnlAt (Function.update closes symbol (some bar.close))
      (paper.positions.others symbol) = b.othersPnl closes symbol := by
    have hcongr : pnlAt (Function.update closes symbol (some bar.close))
        (paper.positions.others symbol) = pnlAt closes (paper.positions.others symbol) :=
      pnlAt_congr fun p hp => Function.update_of_ne (hne p hp) _ _
    rw [hcongr, hsame.others]
    rfl
  rw [totalEquity_eq, pnlAt_split paper.lastMark _ symbol, pnlAt_split _ paper.positions symbol,
    hown, hothers, htrue]
  ring

/-! ### Runs with the closes and the true curve beside them

The ghost never decides anything.  It remembers the closes, and at each snapshot it adds the
equity the snapshot should have.
-/

/-- A ledger, the last processed close of each symbol, and the true equity at each
snapshot written. -/
structure Valued where
  ledger : Ledger
  closes : Symbol → Option ℚ
  curve : List ℚ

namespace Valued

def start (cfg : LiveConfig) (decisions : DecisionId → Option DecisionRef) : Valued where
  ledger := Ledger.start cfg decisions
  closes := fun _ => none
  curve := []

/-- The value of the whole book, each position at its own symbol's last close. -/
def equity (v : Valued) : ℚ :=
  v.ledger.broker.paper.cash + pnlAt v.closes v.ledger.broker.paper.positions

/-- The bar is going to write a snapshot. -/
def Writes (cfg : LiveConfig) (v : Valued) (symbol : Symbol) (timeframe : Timeframe)
    (bar : Bar) : Prop :=
  v.ledger.book.touched symbol (v.ledger.actingFor symbol timeframe bar.ts) = true ∧
    v.ledger.book.snapshotDue cfg.snapshotInterval bar.ts = true

instance (cfg : LiveConfig) (v : Valued) (symbol : Symbol) (timeframe : Timeframe) (bar : Bar) :
    Decidable (v.Writes cfg symbol timeframe bar) := by
  unfold Writes
  infer_instance

/-- The condition on an event: a bar that writes a snapshot finds the other symbols' open
positions worth nothing, taken together, at their last closes. -/
def OthersFlat (cfg : LiveConfig) (v : Valued) : LiveEvent → Prop
  | .bar symbol timeframe b =>
      v.Writes cfg symbol timeframe b → v.ledger.book.othersPnl v.closes symbol = 0
  | _ => True

variable [Digest]

/-- The ledger steps; a bar is remembered, and a snapshot adds its true equity. -/
def step (cfg : LiveConfig) (v : Valued) (e : LiveEvent) : Valued :=
  match e with
  | .bar symbol timeframe b =>
      let after : Valued :=
        { ledger := e.step cfg v.ledger
          closes := Function.update v.closes symbol (some b.close)
          curve := v.curve }
      if v.Writes cfg symbol timeframe b then { after with curve := v.curve ++ [after.equity] }
      else after
  | _ => { v with ledger := e.step cfg v.ledger }

theorem step_ledger (cfg : LiveConfig) (v : Valued) (e : LiveEvent) :
    (v.step cfg e).ledger = e.step cfg v.ledger := by
  cases e with
  | newSession => rfl
  | submit r => rfl
  | bar symbol timeframe b =>
      unfold step
      simp only
      split <;> with_reducible rfl

theorem step_curve (cfg : LiveConfig) (v : Valued) (symbol : Symbol) (timeframe : Timeframe)
    (b : Bar) : (v.step cfg (.bar symbol timeframe b)).curve =
      if v.Writes cfg symbol timeframe b then
        v.curve ++ [(LiveEvent.step cfg v.ledger (.bar symbol timeframe b)).broker.paper.cash
          + pnlAt (Function.update v.closes symbol (some b.close))
              (LiveEvent.step cfg v.ledger (.bar symbol timeframe b)).broker.paper.positions]
      else v.curve := by
  unfold step equity
  simp only
  split <;> with_reducible rfl

/-- Every snapshot so far has the true equity of its moment. -/
def SnapshotsTrue (v : Valued) : Prop :=
  v.ledger.store.snapshots.map (·.equity) = v.curve

/-- What a run knows of its snapshots, true or not: the latest is the last one written,
and it carries the watermarks of the equities written. -/
structure Recorded (cfg : LiveConfig) (v : Valued) : Prop where
  length_eq : v.ledger.store.snapshots.length = v.curve.length
  marks : ∀ row, v.ledger.store.latestSnapshot = some row →
    (row.peakEquity, row.drawdownPct)
      = watermarks cfg.broker.startEquity (v.ledger.store.snapshots.map (·.equity))
  unmarked : v.ledger.store.latestSnapshot = none →
    v.ledger.broker.paper.peakEquity = cfg.broker.startEquity ∧
      v.ledger.broker.paper.maxDrawdownPct = 0

omit [Digest] in
theorem recorded_start (cfg : LiveConfig) (decisions : DecisionId → Option DecisionRef) :
    Recorded cfg (start cfg decisions) := by
  refine ⟨rfl, ?_, fun _ => ⟨rfl, rfl⟩⟩
  intro row hrow
  exact absurd hrow (by simp [LedgerStore.latestSnapshot, newest, start, Ledger.start,
    Ledger.session, LedgerStore.empty])

omit [Digest] in
/-- A restore brings the watermarks of the snapshots back. -/
theorem restored_watermarks {cfg : LiveConfig} {v : Valued} (h : Recorded cfg v) :
    (v.ledger.book.restore.paper.peakEquity, v.ledger.book.restore.paper.maxDrawdownPct)
      = watermarks cfg.broker.startEquity (v.ledger.store.snapshots.map (·.equity)) := by
  show ((v.ledger.broker.paper.adopt v.ledger.store.latestSnapshot).peakEquity,
    (v.ledger.broker.paper.adopt v.ledger.store.latestSnapshot).maxDrawdownPct) = _
  cases hlatest : v.ledger.store.latestSnapshot with
  | some row => exact h.marks row hlatest
  | none =>
      have hnil : v.ledger.store.snapshots = [] := newest_eq_none hlatest
      obtain ⟨hpeak, hdd⟩ := h.unmarked hlatest
      rw [hnil]
      show (v.ledger.broker.paper.peakEquity, v.ledger.broker.paper.maxDrawdownPct) = _
      rw [hpeak, hdd]
      rfl

/-- **A bar that writes.**  One row, whose equity is the true one less the others' share,
and which carries the watermarks of the equities written. -/
theorem step_writes {cfg : LiveConfig} {v : Valued} (h : Recorded cfg v) {symbol : Symbol}
    {timeframe : Timeframe} {b : Bar} (hw : v.Writes cfg symbol timeframe b) :
    ∃ row, (v.step cfg (.bar symbol timeframe b)).ledger.store.snapshots
        = v.ledger.store.snapshots ++ [row] ∧
      (v.step cfg (.bar symbol timeframe b)).ledger.store.latestSnapshot = some row ∧
      (v.step cfg (.bar symbol timeframe b)).curve
        = v.curve ++ [row.equity + v.ledger.book.othersPnl v.closes symbol] ∧
      (row.peakEquity, row.drawdownPct) = watermarks cfg.broker.startEquity
        (v.ledger.store.snapshots.map (·.equity) ++ [row.equity]) := by
  set acting := v.ledger.actingFor symbol timeframe b.ts with hacting
  have hsym : ∀ o, acting = some o → o.symbol = symbol := fun o ho => Ledger.actingFor_symbol ho
  set settled := v.ledger.book.settleBar symbol b acting with hsettled
  have hbook : (LiveEvent.step cfg v.ledger (.bar symbol timeframe b)).book
      = settled.snapshot b.ts := by
    rw [Ledger.step_bar_book, Book.processBar_writes hw]
  have hpaper : (LiveEvent.step cfg v.ledger (.bar symbol timeframe b)).broker.paper
      = (settled.paper.state b.ts).2 := Ledger.paper_of_book hbook
  have hsnaps : (LiveEvent.step cfg v.ledger (.bar symbol timeframe b)).store.snapshots
      = v.ledger.store.snapshots ++ [settled.snapshotRow b.ts] := by
    rw [Ledger.snapshots_of_book hbook]
    show settled.snapshots ++ [settled.snapshotRow b.ts] = _
    rw [hsettled, Book.settleBar_snapshots]
    rfl
  rw [step_ledger, step_curve, if_pos hw]
  refine ⟨settled.snapshotRow b.ts, hsnaps, ?_, ?_, ?_⟩
  · unfold LedgerStore.latestSnapshot
    rw [hsnaps]
    exact Book.latest_of_due (settled.snapshotRow b.ts) hw.2
  · rw [hpaper]
    have hequity : settled.paper.totalEquity = _ :=
      Book.totalEquity_settleBar v.ledger.book b hsym v.closes
    show v.curve ++ [settled.paper.cash + pnlAt _ settled.paper.positions]
      = v.curve ++ [settled.paper.totalEquity + _]
    rw [hequity, sub_add_cancel]
  · have hsame := v.ledger.book.settleBar_elsewhere b hsym
    refine state_watermarks ?_ b.ts
    rw [← restored_watermarks h, ← hsame.peak, ← hsame.drawdown]

/-- A bar that writes nothing changes neither the snapshots nor the curve. -/
theorem step_silent {cfg : LiveConfig} {v : Valued} {symbol : Symbol} {timeframe : Timeframe}
    {b : Bar} (hw : ¬ v.Writes cfg symbol timeframe b) :
    (v.step cfg (.bar symbol timeframe b)).ledger.store.snapshots = v.ledger.store.snapshots ∧
      (v.step cfg (.bar symbol timeframe b)).curve = v.curve ∧
      (v.step cfg (.bar symbol timeframe b)).ledger.broker.paper
        = (v.ledger.book.settleBar symbol b (v.ledger.actingFor symbol timeframe b.ts)).paper := by
  have hbook : (LiveEvent.step cfg v.ledger (.bar symbol timeframe b)).book
      = v.ledger.book.settleBar symbol b (v.ledger.actingFor symbol timeframe b.ts) := by
    rw [Ledger.step_bar_book, Book.processBar_silent hw]
  rw [step_ledger, step_curve, if_neg hw]
  refine ⟨?_, rfl, Ledger.paper_of_book hbook⟩
  rw [Ledger.snapshots_of_book hbook, Book.settleBar_snapshots]
  rfl

/-! ### Every event, and whole runs

Events that write no snapshot change neither the snapshots nor the curve.  At one that does,
the row is true exactly if the others were worth nothing.
-/

/-- Events that are not bars leave the snapshots, and the account before the first one. -/
theorem step_between (cfg : LiveConfig) (v : Valued) {e : LiveEvent} (he : e.isBar = false) :
    (v.step cfg e).ledger.store.snapshots = v.ledger.store.snapshots ∧
      (v.step cfg e).curve = v.curve ∧
      ((v.step cfg e).ledger.broker.paper = v.ledger.broker.paper ∨
        (v.step cfg e).ledger.broker.paper = PaperBroker.new cfg.broker.startEquity
          cfg.broker.seed cfg.broker.costParams) := by
  cases e with
  | newSession => exact ⟨rfl, rfl, Or.inr rfl⟩
  | submit r =>
      have hbook : (r.submit v.ledger).book = v.ledger.book := Ledger.book_submit r v.ledger
      exact ⟨Ledger.snapshots_of_book hbook, rfl, Or.inl (Ledger.paper_of_book hbook)⟩
  | bar symbol timeframe b => exact absurd he (by simp [LiveEvent.isBar])

omit [Digest] in
/-- Nothing written keeps the record, when the watermarks before the first snapshot stay. -/
theorem Recorded.silent {cfg : LiveConfig} {v v' : Valued} (h : Recorded cfg v)
    (hsnaps : v'.ledger.store.snapshots = v.ledger.store.snapshots) (hcurve : v'.curve = v.curve)
    (hunmarked : v.ledger.store.latestSnapshot = none →
      v'.ledger.broker.paper.peakEquity = cfg.broker.startEquity ∧
        v'.ledger.broker.paper.maxDrawdownPct = 0) : Recorded cfg v' := by
  have hlatest : v'.ledger.store.latestSnapshot = v.ledger.store.latestSnapshot :=
    congrArg newest hsnaps
  refine ⟨by rw [hsnaps, hcurve]; exact h.length_eq, ?_, ?_⟩
  · intro row hrow
    rw [hlatest] at hrow
    rw [hsnaps]
    exact h.marks row hrow
  · intro hnone
    rw [hlatest] at hnone
    exact hunmarked hnone

theorem recorded_step {cfg : LiveConfig} {v : Valued} (h : Recorded cfg v) (e : LiveEvent) :
    Recorded cfg (v.step cfg e) := by
  by_cases he : e.isBar = false
  · obtain ⟨hsnaps, hcurve, hpaper⟩ := step_between cfg v he
    refine h.silent hsnaps hcurve fun hnone => ?_
    rcases hpaper with hpaper | hpaper
    · rw [hpaper]
      exact h.unmarked hnone
    · rw [hpaper]
      exact ⟨rfl, rfl⟩
  · cases e with
    | newSession => exact absurd rfl he
    | submit r => exact absurd rfl he
    | bar symbol timeframe b =>
        by_cases hw : v.Writes cfg symbol timeframe b
        · obtain ⟨row, hsnaps, hlatest, hcurve, hmarks⟩ := step_writes h hw
          refine ⟨?_, ?_, ?_⟩
          · rw [hsnaps, hcurve, List.length_append, List.length_append, h.length_eq]
            rfl
          · intro last hlast
            rw [hlatest] at hlast
            obtain rfl := Option.some.inj hlast
            rw [hsnaps, List.map_append]
            exact hmarks
          · intro hnone
            rw [hlatest] at hnone
            exact absurd hnone (by simp)
        · obtain ⟨hsnaps, hcurve, hpaper⟩ := step_silent hw
          refine h.silent hsnaps hcurve fun hnone => ?_
          have hsame := v.ledger.book.settleBar_elsewhere b
            fun o (ho : v.ledger.actingFor symbol timeframe b.ts = some o) =>
              Ledger.actingFor_symbol ho
          have hadopt : v.ledger.book.restore.paper.peakEquity = v.ledger.broker.paper.peakEquity
              ∧ v.ledger.book.restore.paper.maxDrawdownPct
                = v.ledger.broker.paper.maxDrawdownPct := by
            show (v.ledger.broker.paper.adopt v.ledger.store.latestSnapshot).peakEquity = _ ∧
              (v.ledger.broker.paper.adopt v.ledger.store.latestSnapshot).maxDrawdownPct = _
            rw [hnone]
            exact ⟨rfl, rfl⟩
          rw [hpaper, hsame.peak, hsame.drawdown, hadopt.1, hadopt.2]
          exact h.unmarked hnone

/-- One event keeps the snapshots true exactly when it meets the condition. -/
theorem snapshotsTrue_step {cfg : LiveConfig} {v : Valued} (h : Recorded cfg v) (e : LiveEvent) :
    (v.step cfg e).SnapshotsTrue ↔ v.SnapshotsTrue ∧ v.OthersFlat cfg e := by
  unfold SnapshotsTrue
  by_cases he : e.isBar = false
  · obtain ⟨hsnaps, hcurve, -⟩ := step_between cfg v he
    have hflat : v.OthersFlat cfg e := by
      cases e with
      | newSession => trivial
      | submit r => trivial
      | bar symbol timeframe b => exact absurd he (by simp [LiveEvent.isBar])
    rw [hsnaps, hcurve]
    exact ⟨fun ht => ⟨ht, hflat⟩, fun ht => ht.1⟩
  · cases e with
    | newSession => exact absurd rfl he
    | submit r => exact absurd rfl he
    | bar symbol timeframe b =>
        by_cases hw : v.Writes cfg symbol timeframe b
        · obtain ⟨row, hsnaps, -, hcurve, -⟩ := step_writes h hw
          rw [hsnaps, hcurve, List.map_append]
          constructor
          · intro heq
            obtain ⟨hold, hnew⟩ := List.append_inj' heq rfl
            refine ⟨hold, fun _ => ?_⟩
            have : row.equity = row.equity + v.ledger.book.othersPnl v.closes symbol :=
              List.singleton_inj.mp hnew
            linarith
          · rintro ⟨hold, hflat⟩
            rw [hold, hflat hw]
            simp
        · obtain ⟨hsnaps, hcurve, -⟩ := step_silent hw
          rw [hsnaps, hcurve]
          exact ⟨fun ht => ⟨ht, fun hc => absurd hc hw⟩, fun ht => ht.1⟩

theorem snapshotsTrue_run (cfg : LiveConfig) (events : List LiveEvent) :
    ∀ v : Valued, Recorded cfg v →
      ((Runs.run (step cfg) v events).SnapshotsTrue ↔
        v.SnapshotsTrue ∧ Runs.Along (step cfg) (OthersFlat cfg) v events) ∧
      Recorded cfg (Runs.run (step cfg) v events) := by
  induction events with
  | nil => intro v h; exact ⟨⟨fun ht => ⟨ht, trivial⟩, fun ht => ht.1⟩, h⟩
  | cons e rest ih =>
      intro v h
      obtain ⟨hiff, hrec⟩ := ih _ (recorded_step h e)
      refine ⟨?_, hrec⟩
      rw [Runs.run_cons, hiff, snapshotsTrue_step h e, and_assoc]
      rfl

/-- **The snapshots of a run are those of the true equity curve**, row by row and with the
peak and the drawdown they carry, exactly when each was written while the other symbols'
open positions were worth nothing at their last closes. -/
theorem snapshots_true_iff (cfg : LiveConfig) (decisions : DecisionId → Option DecisionRef)
    (events : List LiveEvent) :
    ((Runs.run (step cfg) (start cfg decisions) events).SnapshotsTrue ∧
      ∀ row, (Runs.run (step cfg) (start cfg decisions) events).ledger.store.latestSnapshot
          = some row →
        (row.peakEquity, row.drawdownPct) = watermarks cfg.broker.startEquity
          (Runs.run (step cfg) (start cfg decisions) events).curve) ↔
    Runs.Along (step cfg) (OthersFlat cfg) (start cfg decisions) events := by
  obtain ⟨hiff, hrec⟩ := snapshotsTrue_run cfg events _ (recorded_start cfg decisions)
  have hstart : (start cfg decisions).SnapshotsTrue := rfl
  constructor
  · intro h
    exact (hiff.mp h.1).2
  · intro h
    have htrue := hiff.mpr ⟨hstart, h⟩
    refine ⟨htrue, fun row hrow => ?_⟩
    rw [← htrue]
    exact hrec.marks row hrow

omit [Digest] in
/-- Two longs; the first closes its bar ten points up.  The snapshot of the second's next
bar does not have them. -/
theorem snapshot_forgets_other_symbol : ¬ ∀ (_ : Digest) (cfg : LiveConfig)
    (decisions : DecisionId → Option DecisionRef) (events : List LiveEvent),
    (Runs.run (step cfg) (start cfg decisions) events).SnapshotsTrue ∧
      ∀ row, (Runs.run (step cfg) (start cfg decisions) events).ledger.store.latestSnapshot
          = some row →
        (row.peakEquity, row.drawdownPct) = watermarks cfg.broker.startEquity
          (Runs.run (step cfg) (start cfg decisions) events).curve := by
  intro h
  have hrun := (h Digest.zero Ledger.spreadOnly Ledger.atZero
    [.submit (Ledger.longOrder 1 .eurusd), .submit (Ledger.longOrder 2 .gbpusd),
      .bar .eurusd .H1 { Ledger.fillBar with close := 111 / 100 },
      .bar .gbpusd .H1 Ledger.fillBar,
      .bar .gbpusd .H1 { Ledger.fillBar with ts := seconds 7200 }]).1
  unfold SnapshotsTrue at hrun
  exact absurd hrun (by decide +kernel)

end Valued

end ForexAi
