/-
Runs of a live account.

What reaches the ledger between two cycles of the writer comes down to three things:
a new session (a fresh broker on the same tables), an order submitted, a bar of some
unit processed.  A run is any list of them, over any symbols and timeframes and with
any stamps.  A bar is processed with the pending candidates of its unit, as both
callers of the lifecycle do.
-/
import ForexAi.Broker.Bars
import ForexAi.Lib.Runs

namespace ForexAi

/-- The arguments of `submit_paper_order`, with the new row's id and creation time. -/
structure Submission where
  id : OrderId
  createdAt : Time
  symbol : Symbol
  timeframe : Timeframe
  direction : Direction
  refPrice : ℚ
  units : ℚ
  decisionId : Option DecisionId
  stopLoss : Option ℚ
  takeProfit : Option ℚ

/-- `submit_paper_order` with these arguments. -/
def Submission.submit (r : Submission) (l : Ledger) : Ledger :=
  (l.submitPaperOrder r.id r.createdAt r.symbol r.timeframe r.direction r.refPrice r.units
    r.decisionId r.stopLoss r.takeProfit).2

/-- The row a submission writes. -/
def Submission.row (r : Submission) (l : Ledger) (h : ¬ (r.direction = .flat ∨ r.units ≤ 0)) :
    PaperOrderRow :=
  l.newOrder r.id r.createdAt r.symbol r.timeframe r.direction r.refPrice r.units r.decisionId
    r.stopLoss r.takeProfit h

/-- **A submission** leaves everything as it is, or adds its row to the table and to the queue. -/
theorem Submission.submit_cases (r : Submission) (l : Ledger) :
    r.submit l = l ∨ ∃ h store, l.store.saveOrder (r.row l h) = some store ∧
      r.submit l
        = { broker := { l.broker with pending := l.broker.pending ++ [r.row l h] }, store } := by
  unfold submit Ledger.submitPaperOrder
  by_cases hskip : r.direction = .flat ∨ r.units ≤ 0
  · exact Or.inl (by rw [dif_pos hskip])
  · rw [dif_neg hskip]
    split
    · exact Or.inl rfl
    · split
      · exact Or.inl rfl
      · simp only
        split
        · exact Or.inl rfl
        · rename_i store hsave
          exact Or.inr ⟨hskip, store, hsave, rfl⟩

/-- What happens to a live account. -/
inductive LiveEvent where
  | newSession
  | submit (r : Submission)
  | bar (symbol : Symbol) (timeframe : Timeframe) (bar : Bar)

/-- The settings a live account runs under. -/
structure LiveConfig where
  broker : BrokerConfig
  snapshotInterval : Option ℕ

namespace LiveEvent

/-- The event is a processed bar. -/
def isBar : LiveEvent → Bool
  | .bar _ _ _ => true
  | _ => false

variable [Digest]

/-- The ledger after an event. -/
def step (cfg : LiveConfig) (l : Ledger) : LiveEvent → Ledger
  | .newSession => Ledger.session cfg.broker l.store
  | .submit r => r.submit l
  | .bar symbol timeframe b =>
      (l.processUnitBar cfg.snapshotInterval symbol timeframe b
        (l.store.unitCandidates symbol timeframe)).2

theorem step_bar (cfg : LiveConfig) (l : Ledger) (symbol : Symbol) (timeframe : Timeframe)
    (b : Bar) : LiveEvent.step cfg l (.bar symbol timeframe b) =
      (l.processUnitBar cfg.snapshotInterval symbol timeframe b
        (l.store.unitCandidates symbol timeframe)).2 := rfl

end LiveEvent

namespace Ledger

/-- An account on which nothing has happened. -/
def start (cfg : LiveConfig) (decisions : DecisionId → Option DecisionRef) : Ledger :=
  session cfg.broker (LedgerStore.empty decisions)

variable [Digest]

/-- The ledger after a run. -/
def live (cfg : LiveConfig) (l : Ledger) (events : List LiveEvent) : Ledger :=
  Runs.run (LiveEvent.step cfg) l events

/-- The order that acts on the bar of a unit. -/
def actingFor (l : Ledger) (symbol : Symbol) (timeframe : Timeframe) (ts : Time) :
    Option PaperOrderRow :=
  l.store.actingAt symbol ts (l.store.unitCandidates symbol timeframe)

omit [Digest] in
theorem actingFor_some {l : Ledger} {symbol : Symbol} {timeframe : Timeframe} {ts : Time}
    {o : PaperOrderRow} (h : l.actingFor symbol timeframe ts = some o) :
    ∃ c ∈ l.store.unitCandidates symbol timeframe, c.fillStamp = ts ∧ c.order = o := by
  obtain ⟨c, hc, rfl⟩ := Option.map_eq_some_iff.mp h
  obtain ⟨hmem, hts⟩ := mem_candidatesForBar.mp (actingOrder_mem hc)
  exact ⟨c, hmem, hts, rfl⟩

omit [Digest] in
theorem actingFor_symbol {l : Ledger} {symbol : Symbol} {timeframe : Timeframe} {ts : Time}
    {o : PaperOrderRow} (h : l.actingFor symbol timeframe ts = some o) : o.symbol = symbol := by
  obtain ⟨c, hc, -, rfl⟩ := actingFor_some h
  exact (mem_unitCandidates.mp hc).2.1

/-- What a processed bar does, with the orders of its unit for candidates. -/
theorem step_bar_effect (cfg : LiveConfig) (l : Ledger) (symbol : Symbol) (timeframe : Timeframe)
    (bar : Bar) :
    BarEffect cfg.snapshotInterval l (LiveEvent.step cfg l (.bar symbol timeframe bar)) symbol bar
      (l.store.unitCandidates symbol timeframe) := by
  rw [LiveEvent.step_bar]
  exact processUnitBar_effect cfg.snapshotInterval l symbol timeframe bar _
    ((due_unitCandidates l.store symbol timeframe).candidatesForBar bar.ts)

/-- A processed bar, on the account. -/
theorem step_bar_book (cfg : LiveConfig) (l : Ledger) (symbol : Symbol) (timeframe : Timeframe)
    (bar : Bar) :
    (LiveEvent.step cfg l (.bar symbol timeframe bar)).book =
      l.book.processBar cfg.snapshotInterval symbol bar
        (l.actingFor symbol timeframe bar.ts) :=
  (step_bar_effect cfg l symbol timeframe bar).book

omit [Digest] in
/-- A submission touches the queue only. -/
theorem book_submit (r : Submission) (l : Ledger) : (r.submit l).book = l.book := by
  rcases r.submit_cases l with hsame | ⟨hshape, store, hsave, hsubmit⟩
  · rw [hsame]
  · obtain ⟨-, -, hpositions, hsnapshots, -⟩ := LedgerStore.saveOrder_some hsave
    rw [hsubmit]
    unfold book
    rw [hpositions, hsnapshots]

end Ledger

end ForexAi
