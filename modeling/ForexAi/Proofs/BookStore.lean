/-
The in-memory book and the store agree after every call.

`Ledger.InStep` is kept by every call (`Ledger.inStep_step`), whatever the calls are and in
whatever order, so a run of calls after a restore ends with the two sides showing the same
open symbols and the same pending orders; reconciling them then succeeds.  That a symbol
has at most one open position is the unique index, which no call of a restored broker runs
into: a fill is refused in memory first.
-/
import ForexAi.Broker.Operations

namespace ForexAi

namespace Ledger

/-- The two sides show the same open symbols. -/
theorem InStep.open_iff {l : Ledger} (h : l.InStep) (symbol : Symbol) :
    (∃ r ∈ l.store.positions.rows, r.symbol = symbol ∧ r.exit = none) ↔
      ∃ p ∈ l.broker.paper.positions, p.symbol = symbol := by
  have hpositions : l.broker.paper.positions = l.store.positions.openRows.map (·.toPosition) :=
    h.positions
  rw [hpositions]
  constructor
  · rintro ⟨r, hr, hsymbol, hopen⟩
    refine ⟨r.toPosition, List.mem_map.mpr ⟨r, List.mem_filter.mpr ⟨hr, ?_⟩, rfl⟩, hsymbol⟩
    rw [hopen]
    rfl
  · rintro ⟨p, hp, hsymbol⟩
    obtain ⟨r, hr, rfl⟩ := List.mem_map.mp hp
    obtain ⟨hmem, hopen⟩ := List.mem_filter.mp hr
    exact ⟨r, hmem, hsymbol, by simpa using hopen⟩

/-- The two sides show the same pending orders. -/
theorem InStep.pending_iff {l : Ledger} (h : l.InStep) (id : OrderId) :
    (∃ o ∈ l.store.orders, o.id = id ∧ o.status = .pending) ↔
      ∃ o ∈ l.broker.pending, o.id = id := by
  constructor
  · rintro ⟨o, ho, hid, hstatus⟩
    exact ⟨o, (h.pending o).mpr (LedgerStore.mem_listPendingOrders.mpr ⟨ho, hstatus⟩), hid⟩
  · rintro ⟨o, ho, hid⟩
    obtain ⟨hmem, hstatus⟩ := LedgerStore.mem_listPendingOrders.mp ((h.pending o).mp ho)
    exact ⟨o, hmem, hid, hstatus⟩

theorem sameMembers_iff {α : Type} [DecidableEq α] {xs ys : List α} :
    sameMembers xs ys = true ↔ ∀ x, x ∈ xs ↔ x ∈ ys := by
  unfold sameMembers
  rw [Bool.and_eq_true, List.all_eq_true, List.all_eq_true]
  simp only [List.contains_iff_mem]
  exact ⟨fun h x => ⟨h.1 x, h.2 x⟩, fun h => ⟨fun x => (h x).mp, fun x => (h x).mpr⟩⟩

/-- **In step is reconciled.** -/
theorem InStep.reconcile {l : Ledger} (h : l.InStep) : l.reconcile = true := by
  unfold Ledger.reconcile
  rw [Bool.and_eq_true, sameMembers_iff, sameMembers_iff]
  constructor
  · intro symbol
    have hpositions : l.broker.paper.positions = l.store.positions.openRows.map (·.toPosition) :=
      h.positions
    rw [hpositions, List.map_map]
    exact Iff.rfl
  · intro id
    rw [List.mem_map, List.mem_map]
    exact exists_congr fun o => and_congr_left fun _ => (h.pending o).symm

/-- One open row a symbol. -/
theorem open_unique (l : Ledger) {r r' : PaperPositionRow} (hr : r ∈ l.store.positions.rows)
    (hr' : r' ∈ l.store.positions.rows) (hopen : r.exit = none) (hopen' : r'.exit = none)
    (hsymbol : r.symbol = r'.symbol) : r = r' := by
  have hrow := PositionTable.openRow_of_mem hr hopen
  rw [hsymbol, PositionTable.openRow_of_mem hr' hopen'] at hrow
  exact (Option.some.inj hrow).symm

variable [Digest]

theorem inStep_run (l : Ledger) (ops : List LedgerOp) :
    (Runs.run LedgerOp.step l.restoreState ops).InStep :=
  Runs.invariant (P := fun _ _ => True) (I := InStep) (fun _ op h _ => inStep_step h op)
    (inStep_restoreState l) (Runs.along_of_forall fun _ _ => trivial)

/-- **The in-memory book and the store agree after every operation.**  From a restore, through
any calls in which no store call fails, the symbols with an open row are those with an
in-memory position, the pending rows are the in-memory queue, no symbol has two open rows,
and reconciling succeeds. -/
theorem book_and_store (l₀ l : Ledger) (ops : List LedgerOp)
    (h : LedgerOp.calls l₀.restoreState ops = some l) :
    (∀ symbol, (∃ r ∈ l.store.positions.rows, r.symbol = symbol ∧ r.exit = none) ↔
        ∃ p ∈ l.broker.paper.positions, p.symbol = symbol) ∧
      (∀ id, (∃ o ∈ l.store.orders, o.id = id ∧ o.status = .pending) ↔
        ∃ o ∈ l.broker.pending, o.id = id) ∧
      (∀ r ∈ l.store.positions.rows, ∀ r' ∈ l.store.positions.rows,
        r.exit = none → r'.exit = none → r.symbol = r'.symbol → r = r') ∧
      l.reconcile = true := by
  have hstep : l.InStep := by
    rw [LedgerOp.run_of_calls h]
    exact inStep_run l₀ ops
  refine ⟨hstep.open_iff, hstep.pending_iff, ?_, hstep.reconcile⟩
  intro r hr r' hr' hopen hopen' hsymbol
  exact l.open_unique hr hr' hopen hopen' hsymbol

end Ledger

/-- A first order on `EURUSD`, at 1.10. -/
def firstLong : Submission where
  id := 1
  createdAt := 0
  symbol := .eurusd
  timeframe := .H1
  direction := .long
  refPrice := 11 / 10
  units := 1000
  decisionId := some 1
  stopLoss := none
  takeProfit := none

/-- A session on empty tables, restored. -/
def emptySession : Ledger :=
  Ledger.session ⟨100000, 0, {}⟩ (LedgerStore.empty fun _ => none)

/-- Submitted, filled, and closed on a signal. -/
def roundTripOps : List LedgerOp :=
  [.submit firstLong, .fill 1 (11 / 10) (seconds 3600),
    .closeOnSignal .eurusd (12 / 10) (seconds 7200)]

/-- The ledger after them, without slippage. -/
def afterRoundTrip : Ledger :=
  @Runs.run _ _ (@LedgerOp.step Digest.zero) emptySession.restoreState roundTripOps

theorem roundTripOps_accepted :
    @LedgerOp.calls Digest.zero emptySession.restoreState roundTripOps = some afterRoundTrip := by
  refine @LedgerOp.calls_of_accepted Digest.zero _ _ ⟨?_, ?_, ?_, trivial⟩
  · decide +kernel
  · decide +kernel
  · decide +kernel

/-- After the round trip nothing is left to reconcile. -/
theorem afterRoundTrip_reconcile : afterRoundTrip.reconcile = true :=
  (@Ledger.book_and_store Digest.zero emptySession afterRoundTrip roundTripOps
    roundTripOps_accepted).2.2.2

end ForexAi
