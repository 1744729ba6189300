/-
Every event of the worker is a sequence of ledger writes.

A pass reads its candidates once and works on them bar after bar.  They are rows of the
table when they are read, so they are current (`current_unitCandidates`), and each write
keeps them so.  A call for a pair writes at most one order, pending and unfilled.  So
whatever the worker does, in any order and however its passes end, the tables only ever go
through the six writes, and what every write keeps holds after every run.
-/
import ForexAi.Broker.Writes
import ForexAi.Workers.ProcessPair

namespace ForexAi

open LedgerStore

/-! ### A cycle of the lifecycle

A row is written back as it was read, with another status.  Between the two a pass makes other
writes, so what is asked of the row is that it be pending still or be left alone, and that
every write keeps.
-/

namespace WorkerCycle

theorem current_unitCandidates (store : LedgerStore) (symbol : Symbol) (timeframe : Timeframe) :
    ∀ c ∈ store.unitCandidates symbol timeframe, store.Current c.order := by
  intro c hc
  have hpending := (due_unitCandidates store symbol timeframe).pending c hc
  exact current_of_mem (mem_listPendingOrders.mp hpending).1

theorem writes_planUnit (cfg : WorkerConfig) (series : Series) (store : LedgerStore)
    (symbol : Symbol) (timeframe : Timeframe) :
    OrderWrites store (planUnit cfg series store symbol timeframe).ledger.store := by
  unfold planUnit
  cases series.lastClosedTs with
  | none => exact .refl
  | some latestClosed =>
      simp only
      rw [← List.foldl_map (f := fun c : PendingCandidate => c.order)
        (g := fun l o => (Ledger.cancelPending l o).2)]
      refine Ledger.writes_cancelAll (Ledger.session cfg.broker store).restoreState _ fun o ho => ?_
      obtain ⟨c, hc, rfl⟩ := List.mem_map.mp ho
      unfold missingBarCandidates at hc
      rw [List.mem_insertionSort] at hc
      exact current_unitCandidates store symbol timeframe c (List.mem_filter.mp hc).1

theorem writes_cancelExpiredPending (cfg : WorkerConfig) (store : LedgerStore) (now : Time) :
    OrderWrites store (cancelExpiredPending cfg store now) := by
  refine Ledger.writes_cancelAll (Ledger.session cfg.broker store).restoreState _ fun o ho => ?_
  have hpending : o ∈ store.listPendingOrders := (List.mem_filter.mp ho).1
  exact current_of_mem (mem_listPendingOrders.mp hpending).1

variable [Digest]

theorem writes_processUnit (cfg : WorkerConfig) (candles : Candles) (store : LedgerStore)
    (unit : Symbol × Timeframe) (fault : Option ℕ) :
    Writes store (processUnit cfg candles store unit fault) := by
  have hcandidates := planUnit_candidates cfg (candles unit.1 unit.2) store unit.1 unit.2
  unfold processUnit
  simp only [hcandidates]
  refine Runs.invariant (P := fun _ _ => True) (I := fun l : Ledger => Writes store l.store) ?_
    (writes_planUnit cfg (candles unit.1 unit.2) store unit.1 unit.2).writes
    (Runs.along_of_forall fun _ _ => trivial)
  intro l bar hl _
  refine hl.trans (Ledger.writes_processUnitBar cfg.snapshotInterval l unit.1 unit.2 bar _ ?_)
  intro c hc
  exact (current_unitCandidates store unit.1 unit.2 c hc).writes hl

theorem writes_pass (cfg : WorkerConfig) (cy : WorkerCycle) (store : LedgerStore)
    (unit : Symbol × Timeframe) : Writes store (cy.pass cfg store unit) := by
  unfold pass
  split
  · exact writes_processUnit cfg cy.candles store unit none
  · exact .refl
  · exact writes_processUnit cfg cy.candles store unit _

/-- **A cycle is writes**, however its passes end. -/
theorem writes_apply (cfg : WorkerConfig) (cy : WorkerCycle) (store : LedgerStore) :
    Writes store (cy.apply cfg store) := by
  have hpasses : Writes store (cy.passes cfg store) :=
    Runs.invariant (P := fun _ _ => True) (I := fun s => Writes store s)
      (fun s unit hs _ => hs.trans (writes_pass cfg cy s unit)) .refl
      (Runs.along_of_forall fun _ _ => trivial)
  rw [apply_eq]
  split
  · exact hpasses.trans (writes_cancelExpiredPending cfg _ cy.now).writes
  · exact hpasses

end WorkerCycle

/-! ### A call for a pair -/

namespace Database

/-- The ledger tables of a database after a ledger store's writes. -/
theorem ledger_write (db : Database) (s : LedgerStore) : OrderWrite s (db.write s).ledger :=
  ⟨.decide db.ledger.decisions, rfl, rfl⟩

/-- New decisions leave the other ledger tables as they are. -/
theorem writes_decided {db db' : Database} (horders : db'.orders = db.orders)
    (hpositions : db'.positions = db.positions) (hsnapshots : db'.snapshots = db.snapshots) :
    OrderWrites db.ledger db'.ledger := by
  have hledger : db'.ledger = { db.ledger with decisions := db'.ledger.decisions } := by
    unfold ledger
    simp only [horders, hpositions, hsnapshots]
  rw [hledger]
  exact .single ⟨.decide _, rfl, rfl⟩

end Database

namespace PairCall

variable {call : PairCall}

/-- Deciding and storing a decision touches no order, position or snapshot. -/
theorem persist_keeps {db db' : Database} {key : BarKey} {outcome : DecisionOutcome}
    {created : Bool} (h : call.persist db key outcome = some (created, db')) :
    db'.orders = db.orders ∧ db'.positions = db.positions ∧ db'.snapshots = db.snapshots := by
  unfold persist at h
  obtain ⟨_, -, h⟩ := Option.bind_eq_some_iff.mp h
  obtain ⟨saved, -, h⟩ := Option.bind_eq_some_iff.mp h
  cases hrisk : outcome.risk with
  | none =>
      rw [hrisk] at h
      obtain ⟨-, rfl⟩ := Prod.mk.inj (Option.some.inj h)
      exact ⟨rfl, rfl, rfl⟩
  | some risk =>
      rw [hrisk] at h
      obtain ⟨_, -, h⟩ := Option.bind_eq_some_iff.mp h
      obtain ⟨_, -, h⟩ := Option.bind_eq_some_iff.mp h
      obtain ⟨_, -, h⟩ := Option.bind_eq_some_iff.mp h
      obtain ⟨-, rfl⟩ := Prod.mk.inj (Option.some.inj h)
      exact ⟨rfl, rfl, rfl⟩

theorem writes_decidePair {orch : OrchParams} {gate : Option GateState} {db db' : Database}
    {r : DecideReport} (h : call.decidePair orch gate db = some (r, db')) :
    OrderWrites db.ledger db'.ledger := by
  rcases decidePair_cases h with ⟨-, rfl⟩ | ⟨_, _, -, hwritten, -⟩
  · exact .refl
  · obtain ⟨horders, hpositions, hsnapshots⟩ := persist_keeps hwritten
    exact Database.writes_decided horders hpositions hsnapshots

variable [Digest]

theorem writes_wirePaperDecision {l l' : Ledger} {r : DecideReport}
    {decision : Option DecisionRow} {riskEval : Option RiskEvaluationRow}
    (h : call.wirePaperDecision l r decision riskEval = some l') :
      OrderWrites l.store l'.store := by
  unfold wirePaperDecision at h
  split at h
  · rw [Option.some.inj h]
  · cases hsubmission : call.submission r decision riskEval with
    | none =>
        rw [hsubmission] at h
        rw [Option.some.inj h]
    | some submission =>
        rw [hsubmission] at h
        obtain ⟨_, -, hcall⟩ := Option.bind_eq_some_iff.mp h
        unfold LedgerOp.call at hcall
        split at hcall
        · exact absurd hcall (by simp)
        · rw [← Option.some.inj hcall]
          exact Ledger.writes_submit submission l

theorem writes_sponsorPersisted {broker : Option LedgerBroker} {r : DecideReport}
    {db db' : Database} (h : call.sponsorPersisted broker r db = some db') :
    OrderWrites db.ledger db'.ledger := by
  unfold sponsorPersisted sponsorPaperOrder at h
  split at h
  · cases broker with
    | none => rw [Option.some.inj h]
    | some broker =>
        simp only at h
        split at h
        · rw [Option.some.inj h]
        · obtain ⟨_, -, h⟩ := Option.bind_eq_some_iff.mp h
          obtain ⟨l, hwired, h⟩ := Option.bind_eq_some_iff.mp h
          rw [← Option.some.inj h]
          exact (writes_wirePaperDecision hwired).tail (Database.ledger_write db l.store)
  · rw [Option.some.inj h]

/-- **A call writes to the orders and the decisions alone**, also when it raises. -/
theorem writes_processPair (cfg : PairConfig) (db : Database) :
    OrderWrites db.ledger (call.processPair cfg db).2.ledger := by
  have htransaction : ∀ r db', call.transaction cfg db = some (r, db') →
      OrderWrites db.ledger db'.ledger := by
    intro r db' h
    unfold transaction at h
    obtain ⟨_, -, h⟩ := Option.bind_eq_some_iff.mp h
    split at h
    · rw [(Prod.mk.inj (Option.some.inj h)).2]
    · obtain ⟨_, -, h⟩ := Option.bind_eq_some_iff.mp h
      obtain ⟨⟨report, decided⟩, hdecided, h⟩ := Option.bind_eq_some_iff.mp h
      obtain ⟨sponsored, hsponsored, h⟩ := Option.bind_eq_some_iff.mp h
      obtain ⟨_, -, h⟩ := Option.bind_eq_some_iff.mp h
      rw [← (Prod.mk.inj (Option.some.inj h)).2]
      exact (writes_decidePair hdecided).trans (writes_sponsorPersisted hsponsored)
  unfold processPair
  cases hdone : call.transaction cfg db with
  | none => exact .refl
  | some committed =>
      simp only
      split <;> exact htransaction _ _ hdone

end PairCall

/-! ### Runs -/

variable [Digest]

theorem writes_step (cfg : PairConfig) (db : Database) (event : WorkerEvent) :
    Writes db.ledger (WorkerEvent.step cfg db event).ledger := by
  cases event with
  | pair call => exact (PairCall.writes_processPair cfg db).writes
  | cycle cy =>
      unfold WorkerEvent.step
      cases cfg.broker with
      | none => exact .refl
      | some broker =>
          exact (WorkerCycle.writes_apply _ cy db.ledger).tail (Database.ledger_write db _).write

/-- **The worker refines the writes**: whatever calls and cycles it goes through, from tables
on, the ledger goes from write to write. -/
theorem worker_refines_writes (cfg : PairConfig) (db : Database) (events : List WorkerEvent) :
    Writes db.ledger (Runs.run (WorkerEvent.step cfg) db events).ledger :=
  Runs.invariant (P := fun _ _ => True) (I := fun d => Writes db.ledger d.ledger)
    (fun d event h _ => h.trans (writes_step cfg d event)) .refl
    (Runs.along_of_forall fun _ _ => trivial)

end ForexAi
