/-
A lifecycle cycle in all the ways it can go.

Every unit of a cycle has its own transactions.  A pass that fails before its first commit
changes nothing, one that fails later keeps the bars it committed, and either way the
cycle goes on with the next unit and ends with the sweep of expired orders, which fails as
a whole or not at all.  The candles are read pass by pass, and once more they may have
changed by the time of the sweep.
-/
import ForexAi.Proofs.TimeOrder

namespace ForexAi

/-- How a pass ends. -/
inductive PassEnd where
  | completed | failedEarly | failedAfter (bars : ℕ)
  deriving DecidableEq, Repr

/-- One cycle: the clock, the candles each unit's pass reads, those stored when the sweep
runs, how the passes end, and whether the sweep commits. -/
structure WorkerCycle where
  now : Time
  candles : Candles
  later : Candles
  ends : Symbol × Timeframe → PassEnd
  sweeps : Bool

namespace WorkerCycle

variable [Digest]

/-- One unit of `process_lifecycle`. -/
def pass (cfg : WorkerConfig) (cy : WorkerCycle) (store : LedgerStore) (unit : Symbol × Timeframe) :
    LedgerStore :=
  match cy.ends unit with
  | .completed => processUnit cfg cy.candles store unit none
  | .failedEarly => store
  | .failedAfter bars => processUnit cfg cy.candles store unit (some bars)

/-- The passes of `process_lifecycle`. -/
def passes (cfg : WorkerConfig) (cy : WorkerCycle) (store : LedgerStore) : LedgerStore :=
  Runs.run (cy.pass cfg) store (activeUnits store)

/-- `process_lifecycle`. -/
def apply (cfg : WorkerConfig) (cy : WorkerCycle) (store : LedgerStore) : LedgerStore :=
  if (Ledger.session cfg.broker store).restoreState.reconcile then
    if cy.sweeps then cancelExpiredPending cfg (cy.passes cfg store) cy.now
    else cy.passes cfg store
  else store

/-- The bars a pass commits. -/
def handed (cfg : WorkerConfig) (cy : WorkerCycle) (store : LedgerStore)
    (unit : Symbol × Timeframe) :
    List Bar :=
  let plan := planUnit cfg (cy.candles unit.1 unit.2) store unit.1 unit.2
  match cy.ends unit with
  | .completed => plan.window
  | .failedEarly => []
  | .failedAfter bars => plan.window.take bars

/-- After a restore the tables and the broker agree, so the cycle goes ahead. -/
theorem apply_eq (cfg : WorkerConfig) (cy : WorkerCycle) (store : LedgerStore) :
    cy.apply cfg store =
      if cy.sweeps then cancelExpiredPending cfg (cy.passes cfg store) cy.now
      else cy.passes cfg store := by
  unfold apply
  rw [if_pos (World.reconcile_restored _)]

/-- Without early failures, on candles that stay as they are, this is the cycle of
`processLifecycle`. -/
theorem apply_eq_processLifecycle (cfg : WorkerConfig) (candles : Candles) (store : LedgerStore)
    (now : Time) (faults : Faults) :
    WorkerCycle.apply cfg
        { now := now
          candles := candles
          later := candles
          ends := fun unit => (faults unit).elim .completed .failedAfter
          sweeps := true } store
      = processLifecycle cfg candles store now faults := by
  rw [apply_eq, if_pos rfl]
  unfold processLifecycle
  rw [if_pos (World.reconcile_restored _)]
  congr 1
  show (activeUnits store).foldl _ store = (activeUnits store).foldl _ store
  congr 1
  funext s unit
  show (match (faults unit).elim PassEnd.completed PassEnd.failedAfter with
    | .completed => processUnit cfg candles s unit none
    | .failedEarly => s
    | .failedAfter bars => processUnit cfg candles s unit (some bars)) = _
  cases faults unit <;> rfl

end WorkerCycle

end ForexAi
