/-
The ledger's time order.

Positions are kept by symbol, bars are processed by (symbol, timeframe).  A pass over a
unit starts at its earliest anchor, and an order of the unit is an anchor even when the
symbol already has a position of another timeframe that was entered later.  The bars
from there on are then handed over with the later position open: an old bar flips it, or
closes it at its stop, and the row gets an exit before its entry.

`NoEarlyFill` is the condition on a pass, read before it: no loaded due bar of the unit
is older than the entry of the symbol's open position.  `pass_in_order_iff` shows that it
is exact for one pass, and `time_order_iff` that it is exact for whole runs: candles that
change in any way, orders submitted for any unit, cycles whose passes may fail midway.

A pass is an induction on its window.  What it carries is that the open row was entered
no later than any bar still to come; a fill enters at its own bar, and the bars ascend.
-/
import ForexAi.Workers.Orchestrator
import ForexAi.Proofs.Restores

namespace ForexAi

/-! ### The rows, and the bars handed over -/

/-- Every closed row was closed no earlier than it was entered. -/
def PositionTable.ClosedInOrder (t : PositionTable) : Prop :=
  ∀ r ∈ t.rows, ∀ e, r.exit = some e → r.entryTs ≤ e.ts

instance (t : PositionTable) : Decidable t.ClosedInOrder :=
  decidable_of_iff (∀ r ∈ t.rows, ∀ e ∈ r.exit, r.entryTs ≤ e.ts) Iff.rfl

/-- The bar is not older than the entry of the symbol's open position. -/
def InOrder (symbol : Symbol) (l : Ledger) (b : Bar) : Prop :=
  ∀ q, l.store.positions.openRow symbol = some q → q.entryTs ≤ b.ts

/-- The bars a pass hands over, up to the one it fails after. -/
def UnitPlan.handed (plan : UnitPlan) (fault : Option ℕ) : List Bar :=
  match fault with
  | none => plan.window
  | some n => plan.window.take n

/-- The condition on a pass: it stops before its first bar, or no loaded due bar of the
unit is older than the entry of the symbol's open position. -/
def NoEarlyFill (candles : Candles) (store : LedgerStore) (unit : Symbol × Timeframe)
    (fault : Option ℕ) : Prop :=
  fault = some 0 ∨
    ∀ q, store.positions.openRow unit.1 = some q →
      ∀ c ∈ store.unitCandidates unit.1 unit.2,
        c.fillStamp ∈ loadedStamps (candles unit.1 unit.2) store unit.1 unit.2 →
          q.entryTs ≤ c.fillStamp

theorem handed_init (plan : UnitPlan) (fault : Option ℕ) : plan.handed fault <+: plan.window := by
  cases fault with
  | none => exact List.prefix_rfl
  | some n => exact List.take_prefix n plan.window

/-- When a due bar is older than the open entry, the oldest stamp owed is. -/
theorem owedStamps_min {series : Series} {store : LedgerStore} {symbol : Symbol}
    {timeframe : Timeframe} {c : PendingCandidate} {q : PaperPositionRow}
    (hc : c ∈ store.unitCandidates symbol timeframe)
    (hloaded : c.fillStamp ∈ loadedStamps series store symbol timeframe)
    (hq : store.positions.openRow symbol = some q) (hearly : c.fillStamp < q.entryTs) :
    ∃ t ∈ owedStamps series store symbol timeframe,
      (∀ u ∈ owedStamps series store symbol timeframe, t ≤ u) ∧ t < q.entryTs := by
  have hcurrent : store.current symbol = some q.toPosition := by
    unfold LedgerStore.current
    rw [hq]
    rfl
  obtain ⟨anchor, hanchor⟩ := @anchorStamp_isSome (store.unitCandidates symbol timeframe)
    (loadedStamps series store symbol timeframe) (store.current symbol)
    (Or.inr ⟨c, hc, hloaded⟩)
  have hlt : anchor < q.entryTs :=
    lt_of_le_of_lt ((anchorStamp_le hanchor).1 c hc hloaded) hearly
  have howed : owedStamps series store symbol timeframe
      = (loadedStamps series store symbol timeframe).filter (anchor ≤ ·) :=
    outstandingStamps_of_anchor hanchor
  rw [howed]
  refine ⟨anchor, ?_, fun u hu => by simpa using (List.mem_filter.mp hu).2, hlt⟩
  rcases anchorStamp_cases hanchor with ⟨-, -, -, hmem⟩ | ⟨pos, hpos, hentry⟩
  · exact List.mem_filter.mpr ⟨hmem, by simp⟩
  · rw [hcurrent] at hpos
    obtain rfl := Option.some.inj hpos
    exact absurd hlt (by rw [← hentry]; exact lt_irrefl _)

/-- Under the condition, with a position open nothing older than its entry is owed. -/
theorem owedStamps_ge {series : Series} {store : LedgerStore} {symbol : Symbol}
    {timeframe : Timeframe} {q : PaperPositionRow}
    (hq : store.positions.openRow symbol = some q)
    (hlate : ∀ c ∈ store.unitCandidates symbol timeframe,
      c.fillStamp ∈ loadedStamps series store symbol timeframe → q.entryTs ≤ c.fillStamp) :
    ∀ t ∈ owedStamps series store symbol timeframe, q.entryTs ≤ t := by
  intro t ht
  have hcurrent : store.current symbol = some q.toPosition := by
    unfold LedgerStore.current
    rw [hq]
    rfl
  obtain ⟨anchor, hanchor⟩ := @anchorStamp_isSome (store.unitCandidates symbol timeframe)
    (loadedStamps series store symbol timeframe) (store.current symbol)
    (Or.inl (by rw [hcurrent]; rfl))
  have howed : owedStamps series store symbol timeframe
      = (loadedStamps series store symbol timeframe).filter (anchor ≤ ·) :=
    outstandingStamps_of_anchor hanchor
  rw [howed] at ht
  have hge : q.entryTs ≤ anchor := by
    rcases anchorStamp_cases hanchor with ⟨c, hc, hca, hmem⟩ | ⟨pos, hpos, hentry⟩
    · rw [← hca]
      exact hlate c hc (by rw [hca]; exact hmem)
    · rw [hcurrent] at hpos
      obtain rfl := Option.some.inj hpos
      exact hentry.le
  exact hge.trans (by simpa using (List.mem_filter.mp ht).2)

variable [Digest]

/-! ### One pass

The stamps a pass owes begin with the least of its anchors.  Under the condition that stamp is
no older than the entry of the open position, and from then on the bars ascend while entries
only move to the bar at hand.
-/

/-- The bars of a pass, in the order of their effects. -/
private theorem bars_in_order (cfg : WorkerConfig) {symbol : Symbol} {timeframe : Timeframe}
    {candidates : List PendingCandidate}
    (hcands : ∀ c ∈ candidates, c.order.symbol = symbol) (bars : List Bar) :
    ∀ l : Ledger, (bars.map (·.ts)).Pairwise (· < ·) →
      Runs.Along (handBar cfg symbol timeframe candidates)
        (fun l b => Ledger.BarEffect cfg.snapshotInterval l
          (handBar cfg symbol timeframe candidates l b) symbol b candidates) l bars →
      (∀ q, l.store.positions.openRow symbol = some q → ∀ b ∈ bars, q.entryTs ≤ b.ts) →
      Runs.Along (handBar cfg symbol timeframe candidates) (InOrder symbol) l bars ∧
        (l.store.positions.ClosedInOrder → (Runs.run (handBar cfg symbol timeframe candidates) l
          bars).store.positions.ClosedInOrder) := by
  induction bars with
  | nil => intro l _ _ _; exact ⟨trivial, fun hclosed => hclosed⟩
  | cons b rest ih =>
      intro l hasc heffects hopen
      rw [List.map_cons, List.pairwise_cons] at hasc
      obtain ⟨heffect, hrest⟩ := heffects
      have hacting : ∀ o, l.store.actingAt symbol b.ts candidates = some o → o.symbol = symbol := by
        intro o ho
        obtain ⟨c, hc, rfl⟩ := Option.map_eq_some_iff.mp ho
        exact hcands c (mem_candidatesForBar.mp (actingOrder_mem hc)).1
      have htouched : l.store.positions.TouchedAt symbol b.ts
          (handBar cfg symbol timeframe candidates l b).store.positions := by
        have h := l.book.touchedAt_processBar cfg.snapshotInterval b hacting
        rw [← heffect.book] at h
        exact h
      have hnow : InOrder symbol l b := fun q hq => hopen q hq b List.mem_cons_self
      have hopen' : ∀ q, (handBar cfg symbol timeframe candidates l b).store.positions.openRow
          symbol = some q → ∀ b' ∈ rest, q.entryTs ≤ b'.ts := by
        intro q hq b' hb'
        have hlt : b.ts < b'.ts := hasc.1 b'.ts (List.mem_map.mpr ⟨b', hb', rfl⟩)
        obtain ⟨hqmem, hqsym, hqopen⟩ := PositionTable.openRow_spec hq
        rcases htouched q hqmem with hold | ⟨-, hentry, -⟩
        · have hqold := PositionTable.openRow_of_mem hold hqopen
          rw [hqsym] at hqold
          exact hopen q hqold b' (List.mem_cons_of_mem b hb')
        · rcases hentry with hts | ⟨q', hq', hentry⟩
          · rw [hts]
            exact hlt.le
          · rw [hentry]
            exact (hnow q' hq').trans hlt.le
      have hclosed' : l.store.positions.ClosedInOrder →
          (handBar cfg symbol timeframe candidates l b).store.positions.ClosedInOrder := by
        intro hclosed r hr e he
        rcases htouched r hr with hold | ⟨-, hentry, hexit⟩
        · exact hclosed r hold e he
        · rw [hexit e he]
          rcases hentry with hts | ⟨q, hq, hentry⟩
          · exact hts.le
          · rw [hentry]
            exact hnow q hq
      obtain ⟨halong, hend⟩ := ih _ hasc.2 hrest hopen'
      exact ⟨⟨hnow, halong⟩, fun hclosed => hend (hclosed' hclosed)⟩

/-- The bars of a pass are handed over in order. -/
def PassInOrder (cfg : WorkerConfig) (candles : Candles) (store : LedgerStore)
    (unit : Symbol × Timeframe) (fault : Option ℕ) : Prop :=
  let plan := planUnit cfg (candles unit.1 unit.2) store unit.1 unit.2
  Runs.Along (handBar cfg unit.1 unit.2 plan.candidates) (InOrder unit.1) plan.ledger
    (plan.handed fault)

theorem processUnit_eq (cfg : WorkerConfig) (candles : Candles) (store : LedgerStore)
    (unit : Symbol × Timeframe) (fault : Option ℕ) :
    processUnit cfg candles store unit fault =
      (Runs.run (handBar cfg unit.1 unit.2
          (planUnit cfg (candles unit.1 unit.2) store unit.1 unit.2).candidates)
        (planUnit cfg (candles unit.1 unit.2) store unit.1 unit.2).ledger
        ((planUnit cfg (candles unit.1 unit.2) store unit.1 unit.2).handed fault)).store := by
  cases fault <;> rfl

omit [Digest] in
theorem planUnit_positions (cfg : WorkerConfig) (series : Series) (store : LedgerStore)
    (symbol : Symbol) (timeframe : Timeframe) :
    (planUnit cfg series store symbol timeframe).ledger.store.positions = store.positions :=
  congrArg Book.table (planUnit_ledger cfg series store symbol timeframe).1

omit [Digest] in
theorem planUnit_ready (cfg : WorkerConfig) (series : Series) (store : LedgerStore)
    (symbol : Symbol) (timeframe : Timeframe) :
    Ready (planUnit cfg series store symbol timeframe).ledger
      (store.unitCandidates symbol timeframe)
      (planUnit cfg series store symbol timeframe).window := by
  intro b hb c hc hts
  refine ((planUnit_ledger cfg series store symbol timeframe).2.2.1 c hc).1 ?_
  have hmem : b.ts ∈ (planUnit cfg series store symbol timeframe).window.map (·.ts) :=
    List.mem_map.mpr ⟨b, hb, rfl⟩
  rw [planUnit_stamps] at hmem
  rw [hts]
  exact mem_outstandingStamps (mem_of_mem_catchupWindow hmem)

/-- The bars of a pass ascend, and at each the orders due are pending. -/
theorem planUnit_due (cfg : WorkerConfig) (series : Series) (store : LedgerStore)
    (symbol : Symbol) (timeframe : Timeframe) (fault : Option ℕ) :
    (((planUnit cfg series store symbol timeframe).handed fault).map (·.ts)).Pairwise (· < ·) ∧
      Runs.Along (handBar cfg symbol timeframe (store.unitCandidates symbol timeframe))
        (fun l b => Due l.store symbol
          (candidatesForBar (store.unitCandidates symbol timeframe) b.ts))
        (planUnit cfg series store symbol timeframe).ledger
        ((planUnit cfg series store symbol timeframe).handed fault) := by
  set plan := planUnit cfg series store symbol timeframe with hplan
  have hinit := handed_init plan fault
  have hasc : ((plan.handed fault).map (·.ts)).Pairwise (· < ·) := by
    refine List.Pairwise.sublist (hinit.sublist.map _) ?_
    rw [hplan, planUnit_stamps]
    exact catchupWindow_ascending _ _
  have hready : Ready plan.ledger (store.unitCandidates symbol timeframe) (plan.handed fault) := by
    intro b hb
    exact planUnit_ready cfg series store symbol timeframe b (hinit.subset hb)
  exact ⟨hasc, handBars_due cfg timeframe (due_unitCandidates store symbol timeframe)
    (plan.handed fault) plan.ledger hready hasc⟩

/-- The bars of a pass ascend, and each has its effect. -/
theorem planUnit_along (cfg : WorkerConfig) (series : Series) (store : LedgerStore)
    (symbol : Symbol) (timeframe : Timeframe) (fault : Option ℕ) :
    (((planUnit cfg series store symbol timeframe).handed fault).map (·.ts)).Pairwise (· < ·) ∧
      Runs.Along (handBar cfg symbol timeframe (store.unitCandidates symbol timeframe))
        (fun l b => Ledger.BarEffect cfg.snapshotInterval l
          (handBar cfg symbol timeframe (store.unitCandidates symbol timeframe) l b) symbol b
          (store.unitCandidates symbol timeframe))
        (planUnit cfg series store symbol timeframe).ledger
        ((planUnit cfg series store symbol timeframe).handed fault) := by
  obtain ⟨hasc, hdue⟩ := planUnit_due cfg series store symbol timeframe fault
  exact ⟨hasc, hdue.mono fun l b =>
    Ledger.processUnitBar_effect cfg.snapshotInterval l symbol timeframe b _⟩

omit [Digest] in
theorem UnitPlan.handed_head (plan : UnitPlan) {fault : Option ℕ} {t : Time}
    (hhead : (plan.window.map (·.ts)).head? = some t) (hrun : fault ≠ some 0) :
    ∃ b rest, plan.handed fault = b :: rest ∧ b.ts = t := by
  cases hwindow : plan.window with
  | nil =>
      rw [hwindow] at hhead
      exact absurd hhead (by simp)
  | cons b rest =>
      rw [hwindow] at hhead
      have hbt : b.ts = t := by simpa using hhead
      cases fault with
      | none => exact ⟨b, rest, hwindow, hbt⟩
      | some n =>
          cases n with
          | zero => exact absurd rfl hrun
          | succ n => exact ⟨b, rest.take n, by simp [handed, hwindow], hbt⟩

/-- **One pass.**  Its bars come in order exactly under the condition, and then no row is
closed before its entry. -/
theorem pass_in_order_iff (cfg : WorkerConfig) (candles : Candles) (store : LedgerStore)
    (unit : Symbol × Timeframe) (fault : Option ℕ) :
    (PassInOrder cfg candles store unit fault ↔ NoEarlyFill candles store unit fault) ∧
      (NoEarlyFill candles store unit fault → store.positions.ClosedInOrder →
        (processUnit cfg candles store unit fault).positions.ClosedInOrder) := by
  obtain ⟨symbol, timeframe⟩ := unit
  set series := candles symbol timeframe with hseries
  set plan := planUnit cfg series store symbol timeframe with hplan
  have hcandidates : plan.candidates = store.unitCandidates symbol timeframe :=
    planUnit_candidates cfg series store symbol timeframe
  have hpositions : plan.ledger.store.positions = store.positions :=
    planUnit_positions cfg series store symbol timeframe
  have hdue := due_unitCandidates store symbol timeframe
  have hwindow : plan.window.map (·.ts)
      = (catchupWindow (owedStamps series store symbol timeframe) cfg.maxBars).1 :=
    planUnit_stamps cfg series store symbol timeframe
  have hinit := handed_init plan fault
  obtain ⟨hasc, heffects⟩ := planUnit_along cfg series store symbol timeframe fault
  -- What the condition gives the loop to start with.
  have hopen : NoEarlyFill candles store (symbol, timeframe) fault →
      ∀ q, plan.ledger.store.positions.openRow symbol = some q →
        ∀ b ∈ plan.handed fault, q.entryTs ≤ b.ts := by
    intro hcond q hq b hb
    rw [hpositions] at hq
    rcases hcond with hstop | hlate
    · rw [hstop] at hb
      exact absurd hb (by simp [UnitPlan.handed])
    · have hmem : b.ts ∈ plan.window.map (·.ts) := List.mem_map.mpr ⟨b, hinit.subset hb, rfl⟩
      rw [hwindow] at hmem
      exact owedStamps_ge hq (hlate q hq) b.ts (mem_of_mem_catchupWindow hmem)
  refine ⟨⟨?_, ?_⟩, ?_⟩
  · intro hpass
    by_contra hcond
    unfold NoEarlyFill at hcond
    push Not at hcond
    obtain ⟨hrun, q, hq, c, hc, hloaded, hearly⟩ := hcond
    obtain ⟨t, ht, hmin, hlt⟩ := owedStamps_min hc hloaded hq hearly
    have hhead : (plan.window.map (·.ts)).head? = some t := by
      rw [hwindow]
      exact catchupWindow_head ht hmin cfg.maxBars
    -- The first bar handed over is older than the open position.
    obtain ⟨b, rest, hhanded, hbt⟩ := plan.handed_head hhead hrun
    have halong : Runs.Along (handBar cfg symbol timeframe plan.candidates) (InOrder symbol)
        plan.ledger (plan.handed fault) := hpass
    rw [hhanded] at halong
    have hle := halong.1 q (by rw [hpositions]; exact hq)
    rw [hbt] at hle
    exact absurd hle (not_le.mpr hlt)
  · intro hcond
    show Runs.Along (handBar cfg symbol timeframe plan.candidates) (InOrder symbol) plan.ledger
      (plan.handed fault)
    rw [hcandidates]
    exact (bars_in_order cfg hdue.symbol_eq (plan.handed fault) plan.ledger hasc heffects
      (hopen hcond)).1
  · intro hcond hclosed
    rw [processUnit_eq]
    show (Runs.run (handBar cfg symbol timeframe plan.candidates) plan.ledger
      (plan.handed fault)).store.positions.ClosedInOrder
    rw [hcandidates]
    refine (bars_in_order cfg hdue.symbol_eq (plan.handed fault) plan.ledger hasc heffects
      (hopen hcond)).2 ?_
    rw [hpositions]
    exact hclosed

/-! ### Cycles, and runs of the whole system

Candles change and orders are submitted between cycles without touching a position, and the
sweep touches none either.  So the order of a run is the order of its passes.
-/

/-- What the writer works on. -/
structure World where
  store : LedgerStore
  candles : Candles

/-- What happens to it: the stored candles change, a decision's order is submitted, a
cycle runs. -/
inductive WorldEvent where
  | candles (c : Candles)
  | submit (r : Submission)
  | cycle (now : Time) (faults : Faults)

namespace World

def start (decisions : DecisionId → Option DecisionRef) (candles : Candles) : World where
  store := LedgerStore.empty decisions
  candles := candles

/-- The world after an event. -/
def step (cfg : WorkerConfig) (w : World) : WorldEvent → World
  | .candles c => { w with candles := c }
  | .submit r =>
      { w with store := (r.submit (Ledger.session cfg.broker w.store).restoreState).store }
  | .cycle now faults =>
      { w with store := processLifecycle cfg w.candles w.store now faults }

/-- One unit of a cycle. -/
def unitStep (cfg : WorkerConfig) (candles : Candles) (faults : Faults) (store : LedgerStore)
    (unit : Symbol × Timeframe) : LedgerStore :=
  processUnit cfg candles store unit (faults unit)

/-- Every bar a cycle hands over comes in order. -/
def EventInOrder (cfg : WorkerConfig) (w : World) : WorldEvent → Prop
  | .cycle _ faults =>
      Runs.Along (unitStep cfg w.candles faults)
        (fun store unit => PassInOrder cfg w.candles store unit (faults unit)) w.store
        (activeUnits w.store)
  | _ => True

/-- Every pass of a cycle meets the condition. -/
def EventNoEarlyFill (cfg : WorkerConfig) (w : World) : WorldEvent → Prop
  | .cycle _ faults =>
      Runs.Along (unitStep cfg w.candles faults)
        (fun store unit => NoEarlyFill w.candles store unit (faults unit)) w.store
        (activeUnits w.store)
  | _ => True

omit [Digest] in
theorem sameMembers_self {α : Type} [DecidableEq α] (xs : List α) :
    Ledger.sameMembers xs xs = true := by
  simp [Ledger.sameMembers]

omit [Digest] in
/-- After a restore the tables and the broker never disagree. -/
theorem reconcile_restored (l : Ledger) : l.restoreState.reconcile = true := by
  unfold Ledger.reconcile
  have hopen : l.restoreState.broker.paper.positions.map (·.symbol)
      = l.restoreState.store.listOpenPositions.map (·.symbol) := by
    show (l.store.positions.openRows.map (·.toPosition)).map (·.symbol) = _
    rw [List.map_map]
    rfl
  have hpending : l.restoreState.broker.pending = l.restoreState.store.listPendingOrders := rfl
  rw [hopen, hpending, sameMembers_self, sameMembers_self]
  rfl

omit [Digest] in
theorem cancelExpiredPending_positions (cfg : WorkerConfig) (store : LedgerStore) (now : Time) :
    (cancelExpiredPending cfg store now).positions = store.positions := by
  set l := (Ledger.session cfg.broker store).restoreState with hl
  have hsub : ((l.store.listPendingExpired now).map (·.id)).Nodup :=
    (listPendingOrders_ids_nodup store).sublist (List.filter_sublist.map _)
  have h := (cancelAll_effect (l.store.listPendingExpired now) l
    (fun o ho => List.mem_of_mem_filter ho) hsub).1
  exact congrArg Book.table h

theorem processLifecycle_positions (cfg : WorkerConfig) (w : World) (now : Time)
    (faults : Faults) :
    (processLifecycle cfg w.candles w.store now faults).positions
      = (Runs.run (unitStep cfg w.candles faults) w.store (activeUnits w.store)).positions := by
  unfold processLifecycle
  rw [if_pos (reconcile_restored _)]
  exact cancelExpiredPending_positions cfg _ now

theorem event_in_order_iff (cfg : WorkerConfig) (w : World) (e : WorldEvent) :
    (EventInOrder cfg w e ↔ EventNoEarlyFill cfg w e) ∧
      (EventNoEarlyFill cfg w e → w.store.positions.ClosedInOrder →
        (step cfg w e).store.positions.ClosedInOrder) := by
  cases e with
  | candles c => exact ⟨Iff.rfl, fun _ h => h⟩
  | submit r =>
      refine ⟨Iff.rfl, fun _ h => ?_⟩
      have hbook := Ledger.book_submit r (Ledger.session cfg.broker w.store).restoreState
      have hpositions : (step cfg w (.submit r)).store.positions = w.store.positions :=
        congrArg Book.table hbook
      rw [hpositions]
      exact h
  | cycle now faults =>
      refine ⟨⟨?_, ?_⟩, ?_⟩
      · exact Runs.Along.mono fun store unit h =>
          (pass_in_order_iff cfg w.candles store unit (faults unit)).1.mp h
      · exact Runs.Along.mono fun store unit h =>
          (pass_in_order_iff cfg w.candles store unit (faults unit)).1.mpr h
      · intro hcond hclosed
        show (processLifecycle cfg w.candles w.store now faults).positions.ClosedInOrder
        rw [processLifecycle_positions]
        refine Runs.invariant (I := fun store => store.positions.ClosedInOrder) ?_ hclosed hcond
        intro store unit hstore hunit
        exact (pass_in_order_iff cfg w.candles store unit (faults unit)).2 hunit hstore

/-- **The time order of the ledger.**  On a run every bar handed over comes in order, and no
row is closed before its entry, exactly when every pass meets the condition. -/
theorem time_order_iff (cfg : WorkerConfig) (decisions : DecisionId → Option DecisionRef)
    (candles : Candles) (events : List WorldEvent) :
    ((Runs.run (step cfg) (start decisions candles) events).store.positions.ClosedInOrder ∧
      Runs.Along (step cfg) (EventInOrder cfg) (start decisions candles) events) ↔
    Runs.Along (step cfg) (EventNoEarlyFill cfg) (start decisions candles) events := by
  constructor
  · intro h
    exact h.2.mono fun w e he => (event_in_order_iff cfg w e).1.mp he
  · intro h
    refine ⟨?_, h.mono fun w e he => (event_in_order_iff cfg w e).1.mpr he⟩
    refine Runs.invariant (I := fun w => w.store.positions.ClosedInOrder) ?_ ?_ h
    · intro w e hw he
      exact (event_in_order_iff cfg w e).2 he hw
    · intro r hr
      exact absurd hr (by simp [start, LedgerStore.empty])

/-! ### An hour's order and a five-minute position -/

/-- A writer with the default throttle. -/
def worker : WorkerConfig where
  broker := Ledger.spreadOnly.broker
  maxBars := 24
  snapshotInterval := none

/-- The first decision's bucket is at zero, every other's an hour later. -/
def anHourApart : DecisionId → Option DecisionRef := fun d =>
  some { bucketTs := if d = 1 then 0 else seconds 3600, validUntil := seconds 86400 }

/-- A candle that opens and closes at 1.10. -/
def flatCandle (ts : Time) : Candle where
  ts := ts
  openPrice := 11 / 10
  high := 11 / 10
  low := 11 / 10
  close := 11 / 10

/-- One five-minute candle; the hour it belongs to, when `hour` says so. -/
def oneHour (hour : Bool) : Candles := fun _ tf =>
  match tf with
  | .M5 => ⟨[flatCandle (seconds 3900)], List.pairwise_singleton _ _⟩
  | .H1 => if hour then ⟨[flatCandle (seconds 3600)], List.pairwise_singleton _ _⟩
      else .empty
  | _ => .empty

omit [Digest] in
/-- A short is opened on five minutes while the hour is still open.  When the hour's candle
arrives, the long that was due at its start flips the short, which is closed five minutes
before it was entered. -/
theorem closed_before_entry : ¬ ∀ (_ : Digest) (cfg : WorkerConfig)
    (decisions : DecisionId → Option DecisionRef) (candles : Candles) (events : List WorldEvent),
    (Runs.run (step cfg) (start decisions candles) events).store.positions.ClosedInOrder ∧
      Runs.Along (step cfg) (EventInOrder cfg) (start decisions candles) events := by
  intro h
  have hrun := (h Digest.zero worker anHourApart (oneHour false)
    [.submit (Ledger.longOrder 1 .eurusd),
      .submit { Ledger.longOrder 2 .eurusd with timeframe := .M5, direction := .short },
      .cycle (seconds 4200) fun _ => none,
      .candles (oneHour true),
      .cycle (seconds 7200) fun _ => none]).1
  exact absurd hrun (by decide +kernel)

end World

end ForexAi
