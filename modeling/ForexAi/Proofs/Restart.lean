/-
A writer that is stopped between two bars, and started again.

All a pass keeps is in the tables: a restart finds the earliest stamp it may have to hand
over from, and hands over again what is stored from there.  Bars the stopped pass had
committed come again, and must do nothing; bars it had not come to must do what they would
have done.

The first half holds (`Stopped.replay_idle`): the orders of a committed bar are settled, and
what it left open it did not breach.  The second half has an exception.  A fill leaves its
order's seed in the broker, and nothing but the next fill takes it out; the uninterrupted
pass closes the position with that seed, a restarted one with the factory's.  `SameClose`
is the condition on a bar, read before it: the trade is the same with both.

`restart_unit` shows that the condition is enough for one pass, stopped after any number of
its bars, and `restart_differs` that it is needed: stopped right before a bar that fails it,
a pass ends with another trade.
-/
import ForexAi.Proofs.PassRows

namespace ForexAi

/-! ### What is granted of a unit, and what a pass leaves of it

Both are statements about the rows and the stored bars, so they can be asked of the tables a
restart finds.  `Granted` is what a pass needs, and `Quiescent` what it leaves.
-/

/-- What is granted of a unit before its pass: no order of the unit is due before the entry of
the symbol's open position, which is of the unit's timeframe; no load is cut; and no more bars
are owed than one pass takes. -/
structure Granted (cfg : WorkerConfig) (candles : Candles) (store : LedgerStore)
    (unit : Symbol × Timeframe) : Prop where
  late : ∀ q, store.positions.openRow unit.1 = some q →
    ∀ c ∈ store.unitCandidates unit.1 unit.2, q.entryTs ≤ c.fillStamp
  timeframe_eq : ∀ q, store.positions.openRow unit.1 = some q → q.timeframe = unit.2
  loads : LoadsAll (candles unit.1 unit.2) store unit
  fits : (owedStamps (candles unit.1 unit.2) store unit.1 unit.2).length ≤ max 1 cfg.maxBars

/-- Nothing of the unit is due, and no stored bar breaches its open position from its entry on. -/
structure Quiescent (candles : Candles) (store : LedgerStore) (unit : Symbol × Timeframe) :
    Prop where
  undue : ∀ c ∈ store.unitCandidates unit.1 unit.2,
    ¬ (candles unit.1 unit.2).lastClosedTs.any (c.fillStamp ≤ ·) = true
  timeframe_eq : ∀ q, store.positions.openRow unit.1 = some q → q.timeframe = unit.2
  unbreached : ∀ q, store.positions.openRow unit.1 = some q →
    ∀ r ∈ (candles unit.1 unit.2).rows, q.entryTs ≤ r.ts →
      (q.toPosition.exitPriceFor r.close q.stopLoss q.takeProfit).2.2 = false

theorem Series.closed_of_stored {series : Series} {t : Time} (h : t ∈ series.stamps) :
    series.lastClosedTs.any (t ≤ ·) = true := by
  obtain ⟨latestClosed, hlatest, hle⟩ := Series.exists_lastClosedTs h
  rw [hlatest]
  simpa using hle

theorem entry_mem_handStarts {series : Series} {store : LedgerStore} {unit : Symbol × Timeframe}
    {q : PaperPositionRow} (hq : store.positions.openRow unit.1 = some q) :
    q.entryTs ∈ handStarts series store unit := by
  refine List.mem_append_right _ ?_
  rw [hq]
  exact List.mem_singleton.mpr rfl

theorem handStarts_cases {series : Series} {store : LedgerStore} {unit : Symbol × Timeframe}
    {start : Time} (h : start ∈ handStarts series store unit) :
    (∃ c ∈ store.unitCandidates unit.1 unit.2, c.fillStamp = start ∧ start ∈ series.stamps) ∨
      ∃ q, store.positions.openRow unit.1 = some q ∧ q.entryTs = start := by
  rcases List.mem_append.mp h with hdue | hentry
  · obtain ⟨hmap, hin⟩ := List.mem_filter.mp hdue
    obtain ⟨c, hc, hstart⟩ := List.mem_map.mp hmap
    exact Or.inl ⟨c, hc, hstart, by simpa using hin⟩
  · exact Or.inr (Option.map_eq_some_iff.mp (Option.mem_toList.mp hentry))

theorem Granted.watching {cfg : WorkerConfig} {candles : Candles} {store : LedgerStore}
    {unit : Symbol × Timeframe} (h : Granted cfg candles store unit) {q : PaperPositionRow}
    (hq : store.positions.openRow unit.1 = some q) :
    Watching (handStarts (candles unit.1 unit.2) store unit) unit.2 []
      (owedBars (candles unit.1 unit.2) store unit) q := by
  refine ⟨⟨q.entryTs, entry_mem_handStarts hq, le_rfl⟩, h.timeframe_eq q hq, ?_,
    fun b hb => absurd hb (by simp)⟩
  intro b hb
  obtain ⟨r, -, ⟨start, hstart, hle⟩, rfl⟩ := mem_owedBars.mp hb
  refine le_trans ?_ hle
  rcases handStarts_cases hstart with ⟨c, hc, rfl, -⟩ | ⟨q', hq', rfl⟩
  · exact h.late q hq c hc
  · rw [hq] at hq'
    obtain rfl := Option.some.inj hq'
    exact le_rfl

variable [Digest]

/-- **After the bars a pass commits** the position it leaves open is watched. -/
theorem pass_watching {cfg : WorkerConfig} {candles : Candles} {store : LedgerStore}
    {unit : Symbol × Timeframe} (h : Granted cfg candles store unit) {fault : Option ℕ}
    {rest : List Bar} (hsplit : owedBars (candles unit.1 unit.2) store unit
      = (planUnit cfg (candles unit.1 unit.2) store unit.1 unit.2).handed fault ++ rest) :
    ∀ q, (processUnit cfg candles store unit fault).positions.openRow unit.1 = some q →
      Watching (handStarts (candles unit.1 unit.2) store unit) unit.2
        ((planUnit cfg (candles unit.1 unit.2) store unit.1 unit.2).handed fault) rest q := by
  intro q hq
  obtain ⟨-, hdue⟩ := planUnit_due cfg (candles unit.1 unit.2) store unit.1 unit.2 fault
  rw [processUnit_eq, planUnit_candidates] at hq
  refine run_watching cfg (fun c hc => (mem_unitCandidates.mp hc).2.2) _ [] rest _ hdue ?_ ?_ ?_
    q hq
  · intro b hb
    obtain ⟨r, -, hstart, rfl⟩ := mem_owedBars.mp
      (by rw [hsplit]; exact List.mem_append_left rest hb)
    exact hstart
  · rw [List.nil_append, ← hsplit]
    exact owedBars_ascending
  · intro q' hq'
    rw [planUnit_positions] at hq'
    rw [← hsplit]
    exact h.watching hq'

/-- A pass over a unit that is quiescent does nothing to the rows. -/
theorem Quiescent.pass {candles : Candles} {store : LedgerStore} {unit : Symbol × Timeframe}
    (h : Quiescent candles store unit) (cfg : WorkerConfig) (fault : Option ℕ) :
    store.SameRows (processUnit cfg candles store unit fault) := by
  set series := candles unit.1 unit.2 with hseries
  have hbegin := planUnit_rows cfg series store unit.1 unit.2
    fun c hc hclosed => absurd hclosed (h.undue c hc)
  rw [processUnit_eq, planUnit_candidates]
  refine hbegin.trans (run_idle cfg _ _ fun b hb => ⟨?_, ?_⟩).1.rows
  · refine candidatesForBar_eq_nil fun c hc hts => h.undue c hc ?_
    obtain ⟨r, hr, rfl⟩ := planUnit_bars cfg ((handed_init _ fault).subset hb)
    exact Series.closed_of_stored (by rw [hts]; exact List.mem_map.mpr ⟨r, hr, rfl⟩)
  · have hwindow := (handed_init _ fault).subset hb
    obtain ⟨r, hr, rfl⟩ := planUnit_bars cfg hwindow
    have howed : r.ts ∈ owedStamps series store unit.1 unit.2 := by
      have hmem : r.ts ∈ (planUnit cfg series store unit.1 unit.2).window.map (·.ts) :=
        List.mem_map.mpr ⟨r.toBar, hwindow, rfl⟩
      rw [planUnit_stamps] at hmem
      exact mem_of_mem_catchupWindow hmem
    refine Book.not_breached fun q hopen => ?_
    have hq : store.positions.openRow unit.1 = some q := (hbegin.openRow unit.1).symm.trans hopen
    refine h.unbreached q hq r hr (owedStamps_ge hq (fun c hc hloaded => ?_) r.ts howed)
    exact absurd (Series.closed_of_stored (@loadedStamps_subset series store unit _ hloaded))
      (h.undue c hc)

/-- **What a whole pass leaves is quiescent.** -/
theorem quiescent_processUnit {cfg : WorkerConfig} {candles : Candles} {store : LedgerStore}
    {unit : Symbol × Timeframe} (h : Granted cfg candles store unit) :
    Quiescent candles (processUnit cfg candles store unit none) unit := by
  set series := candles unit.1 unit.2 with hseries
  have hwindow : (planUnit cfg series store unit.1 unit.2).handed none
      = owedBars series store unit := planUnit_window cfg h.loads h.fits
  have hwatching := @pass_watching _ cfg candles store unit h none [] (by
    rw [List.append_nil]
    exact hwindow.symm)
  refine ⟨?_, fun q hq => (hwatching q hq).timeframe_eq, ?_⟩
  · intro c hc hclosed
    obtain ⟨hcand, hunit⟩ := mem_unitCandidates.mp hc
    obtain ⟨hbefore, hleft⟩ := (mem_pendingCandidates_processUnit cfg candles store unit none
      c).mp hcand
    have hmine := mem_unitCandidates.mpr ⟨hbefore, hunit⟩
    obtain ⟨hloaded, hnot⟩ := hleft hmine
    have hstored := @loadedStamps_subset series store unit _ (hloaded hclosed)
    refine hnot ?_
    rw [hwindow, owedBars_stamps]
    refine List.mem_filter.mpr ⟨hstored, List.any_eq_true.mpr
      ⟨c.fillStamp, fill_mem_handStarts hmine hstored, decide_eq_true le_rfl⟩⟩
  · intro q hq r hr hle
    obtain ⟨start, hstart, hentry⟩ := (hwatching q hq).started
    refine (hwatching q hq).watched r.toBar ?_ hle
    show r.toBar ∈ (planUnit cfg series store unit.1 unit.2).handed none
    rw [hwindow]
    exact mem_owedBars.mpr ⟨r, hr, ⟨start, hstart, hentry.trans hle⟩, rfl⟩

/-! ### The condition on a bar

The one thing a broker carries that no row does is the seed of the last fill.  A bar is the
same with and without it when the trade it closes is.
-/

/-- The bar closes the position that was open before it in the same trade, whether the broker
carries the seed the last fill left in it or the factory's. -/
def SameClose (cfg : BrokerConfig) (symbol : Symbol) (candidates : List PendingCandidate)
    (l : Ledger) (b : Bar) : Prop :=
  (l.book.reseed cfg.seed).closes symbol b (l.store.actingAt symbol b.ts candidates)
    = l.book.closes symbol b (l.store.actingAt symbol b.ts candidates)

/-- Every bar of a pass meets the condition. -/
def PassSameClose (cfg : WorkerConfig) (candles : Candles) (store : LedgerStore)
    (unit : Symbol × Timeframe) : Prop :=
  let plan := planUnit cfg (candles unit.1 unit.2) store unit.1 unit.2
  Runs.Along (handBar cfg unit.1 unit.2 plan.candidates)
    (SameClose cfg.broker unit.1 plan.candidates) plan.ledger plan.window

/-! ### A stopped pass

A restart starts from a later stamp or from the same, and takes up the orders that are left.
What it hands over is a tail of the stored bars, of which the first were committed before.
-/

/-- The cost parameters of a session never change. -/
theorem run_costParams (cfg : WorkerConfig) {symbol : Symbol} {timeframe : Timeframe}
    {candidates : List PendingCandidate} {bars : List Bar} {l : Ledger}
    (hdue : Runs.Along (handBar cfg symbol timeframe candidates)
      (fun l b => Due l.store symbol (candidatesForBar candidates b.ts)) l bars) :
    (Runs.run (handBar cfg symbol timeframe candidates) l bars).broker.paper.costParams
      = l.broker.paper.costParams := by
  refine Runs.invariant (I := fun k : Ledger =>
    k.broker.paper.costParams = l.broker.paper.costParams) (fun k b hk hb => ?_) rfl hdue
  have heffect := Ledger.processUnitBar_effect cfg.snapshotInterval k symbol timeframe b
    candidates hb
  have hkeeps := (k.book.processBar_keeps cfg.snapshotInterval symbol b
    (k.store.actingAt symbol b.ts candidates)).1
  rw [← heffect.book] at hkeeps
  exact hkeeps.trans hk

omit [Digest] in
theorem loadsAll_of_later {series : Series} {s s' : LedgerStore} {unit : Symbol × Timeframe}
    (h : LoadsAll series s unit)
    (hlater : ∀ start ∈ loadStarts series s' unit, ∃ start' ∈ loadStarts series s unit,
      start' ≤ start) : LoadsAll series s' unit := by
  intro start hstart
  obtain ⟨start', hstart', hle⟩ := hlater start hstart
  refine le_trans (List.Sublist.length_le ?_) (h start' hstart')
  refine List.monotone_filter_right _ fun t ht => ?_
  have hge : start ≤ t := by simpa using ht
  simpa using hle.trans hge

omit [Digest] in
/-- The bar is not before every stamp the pass may have to hand over from. -/
def handsOver (series : Series) (store : LedgerStore) (unit : Symbol × Timeframe) (b : Bar) :
    Bool :=
  (handStarts series store unit).any fun start => decide (start ≤ b.ts)

omit [Digest] in
theorem handsOver_iff {series : Series} {store : LedgerStore} {unit : Symbol × Timeframe}
    {b : Bar} : handsOver series store unit b = true ↔
      ∃ start ∈ handStarts series store unit, start ≤ b.ts := by
  unfold handsOver
  simp only [List.any_eq_true, decide_eq_true_eq]

omit [Digest] in
theorem owedBars_of_later {series : Series} {s s' : LedgerStore} {unit : Symbol × Timeframe}
    (hlater : ∀ start ∈ handStarts series s' unit, ∃ start' ∈ handStarts series s unit,
      start' ≤ start) :
    owedBars series s' unit = (owedBars series s unit).filter (handsOver series s' unit) := by
  unfold owedBars
  rw [List.filter_map, List.filter_filter]
  congr 1
  refine List.filter_congr fun r _ => ?_
  rw [Bool.eq_iff_iff, Bool.and_eq_true, List.any_eq_true]
  refine ⟨fun h => ⟨List.any_eq_true.mpr h, ?_⟩, fun h => List.any_eq_true.mp h.1⟩
  obtain ⟨start, hstart, hle⟩ := h
  obtain ⟨start', hstart', hle'⟩ := hlater start hstart
  exact List.any_eq_true.mpr
    ⟨start', hstart', decide_eq_true (hle'.trans (of_decide_eq_true hle))⟩

/-- What a restart finds of a pass that was stopped after the bars `done`. -/
structure Stopped (series : Series) (s s' : LedgerStore) (unit : Symbol × Timeframe)
    (done rest : List Bar) : Prop where
  split : owedBars series s unit = done ++ rest
  candidates : ∀ c, c ∈ s'.unitCandidates unit.1 unit.2 ↔
    c ∈ s.unitCandidates unit.1 unit.2 ∧
      (series.lastClosedTs.any (c.fillStamp ≤ ·) = true → c.fillStamp ∈ series.stamps) ∧
      c.fillStamp ∉ done.map (·.ts)
  watching : ∀ q, s'.positions.openRow unit.1 = some q →
    Watching (handStarts series s unit) unit.2 done rest q

theorem stopped_processUnit {cfg : WorkerConfig} {candles : Candles} {store : LedgerStore}
    {unit : Symbol × Timeframe} (h : Granted cfg candles store unit) (n : ℕ) :
    Stopped (candles unit.1 unit.2) store (processUnit cfg candles store unit (some n)) unit
      ((owedBars (candles unit.1 unit.2) store unit).take n)
      ((owedBars (candles unit.1 unit.2) store unit).drop n) := by
  have hhanded : (planUnit cfg (candles unit.1 unit.2) store unit.1 unit.2).handed (some n)
      = (owedBars (candles unit.1 unit.2) store unit).take n :=
    congrArg (List.take n) (planUnit_window cfg h.loads h.fits)
  refine ⟨(List.take_append_drop n _).symm, fun c => ?_, ?_⟩
  · rw [mem_unitCandidates, mem_pendingCandidates_processUnit, hhanded]
    constructor
    · rintro ⟨⟨hbefore, hleft⟩, hunit⟩
      have hmine := mem_unitCandidates.mpr ⟨hbefore, hunit⟩
      exact ⟨hmine, fun hclosed => loadedStamps_subset ((hleft hmine).1 hclosed), (hleft hmine).2⟩
    · rintro ⟨hmine, hstored, hnot⟩
      obtain ⟨hbefore, hunit⟩ := mem_unitCandidates.mp hmine
      exact ⟨⟨hbefore, fun _ => ⟨fun hclosed => fill_loaded h.loads hmine (hstored hclosed),
        hnot⟩⟩, hunit⟩
  · have hwatching := @pass_watching _ cfg candles store unit h (some n)
      ((owedBars (candles unit.1 unit.2) store unit).drop n)
      (by rw [hhanded]; exact (List.take_append_drop n _).symm)
    rw [hhanded] at hwatching
    exact hwatching

namespace Stopped

variable {series : Series} {s s' : LedgerStore} {unit : Symbol × Timeframe} {done rest : List Bar}

omit [Digest] in
theorem done_before (h : Stopped series s s' unit done rest) {b b' : Bar} (hb : b ∈ done)
    (hb' : b' ∈ rest) : b.ts < b'.ts := by
  have hasc := @owedBars_ascending series s unit
  rw [h.split, List.map_append, List.pairwise_append] at hasc
  exact hasc.2.2 b.ts (List.mem_map.mpr ⟨b, hb, rfl⟩) b'.ts (List.mem_map.mpr ⟨b', hb', rfl⟩)

omit [Digest] in
theorem due_rest (h : Stopped series s s' unit done rest) {c : PendingCandidate}
    (hc : c ∈ s'.unitCandidates unit.1 unit.2) (hstored : c.fillStamp ∈ series.stamps) :
    ∃ b ∈ rest, b.ts = c.fillStamp := by
  obtain ⟨hmine, -, hnot⟩ := (h.candidates c).mp hc
  have howed : c.fillStamp ∈ (owedBars series s unit).map (·.ts) := by
    rw [owedBars_stamps]
    exact List.mem_filter.mpr ⟨hstored, List.any_eq_true.mpr
      ⟨c.fillStamp, fill_mem_handStarts hmine hstored, decide_eq_true le_rfl⟩⟩
  rw [h.split, List.map_append] at howed
  exact List.mem_map.mp ((List.mem_append.mp howed).resolve_left hnot)

omit [Digest] in
theorem candidates_rest (h : Stopped series s s' unit done rest) {b : Bar} (hb : b ∈ rest) :
    candidatesForBar (s'.unitCandidates unit.1 unit.2) b.ts
      = candidatesForBar (s.unitCandidates unit.1 unit.2) b.ts := by
  refine candidatesForBar_ext (due_unitCandidates s unit.1 unit.2)
    (due_unitCandidates s' unit.1 unit.2) fun c hts => ?_
  rw [h.candidates]
  refine ⟨fun hc => hc.1, fun hc => ⟨hc, fun _ => ?_, fun hin => ?_⟩⟩
  · obtain ⟨r, hr, -, rfl⟩ := mem_owedBars.mp
      (by rw [h.split]; exact List.mem_append_right done hb)
    rw [hts]
    exact List.mem_map.mpr ⟨r, hr, rfl⟩
  · obtain ⟨b', hb', hts'⟩ := List.mem_map.mp hin
    exact absurd (h.done_before hb' hb) (by rw [← hts, hts']; exact lt_irrefl _)

omit [Digest] in
theorem later (h : Stopped series s s' unit done rest) :
    (∀ start ∈ handStarts series s' unit, ∃ start' ∈ handStarts series s unit,
      start' ≤ start) ∧
    ∀ start ∈ loadStarts series s' unit, ∃ start' ∈ loadStarts series s unit,
      start' ≤ start := by
  refine ⟨fun start hstart => ?_, fun start hstart => ?_⟩
  · rcases handStarts_cases hstart with ⟨c, hc, rfl, hstored⟩ | ⟨q, hq, rfl⟩
    · exact ⟨_, fill_mem_handStarts ((h.candidates c).mp hc).1 hstored, le_rfl⟩
    · exact (h.watching q hq).started
  · rcases List.mem_append.mp hstart with hdue | hentry
    · obtain ⟨hmap, hclosed⟩ := List.mem_filter.mp hdue
      obtain ⟨c, hc, rfl⟩ := List.mem_map.mp hmap
      refine ⟨c.fillStamp, List.mem_append_left _ (List.mem_filter.mpr ⟨?_, hclosed⟩), le_rfl⟩
      exact List.mem_map.mpr ⟨c, ((h.candidates c).mp hc).1, rfl⟩
    · obtain ⟨q, hq, rfl⟩ := Option.map_eq_some_iff.mp (Option.mem_toList.mp hentry)
      obtain ⟨start', hstart', hle⟩ := (h.watching q hq).started
      exact ⟨start', handStarts_subset hstart', hle⟩

omit [Digest] in
/-- **A committed bar that comes again does nothing**: its orders are settled, and the position
that is open was open when it came before, and was not breached. -/
theorem replay_idle (h : Stopped series s s' unit done rest) {l : Ledger}
    (hrows : s'.SameRows l.store) {b : Bar} (hb : b ∈ done)
    (hagain : handsOver series s' unit b = true) :
    l.Idle unit.1 (s'.unitCandidates unit.1 unit.2) b := by
  refine ⟨candidatesForBar_eq_nil fun c hc hts => ?_, ?_⟩
  · exact ((h.candidates c).mp hc).2.2 (List.mem_map.mpr ⟨b, hb, hts.symm⟩)
  · refine Book.not_breached fun q hopen => ?_
    have hq : s'.positions.openRow unit.1 = some q := (hrows.openRow unit.1).symm.trans hopen
    have hwatching := h.watching q hq
    refine hwatching.watched b hb ?_
    obtain ⟨start, hstart, hle⟩ := handsOver_iff.mp hagain
    refine le_trans ?_ hle
    rcases handStarts_cases hstart with ⟨c, hc, rfl, hstored⟩ | ⟨q', hq', rfl⟩
    · obtain ⟨b', hb', hts⟩ := h.due_rest hc hstored
      rw [← hts]
      exact hwatching.ahead b' hb'
    · rw [hq] at hq'
      obtain rfl := Option.some.inj hq'
      exact le_rfl

omit [Digest] in
/-- A bar still to come that the restart does not hand over would have done nothing. -/
theorem skipped_idle (h : Stopped series s s' unit done rest) {l : Ledger}
    (hrows : s'.SameRows l.store) {b : Bar} (hb : b ∈ rest)
    (hskipped : handsOver series s' unit b = false) :
    l.Idle unit.1 (s.unitCandidates unit.1 unit.2) b := by
  have hnone : ∀ start ∈ handStarts series s' unit, ¬ start ≤ b.ts := by
    intro start hstart hle
    rw [handsOver_iff.mpr ⟨start, hstart, hle⟩] at hskipped
    exact absurd hskipped (by simp)
  obtain ⟨r, hr, -, rfl⟩ := mem_owedBars.mp
    (by rw [h.split]; exact List.mem_append_right done hb)
  refine ⟨?_, ?_⟩
  · rw [← h.candidates_rest hb]
    refine candidatesForBar_eq_nil fun c hc hts => ?_
    refine hnone c.fillStamp (fill_mem_handStarts hc ?_) hts.le
    rw [hts]
    exact List.mem_map.mpr ⟨r, hr, rfl⟩
  · refine Book.not_breached fun q hopen => ?_
    have hq : s'.positions.openRow unit.1 = some q := (hrows.openRow unit.1).symm.trans hopen
    exact absurd ((h.watching q hq).ahead _ hb) (hnone _ (entry_mem_handStarts hq))

omit [Digest] in
/-- What the restart skips comes first. -/
theorem rest_split (h : Stopped series s s' unit done rest) :
    rest = rest.filter (fun b => !handsOver series s' unit b)
      ++ rest.filter (handsOver series s' unit) := by
  have hasc := @owedBars_ascending series s unit
  rw [h.split, List.map_append, List.pairwise_append] at hasc
  have hclosed : rest.Pairwise fun a b =>
      (!handsOver series s' unit b) = true → (!handsOver series s' unit a) = true := by
    refine (List.pairwise_map.mp hasc.2.1).imp fun {a b} hlt hskipped => ?_
    rw [Bool.not_eq_true', Bool.eq_false_iff] at hskipped ⊢
    intro hover
    obtain ⟨start, hstart, hle⟩ := handsOver_iff.mp hover
    exact hskipped (handsOver_iff.mpr ⟨start, hstart, hle.trans hlt.le⟩)
  obtain ⟨later, hlater, hfail⟩ := Ascending.split_filter hclosed
  have hover : rest.filter (handsOver series s' unit) = later := by
    conv_lhs => rw [hlater]
    rw [List.filter_append, List.filter_filter, List.filter_eq_nil_iff.mpr fun b _ => by simp,
      List.nil_append, List.filter_eq_self.mpr fun b hb => by simpa using hfail b hb]
  rw [hover]
  exact hlater

end Stopped

/-- **Two sessions on the same rows, one of them fresh**, hand the same bars over and end with
the same rows. -/
theorem resume (cfg : WorkerConfig) {symbol : Symbol} {timeframe : Timeframe}
    {candidates candidates' : List PendingCandidate} {bars : List Bar} {l l' : Ledger}
    (h : l.Beside l') (hseed : l'.broker.paper.seed = cfg.broker.seed)
    (hdue : Runs.Along (handBar cfg symbol timeframe candidates)
      (fun l b => Due l.store symbol (candidatesForBar candidates b.ts)) l bars)
    (hclose : Runs.Along (handBar cfg symbol timeframe candidates)
      (SameClose cfg.broker symbol candidates) l bars)
    (hcandidates : ∀ b ∈ bars,
      candidatesForBar candidates' b.ts = candidatesForBar candidates b.ts) :
    (Runs.run (handBar cfg symbol timeframe candidates) l bars).store.SameRows
      (Runs.run (handBar cfg symbol timeframe candidates') l' bars).store := by
  refine (Runs.simulation (R := fun k k' : Ledger => k.Beside k' ∧
    (k'.broker.paper.seed = k.broker.paper.seed ∨ k'.broker.paper.seed = cfg.broker.seed))
    (fun k k' b hk hb => ?_) ⟨h, Or.inr hseed⟩
    (Runs.along_and.mpr ⟨hdue, Runs.along_and.mpr ⟨hclose, Runs.along_mem⟩⟩)).1.rows
  obtain ⟨hbeside, hseeds⟩ := hk
  obtain ⟨hdueNow, hcloseNow, hmem⟩ := hb
  have hcloses : k'.book.closes symbol b (k.store.actingAt symbol b.ts candidates)
      = k.book.closes symbol b (k.store.actingAt symbol b.ts candidates) := by
    rcases hseeds with hequal | hfresh
    · exact Book.closes_congr hbeside.rows.positions hequal hbeside.costParams symbol b _
    · exact (@Book.closes_congr _ (k.book.reseed cfg.broker.seed) k'.book hbeside.rows.positions
        hfresh hbeside.costParams symbol b _).trans hcloseNow
  obtain ⟨hafter, hequal, hkept⟩ := @handBar_beside _ cfg symbol timeframe candidates candidates'
    k k' b hbeside hdueNow (hcandidates b hmem) hcloses
  refine ⟨hafter, ?_⟩
  cases hacting : k.store.actingAt symbol b.ts candidates with
  | some o => exact Or.inl (hequal (Or.inr (by rw [hacting]; rfl)))
  | none =>
      rcases hseeds with hsame | hfresh
      · exact Or.inl (hequal (Or.inl hsame))
      · exact Or.inr ((hkept hacting).trans hfresh)

/-- The session of a pass after `n` of its bars. -/
def sessionAfter (cfg : WorkerConfig) (candles : Candles) (store : LedgerStore)
    (unit : Symbol × Timeframe) (n : ℕ) : Ledger :=
  Runs.run (handBar cfg unit.1 unit.2 (store.unitCandidates unit.1 unit.2))
    (planUnit cfg (candles unit.1 unit.2) store unit.1 unit.2).ledger
    ((owedBars (candles unit.1 unit.2) store unit).take n)

/-- The pass from there on, and what its bars meet. -/
theorem sessionAfter_rest {cfg : WorkerConfig} {candles : Candles} {store : LedgerStore}
    {unit : Symbol × Timeframe} (h : Granted cfg candles store unit) (n : ℕ) :
    processUnit cfg candles store unit (some n) = (sessionAfter cfg candles store unit n).store ∧
    processUnit cfg candles store unit none
      = (Runs.run (handBar cfg unit.1 unit.2 (store.unitCandidates unit.1 unit.2))
          (sessionAfter cfg candles store unit n)
          ((owedBars (candles unit.1 unit.2) store unit).drop n)).store ∧
    Runs.Along (handBar cfg unit.1 unit.2 (store.unitCandidates unit.1 unit.2))
      (fun l b => Due l.store unit.1
        (candidatesForBar (store.unitCandidates unit.1 unit.2) b.ts))
      (sessionAfter cfg candles store unit n)
      ((owedBars (candles unit.1 unit.2) store unit).drop n) ∧
    (sessionAfter cfg candles store unit n).broker.paper.costParams = cfg.broker.costParams := by
  set series := candles unit.1 unit.2 with hseries
  set cs := store.unitCandidates unit.1 unit.2 with hcs
  set owed := owedBars series store unit with howed
  set l := (planUnit cfg series store unit.1 unit.2).ledger with hl
  have hwindow : (planUnit cfg series store unit.1 unit.2).window = owed :=
    planUnit_window cfg h.loads h.fits
  have hdue : Runs.Along (handBar cfg unit.1 unit.2 cs)
      (fun l b => Due l.store unit.1 (candidatesForBar cs b.ts)) l
      (planUnit cfg series store unit.1 unit.2).window :=
    (planUnit_due cfg series store unit.1 unit.2 none).2
  rw [hwindow, ← List.take_append_drop n owed] at hdue
  obtain ⟨hdueDone, hdueRest⟩ := Runs.along_append.mp hdue
  refine ⟨?_, ?_, hdueRest, ?_⟩
  · rw [processUnit_eq, planUnit_candidates]
    show (Runs.run (handBar cfg unit.1 unit.2 cs) l
      ((planUnit cfg series store unit.1 unit.2).window.take n)).store = _
    rw [hwindow]
    rfl
  · rw [processUnit_eq, planUnit_candidates]
    show (Runs.run (handBar cfg unit.1 unit.2 cs) l
      (planUnit cfg series store unit.1 unit.2).window).store = _
    rw [hwindow]
    conv_lhs => rw [← List.take_append_drop n owed, Runs.run_append]
    rfl
  · exact (run_costParams cfg hdueDone).trans (planUnit_paper cfg series store unit.1 unit.2).2

/-- **How a restart begins.**  What it hands over again does nothing; then a fresh session stands
on the rows the pass was stopped at, and hands over what is left. -/
theorem restart_begins {cfg : WorkerConfig} {candles : Candles} {store : LedgerStore}
    {unit : Symbol × Timeframe} (h : Granted cfg candles store unit) (n : ℕ) :
    ∃ fresh : Ledger, (sessionAfter cfg candles store unit n).Beside fresh ∧
      fresh.broker.paper.seed = cfg.broker.seed ∧
      Runs.Along (handBar cfg unit.1 unit.2
          ((processUnit cfg candles store unit (some n)).unitCandidates unit.1 unit.2))
        (fun l b => Due l.store unit.1 (candidatesForBar
          ((processUnit cfg candles store unit (some n)).unitCandidates unit.1 unit.2) b.ts)) fresh
        (((owedBars (candles unit.1 unit.2) store unit).drop n).filter
          (handsOver (candles unit.1 unit.2) (processUnit cfg candles store unit (some n)) unit)) ∧
      processUnit cfg candles (processUnit cfg candles store unit (some n)) unit none
        = (Runs.run (handBar cfg unit.1 unit.2
              ((processUnit cfg candles store unit (some n)).unitCandidates unit.1 unit.2)) fresh
            (((owedBars (candles unit.1 unit.2) store unit).drop n).filter
              (handsOver (candles unit.1 unit.2) (processUnit cfg candles store unit (some n))
                unit))).store := by
  obtain ⟨hstore, -, -, hcost⟩ := sessionAfter_rest h n
  have hstopped := stopped_processUnit h n
  set series := candles unit.1 unit.2 with hseries
  set crash := processUnit cfg candles store unit (some n) with hcrash
  set done := (owedBars series store unit).take n with hdone
  set rest := (owedBars series store unit).drop n with hrest
  have hloads' : LoadsAll series crash unit := loadsAll_of_later h.loads hstopped.later.2
  have howed' := owedBars_of_later hstopped.later.1
  set over' := handsOver series crash unit with hover
  have hfits' : (owedStamps series crash unit.1 unit.2).length ≤ max 1 cfg.maxBars := by
    have hfits := h.fits
    rw [owedStamps_all h.loads, List.length_map] at hfits
    rw [owedStamps_all hloads', List.length_map, howed']
    exact (List.length_filter_le _ _).trans hfits
  have hwindow' : (planUnit cfg series crash unit.1 unit.2).window
      = done.filter over' ++ rest.filter over' := by
    rw [planUnit_window cfg hloads' hfits', howed', hstopped.split, List.filter_append]
  have hbegin : crash.SameRows (planUnit cfg series crash unit.1 unit.2).ledger.store := by
    refine planUnit_rows cfg series crash unit.1 unit.2 fun c hc hclosed => ?_
    exact fill_loaded hloads' hc (((hstopped.candidates c).mp hc).2.1 hclosed)
  obtain ⟨hseed, hcost'⟩ := planUnit_paper cfg series crash unit.1 unit.2
  have hdue' : Runs.Along (handBar cfg unit.1 unit.2 (crash.unitCandidates unit.1 unit.2))
      (fun l b => Due l.store unit.1
        (candidatesForBar (crash.unitCandidates unit.1 unit.2) b.ts))
      (planUnit cfg series crash unit.1 unit.2).ledger
      (planUnit cfg series crash unit.1 unit.2).window :=
    (planUnit_due cfg series crash unit.1 unit.2 none).2
  rw [hwindow'] at hdue'
  set l' := (planUnit cfg series crash unit.1 unit.2).ledger with hl'
  obtain ⟨hreplayed, hfresh⟩ := @run_idle _ cfg unit.1 unit.2
    (crash.unitCandidates unit.1 unit.2) (done.filter over') l' fun b hb =>
      hstopped.replay_idle hbegin (List.mem_filter.mp hb).1 (List.mem_filter.mp hb).2
  refine ⟨_, ⟨?_, ?_⟩, hfresh.trans hseed, (Runs.along_append.mp hdue').2, ?_⟩
  · rw [← hstore]
    exact hbegin.trans hreplayed.rows
  · exact hreplayed.costParams.trans (hcost'.trans hcost.symm)
  · rw [processUnit_eq, planUnit_candidates]
    show (Runs.run (handBar cfg unit.1 unit.2 (crash.unitCandidates unit.1 unit.2)) l'
      (planUnit cfg series crash unit.1 unit.2).window).store = _
    rw [hwindow', Runs.run_append]

/-- The condition on a pass, from a bar of it on. -/
theorem sameClose_rest {cfg : WorkerConfig} {candles : Candles} {store : LedgerStore}
    {unit : Symbol × Timeframe} (h : Granted cfg candles store unit) :
    PassSameClose cfg candles store unit ↔
      Runs.Along (handBar cfg unit.1 unit.2 (store.unitCandidates unit.1 unit.2))
        (SameClose cfg.broker unit.1 (store.unitCandidates unit.1 unit.2))
        (planUnit cfg (candles unit.1 unit.2) store unit.1 unit.2).ledger
        (owedBars (candles unit.1 unit.2) store unit) := by
  unfold PassSameClose
  simp only [planUnit_candidates]
  rw [planUnit_window cfg h.loads h.fits]

/-- **A stopped pass catches up.**  Restarted after any number of its bars it ends with the rows
of the uninterrupted pass. -/
theorem restart_unit {cfg : WorkerConfig} {candles : Candles} {store : LedgerStore}
    {unit : Symbol × Timeframe} (h : Granted cfg candles store unit)
    (hclose : PassSameClose cfg candles store unit) (n : ℕ) :
    (processUnit cfg candles store unit none).SameRows
      (processUnit cfg candles (processUnit cfg candles store unit (some n)) unit none) := by
  obtain ⟨hstore, hwhole, hdue, -⟩ := sessionAfter_rest h n
  obtain ⟨fresh, hbeside, hfresh, -, hrestarted⟩ := restart_begins h n
  have hstopped := stopped_processUnit h n
  have hsame := (sameClose_rest h).mp hclose
  rw [← List.take_append_drop n (owedBars (candles unit.1 unit.2) store unit)] at hsame
  have hsame := (Runs.along_append.mp hsame).2
  set series := candles unit.1 unit.2 with hseries
  set crash := processUnit cfg candles store unit (some n) with hcrash
  set rest := (owedBars series store unit).drop n with hrest
  set stopped := sessionAfter cfg candles store unit n with hstoppedAt
  set over' := handsOver series crash unit with hover
  set hand := handBar cfg unit.1 unit.2 (store.unitCandidates unit.1 unit.2) with hhand
  -- The bars left out would have done nothing either.
  have hrows : crash.SameRows stopped.store := by
    rw [hstore]
    exact LedgerStore.SameRows.refl _
  obtain ⟨hskipped, -⟩ := @run_idle _ cfg unit.1 unit.2 (store.unitCandidates unit.1 unit.2)
    (rest.filter fun b => !over' b) stopped fun b hb =>
      hstopped.skipped_idle hrows (List.mem_filter.mp hb).1
        (by simpa using (List.mem_filter.mp hb).2)
  have hbeside' : (Runs.run hand stopped (rest.filter fun b => !over' b)).Beside fresh :=
    ⟨hskipped.rows.symm.trans hbeside.rows, hbeside.costParams.trans hskipped.costParams.symm⟩
  have hsplit := hstopped.rest_split
  rw [hsplit] at hdue hsame
  have hresumed := resume cfg hbeside' hfresh (Runs.along_append.mp hdue).2
    (Runs.along_append.mp hsame).2
    fun b hb => hstopped.candidates_rest (List.mem_of_mem_filter hb)
  rw [hwhole, hrestarted]
  conv_lhs => rw [hsplit, Runs.run_append]
  exact hresumed

/-- The positions after a bar that is handed over. -/
theorem handBar_positions (cfg : WorkerConfig) {symbol : Symbol} {timeframe : Timeframe}
    {candidates : List PendingCandidate} {l : Ledger} {b : Bar}
    (hdue : Due l.store symbol (candidatesForBar candidates b.ts)) :
    (handBar cfg symbol timeframe candidates l b).store.positions
      = (l.book.processBar cfg.snapshotInterval symbol b
          (l.store.actingAt symbol b.ts candidates)).table := by
  have heffect := Ledger.processUnitBar_effect cfg.snapshotInterval l symbol timeframe b
    candidates hdue
  rw [← heffect.book]
  rfl

/-- What is closed stays closed in a loop. -/
theorem keepsClosed_run (cfg : WorkerConfig) {symbol : Symbol} {timeframe : Timeframe}
    {candidates : List PendingCandidate} {bars : List Bar} {l : Ledger}
    (hdue : Runs.Along (handBar cfg symbol timeframe candidates)
      (fun l b => Due l.store symbol (candidatesForBar candidates b.ts)) l bars) :
    l.store.positions.KeepsClosed
      (Runs.run (handBar cfg symbol timeframe candidates) l bars).store.positions := by
  refine Runs.invariant (I := fun k : Ledger =>
    l.store.positions.KeepsClosed k.store.positions) (fun k b hk hb => hk.trans ?_)
    (PositionTable.KeepsClosed.refl _) hdue
  rw [handBar_positions cfg hb]
  exact k.book.keepsClosed_processBar cfg.snapshotInterval symbol b
    (k.store.actingAt symbol b.ts candidates)

theorem keepsClosed_processUnit (cfg : WorkerConfig) (candles : Candles) (store : LedgerStore)
    (unit : Symbol × Timeframe) (fault : Option ℕ) :
    store.positions.KeepsClosed (processUnit cfg candles store unit fault).positions := by
  have hdue := (planUnit_due cfg (candles unit.1 unit.2) store unit.1 unit.2 fault).2
  have hkeeps := keepsClosed_run cfg hdue
  rw [planUnit_positions] at hkeeps
  rw [processUnit_eq, planUnit_candidates]
  exact hkeeps

/-- **Stopped before a bar that closes another trade**, a pass ends with another trade. -/
theorem restart_differs {cfg : WorkerConfig} {candles : Candles} {store : LedgerStore}
    {unit : Symbol × Timeframe} (h : Granted cfg candles store unit) {n : ℕ} {b : Bar}
    {later : List Bar} (hbar : (owedBars (candles unit.1 unit.2) store unit).drop n = b :: later)
    (hother : ¬ SameClose cfg.broker unit.1 (store.unitCandidates unit.1 unit.2)
      (sessionAfter cfg candles store unit n) b) :
    PositionTable.TradesDiffer (processUnit cfg candles store unit none).positions
      (processUnit cfg candles (processUnit cfg candles store unit (some n)) unit
        none).positions := by
  obtain ⟨hstore, hwhole, hdue, -⟩ := sessionAfter_rest h n
  obtain ⟨fresh, hbeside, hfresh, hdue', hrestarted⟩ := restart_begins h n
  have hstopped := stopped_processUnit h n
  rw [hbar] at hdue hwhole hrestarted hdue' hstopped
  set series := candles unit.1 unit.2 with hseries
  set crash := processUnit cfg candles store unit (some n) with hcrash
  set stopped := sessionAfter cfg candles store unit n with hstoppedAt
  set cs := store.unitCandidates unit.1 unit.2 with hcs
  set cs' := crash.unitCandidates unit.1 unit.2 with hcs'
  unfold SameClose at hother
  set acting := stopped.store.actingAt unit.1 b.ts cs with hacting
  obtain ⟨hdueNow, hdueLater⟩ := hdue
  have hsymbol : ∀ o, acting = some o → o.symbol = unit.1 := by
    intro o ho
    obtain ⟨c, hc, rfl⟩ := Option.map_eq_some_iff.mp ho
    exact hdueNow.symbol_eq c (actingOrder_mem hc)
  -- Both seeds close the same position, at the same price.
  obtain ⟨trade, htrade⟩ := @Book.exists_closes_of_ne _ stopped.book
    (stopped.book.reseed cfg.broker.seed) unit.1 b acting rfl hother
  obtain ⟨row, price, reason, hrow, htradeEq, hall⟩ := Book.closes_eq_some htrade
  have hreseeded := hall (stopped.book.reseed cfg.broker.seed) rfl
  have hfreshCloses := (@Book.closes_congr _ (stopped.book.reseed cfg.broker.seed) fresh.book
    hbeside.rows.positions hfresh hbeside.costParams unit.1 b acting).trans hreseeded
  -- The restart hands the bar over, with the same orders.
  have hover : handsOver series crash unit b = true := by
    have hopen : crash.positions.openRow unit.1 = some row := by
      rw [hstore]
      exact hrow
    exact handsOver_iff.mpr ⟨row.entryTs, entry_mem_handStarts hopen,
      (hstopped.watching row hopen).ahead b List.mem_cons_self⟩
  have hsame : candidatesForBar cs' b.ts = candidatesForBar cs b.ts :=
    hstopped.candidates_rest List.mem_cons_self
  have hactingFresh : fresh.store.actingAt unit.1 b.ts cs' = acting := by
    rw [hacting]
    unfold LedgerStore.actingAt
    rw [hsame, hbeside.rows.positions]
  rw [List.filter_cons_of_pos hover] at hrestarted hdue'
  obtain ⟨i, hplace⟩ := Book.processBar_closes cfg.snapshotInterval
    (show stopped.store.positions.openRow unit.1 = some row from hrow) hsymbol
  have hleft : (handBar cfg unit.1 unit.2 cs stopped b).store.positions.rows[i]?
      = some (row.closeWith trade) := by
    rw [handBar_positions cfg hdueNow]
    exact hplace stopped.book trade rfl htrade
  have hright : (handBar cfg unit.1 unit.2 cs' fresh b).store.positions.rows[i]?
      = some (row.closeWith
        ((stopped.book.reseed cfg.broker.seed).paper.closePosition row.toPosition price reason
          b.ts).1) := by
    rw [handBar_positions cfg hdue'.1, hactingFresh]
    exact hplace fresh.book _ hbeside.rows.positions hfreshCloses
  have hdiffer : PositionTable.TradesDiffer
      (handBar cfg unit.1 unit.2 cs stopped b).store.positions
      (handBar cfg unit.1 unit.2 cs' fresh b).store.positions := by
    refine ⟨i, _, _, fun heq => hother ?_, rfl, rfl, hleft, hright⟩
    rw [htradeEq] at heq
    rw [htrade, htradeEq, hreseeded]
    exact congrArg some (Book.closeWith_inj heq).symm
  rw [hwhole, hrestarted, Runs.run_cons, Runs.run_cons]
  exact hdiffer.later (keepsClosed_run cfg hdueLater) (keepsClosed_run cfg hdue'.2)

end ForexAi
