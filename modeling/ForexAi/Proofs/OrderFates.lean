/-
What becomes of a pending order whose fill bar is stored.

Three mechanisms of a cycle take orders off the queue.  The loop of a pass does it at the
fill bar, by the arbitration there, and that is what the bar is for.  The check for missing
bars, before the loop, cancels a due order whose bar it did not load; but a pass loads a
limited number of candles, so the bar may be stored all the same.  And the sweep at the end
of the cycle cancels by the clock alone: it takes for granted that the passes have settled
every order whose bar is there, while a pass may have failed, or may have stopped at its
throttle before it got to the bar.

`keeps_iff` says when a cycle throws such an order away, by counting the stored bars
between the stamps a pass starts from and the fill bar.  The queue after a pass is
computed once (`pass_queue`), the sweep sees the queue after all of them.
-/
import ForexAi.Workers.Cycle
import ForexAi.Proofs.Catchup

namespace ForexAi

/-! ### Counting stored bars

Both limits of a pass are counts of stored bars, one from the load base and one from the
anchor.  That the earliest start decides (`near_iff_least`) turns a condition on the base,
which the pass computes, into one on every stamp it may start from.
-/

/-- How many bars are stored from one stamp up to another. -/
def barsBetween (series : Series) (start stop : Time) : ℕ :=
  (series.stamps.filter fun t => start ≤ t ∧ t < stop).length

/-- Fewer than `k` bars are stored between each of the starts and the stamp. -/
def Near (series : Series) (starts : List Time) (stamp : Time) (k : ℕ) : Prop :=
  ∀ start ∈ starts, barsBetween series start stamp < k

instance (series : Series) (starts : List Time) (stamp : Time) (k : ℕ) :
    Decidable (Near series starts stamp k) := by
  unfold Near
  infer_instance

theorem barsBetween_eq (series : Series) (start stop : Time) :
    barsBetween series start stop = Ascending.before (barsFrom series start) stop := by
  unfold barsBetween Ascending.before barsFrom
  rw [List.filter_filter]
  congr 1
  refine List.filter_congr fun t _ => ?_
  rw [Bool.decide_and, Bool.and_comm]

theorem barsBetween_antitone (series : Series) {start start' stop : Time} (h : start ≤ start') :
    barsBetween series start' stop ≤ barsBetween series start stop := by
  unfold barsBetween
  refine List.Sublist.length_le (List.monotone_filter_right _ fun t ht => ?_)
  obtain ⟨hge, hlt⟩ : start' ≤ t ∧ t < stop := by simpa using ht
  simpa using ⟨h.trans hge, hlt⟩

/-- The earliest start decides. -/
theorem near_iff_least {series : Series} {starts : List Time} {least stamp : Time} {k : ℕ}
    (hmem : least ∈ starts) (hleast : ∀ start ∈ starts, least ≤ start) :
    Near series starts stamp k ↔ barsBetween series least stamp < k := by
  refine ⟨fun h => h least hmem, fun h start hstart => ?_⟩
  exact lt_of_le_of_lt (barsBetween_antitone series (hleast start hstart)) h

/-- The stamps a pass may have to load from: the unit's closed fill bars, stored or not,
and the open position's entry. -/
def loadStarts (series : Series) (store : LedgerStore) (unit : Symbol × Timeframe) : List Time :=
  ((store.unitCandidates unit.1 unit.2).map (·.fillStamp)).filter
      (fun t => series.lastClosedTs.any (t ≤ ·)) ++
    ((store.positions.openRow unit.1).map (·.entryTs)).toList

/-- The stamps a pass may have to hand over from: the unit's stored fill bars, and the open
position's entry. -/
def handStarts (series : Series) (store : LedgerStore) (unit : Symbol × Timeframe) : List Time :=
  ((store.unitCandidates unit.1 unit.2).map (·.fillStamp)).filter (· ∈ series.stamps) ++
    ((store.positions.openRow unit.1).map (·.entryTs)).toList

section Reach

variable {series : Series} {store : LedgerStore} {unit : Symbol × Timeframe}
  {c : PendingCandidate}

theorem current_entry (store : LedgerStore) (symbol : Symbol) :
    (store.current symbol).map (·.entryTs) = (store.positions.openRow symbol).map (·.entryTs) := by
  unfold LedgerStore.current
  rw [Option.map_map]
  rfl

theorem baseStamp_loadStarts {latestClosed : Time}
    (hlatest : series.lastClosedTs = some latestClosed) :
    baseStamp (store.unitCandidates unit.1 unit.2) (store.current unit.1) latestClosed
      = (loadStarts series store unit).min? := by
  unfold baseStamp loadStarts
  rw [current_entry, hlatest]
  simp only [Option.any_some]

theorem handStarts_subset {t : Time} (h : t ∈ handStarts series store unit) :
    t ∈ loadStarts series store unit := by
  rcases List.mem_append.mp h with hdue | hentry
  · obtain ⟨hmap, hstored⟩ := List.mem_filter.mp hdue
    obtain ⟨latestClosed, hlatest, hle⟩ :=
      @Series.exists_lastClosedTs series t (by simpa using hstored)
    refine List.mem_append_left _ (List.mem_filter.mpr ⟨hmap, ?_⟩)
    rw [hlatest]
    simpa using hle
  · exact List.mem_append_right _ hentry

theorem fill_mem_handStarts (hc : c ∈ store.unitCandidates unit.1 unit.2)
    (hstored : c.fillStamp ∈ series.stamps) : c.fillStamp ∈ handStarts series store unit :=
  List.mem_append_left _
    (List.mem_filter.mpr ⟨List.mem_map.mpr ⟨c, hc, rfl⟩, by simpa using hstored⟩)

/-- The base of a pass that has a stored fill bar. -/
theorem exists_base (hc : c ∈ store.unitCandidates unit.1 unit.2)
    (hstored : c.fillStamp ∈ series.stamps) :
    ∃ latestClosed base, series.lastClosedTs = some latestClosed ∧
      baseStamp (store.unitCandidates unit.1 unit.2) (store.current unit.1) latestClosed
        = some base ∧
      base ∈ loadStarts series store unit ∧
      ∀ start ∈ loadStarts series store unit, base ≤ start := by
  obtain ⟨latestClosed, hlatest, -⟩ := Series.exists_lastClosedTs hstored
  have hin := handStarts_subset (fill_mem_handStarts hc hstored)
  cases hmin : (loadStarts series store unit).min? with
  | none => rw [List.min?_eq_none_iff.mp hmin] at hin; exact absurd hin (by simp)
  | some base =>
      obtain ⟨hmem, hleast⟩ := List.min?_eq_some_iff.mp hmin
      exact ⟨latestClosed, base, hlatest, (baseStamp_loadStarts hlatest).trans hmin, hmem, hleast⟩

/-- **A stored fill bar is loaded** when few enough bars are stored before it. -/
theorem loaded_iff_near (hc : c ∈ store.unitCandidates unit.1 unit.2)
    (hstored : c.fillStamp ∈ series.stamps) :
    c.fillStamp ∈ loadedStamps series store unit.1 unit.2 ↔
      Near series (loadStarts series store unit) c.fillStamp candleLimit := by
  obtain ⟨latestClosed, base, hlatest, hbase, hmem, hleast⟩ := exists_base hc hstored
  have hle := hleast _ (handStarts_subset (fill_mem_handStarts hc hstored))
  rw [loadedStamps_eq hlatest hbase, near_iff_least hmem hleast, barsBetween_eq]
  refine (Ascending.mem_take_iff (barsFrom_ascending series base)).trans (and_iff_right ?_)
  exact List.mem_filter.mpr ⟨hstored, by simpa using hle⟩

theorem loadedStamps_subset {t : Time} (h : t ∈ loadedStamps series store unit.1 unit.2) :
    t ∈ series.stamps := by
  unfold loadedStamps at h
  split at h
  · exact absurd h (by simp)
  · obtain ⟨row, hrow, rfl⟩ := List.mem_map.mp h
    exact List.mem_map.mpr ⟨row, List.mem_of_mem_filter (List.mem_of_mem_take hrow), rfl⟩

/-- When every stored fill bar of the unit is loaded, the anchor is the earliest stamp the pass
may have to hand over from. -/
theorem anchorStamp_handStarts
    (hloads : ∀ d ∈ store.unitCandidates unit.1 unit.2, d.fillStamp ∈ series.stamps →
      d.fillStamp ∈ loadedStamps series store unit.1 unit.2) {anchor : Time}
    (hanchor : anchorStamp (store.unitCandidates unit.1 unit.2)
      (loadedStamps series store unit.1 unit.2) (store.current unit.1) = some anchor) :
    anchor ∈ handStarts series store unit ∧ ∀ start ∈ handStarts series store unit,
      anchor ≤ start := by
  obtain ⟨hdueLe, hentryLe⟩ := anchorStamp_le hanchor
  refine ⟨?_, fun start hstart => ?_⟩
  · rcases anchorStamp_cases hanchor with ⟨d, hd, hda, hin⟩ | ⟨pos, hpos, hentry⟩
    · refine List.mem_append_left _ (List.mem_filter.mpr ⟨List.mem_map.mpr ⟨d, hd, hda⟩, ?_⟩)
      simpa using loadedStamps_subset hin
    · refine List.mem_append_right _ ?_
      rw [← current_entry, hpos]
      exact List.mem_singleton.mpr hentry.symm
  · rcases List.mem_append.mp hstart with hdue | hentry
    · obtain ⟨hmap, hin⟩ := List.mem_filter.mp hdue
      obtain ⟨d, hd, rfl⟩ := List.mem_map.mp hmap
      exact hdueLe d hd (hloads d hd (by simpa using hin))
    · rw [← current_entry] at hentry
      obtain ⟨pos, hpos, rfl⟩ := Option.map_eq_some_iff.mp (Option.mem_toList.mp hentry)
      exact hentryLe pos hpos

/-- **A loaded fill bar is among the first `k` owed** when few enough bars are stored before
it, provided that every stored fill bar of the unit is loaded. -/
theorem owed_iff_near (hc : c ∈ store.unitCandidates unit.1 unit.2)
    (hstored : c.fillStamp ∈ series.stamps)
    (hloads : ∀ d ∈ store.unitCandidates unit.1 unit.2, d.fillStamp ∈ series.stamps →
      d.fillStamp ∈ loadedStamps series store unit.1 unit.2) (k : ℕ) :
    c.fillStamp ∈ (owedStamps series store unit.1 unit.2).take k ↔
      Near series (handStarts series store unit) c.fillStamp k := by
  have hloaded := hloads c hc hstored
  obtain ⟨anchor, hanchor⟩ := @anchorStamp_isSome (store.unitCandidates unit.1 unit.2)
    (loadedStamps series store unit.1 unit.2) (store.current unit.1) (Or.inr ⟨c, hc, hloaded⟩)
  obtain ⟨hmem, hleast⟩ := anchorStamp_handStarts hloads hanchor
  obtain ⟨latestClosed, base, hlatest, hbase, hbaseMem, hbaseLe⟩ := exists_base hc hstored
  have hbaseAnchor : base ≤ anchor := hbaseLe anchor (handStarts_subset hmem)
  have hasc : ((loadedStamps series store unit.1 unit.2).filter (anchor ≤ ·)).Pairwise (· < ·) :=
    loadedStamps_ascending.sublist List.filter_sublist
  have hfrom : anchor ≤ c.fillStamp := (anchorStamp_le hanchor).1 c hc hloaded
  -- Up to the fill bar, what is owed is what is stored from the anchor on.
  have hcount : Ascending.before ((loadedStamps series store unit.1 unit.2).filter (anchor ≤ ·))
      c.fillStamp = barsBetween series anchor c.fillStamp := by
    rw [barsBetween_eq]
    refine le_antisymm (Ascending.before_le_of_subset hasc fun t ht _ => ?_)
      (Ascending.before_le_of_subset (barsFrom_ascending series anchor) fun t ht hlt => ?_)
    · obtain ⟨hin, hge⟩ := List.mem_filter.mp ht
      exact List.mem_filter.mpr ⟨loadedStamps_subset hin, hge⟩
    · obtain ⟨hin, hge⟩ := List.mem_filter.mp ht
      refine List.mem_filter.mpr ⟨?_, hge⟩
      exact loadedStamps_closed hlatest hbase hloaded hin
        (hbaseAnchor.trans (by simpa using hge)) hlt.le
  unfold owedStamps
  rw [outstandingStamps_of_anchor hanchor, near_iff_least hmem hleast,
    Ascending.mem_take_iff hasc, hcount]
  refine and_iff_right (List.mem_filter.mpr ⟨hloaded, by simpa using hfrom⟩)

end Reach

/-- A pending order is one candidate. -/
theorem pendingCandidates_inj {store : LedgerStore} {c d : PendingCandidate}
    (hc : c ∈ store.pendingCandidates) (hd : d ∈ store.pendingCandidates)
    (hid : d.order.id = c.order.id) : d = c := by
  obtain ⟨hcmem, hcof⟩ := mem_pendingCandidates.mp hc
  obtain ⟨hdmem, hdof⟩ := mem_pendingCandidates.mp hd
  have horder : d.order = c.order :=
    List.inj_on_of_nodup_map (listPendingOrders_ids_nodup store) hdmem hcmem hid
  rw [horder, hcof] at hdof
  exact (Option.some.inj hdof).symm

/-- The unit of a pending candidate is active. -/
theorem mem_activeUnits {store : LedgerStore} {c : PendingCandidate}
    (hc : c ∈ store.pendingCandidates) :
    (c.order.symbol, c.order.timeframe) ∈ activeUnits store := by
  unfold activeUnits
  rw [List.mem_insertionSort, List.mem_dedup]
  exact List.mem_append_left _ (List.mem_map.mpr ⟨c, hc, rfl⟩)

theorem activeUnits_nodup (store : LedgerStore) : (activeUnits store).Nodup :=
  (List.perm_insertionSort UnitLe _).nodup_iff.mpr (List.nodup_dedup _)

namespace WorkerCycle

variable [Digest]

/-! ### The queue after a pass

What a pass takes off the queue is said once, with the stamps it loaded and the bars it handed
over; what other units' passes do to the order is nothing.
-/

/-- How many of the bars it owes a pass hands over at most, unless it fails early. -/
def reach (cfg : WorkerConfig) (cy : WorkerCycle) (unit : Symbol × Timeframe) : Option ℕ :=
  match cy.ends unit with
  | .completed => some (max 1 cfg.maxBars)
  | .failedEarly => none
  | .failedAfter bars => some (min bars (max 1 cfg.maxBars))

/-- A pass that does not fail early is a pass of `processUnit`. -/
theorem pass_cases (cfg : WorkerConfig) (cy : WorkerCycle) (store : LedgerStore)
    (unit : Symbol × Timeframe) :
    (cy.reach cfg unit = none ∧ cy.pass cfg store unit = store ∧ cy.handed cfg store unit = []) ∨
      ∃ fault k, cy.reach cfg unit = some k ∧
        cy.pass cfg store unit = processUnit cfg cy.candles store unit fault ∧
        cy.handed cfg store unit
          = (planUnit cfg (cy.candles unit.1 unit.2) store unit.1 unit.2).handed fault ∧
        (cy.handed cfg store unit).map (·.ts)
          = (owedStamps (cy.candles unit.1 unit.2) store unit.1 unit.2).take k := by
  have hwindow := planUnit_stamps cfg (cy.candles unit.1 unit.2) store unit.1 unit.2
  have hasc : (owedStamps (cy.candles unit.1 unit.2) store unit.1 unit.2).Pairwise (· < ·) := by
    unfold owedStamps outstandingStamps
    split
    · exact List.Pairwise.nil
    · exact loadedStamps_ascending.sublist List.filter_sublist
  rw [catchupWindow_of_ascending hasc] at hwindow
  unfold reach pass handed
  cases cy.ends unit with
  | completed => exact Or.inr ⟨none, _, rfl, rfl, rfl, hwindow⟩
  | failedEarly => exact Or.inl ⟨rfl, rfl, rfl⟩
  | failedAfter bars =>
      refine Or.inr ⟨some bars, _, rfl, rfl, rfl, ?_⟩
      simp only
      rw [List.map_take, hwindow, List.take_take]

/-- A pass takes the order off the queue: its bar is closed and was not loaded, or the bar
is handed over. -/
def Settles (cfg : WorkerConfig) (cy : WorkerCycle) (store : LedgerStore)
    (unit : Symbol × Timeframe) (c : PendingCandidate) : Prop :=
  (cy.reach cfg unit ≠ none ∧
      (cy.candles unit.1 unit.2).lastClosedTs.any (c.fillStamp ≤ ·) = true ∧
      c.fillStamp ∉ loadedStamps (cy.candles unit.1 unit.2) store unit.1 unit.2) ∨
    c.fillStamp ∈ (cy.handed cfg store unit).map (·.ts)

/-- **The queue after a pass.** -/
theorem pass_queue (cfg : WorkerConfig) (cy : WorkerCycle) (store : LedgerStore)
    (unit : Symbol × Timeframe) :
    (∀ o, o ∈ (cy.pass cfg store unit).listPendingOrders ↔
      o ∈ store.listPendingOrders ∧ ∀ c ∈ store.unitCandidates unit.1 unit.2,
        c.order.id = o.id → ¬ cy.Settles cfg store unit c) ∧
      (cy.pass cfg store unit).decisions = store.decisions := by
  rcases cy.pass_cases cfg store unit with
    ⟨hreach, hpass, hhanded⟩ | ⟨fault, k, hreach, hpass, hhanded, -⟩
  · rw [hpass]
    refine ⟨fun o => ⟨fun ho => ⟨ho, fun c _ _ hsettles => ?_⟩, fun h => h.1⟩, rfl⟩
    rcases hsettles with ⟨hrun, -⟩ | hin
    · exact hrun hreach
    · rw [hhanded] at hin
      exact absurd hin (by simp)
  · set series := cy.candles unit.1 unit.2 with hseries
    set plan := planUnit cfg series store unit.1 unit.2 with hplan
    obtain ⟨-, hqueue, hdec⟩ := planUnit_queue cfg series store unit.1 unit.2
    obtain ⟨hloop, hdec'⟩ := run_queue cfg (plan.handed fault) plan.ledger
      (planUnit_along cfg series store unit.1 unit.2 fault).2
    have hstore : cy.pass cfg store unit
        = (Runs.run (handBar cfg unit.1 unit.2 (store.unitCandidates unit.1 unit.2)) plan.ledger
            (plan.handed fault)).store := by
      rw [hpass, processUnit_eq, planUnit_candidates]
    rw [hstore]
    refine ⟨fun o => ?_, hdec'.trans hdec⟩
    rw [hloop, hqueue, and_assoc]
    refine and_congr_right fun _ => ⟨?_, ?_⟩
    · rintro ⟨hloaded, hnot⟩ c hc hid hsettles
      rcases hsettles with ⟨-, hclosed, hmissing⟩ | hin
      · exact hmissing (hloaded c hc hid hclosed)
      · rw [hhanded] at hin
        obtain ⟨b, hb, hts⟩ := List.mem_map.mp hin
        exact hnot b hb c hc hts.symm hid
    · intro hall
      refine ⟨fun c hc hid hclosed => ?_, fun b hb c hc hts hid => ?_⟩
      · by_contra hmissing
        exact hall c hc hid (Or.inl ⟨by rw [hreach]; simp, hclosed, hmissing⟩)
      · refine hall c hc hid (Or.inr ?_)
        rw [hhanded]
        exact List.mem_map.mpr ⟨b, hb, hts.symm⟩

/-- A candidate of the unit leaves the queue exactly when the pass settles it, and no other
candidate leaves. -/
theorem pass_candidate (cfg : WorkerConfig) (cy : WorkerCycle) {store : LedgerStore}
    (unit : Symbol × Timeframe) {c : PendingCandidate} (hc : c ∈ store.pendingCandidates) :
    c.order ∈ (cy.pass cfg store unit).listPendingOrders ↔
      (c ∈ store.unitCandidates unit.1 unit.2 → ¬ cy.Settles cfg store unit c) := by
  rw [(cy.pass_queue cfg store unit).1, and_iff_right (mem_pendingCandidates.mp hc).1]
  constructor
  · intro hall hunit
    exact hall c hunit rfl
  · intro hnot d hd hid
    have hdc := pendingCandidates_inj hc (mem_unitCandidates.mp hd).1 hid
    rw [hdc] at hd ⊢
    exact hnot hd

theorem run_pass_shrinks (cfg : WorkerConfig) (cy : WorkerCycle)
    (units : List (Symbol × Timeframe)) : ∀ store : LedgerStore,
    (∀ o ∈ (Runs.run (cy.pass cfg) store units).listPendingOrders, o ∈ store.listPendingOrders) ∧
      (Runs.run (cy.pass cfg) store units).decisions = store.decisions := by
  induction units with
  | nil => intro store; exact ⟨fun o ho => ho, rfl⟩
  | cons unit rest ih =>
      intro store
      obtain ⟨hqueue, hdec⟩ := cy.pass_queue cfg store unit
      obtain ⟨hshrinks, hdec'⟩ := ih (cy.pass cfg store unit)
      exact ⟨fun o ho => ((hqueue o).mp (hshrinks o ho)).1, hdec'.trans hdec⟩

theorem candidate_earlier (cfg : WorkerConfig) (cy : WorkerCycle)
    (units : List (Symbol × Timeframe)) {store : LedgerStore} {c : PendingCandidate}
    (hc : c ∈ (Runs.run (cy.pass cfg) store units).pendingCandidates) :
    c ∈ store.pendingCandidates := by
  obtain ⟨hshrinks, hdec⟩ := cy.run_pass_shrinks cfg units store
  exact pendingCandidates_of_decisions hdec.symm hc (hshrinks _ (mem_pendingCandidates.mp hc).1)

theorem candidate_survives (cfg : WorkerConfig) (cy : WorkerCycle)
    (units : List (Symbol × Timeframe)) : ∀ {store : LedgerStore} {c : PendingCandidate},
    c ∈ store.pendingCandidates → (c.order.symbol, c.order.timeframe) ∉ units →
      c ∈ (Runs.run (cy.pass cfg) store units).pendingCandidates := by
  induction units with
  | nil => intro store c hc _; exact hc
  | cons unit rest ih =>
      intro store c hc hunits
      rw [List.mem_cons, not_or] at hunits
      refine ih (pendingCandidates_of_decisions (cy.pass_queue cfg store unit).2 hc ?_) hunits.2
      refine (cy.pass_candidate cfg unit hc).mpr fun hin => ?_
      obtain ⟨-, hsymbol, htimeframe⟩ := mem_unitCandidates.mp hin
      exact absurd (Prod.ext hsymbol htimeframe) hunits.1

/-! ### Nothing is thrown away -/

/-- The bar of the order is handed over, and its arbitration takes the order off the queue. -/
def ArbitratedAt (cfg : WorkerConfig) (cy : WorkerCycle) (store : LedgerStore)
    (unit : Symbol × Timeframe) (c : PendingCandidate) : Prop :=
  let plan := planUnit cfg (cy.candles unit.1 unit.2) store unit.1 unit.2
  let hand := handBar cfg unit.1 unit.2 plan.candidates
  ∃ before bar after, cy.handed cfg store unit = before ++ bar :: after ∧
    c ∈ candidatesForBar plan.candidates bar.ts ∧
    c.order ∈ (Runs.run hand plan.ledger before).store.listPendingOrders ∧
    c.order ∉ (Runs.run hand plan.ledger (before ++ [bar])).store.listPendingOrders

/-- An order whose fill bar is stored leaves the queue in a pass by the arbitration at that
bar only. -/
def PassKeeps (cfg : WorkerConfig) (cy : WorkerCycle) (store : LedgerStore)
    (unit : Symbol × Timeframe) : Prop :=
  ∀ c ∈ store.pendingCandidates,
    c.fillStamp ∈ (cy.candles c.order.symbol c.order.timeframe).stamps →
      c.order ∈ (cy.pass cfg store unit).listPendingOrders ∨ cy.ArbitratedAt cfg store unit c

/-- An order whose fill bar is stored is not cancelled after the passes. -/
def SweepKeeps (cfg : WorkerConfig) (cy : WorkerCycle) (store : LedgerStore) : Prop :=
  ∀ c ∈ (cy.passes cfg store).pendingCandidates,
    c.fillStamp ∈ (cy.later c.order.symbol c.order.timeframe).stamps →
      c.order ∈ (cy.apply cfg store).listPendingOrders

/-- The cycle throws no order away whose fill bar is stored. -/
def Keeps (cfg : WorkerConfig) (cy : WorkerCycle) (store : LedgerStore) : Prop :=
  Runs.Along (cy.pass cfg) (cy.PassKeeps cfg) store (activeUnits store) ∧ cy.SweepKeeps cfg store

/-- The condition on a pass.  It loads its stored fill bars: few enough bars are stored before
them.  And it settles what the sweep would cancel: an order past its validity whose fill bar is
stored by the time of the sweep is due already, the pass does not fail early, and when the bar
is stored the pass gets as far. -/
structure PassSettles (cfg : WorkerConfig) (cy : WorkerCycle) (store : LedgerStore)
    (unit : Symbol × Timeframe) : Prop where
  loads : cy.reach cfg unit ≠ none → ∀ c ∈ store.unitCandidates unit.1 unit.2,
    c.fillStamp ∈ (cy.candles unit.1 unit.2).stamps →
      Near (cy.candles unit.1 unit.2) (loadStarts (cy.candles unit.1 unit.2) store unit)
        c.fillStamp candleLimit
  settles : cy.sweeps = true → ∀ c ∈ store.unitCandidates unit.1 unit.2,
    c.order ∈ store.listPendingExpired cy.now →
    c.fillStamp ∈ (cy.later unit.1 unit.2).stamps →
      ∃ k, cy.reach cfg unit = some k ∧
        (cy.candles unit.1 unit.2).lastClosedTs.any (c.fillStamp ≤ ·) = true ∧
        (c.fillStamp ∈ (cy.candles unit.1 unit.2).stamps →
          Near (cy.candles unit.1 unit.2) (handStarts (cy.candles unit.1 unit.2) store unit)
            c.fillStamp k)

/-- A handed bar is loaded. -/
theorem handed_loaded (cfg : WorkerConfig) (cy : WorkerCycle) {store : LedgerStore}
    {unit : Symbol × Timeframe} {t : Time} (h : t ∈ (cy.handed cfg store unit).map (·.ts)) :
    t ∈ loadedStamps (cy.candles unit.1 unit.2) store unit.1 unit.2 := by
  rcases cy.pass_cases cfg store unit with ⟨-, -, hhanded⟩ | ⟨fault, k, -, -, -, hhanded⟩
  · rw [hhanded] at h
    exact absurd h (by simp)
  · rw [hhanded] at h
    exact mem_outstandingStamps (List.mem_of_mem_take h)

/-- An order whose bar is handed over is settled by the arbitration there. -/
theorem arbitratedAt_of_handed (cfg : WorkerConfig) (cy : WorkerCycle) {store : LedgerStore}
    {unit : Symbol × Timeframe} {c : PendingCandidate}
    (hc : c ∈ store.unitCandidates unit.1 unit.2)
    (hhanded : c.fillStamp ∈ (cy.handed cfg store unit).map (·.ts)) :
    cy.ArbitratedAt cfg store unit c := by
  have hloaded := cy.handed_loaded cfg hhanded
  rcases cy.pass_cases cfg store unit with ⟨-, -, hnone⟩ | ⟨fault, k, -, -, heq, -⟩
  · rw [hnone] at hhanded
    exact absurd hhanded (by simp)
  · set plan := planUnit cfg (cy.candles unit.1 unit.2) store unit.1 unit.2 with hplan
    have hcandidates : plan.candidates = store.unitCandidates unit.1 unit.2 :=
      planUnit_candidates cfg _ store unit.1 unit.2
    obtain ⟨hasc, halong⟩ := planUnit_along cfg (cy.candles unit.1 unit.2) store unit.1 unit.2 fault
    rw [heq] at hhanded
    obtain ⟨bar, hbar, hts⟩ := List.mem_map.mp hhanded
    obtain ⟨before, after, hsplit⟩ := List.append_of_mem hbar
    rw [hsplit] at hasc halong
    rw [← hcandidates] at halong
    have hupTo := halong
    rw [List.append_cons] at hupTo
    have hdue := due_unitCandidates store unit.1 unit.2
    have hstart : c.order ∈ plan.ledger.store.listPendingOrders :=
      ((planUnit_ledger cfg _ store unit.1 unit.2).2.2.1 c hc).1 hloaded
    -- The bars before are older, so the order is not due at any of them.
    have hearlier : ∀ b ∈ before, b.ts < bar.ts := by
      intro b hb
      rw [List.map_append, List.map_cons] at hasc
      exact (List.pairwise_append.mp hasc).2.2 b.ts (List.mem_map.mpr ⟨b, hb, rfl⟩) bar.ts
        List.mem_cons_self
    refine ⟨before, bar, after, heq.trans hsplit, ?_, ?_, ?_⟩
    · exact mem_candidatesForBar.mpr ⟨by rw [← hplan, hcandidates]; exact hc, hts.symm⟩
    · refine ((run_queue cfg before plan.ledger (Runs.along_append.mp halong).1).1 c.order).mpr
        ⟨hstart, fun b hb d hd hdts hid => ?_⟩
      rw [hcandidates] at hd
      rw [List.inj_on_of_nodup_map hdue.distinct hd hc hid, ← hts] at hdts
      exact absurd hdts (ne_of_gt (hearlier b hb))
    · intro hin
      have hleft := (run_queue cfg (before ++ [bar]) plan.ledger (Runs.along_append.mp hupTo).1).1
      refine ((hleft c.order).mp hin).2 bar ?_ c (by rw [hcandidates]; exact hc) hts.symm rfl
      exact List.mem_append_right _ List.mem_cons_self

/-- **A pass keeps its orders** exactly when it loads every stored fill bar of the unit. -/
theorem passKeeps_iff (cfg : WorkerConfig) (cy : WorkerCycle) (store : LedgerStore)
    (unit : Symbol × Timeframe) :
    cy.PassKeeps cfg store unit ↔
      (cy.reach cfg unit ≠ none → ∀ c ∈ store.unitCandidates unit.1 unit.2,
        c.fillStamp ∈ (cy.candles unit.1 unit.2).stamps →
          c.fillStamp ∈ loadedStamps (cy.candles unit.1 unit.2) store unit.1 unit.2) := by
  constructor
  · intro hkeeps hrun c hc hstored
    by_contra hmissing
    obtain ⟨hpending, hsymbol, htimeframe⟩ := mem_unitCandidates.mp hc
    obtain ⟨latestClosed, hlatest, hle⟩ := Series.exists_lastClosedTs hstored
    have hsettles : cy.Settles cfg store unit c :=
      Or.inl ⟨hrun, by rw [hlatest]; simpa using hle, hmissing⟩
    rcases hkeeps c hpending (by rw [hsymbol, htimeframe]; exact hstored) with hleft | hbar
    · exact (cy.pass_candidate cfg unit hpending).mp hleft hc hsettles
    · obtain ⟨before, bar, after, hsplit, hdue, -, -⟩ := hbar
      refine hmissing (cy.handed_loaded cfg ?_)
      rw [hsplit]
      refine List.mem_map.mpr ⟨bar, List.mem_append_right _ List.mem_cons_self, ?_⟩
      exact (mem_candidatesForBar.mp hdue).2.symm
  · intro hloads c hc hstored
    by_cases hleft : c.order ∈ (cy.pass cfg store unit).listPendingOrders
    · exact Or.inl hleft
    · rw [cy.pass_candidate cfg unit hc, not_forall] at hleft
      obtain ⟨hunit, hsettles⟩ := hleft
      obtain ⟨-, hsymbol, htimeframe⟩ := mem_unitCandidates.mp hunit
      rw [hsymbol, htimeframe] at hstored
      rcases not_not.mp hsettles with ⟨hrun, -, hmissing⟩ | hhanded
      · exact absurd (hloads hrun c hunit hstored) hmissing
      · exact Or.inr (cy.arbitratedAt_of_handed cfg hunit hhanded)

/-! ### The sweep

The sweep goes by the clock alone, so an order past its validity has to be gone before.
Validity is read off the decision, which no pass changes.
-/

omit [Digest] in
theorem sweep_queue (cfg : WorkerConfig) (store : LedgerStore) (now : Time) {o : PaperOrderRow}
    (ho : o ∈ store.listPendingOrders) :
    o ∈ (cancelExpiredPending cfg store now).listPendingOrders ↔
      o ∉ store.listPendingExpired now := by
  set l := (Ledger.session cfg.broker store).restoreState with hl
  have hids := listPendingOrders_ids_nodup store
  have hqueue := (cancelAll_effect (l.store.listPendingExpired now) l
    (fun o ho => List.mem_of_mem_filter ho) (hids.sublist (List.filter_sublist.map _))).2.1 o
  refine hqueue.trans ((and_iff_right ho).trans (not_congr ⟨fun hin => ?_, fun hin => ?_⟩))
  · obtain ⟨q, hq, hid⟩ := List.mem_map.mp hin
    rw [← List.inj_on_of_nodup_map hids (List.mem_of_mem_filter hq) ho hid]
    exact hq
  · exact List.mem_map.mpr ⟨o, hin, rfl⟩

omit [Digest] in
theorem expired_of_decisions {store store' : LedgerStore}
    (hdec : store'.decisions = store.decisions) {now : Time} {o : PaperOrderRow}
    (ho : o ∈ store'.listPendingOrders) (h : o ∈ store.listPendingExpired now) :
    o ∈ store'.listPendingExpired now := by
  obtain ⟨-, hpast⟩ := List.mem_filter.mp h
  refine List.mem_filter.mpr ⟨ho, ?_⟩
  rw [hdec]
  exact hpast

/-- The passes of a cycle from one of its units on, and what they leave of the decisions. -/
theorem passes_from (cfg : WorkerConfig) (cy : WorkerCycle) {store : LedgerStore}
    {before after : List (Symbol × Timeframe)} {unit : Symbol × Timeframe}
    (hsplit : activeUnits store = before ++ unit :: after) :
    cy.passes cfg store
        = Runs.run (cy.pass cfg) (cy.pass cfg (Runs.run (cy.pass cfg) store before) unit) after ∧
      (cy.passes cfg store).decisions = (Runs.run (cy.pass cfg) store before).decisions := by
  have hpasses : cy.passes cfg store
      = Runs.run (cy.pass cfg) (cy.pass cfg (Runs.run (cy.pass cfg) store before) unit) after := by
    unfold passes
    rw [hsplit, Runs.run_append, Runs.run_cons]
  refine ⟨hpasses, ?_⟩
  rw [hpasses, (cy.run_pass_shrinks cfg after _).2, (cy.pass_queue cfg _ unit).2]

/-- **The sweep keeps its orders** exactly when the passes settle every order of theirs that is
past its validity and whose fill bar is stored by then. -/
theorem sweepKeeps_iff (cfg : WorkerConfig) (cy : WorkerCycle) (store : LedgerStore) :
    cy.SweepKeeps cfg store ↔
      Runs.Along (cy.pass cfg) (fun s unit => cy.sweeps = true →
        ∀ c ∈ s.unitCandidates unit.1 unit.2, c.order ∈ s.listPendingExpired cy.now →
          c.fillStamp ∈ (cy.later unit.1 unit.2).stamps → cy.Settles cfg s unit c)
        store (activeUnits store) := by
  have happly := cy.apply_eq cfg store
  by_cases hsweeps : cy.sweeps = true
  · rw [if_pos hsweeps] at happly
    unfold SweepKeeps
    rw [happly, Runs.along_iff_split]
    constructor
    · intro hkeeps before unit after hsplit _ c hc hexpired hstored
      by_contra hnot
      set s := Runs.run (cy.pass cfg) store before with hs
      obtain ⟨hpending, hsymbol, htimeframe⟩ := mem_unitCandidates.mp hc
      have hunit : (c.order.symbol, c.order.timeframe) = unit := Prod.ext hsymbol htimeframe
      -- Left by its own pass, the order is left by the later ones as well.
      have hafter : c ∈ (cy.pass cfg s unit).pendingCandidates := by
        refine pendingCandidates_of_decisions (cy.pass_queue cfg s unit).2 hpending ?_
        exact (cy.pass_candidate cfg unit hpending).mpr fun _ => hnot
      have hnotin : (c.order.symbol, c.order.timeframe) ∉ after := by
        rw [hunit]
        have hnodup := activeUnits_nodup store
        rw [hsplit] at hnodup
        exact (List.nodup_cons.mp (List.nodup_append.mp hnodup).2.1).1
      have hend := cy.candidate_survives cfg after hafter hnotin
      obtain ⟨hpasses, hdec⟩ := cy.passes_from cfg hsplit
      rw [← hs] at hpasses hdec
      rw [← hpasses] at hend
      have hqueued := (mem_pendingCandidates.mp hend).1
      refine (sweep_queue cfg _ cy.now hqueued).mp (hkeeps c hend ?_)
        (expired_of_decisions hdec hqueued hexpired)
      rw [hsymbol, htimeframe]
      exact hstored
    · intro hsettles c hc hstored
      have hqueued := (mem_pendingCandidates.mp hc).1
      refine (sweep_queue cfg _ cy.now hqueued).mpr fun hexpired => ?_
      have hstart := cy.candidate_earlier cfg (activeUnits store) hc
      obtain ⟨before, after, hsplit⟩ := List.append_of_mem (mem_activeUnits hstart)
      set unit := (c.order.symbol, c.order.timeframe) with hunit
      set s := Runs.run (cy.pass cfg) store before with hs
      obtain ⟨hpasses, hdec⟩ := cy.passes_from cfg hsplit
      rw [← hs] at hpasses hdec
      rw [hpasses] at hc
      have hafter := cy.candidate_earlier cfg after hc
      have hpass := (cy.pass_queue cfg s unit)
      have hbefore : c ∈ s.pendingCandidates := by
        refine pendingCandidates_of_decisions hpass.2.symm hafter ?_
        exact ((hpass.1 _).mp (mem_pendingCandidates.mp hafter).1).1
      have hcand : c ∈ s.unitCandidates unit.1 unit.2 :=
        mem_unitCandidates.mpr ⟨hbefore, rfl, rfl⟩
      refine (cy.pass_candidate cfg unit hbefore).mp (mem_pendingCandidates.mp hafter).1 hcand ?_
      exact hsettles before unit after hsplit hsweeps c hcand
        (expired_of_decisions hdec.symm (mem_pendingCandidates.mp hbefore).1 hexpired) hstored
  · rw [if_neg hsweeps] at happly
    unfold SweepKeeps
    rw [happly]
    refine ⟨fun _ => Runs.along_of_forall fun s unit h => absurd h hsweeps, fun _ c hc _ => ?_⟩
    exact (mem_pendingCandidates.mp hc).1

/-- **The condition on a pass, in counts.** -/
theorem passSettles_iff (cfg : WorkerConfig) (cy : WorkerCycle) (store : LedgerStore)
    (unit : Symbol × Timeframe) :
    cy.PassSettles cfg store unit ↔
      cy.PassKeeps cfg store unit ∧ (cy.sweeps = true →
        ∀ c ∈ store.unitCandidates unit.1 unit.2, c.order ∈ store.listPendingExpired cy.now →
          c.fillStamp ∈ (cy.later unit.1 unit.2).stamps → cy.Settles cfg store unit c) := by
  set series := cy.candles unit.1 unit.2 with hseries
  have hloads : cy.PassKeeps cfg store unit ↔
      (cy.reach cfg unit ≠ none → ∀ c ∈ store.unitCandidates unit.1 unit.2,
        c.fillStamp ∈ series.stamps →
          Near series (loadStarts series store unit) c.fillStamp candleLimit) := by
    rw [cy.passKeeps_iff cfg store unit]
    refine imp_congr_right fun _ => forall_congr' fun c => forall_congr' fun hc => ?_
    exact imp_congr_right fun hstored => loaded_iff_near hc hstored
  -- Once every stored bar is loaded, what a pass settles is a matter of counts.
  have hsettles : cy.PassKeeps cfg store unit → ∀ c ∈ store.unitCandidates unit.1 unit.2,
      (cy.Settles cfg store unit c ↔ ∃ k, cy.reach cfg unit = some k ∧
        series.lastClosedTs.any (c.fillStamp ≤ ·) = true ∧
        (c.fillStamp ∈ series.stamps →
          Near series (handStarts series store unit) c.fillStamp k)) := by
    intro hkeeps c hc
    rcases cy.pass_cases cfg store unit with ⟨hnone, -, hhanded⟩ | ⟨fault, k, hk, -, -, hhanded⟩
    · unfold Settles
      rw [hnone, hhanded]
      simp
    · have hall := (cy.passKeeps_iff cfg store unit).mp hkeeps (by rw [hk]; simp)
      unfold Settles
      rw [hhanded, hk]
      by_cases hstored : c.fillStamp ∈ series.stamps
      · obtain ⟨latestClosed, hlatest, hle⟩ := Series.exists_lastClosedTs hstored
        rw [owed_iff_near hc hstored hall k]
        constructor
        · rintro (⟨-, -, hmissing⟩ | hnear)
          · exact absurd (hall c hc hstored) hmissing
          · exact ⟨k, rfl, by rw [hlatest]; simpa using hle, fun _ => hnear⟩
        · rintro ⟨k', hk', -, hnear⟩
          obtain rfl := Option.some.inj hk'
          exact Or.inr (hnear hstored)
      · constructor
        · rintro (⟨-, hclosed, -⟩ | hin)
          · exact ⟨k, rfl, hclosed, fun h => absurd h hstored⟩
          · exact absurd (loadedStamps_subset (mem_outstandingStamps (List.mem_of_mem_take hin)))
              hstored
        · rintro ⟨k', -, hclosed, -⟩
          exact Or.inl ⟨by simp, hclosed, fun hin => hstored (loadedStamps_subset hin)⟩
  constructor
  · intro h
    have hkeeps := hloads.mpr h.loads
    exact ⟨hkeeps, fun hs c hc he hl => (hsettles hkeeps c hc).mpr (h.settles hs c hc he hl)⟩
  · rintro ⟨hkeeps, hsweep⟩
    exact ⟨hloads.mp hkeeps, fun hs c hc he hl => (hsettles hkeeps c hc).mp (hsweep hs c hc he hl)⟩

/-- **One cycle.** -/
theorem keeps_iff (cfg : WorkerConfig) (cy : WorkerCycle) (store : LedgerStore) :
    cy.Keeps cfg store ↔
      Runs.Along (cy.pass cfg) (cy.PassSettles cfg) store (activeUnits store) := by
  unfold Keeps
  rw [sweepKeeps_iff, ← Runs.along_and]
  refine Runs.along_congr fun s unit => ?_
  exact (cy.passSettles_iff cfg s unit).symm

end WorkerCycle

/-! ### Cycle after cycle -/

/-- What happens to the ledger: a decision's order is submitted, a cycle runs. -/
inductive CycleEvent where
  | submit (r : Submission)
  | cycle (cy : WorkerCycle)

namespace CycleEvent

variable [Digest]

/-- The ledger after an event. -/
def step (cfg : WorkerConfig) (store : LedgerStore) : CycleEvent → LedgerStore
  | .submit r => (r.submit (Ledger.session cfg.broker store).restoreState).store
  | .cycle cy => cy.apply cfg store

/-- No order whose fill bar is stored is thrown away. -/
def Keeps (cfg : WorkerConfig) (store : LedgerStore) : CycleEvent → Prop
  | .submit _ => True
  | .cycle cy => cy.Keeps cfg store

/-- Every pass of the cycle meets the condition. -/
def Settles (cfg : WorkerConfig) (store : LedgerStore) : CycleEvent → Prop
  | .submit _ => True
  | .cycle cy => Runs.Along (cy.pass cfg) (cy.PassSettles cfg) store (activeUnits store)

/-- **No order whose fill bar is stored is thrown away in a run** if and only if every pass of
every cycle meets the condition. -/
theorem fates_iff (cfg : WorkerConfig) (store : LedgerStore) (events : List CycleEvent) :
    Runs.Along (step cfg) (Keeps cfg) store events ↔
      Runs.Along (step cfg) (Settles cfg) store events := by
  refine Runs.along_congr fun s e => ?_
  cases e with
  | submit r => exact Iff.rfl
  | cycle cy => exact cy.keeps_iff cfg s

/-! ### An outage of one unit -/

omit [Digest] in
/-- Every decision is of the first hour, and valid for four. -/
def fourHours : DecisionId → Option DecisionRef := fun _ =>
  some { bucketTs := 0, validUntil := seconds 14400 }

omit [Digest] in
/-- A cycle an hour after the validity: the fill bar at 3600 is stored, the unit's pass fails
before its first commit, the sweep goes through. -/
def outage : WorkerCycle where
  now := seconds 18000
  candles := hours [3600, 7200, 10800, 14400] (by decide)
  later := hours [3600, 7200, 10800, 14400] (by decide)
  ends := fun _ => .failedEarly
  sweeps := true

omit [Digest] in
/-- The sweep cancels an order whose fill bar has been there all along. -/
theorem outage_cancels_fillable : ¬ ∀ (_ : Digest) (cfg : WorkerConfig) (store : LedgerStore)
    (events : List CycleEvent), Runs.Along (step cfg) (Keeps cfg) store events := by
  intro h
  set store := @step Digest.zero World.worker (LedgerStore.empty fourHours)
    (.submit (Ledger.longOrder 1 .eurusd)) with hstore
  have hsweep : @WorkerCycle.SweepKeeps Digest.zero World.worker outage store :=
    (h Digest.zero World.worker (LedgerStore.empty fourHours)
      [.submit (Ledger.longOrder 1 .eurusd), .cycle outage]).2.1.2
  have hbefore : ∃ c ∈ (@WorkerCycle.passes Digest.zero World.worker outage store).pendingCandidates,
      c.fillStamp ∈ (outage.later c.order.symbol c.order.timeframe).stamps := by
    decide +kernel
  have hafter : (@WorkerCycle.apply Digest.zero World.worker outage store).listPendingOrders
      = [] := by
    refine List.length_eq_zero_iff.mp ?_
    decide +kernel
  obtain ⟨c, hc, hstored⟩ := hbefore
  have hleft := hsweep c hc hstored
  rw [hafter] at hleft
  exact absurd hleft (by simp)

end CycleEvent

end ForexAi
