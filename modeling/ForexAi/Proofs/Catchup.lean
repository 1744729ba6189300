/-
Catching up on the bars of an open position.

A pass owes the bars from its anchor on and hands over the first `maxBars` of them.  With
a position open the anchor is never later than its entry, and the entry does not move: so
every pass starts again at the entry, and the bars beyond the first `maxBars` from there
are never handed over, in whatever cycle.  `handed_early` is that half: a bar that is
handed over is among the first few stored from the entry on.

The other half is a progress argument.  An order of the unit that is due before the entry
holds the anchor back, but the pass that starts at it settles it (`early_shrinks`), so
after finitely many cycles nothing is due before the entry and a pass covers the bars
from there (`handed_of_settled`).

`catchup_iff` puts the halves together: every closed bar after the entry is handed over
in some cycle if and only if no more bars are stored from the entry on than one pass
takes.
-/
import ForexAi.Lib.Ascending
import ForexAi.Proofs.TimeOrder
import Mathlib.Logic.Function.Iterate

namespace ForexAi

/-! ### The stamps of a pass

Base, loaded and handed stamps are all sublists of the stored bars of the unit, cut from the
front.  Comparing two of them is counting how many stored bars lie in between.
-/

section Stamps

variable {series : Series} {store : LedgerStore} {symbol : Symbol} {timeframe : Timeframe}

theorem loadedStamps_eq {latestClosed : Time} (hlatest : series.lastClosedTs = some latestClosed)
    {base : Time}
    (hbase : baseStamp (store.unitCandidates symbol timeframe) (store.current symbol) latestClosed
      = some base) :
    loadedStamps series store symbol timeframe
      = (series.stamps.filter (base ≤ ·)).take candleLimit := by
  unfold loadedStamps loadWindow Series.loadCandles Series.stamps
  rw [hlatest]
  simp only [hbase]
  rw [List.map_take, List.filter_map]
  congr 2
  refine List.filter_congr fun c hc => ?_
  have hsec : (0 : Time) < seconds 1 := by decide
  have hle : c.ts < latestClosed + seconds 1 :=
    lt_add_of_le_of_pos (Series.le_lastClosedTs hlatest hc) hsec
  simp [hle]

/-- What is stored between the base and a loaded bar is loaded. -/
theorem loadedStamps_closed {latestClosed : Time}
    (hlatest : series.lastClosedTs = some latestClosed)
    {base : Time}
    (hbase : baseStamp (store.unitCandidates symbol timeframe) (store.current symbol) latestClosed
      = some base) {t u : Time} (ht : t ∈ loadedStamps series store symbol timeframe)
    (hu : u ∈ series.stamps) (hbu : base ≤ u) (hut : u ≤ t) :
    u ∈ loadedStamps series store symbol timeframe := by
  have hasc : (series.stamps.filter (base ≤ ·)).Pairwise (· < ·) :=
    series.stamps_ascending.sublist List.filter_sublist
  rw [loadedStamps_eq hlatest hbase, Ascending.mem_take_iff hasc] at ht ⊢
  refine ⟨List.mem_filter.mpr ⟨hu, by simpa using hbu⟩, lt_of_le_of_lt ?_ ht.2⟩
  exact Ascending.before_mono _ hut

theorem loadedStamps_ascending : (loadedStamps series store symbol timeframe).Pairwise (· < ·) := by
  unfold loadedStamps
  cases series.lastClosedTs with
  | none => exact List.Pairwise.nil
  | some latestClosed => exact List.pairwise_map.mpr (series.loadCandles_ascending _ _ _)

/-- What a pass takes at most: the throttle, and the most candles it loads. -/
def WorkerConfig.throttle (cfg : WorkerConfig) : ℕ := min (max 1 cfg.maxBars) candleLimit

/-- The stored bars from a stamp on. -/
def barsFrom (series : Series) (ts : Time) : List Time := series.stamps.filter (ts ≤ ·)

theorem barsFrom_ascending (series : Series) (ts : Time) :
    (barsFrom series ts).Pairwise (· < ·) :=
  series.stamps_ascending.sublist List.filter_sublist

/-- The stamps of the bars a pass hands over. -/
def handedStamps (cfg : WorkerConfig) (candles : Candles) (unit : Symbol × Timeframe)
    (store : LedgerStore) : List Time :=
  (planUnit cfg (candles unit.1 unit.2) store unit.1 unit.2).window.map (·.ts)

/-- A loaded bar from the anchor on is handed over when few enough are owed before it. -/
theorem mem_handedStamps {cfg : WorkerConfig} {candles : Candles} {unit : Symbol × Timeframe}
    {anchor : Time}
    (hanchor : anchorStamp (store.unitCandidates unit.1 unit.2)
      (loadedStamps (candles unit.1 unit.2) store unit.1 unit.2) (store.current unit.1)
        = some anchor) {t : Time} :
    t ∈ handedStamps cfg candles unit store ↔
      (t ∈ loadedStamps (candles unit.1 unit.2) store unit.1 unit.2 ∧ anchor ≤ t) ∧
      Ascending.before ((loadedStamps (candles unit.1 unit.2) store unit.1 unit.2).filter
        (anchor ≤ ·)) t < max 1 cfg.maxBars := by
  have hasc : ((loadedStamps (candles unit.1 unit.2) store unit.1 unit.2).filter
      (anchor ≤ ·)).Pairwise (· < ·) := loadedStamps_ascending.sublist List.filter_sublist
  unfold handedStamps
  rw [planUnit_stamps]
  unfold owedStamps
  rw [outstandingStamps_of_anchor hanchor, catchupWindow_of_ascending hasc,
    Ascending.mem_take_iff hasc, List.mem_filter, decide_eq_true_eq]

/-- With a position open a pass loads from its entry on, or from earlier. -/
theorem baseStamp_open {latestClosed : Time} {q : PaperPositionRow}
    (hq : store.positions.openRow symbol = some q) :
    ∃ base, baseStamp (store.unitCandidates symbol timeframe) (store.current symbol) latestClosed
        = some base ∧ base ≤ q.entryTs ∧
      (∀ c ∈ store.unitCandidates symbol timeframe, c.fillStamp ≤ latestClosed →
        base ≤ c.fillStamp) ∧
      ((∃ c ∈ store.unitCandidates symbol timeframe, c.fillStamp ≤ latestClosed ∧
        c.fillStamp = base) ∨ base = q.entryTs) := by
  have hcurrent : store.current symbol = some q.toPosition := by
    unfold LedgerStore.current
    rw [hq]
    rfl
  unfold baseStamp
  rw [hcurrent]
  set due := ((store.unitCandidates symbol timeframe).map (·.fillStamp)).filter (· ≤ latestClosed)
    with hdue
  have hentry : q.entryTs ∈ due ++ (Option.map (·.entryTs) (some q.toPosition)).toList :=
    List.mem_append_right _ (List.mem_singleton.mpr rfl)
  cases hmin : (due ++ (Option.map (·.entryTs) (some q.toPosition)).toList).min? with
  | none => rw [List.min?_eq_none_iff.mp hmin] at hentry; exact absurd hentry (by simp)
  | some base =>
      obtain ⟨hmem, hle⟩ := List.min?_eq_some_iff.mp hmin
      refine ⟨base, rfl, hle _ hentry, ?_, ?_⟩
      · intro c hc hclosed
        refine hle _ (List.mem_append_left _ (List.mem_filter.mpr ⟨?_, by simpa using hclosed⟩))
        exact List.mem_map.mpr ⟨c, hc, rfl⟩
      · rcases List.mem_append.mp hmem with hd | he
        · obtain ⟨hmap, hclosed⟩ := List.mem_filter.mp hd
          obtain ⟨c, hc, hcb⟩ := List.mem_map.mp hmap
          refine Or.inl ⟨c, hc, ?_, hcb⟩
          rw [hcb]
          simpa using hclosed
        · exact Or.inr (List.mem_singleton.mp he)

/-- The anchor of a pass with a position open. -/
theorem anchorStamp_open {q : PaperPositionRow} (hq : store.positions.openRow symbol = some q) :
    ∃ anchor, anchorStamp (store.unitCandidates symbol timeframe)
        (loadedStamps series store symbol timeframe) (store.current symbol) = some anchor ∧
      anchor ≤ q.entryTs ∧
      ((∃ c ∈ store.unitCandidates symbol timeframe, c.fillStamp = anchor) ∨
        anchor = q.entryTs) := by
  have hcurrent : store.current symbol = some q.toPosition := by
    unfold LedgerStore.current
    rw [hq]
    rfl
  obtain ⟨anchor, hanchor⟩ := @anchorStamp_isSome (store.unitCandidates symbol timeframe)
    (loadedStamps series store symbol timeframe) (store.current symbol)
    (Or.inl (by rw [hcurrent]; rfl))
  refine ⟨anchor, hanchor, (anchorStamp_le hanchor).2 _ hcurrent, ?_⟩
  rcases anchorStamp_cases hanchor with ⟨c, hc, hca, -⟩ | ⟨pos, hpos, hentry⟩
  · exact Or.inl ⟨c, hc, hca⟩
  · rw [hcurrent] at hpos
    obtain rfl := Option.some.inj hpos
    exact Or.inr hentry.symm

/-- **A bar after the entry that is handed over is among the first ones.** -/
theorem handed_early {cfg : WorkerConfig} {candles : Candles} {unit : Symbol × Timeframe}
    {q : PaperPositionRow} (hq : store.positions.openRow unit.1 = some q) {t : Time}
    (hhanded : t ∈ handedStamps cfg candles unit store) (hafter : q.entryTs ≤ t) :
    t ∈ (barsFrom (candles unit.1 unit.2) q.entryTs).take cfg.throttle := by
  set bars := candles unit.1 unit.2 with hbars
  obtain ⟨anchor, hanchor, hle, -⟩ := @anchorStamp_open bars store unit.1 unit.2 q hq
  obtain ⟨⟨hloaded, -⟩, hcount⟩ := (mem_handedStamps hanchor).mp hhanded
  cases hlatest : bars.lastClosedTs with
  | none =>
      unfold loadedStamps at hloaded
      rw [hlatest] at hloaded
      exact absurd hloaded (by simp)
  | some latestClosed =>
      obtain ⟨base, hbase, hbaseLe, -, -⟩ :=
        @baseStamp_open store unit.1 unit.2 latestClosed q hq
      have heq := @loadedStamps_eq bars store unit.1 unit.2 latestClosed hlatest base hbase
      have hascBase : (bars.stamps.filter (base ≤ ·)).Pairwise (· < ·) :=
        bars.stamps_ascending.sublist List.filter_sublist
      have htaken := hloaded
      rw [heq, Ascending.mem_take_iff hascBase] at htaken
      -- Every stored bar between the entry and `t` is loaded and owed.
      have hfrom : ∀ u ∈ barsFrom bars q.entryTs, u < t → u ∈ bars.stamps.filter (base ≤ ·) := by
        intro u hu _
        obtain ⟨hmem, hge⟩ := List.mem_filter.mp hu
        have hge' : q.entryTs ≤ u := by simpa using hge
        exact List.mem_filter.mpr ⟨hmem, by simpa using hbaseLe.trans hge'⟩
      have hbefore : Ascending.before (barsFrom bars q.entryTs) t
          ≤ Ascending.before (bars.stamps.filter (base ≤ ·)) t :=
        Ascending.before_le_of_subset (barsFrom_ascending bars q.entryTs) hfrom
      have howed : ∀ u ∈ barsFrom bars q.entryTs, u < t →
          u ∈ (loadedStamps bars store unit.1 unit.2).filter (anchor ≤ ·) := by
        intro u hu hut
        obtain ⟨hmem, hge⟩ := List.mem_filter.mp hu
        have hge' : q.entryTs ≤ u := by simpa using hge
        refine List.mem_filter.mpr ⟨?_, by simpa using hle.trans hge'⟩
        exact loadedStamps_closed hlatest hbase hloaded hmem (hbaseLe.trans hge') hut.le
      have hbefore' : Ascending.before (barsFrom bars q.entryTs) t
          ≤ Ascending.before ((loadedStamps bars store unit.1 unit.2).filter (anchor ≤ ·)) t :=
        Ascending.before_le_of_subset (barsFrom_ascending bars q.entryTs) howed
      rw [Ascending.mem_take_iff (barsFrom_ascending bars q.entryTs)]
      refine ⟨List.mem_filter.mpr ⟨(List.mem_filter.mp htaken.1).1, by simpa using hafter⟩, ?_⟩
      exact lt_min (lt_of_le_of_lt hbefore' hcount) (lt_of_le_of_lt hbefore htaken.2)

/-- The orders of the unit that were due before the entry. -/
def earlyOrders (series : Series) (store : LedgerStore) (unit : Symbol × Timeframe)
    (entryTs : Time) : List PendingCandidate :=
  (store.unitCandidates unit.1 unit.2).filter fun c =>
    c.fillStamp < entryTs ∧ series.lastClosedTs.any (c.fillStamp ≤ ·) = true

/-- **With nothing due before the entry a pass covers the bars from there**, as far as one
pass reaches. -/
theorem handed_of_settled {cfg : WorkerConfig} {candles : Candles} {unit : Symbol × Timeframe}
    {q : PaperPositionRow} (hq : store.positions.openRow unit.1 = some q)
    (hsettled : earlyOrders (candles unit.1 unit.2) store unit q.entryTs = [])
    (hfits : (barsFrom (candles unit.1 unit.2) q.entryTs).length ≤ cfg.throttle) {t : Time}
    (ht : t ∈ barsFrom (candles unit.1 unit.2) q.entryTs) :
    t ∈ handedStamps cfg candles unit store := by
  set bars := candles unit.1 unit.2 with hbars
  obtain ⟨hstored, hge⟩ := List.mem_filter.mp ht
  have hge' : q.entryTs ≤ t := by simpa using hge
  have hcount := Ascending.before_lt_length (barsFrom_ascending bars q.entryTs) ht
  obtain ⟨latestClosed, hlatest, -⟩ := Series.exists_lastClosedTs hstored
  -- No candidate is due before the entry, so the pass loads and anchors at the entry.
  have hlate : ∀ c ∈ store.unitCandidates unit.1 unit.2, c.fillStamp ≤ latestClosed →
      q.entryTs ≤ c.fillStamp := by
    intro c hc hclosed
    by_contra hlt
    have hmem : c ∈ earlyOrders bars store unit q.entryTs := by
      refine List.mem_filter.mpr ⟨hc, ?_⟩
      rw [hlatest]
      simpa using ⟨not_le.mp hlt, hclosed⟩
    rw [hsettled] at hmem
    exact absurd hmem (by simp)
  obtain ⟨base, hbase, hbaseLe, -, hbaseCases⟩ :=
    @baseStamp_open store unit.1 unit.2 latestClosed q hq
  have hbaseEq : base = q.entryTs := by
    rcases hbaseCases with ⟨c, hc, hclosed, hcb⟩ | heq
    · exact le_antisymm hbaseLe (hcb ▸ hlate c hc hclosed)
    · exact heq
  have heq := @loadedStamps_eq bars store unit.1 unit.2 latestClosed hlatest base hbase
  rw [hbaseEq] at heq
  have hloaded : t ∈ loadedStamps bars store unit.1 unit.2 := by
    rw [heq]
    refine (Ascending.mem_take_iff (barsFrom_ascending bars q.entryTs)).mpr ⟨ht, ?_⟩
    exact lt_of_lt_of_le hcount (hfits.trans (min_le_right _ _))
  obtain ⟨anchor, hanchor, hanchorLe, -⟩ := @anchorStamp_open bars store unit.1 unit.2 q hq
  refine (mem_handedStamps hanchor).mpr ⟨⟨hloaded, hanchorLe.trans hge'⟩, ?_⟩
  have hsub : ∀ u ∈ (loadedStamps bars store unit.1 unit.2).filter (anchor ≤ ·), u < t →
      u ∈ barsFrom bars q.entryTs := by
    intro u hu _
    have hmem := (List.mem_filter.mp hu).1
    rw [heq] at hmem
    exact List.mem_of_mem_take hmem
  have hle := Ascending.before_le_of_subset
    (loadedStamps_ascending.sublist List.filter_sublist) hsub
  exact lt_of_le_of_lt hle (lt_of_lt_of_le hcount (hfits.trans (min_le_left _ _)))

end Stamps

variable [Digest]

/-! ### What a pass settles

An order leaves the queue when its bar is handed over, or when it is found missing.  Nothing
is ever added, so the number of early orders goes down until it is zero.
-/

/-- What a pass does to the queue. -/
theorem processUnit_queue (cfg : WorkerConfig) (candles : Candles) (store : LedgerStore)
    (unit : Symbol × Timeframe) :
    (∀ o ∈ (processUnit cfg candles store unit none).listPendingOrders,
      o ∈ store.listPendingOrders) ∧
    (processUnit cfg candles store unit none).decisions = store.decisions ∧
    ∀ c ∈ store.unitCandidates unit.1 unit.2,
      (c.fillStamp ∈ handedStamps cfg candles unit store ∨
        ((∃ latestClosed, (candles unit.1 unit.2).lastClosedTs = some latestClosed ∧
            c.fillStamp ≤ latestClosed) ∧
          c.fillStamp ∉ loadedStamps (candles unit.1 unit.2) store unit.1 unit.2)) →
      c.order ∉ (processUnit cfg candles store unit none).listPendingOrders := by
  obtain ⟨symbol, timeframe⟩ := unit
  set series := candles symbol timeframe with hseries
  set plan := planUnit cfg series store symbol timeframe with hplan
  have hcandidates : plan.candidates = store.unitCandidates symbol timeframe :=
    planUnit_candidates cfg series store symbol timeframe
  obtain ⟨-, hshrink, hcands, hplanDec⟩ := planUnit_ledger cfg series store symbol timeframe
  have heffects := (planUnit_along cfg series store symbol timeframe none).2
  obtain ⟨hpending, hdec⟩ := run_queue cfg plan.window plan.ledger heffects
  have hstore : processUnit cfg candles store (symbol, timeframe) none
      = (Runs.run (handBar cfg symbol timeframe (store.unitCandidates symbol timeframe))
          plan.ledger plan.window).store := by
    rw [← hcandidates]
    rfl
  rw [hstore]
  refine ⟨fun o ho => hshrink o ((hpending o).mp ho).1, hdec.trans hplanDec, ?_⟩
  intro c hc hcase hin
  obtain ⟨hplanned, hnot⟩ := (hpending c.order).mp hin
  rcases hcase with hhanded | ⟨⟨latestClosed, hlatest, hclosed⟩, hmissing⟩
  · obtain ⟨b, hb, hts⟩ := List.mem_map.mp hhanded
    exact hnot b hb c hc hts.symm rfl
  · exact (hcands c hc).2 latestClosed hlatest hclosed hmissing hplanned

theorem unitCandidates_shrink (cfg : WorkerConfig) (candles : Candles) (store : LedgerStore)
    (unit : Symbol × Timeframe) {c : PendingCandidate}
    (hc : c ∈ (processUnit cfg candles store unit none).unitCandidates unit.1 unit.2) :
    c ∈ store.unitCandidates unit.1 unit.2 := by
  obtain ⟨hpending, hdec, -⟩ := processUnit_queue cfg candles store unit
  obtain ⟨hcand, hunit⟩ := mem_unitCandidates.mp hc
  refine mem_unitCandidates.mpr ⟨?_, hunit⟩
  exact pendingCandidates_of_decisions hdec.symm hcand
    (hpending _ (mem_pendingCandidates.mp hcand).1)

/-- **A pass that finds an order due before the entry settles one.** -/
theorem early_shrinks (cfg : WorkerConfig) {candles : Candles} {store : LedgerStore}
    {unit : Symbol × Timeframe} {q : PaperPositionRow}
    (hq : store.positions.openRow unit.1 = some q)
    (hearly : earlyOrders (candles unit.1 unit.2) store unit q.entryTs ≠ []) :
    (earlyOrders (candles unit.1 unit.2) (processUnit cfg candles store unit none) unit
      q.entryTs).length < (earlyOrders (candles unit.1 unit.2) store unit q.entryTs).length := by
  set bars := candles unit.1 unit.2 with hbars
  set store' := processUnit cfg candles store unit none with hstore'
  obtain ⟨-, -, hsettles⟩ := processUnit_queue cfg candles store unit
  obtain ⟨c₁, hc₁⟩ := List.exists_mem_of_ne_nil _ hearly
  obtain ⟨hmem₁, hcond₁⟩ := List.mem_filter.mp hc₁
  simp only [decide_eq_true_eq] at hcond₁
  obtain ⟨hbefore₁, hclosed₁⟩ := hcond₁
  cases hlatest : bars.lastClosedTs with
  | none => rw [hlatest] at hclosed₁; exact absurd hclosed₁ (by simp)
  | some latestClosed =>
      rw [hlatest] at hclosed₁
      obtain ⟨base, hbase, hbaseLe, hbaseMin, hbaseCases⟩ :=
        @baseStamp_open store unit.1 unit.2 latestClosed q hq
      have hbaseLt : base < q.entryTs :=
        lt_of_le_of_lt (hbaseMin c₁ hmem₁ (by simpa using hclosed₁)) hbefore₁
      obtain ⟨c₀, hc₀, hclosed₀, hstamp₀⟩ : ∃ c ∈ store.unitCandidates unit.1 unit.2,
          c.fillStamp ≤ latestClosed ∧ c.fillStamp = base := by
        rcases hbaseCases with h | h
        · exact h
        · exact absurd hbaseLt (by rw [h]; exact lt_irrefl _)
      -- The pass settles the earliest of them, on its bar or because the bar is missing.
      have hgone : c₀.order ∉ store'.listPendingOrders := by
        refine hsettles c₀ hc₀ ?_
        by_cases hloaded : c₀.fillStamp ∈ loadedStamps bars store unit.1 unit.2
        · obtain ⟨anchor, hanchor, -, -⟩ := @anchorStamp_open bars store unit.1 unit.2 q hq
          refine Or.inl ((mem_handedStamps hanchor).mpr ⟨⟨hloaded, ?_⟩, ?_⟩)
          · exact (anchorStamp_le hanchor).1 c₀ hc₀ hloaded
          · have hnone : Ascending.before ((loadedStamps bars store unit.1 unit.2).filter
                (anchor ≤ ·)) c₀.fillStamp = 0 := by
              unfold Ascending.before
              rw [List.length_eq_zero_iff, List.filter_eq_nil_iff]
              intro u hu
              have hmem := (List.mem_filter.mp hu).1
              rw [@loadedStamps_eq bars store unit.1 unit.2 latestClosed hlatest base hbase] at hmem
              have hge : base ≤ u := by
                simpa using (List.mem_filter.mp (List.mem_of_mem_take hmem)).2
              simpa [hstamp₀] using hge
            rw [hnone]
            omega
        · exact Or.inr ⟨⟨latestClosed, hlatest, hclosed₀⟩, hloaded⟩
      have hearly₀ : c₀ ∈ earlyOrders bars store unit q.entryTs := by
        refine List.mem_filter.mpr ⟨hc₀, ?_⟩
        rw [hlatest]
        simpa [hstamp₀] using ⟨hbaseLt, hstamp₀ ▸ hclosed₀⟩
      have hnot₀ : c₀ ∉ earlyOrders bars store' unit q.entryTs := by
        intro hin
        have hcand := (mem_unitCandidates.mp (List.mem_filter.mp hin).1).1
        exact hgone (mem_pendingCandidates.mp hcand).1
      have hnodup : ∀ s : LedgerStore, (earlyOrders bars s unit q.entryTs).Nodup := by
        intro s
        exact (List.Nodup.of_map _ (due_unitCandidates s unit.1 unit.2).distinct).sublist
          List.filter_sublist
      have hsub : ∀ c ∈ c₀ :: earlyOrders bars store' unit q.entryTs,
          c ∈ earlyOrders bars store unit q.entryTs := by
        intro c hc
        rcases List.mem_cons.mp hc with rfl | hc
        · exact hearly₀
        · obtain ⟨hmem, hcond⟩ := List.mem_filter.mp hc
          exact List.mem_filter.mpr ⟨unitCandidates_shrink cfg candles store unit hmem, hcond⟩
      have hlen := ((List.nodup_cons.mpr ⟨hnot₀, hnodup store'⟩).subperm hsub).length_le
      rw [List.length_cons] at hlen
      omega

/-! ### Cycle after cycle

The same pass is made over and over while the position stays open.  It starts at the entry
each time, and so does not get further by being repeated.
-/

/-- The ledger after `k` passes over a unit. -/
def afterCycles (cfg : WorkerConfig) (candles : Candles) (unit : Symbol × Timeframe)
    (store : LedgerStore) (k : ℕ) : LedgerStore :=
  (fun s => processUnit cfg candles s unit none)^[k] store

theorem afterCycles_succ (cfg : WorkerConfig) (candles : Candles) (unit : Symbol × Timeframe)
    (store : LedgerStore) (k : ℕ) :
    afterCycles cfg candles unit store (k + 1)
      = processUnit cfg candles (afterCycles cfg candles unit store k) unit none :=
  Function.iterate_succ_apply' _ _ _

/-- The bar of a stamp is handed over in the cycle `k`, counted from zero. -/
def HandedIn (cfg : WorkerConfig) (candles : Candles) (unit : Symbol × Timeframe)
    (store : LedgerStore) (ts : Time) (k : ℕ) : Prop :=
  ts ∈ handedStamps cfg candles unit (afterCycles cfg candles unit store k)

/-- While the position stays open, some cycle finds nothing due before its entry. -/
theorem eventually_settled (cfg : WorkerConfig) (candles : Candles) (unit : Symbol × Timeframe)
    (store : LedgerStore) {q : PaperPositionRow}
    (hopen : ∀ k, (afterCycles cfg candles unit store k).positions.openRow unit.1 = some q) :
    ∃ k, earlyOrders (candles unit.1 unit.2) (afterCycles cfg candles unit store k) unit
      q.entryTs = [] := by
  by_contra hnever
  push Not at hnever
  -- The count of early orders would fall for ever.
  have hfall : ∀ k, (earlyOrders (candles unit.1 unit.2) (afterCycles cfg candles unit store k)
      unit q.entryTs).length + k
        ≤ (earlyOrders (candles unit.1 unit.2) store unit q.entryTs).length := by
    intro k
    induction k with
    | zero => exact le_rfl
    | succ k ih =>
        have hstep := early_shrinks cfg (hopen k) (hnever k)
        rw [afterCycles_succ]
        omega
  have hlong := hfall ((earlyOrders (candles unit.1 unit.2) store unit q.entryTs).length + 1)
  omega

/-- **Every closed bar after the entry is handed over in some cycle**, while the position
stays open, if and only if no more bars are stored from the entry on than one pass takes.
Then, when nothing of the unit is due before the entry, the first pass takes them all. -/
theorem catchup_iff (cfg : WorkerConfig) (candles : Candles) (unit : Symbol × Timeframe)
    (store : LedgerStore) (q : PaperPositionRow)
    (hopen : ∀ k, (afterCycles cfg candles unit store k).positions.openRow unit.1 = some q) :
    ((∀ ts ∈ (candles unit.1 unit.2).stamps, q.entryTs < ts →
        ∃ k, HandedIn cfg candles unit store ts k) ↔
      (barsFrom (candles unit.1 unit.2) q.entryTs).length ≤ cfg.throttle) ∧
    ((barsFrom (candles unit.1 unit.2) q.entryTs).length ≤ cfg.throttle →
      earlyOrders (candles unit.1 unit.2) store unit q.entryTs = [] →
      ∀ ts ∈ (candles unit.1 unit.2).stamps, q.entryTs < ts →
        ∃ k, k * max 1 cfg.maxBars < (barsFrom (candles unit.1 unit.2) q.entryTs).length ∧
          HandedIn cfg candles unit store ts k) := by
  set bars := barsFrom (candles unit.1 unit.2) q.entryTs with hbars
  have hasc : bars.Pairwise (· < ·) := barsFrom_ascending _ _
  have hmemBars : ∀ ts ∈ (candles unit.1 unit.2).stamps, q.entryTs < ts → ts ∈ bars := by
    intro ts hts hafter
    exact List.mem_filter.mpr ⟨hts, by simpa using hafter.le⟩
  refine ⟨⟨?_, ?_⟩, ?_⟩
  · intro hall
    by_contra hlong
    -- The first bar beyond the throttle is after the entry and is never handed over.
    have hlt : cfg.throttle < bars.length := not_le.mp hlong
    set ts := bars[cfg.throttle] with hts
    have hmem : ts ∈ bars := List.getElem_mem hlt
    obtain ⟨hstored, hge⟩ := List.mem_filter.mp hmem
    have hpos : 0 < cfg.throttle := by
      show 0 < min (max 1 cfg.maxBars) candleLimit
      have : 0 < candleLimit := by decide
      omega
    have hfirst : bars[0] < ts := List.pairwise_iff_getElem.mp hasc 0 cfg.throttle _ hlt hpos
    have hentry : q.entryTs ≤ bars[0] := by
      simpa using (List.mem_filter.mp (List.getElem_mem (by omega : 0 < bars.length))).2
    obtain ⟨k, hk⟩ := hall ts hstored (lt_of_le_of_lt hentry hfirst)
    have hearly := handed_early (hopen k) hk (by simpa using hge)
    obtain ⟨i, hi, hval⟩ := List.mem_take_iff_getElem.mp hearly
    have hilt : i < cfg.throttle := lt_of_lt_of_le hi (min_le_left _ _)
    have hless : bars[i] < ts := List.pairwise_iff_getElem.mp hasc i cfg.throttle _ hlt hilt
    exact absurd hval (ne_of_lt hless)
  · intro hfits ts hts hafter
    obtain ⟨k, hk⟩ := eventually_settled cfg candles unit store hopen
    exact ⟨k, handed_of_settled (hopen k) hk hfits (hmemBars ts hts hafter)⟩
  · intro hfits hsettled ts hts hafter
    have hmem := hmemBars ts hts hafter
    refine ⟨0, ?_, handed_of_settled (hopen 0) hsettled hfits hmem⟩
    rw [Nat.zero_mul]
    exact List.length_pos_of_mem hmem

/-! ### A position nothing touches -/

/-- A position without stop or target, in a unit without orders, stays as it is. -/
theorem processUnit_quiet (cfg : WorkerConfig) (candles : Candles) {store : LedgerStore}
    {unit : Symbol × Timeframe} {q : PaperPositionRow}
    (hq : store.positions.openRow unit.1 = some q) (hstop : q.stopLoss = none)
    (htarget : q.takeProfit = none) (hnone : store.unitCandidates unit.1 unit.2 = []) :
    (processUnit cfg candles store unit none).positions.openRow unit.1 = some q ∧
      (processUnit cfg candles store unit none).unitCandidates unit.1 unit.2 = [] := by
  constructor
  · set plan := planUnit cfg (candles unit.1 unit.2) store unit.1 unit.2 with hplan
    have hcandidates : plan.candidates = [] :=
      (planUnit_candidates cfg (candles unit.1 unit.2) store unit.1 unit.2).trans hnone
    have heffects := (planUnit_along cfg (candles unit.1 unit.2) store unit.1 unit.2 none).2
    rw [hnone] at heffects
    have hstart : plan.ledger.store.positions.openRow unit.1 = some q := by
      rw [planUnit_positions]
      exact hq
    rw [processUnit_eq]
    show (Runs.run (handBar cfg unit.1 unit.2 plan.candidates) plan.ledger
      plan.window).store.positions.openRow unit.1 = some q
    rw [hcandidates]
    refine Runs.invariant (I := fun l => l.store.positions.openRow unit.1 = some q) ?_ hstart
      heffects
    intro l b hl heffect
    have hacting : l.store.actingAt unit.1 b.ts [] = none := by
      unfold LedgerStore.actingAt
      cases (l.store.positions.openRow unit.1).map (·.side) <;> rfl
    have hbreach : l.book.breached unit.1 b.close = false := by
      unfold Book.breached
      rw [show l.book.table.openRow unit.1 = some q from hl]
      simp [Position.exitPriceFor, hstop, htarget]
    have htable := congrArg Book.table heffect.book
    rw [hacting, Book.processBar_quiet cfg.snapshotInterval hbreach] at htable
    rw [show (handBar cfg unit.1 unit.2 [] l b).store.positions = l.store.positions from htable]
    exact hl
  · refine List.eq_nil_iff_forall_not_mem.mpr fun c hc => ?_
    have hmem := unitCandidates_shrink cfg candles store unit hc
    rw [hnone] at hmem
    exact absurd hmem (by simp)

theorem afterCycles_quiet (cfg : WorkerConfig) (candles : Candles) {store : LedgerStore}
    {unit : Symbol × Timeframe} {q : PaperPositionRow}
    (hq : store.positions.openRow unit.1 = some q) (hstop : q.stopLoss = none)
    (htarget : q.takeProfit = none) (hnone : store.unitCandidates unit.1 unit.2 = []) (k : ℕ) :
    (afterCycles cfg candles unit store k).positions.openRow unit.1 = some q := by
  have hboth : (afterCycles cfg candles unit store k).positions.openRow unit.1 = some q ∧
      (afterCycles cfg candles unit store k).unitCandidates unit.1 unit.2 = [] := by
    induction k with
    | zero => exact ⟨hq, hnone⟩
    | succ k ih =>
        rw [afterCycles_succ]
        exact processUnit_quiet cfg candles ih.1 hstop htarget ih.2
  exact hboth.1

omit [Digest]

/-- The unit of the examples. -/
def eurusdHour : Symbol × Timeframe := (.eurusd, .H1)

/-- Candles that open and close at 1.10, at the given hours. -/
def hours (stamps : List ℕ) (h : (stamps.map seconds).Pairwise (· < ·)) : Candles := fun _ tf =>
  match tf with
  | .H1 => ⟨(stamps.map seconds).map World.flatCandle, by
      rw [List.pairwise_map]
      exact h⟩
  | _ => .empty

/-- A long that was filled at 3600 and has neither stop nor target. -/
def filledLong : LedgerStore :=
  (@Runs.run _ _ (@World.step Digest.zero World.worker)
    (World.start Ledger.atZero (hours [3600] (by decide)))
    [.submit (Ledger.longOrder 1 .eurusd), .cycle (seconds 7200) fun _ => none]).store

theorem filledLong_open : ∃ q, filledLong.positions.openRow .eurusd = some q ∧
    q.stopLoss = none ∧ q.takeProfit = none ∧ q.entryTs = seconds 3600 := by
  have hrow : (filledLong.positions.openRow .eurusd).map
      (fun q => (q.stopLoss, q.takeProfit, q.entryTs)) = some (none, none, seconds 3600) := by
    decide +kernel
  obtain ⟨q, hq, hfields⟩ := Option.map_eq_some_iff.mp hrow
  refine ⟨q, hq, ?_, ?_, ?_⟩
  · exact congrArg (·.1) hfields
  · exact congrArg (·.2.1) hfields
  · exact congrArg (·.2.2) hfields

theorem filledLong_alone : filledLong.unitCandidates .eurusd .H1 = [] := by
  refine List.length_eq_zero_iff.mp ?_
  decide +kernel

/-- Two bars from the entry on and room for both: the second one is handed over. -/
theorem catchup_two_bars : ∃ q, filledLong.positions.openRow .eurusd = some q ∧
    ∀ ts ∈ (hours [3600, 7200] (by decide) .eurusd .H1).stamps, q.entryTs < ts →
      ∃ k, @HandedIn Digest.zero World.worker (hours [3600, 7200] (by decide)) eurusdHour
        filledLong ts k := by
  obtain ⟨q, hq, hstop, htarget, hentry⟩ := filledLong_open
  refine ⟨q, hq, ?_⟩
  refine (@catchup_iff Digest.zero World.worker (hours [3600, 7200] (by decide)) eurusdHour
    filledLong q ?_).1.mpr ?_
  · exact @afterCycles_quiet Digest.zero World.worker (hours [3600, 7200] (by decide)) filledLong
      eurusdHour q hq hstop htarget filledLong_alone
  · rw [hentry]
    decide +kernel

/-- Three bars from the entry on and one bar a cycle: each cycle hands the entry bar over
again, and the next one never. -/
theorem catchup_stuck : ¬ ∀ (_ : Digest) (cfg : WorkerConfig) (candles : Candles)
    (unit : Symbol × Timeframe) (store : LedgerStore) (q : PaperPositionRow), 1 ≤ cfg.maxBars →
    (∀ k, (afterCycles cfg candles unit store k).positions.openRow unit.1 = some q) →
    ∀ ts ∈ (candles unit.1 unit.2).stamps, q.entryTs < ts →
      ∃ k, HandedIn cfg candles unit store ts k := by
  intro h
  obtain ⟨q, hq, hstop, htarget, hentry⟩ := filledLong_open
  have hopen := @afterCycles_quiet Digest.zero { World.worker with maxBars := 1 }
    (hours [3600, 7200, 10800] (by decide)) filledLong eurusdHour q hq hstop htarget
    filledLong_alone
  obtain ⟨k, hk⟩ := h Digest.zero { World.worker with maxBars := 1 }
    (hours [3600, 7200, 10800] (by decide)) eurusdHour filledLong q (by decide) hopen
    (seconds 7200) (by decide +kernel) (by rw [hentry]; decide)
  have hearly := @handed_early (@afterCycles Digest.zero _ _ _ _ k) _ _ eurusdHour q (hopen k) _ hk
    (by rw [hentry]; decide)
  rw [hentry] at hearly
  exact absurd hearly (by decide +kernel)

end ForexAi
