/-
The bars that are new, and the bars that are announced.

An upsert stores the first candle of each bucket, under the start of the bucket; a row is new
when the bucket was not stored.  The announcement walks the candles as the provider returned
them, and stops at the limit of a cycle.  So a bar that was only refreshed is announced, a
bucket that came twice is announced twice, a candle that does not start its bucket is announced
under a stamp no row has, and what comes after the limit is stored and never announced.

`announced_iff` says that these are all the ways: the events are the new rows, each once,
exactly when the candles up to the limit start different buckets that were not stored, and the
rest bring none besides (`FreshBatch`).
-/
import ForexAi.Proofs.QuoteOrder
import Mathlib.Data.List.Nodup

namespace ForexAi

/-! ### The rows of an upsert -/

theorem mem_upsertRow {row c : Candle} {rows : List Candle} (h : rows.Pairwise (·.ts < ·.ts)) :
    c ∈ upsertRow row rows ↔ c = row ∨ (c ∈ rows ∧ c.ts ≠ row.ts) := by
  induction rows with
  | nil => simp [upsertRow]
  | cons d rest ih =>
      obtain ⟨hd, hrest⟩ := List.pairwise_cons.mp h
      unfold upsertRow
      by_cases hlt : row.ts < d.ts
      · rw [if_pos hlt, List.mem_cons]
        refine or_congr_right ⟨fun hmem => ⟨hmem, ?_⟩, fun hmem => hmem.1⟩
        rcases List.mem_cons.mp hmem with rfl | hmem
        · exact hlt.ne'
        · exact (hlt.trans (hd c hmem)).ne'
      · rw [if_neg hlt]
        by_cases heq : row.ts = d.ts
        · rw [if_pos heq, List.mem_cons, List.mem_cons]
          refine or_congr_right ⟨fun hmem => ⟨Or.inr hmem, ?_⟩, ?_⟩
          · rw [heq]
            exact (hd c hmem).ne'
          · rintro ⟨rfl | hmem, hne⟩
            · exact absurd heq.symm hne
            · exact hmem
        · rw [if_neg heq, List.mem_cons, List.mem_cons, ih hrest]
          constructor
          · rintro (rfl | rfl | ⟨hmem, hne⟩)
            · exact Or.inr ⟨Or.inl rfl, Ne.symm heq⟩
            · exact Or.inl rfl
            · exact Or.inr ⟨Or.inr hmem, hne⟩
          · rintro (rfl | ⟨rfl | hmem, hne⟩)
            · exact Or.inr (Or.inl rfl)
            · exact Or.inl rfl
            · exact Or.inr (Or.inr ⟨hmem, hne⟩)

/-- Rows of different stamps are all there after their upserts, and of the old ones the rest. -/
theorem mem_foldl_upsertRow {unique rows : List Candle} {c : Candle}
    (hunique : (unique.map (·.ts)).Nodup) (h : rows.Pairwise (·.ts < ·.ts)) :
    c ∈ unique.foldl (fun rows row => upsertRow row rows) rows ↔
      c ∈ unique ∨ (c ∈ rows ∧ c.ts ∉ unique.map (·.ts)) := by
  induction unique generalizing rows with
  | nil => simp
  | cons u rest ih =>
      rw [List.map_cons, List.nodup_cons] at hunique
      rw [List.foldl_cons, ih hunique.2 (upsertRow_ascending h), mem_upsertRow h, List.mem_cons,
        List.map_cons, List.mem_cons]
      constructor
      · rintro (hmem | ⟨rfl | ⟨hmem, hne⟩, hnot⟩)
        · exact Or.inl (Or.inr hmem)
        · exact Or.inl (Or.inl rfl)
        · exact Or.inr ⟨hmem, not_or.mpr ⟨hne, hnot⟩⟩
      · rintro ((rfl | hmem) | ⟨hmem, hnot⟩)
        · exact Or.inr ⟨Or.inl rfl, hunique.1⟩
        · exact Or.inl hmem
        · obtain ⟨hne, hrest⟩ := not_or.mp hnot
          exact Or.inr ⟨Or.inr ⟨hmem, hne⟩, hrest⟩

/-! ### The first candle of each bucket

The upsert takes one candle for each bucket and moves it to the start.  A batch of candles
that start their buckets, all of them different, is taken as it is.
-/

theorem uniqueCandles_nodup (candles : List Candle) (tf : Timeframe) :
    ((uniqueCandles candles tf).map (·.ts)).Nodup := by
  induction candles using List.reverseRecOn with
  | nil => exact List.nodup_nil
  | append_singleton rest c ih =>
      rw [uniqueCandles_concat]
      split
      · exact ih
      · rename_i hnew
        rw [List.map_append, List.map_singleton]
        exact List.nodup_append.mpr ⟨ih, List.nodup_singleton _, fun t ht u hu heq => by
          have hstart : t = alignToBucket c.ts tf := heq.trans (List.mem_singleton.mp hu)
          exact hnew (hstart ▸ ht)⟩

/-- A row of the upsert is a candle, put at the start of its bucket. -/
theorem uniqueCandles_of_mem {candles : List Candle} {tf : Timeframe} {u : Candle}
    (h : u ∈ uniqueCandles candles tf) :
    ∃ c ∈ candles, u = { c with ts := alignToBucket c.ts tf } := by
  induction candles using List.reverseRecOn with
  | nil => exact absurd h List.not_mem_nil
  | append_singleton rest c ih =>
      rw [uniqueCandles_concat] at h
      split at h
      · obtain ⟨d, hd, heq⟩ := ih h
        exact ⟨d, List.mem_append_left _ hd, heq⟩
      · rcases List.mem_append.mp h with h | h
        · obtain ⟨d, hd, heq⟩ := ih h
          exact ⟨d, List.mem_append_left _ hd, heq⟩
        · exact ⟨c, by simp, List.mem_singleton.mp h⟩

theorem uniqueCandles_subset (candles rest : List Candle) (tf : Timeframe) :
    uniqueCandles candles tf ⊆ uniqueCandles (candles ++ rest) tf := by
  induction rest using List.reverseRecOn with
  | nil => rw [List.append_nil]; exact List.Subset.refl _
  | append_singleton rest c ih =>
      rw [← List.append_assoc, uniqueCandles_concat]
      split
      · exact ih
      · exact List.Subset.trans ih (List.subset_append_left _ _)

/-- Starts of different buckets are kept as they are. -/
theorem uniqueCandles_of_starts {candles : List Candle} {tf : Timeframe}
    (hdistinct : (candles.map (·.ts)).Nodup) (hstarts : ∀ c ∈ candles, IsBucket tf c.ts) :
    uniqueCandles candles tf = candles := by
  induction candles using List.reverseRecOn with
  | nil => rfl
  | append_singleton rest c ih =>
      rw [List.map_append, List.nodup_append] at hdistinct
      have hrest := ih hdistinct.1 fun d hd => hstarts d (List.mem_append_left _ hd)
      have hstart : alignToBucket c.ts tf = c.ts := align_of_isBucket (hstarts c (by simp))
      rw [uniqueCandles_concat, hrest, hstart, if_neg]
      intro hmem
      exact hdistinct.2.2 c.ts hmem c.ts (by simp) rfl

/-! ### What is new

Old rows stay and keep their stamps, so a row is new by its stamp alone.  The announcement
knows nothing of the table, and the two agree for a reason of the batch.
-/

/-- The rows of a series that were not there before. -/
def newRows (before after : Series) : List Candle :=
  after.rows.filter fun c => decide (c.ts ∉ before.stamps)

theorem Series.rows_nodup (s : Series) : s.rows.Nodup := by
  refine s.ascending.imp ?_
  intro a b hlt heq
  rw [heq] at hlt
  exact lt_irrefl _ hlt

theorem newRows_upsertCandles (s : Series) (candles : List Candle) (tf : Timeframe) :
    (newRows s (s.upsertCandles candles tf).1).Perm
      ((uniqueCandles candles tf).filter fun c => decide (c.ts ∉ s.stamps)) := by
  have hunique := uniqueCandles_nodup candles tf
  refine (List.perm_ext_iff_of_nodup ((Series.rows_nodup _).filter _)
    ((List.Nodup.of_map _ hunique).filter _)).mpr fun c => ?_
  rw [List.mem_filter, List.mem_filter]
  refine and_congr_left fun hnew => ?_
  refine (mem_foldl_upsertRow hunique s.ascending).trans (or_iff_left ?_)
  rintro ⟨hold, -⟩
  exact of_decide_eq_true hnew (List.mem_map_of_mem hold)

/-- The candles that are announced are exactly the new ones: those up to the limit start
different buckets that were not stored, and the rest brings no bucket besides. -/
structure FreshBatch (limit : ℕ) (s : Series) (tf : Timeframe) (candles : List Candle) : Prop where
  distinct : ((candles.take limit).map (·.ts)).Nodup
  starts : ∀ c ∈ candles.take limit, IsBucket tf c.ts
  unstored : ∀ c ∈ candles.take limit, c.ts ∉ s.stamps
  rest : ∀ c ∈ candles.drop limit, alignToBucket c.ts tf ∈ s.stamps ∨
    alignToBucket c.ts tf ∈ (candles.take limit).map (·.ts)

/-- **When the announced candles are the new rows.** -/
theorem announced_iff (limit : ℕ) (s : Series) (tf : Timeframe) (candles : List Candle) :
    (candles.take limit).Perm (newRows s (s.upsertCandles candles tf).1) ↔
      FreshBatch limit s tf candles := by
  have hnew := newRows_upsertCandles s candles tf
  have hunique := uniqueCandles_nodup candles tf
  constructor
  · intro hperm
    have hall := hperm.trans hnew
    have hmem : ∀ c ∈ candles.take limit, c ∈ uniqueCandles candles tf ∧ c.ts ∉ s.stamps := by
      intro c hc
      have hc' := hall.mem_iff.mp hc
      rw [List.mem_filter, decide_eq_true_eq] at hc'
      exact hc'
    refine ⟨?_, fun c hc => ?_, fun c hc => (hmem c hc).2, fun c hc => ?_⟩
    · exact (hall.map _).nodup_iff.mpr (hunique.sublist (List.filter_sublist.map _))
    · obtain ⟨d, -, rfl⟩ := uniqueCandles_of_mem (hmem c hc).1
      exact isBucket_align d.ts tf
    · by_cases hstored : alignToBucket c.ts tf ∈ s.stamps
      · exact Or.inl hstored
      · obtain ⟨u, hu, hts⟩ := List.mem_map.mp
          (mem_uniqueCandles_ts.mpr ⟨c, List.mem_of_mem_drop hc, rfl⟩)
        refine Or.inr (List.mem_map.mpr ⟨u, hall.mem_iff.mpr ?_, hts⟩)
        rw [List.mem_filter, decide_eq_true_eq, hts]
        exact ⟨hu, hstored⟩
  · intro hfresh
    refine List.Perm.trans ?_ hnew.symm
    have hkept : ∀ c ∈ candles.take limit, c ∈ uniqueCandles candles tf := by
      intro c hc
      rw [← uniqueCandles_of_starts hfresh.distinct hfresh.starts] at hc
      have hsub := uniqueCandles_subset (candles.take limit) (candles.drop limit) tf hc
      rwa [List.take_append_drop] at hsub
    refine (List.perm_ext_iff_of_nodup (List.Nodup.of_map _ hfresh.distinct)
      ((List.Nodup.of_map _ hunique).filter _)).mpr fun c => ?_
    rw [List.mem_filter, decide_eq_true_eq]
    refine ⟨fun hc => ⟨hkept c hc, hfresh.unstored c hc⟩, ?_⟩
    rintro ⟨hc, hstored⟩
    obtain ⟨d, hd, rfl⟩ := uniqueCandles_of_mem hc
    rw [← List.take_append_drop limit candles, List.mem_append] at hd
    rcases hd with hd | hd
    · have hstart : alignToBucket d.ts tf = d.ts := align_of_isBucket (hfresh.starts d hd)
      rw [hstart]
      exact hd
    · rcases hfresh.rest d hd with hold | hfirst
      · exact absurd hold hstored
      · -- The bucket came before: there the row is the candle that is announced.
        obtain ⟨e, he, hts⟩ := List.mem_map.mp hfirst
        have hsame := List.inj_on_of_nodup_map hunique (hkept e he) hc hts
        rwa [← hsame]

namespace IngestService

variable {svc : IngestService}

theorem candles_providerFailed (st : IngestState) (c : SeriesCall) :
    (svc.providerFailed st c).2.candles = st.candles := by
  unfold providerFailed
  simp only
  split <;> rfl

theorem candles_saveCandles (st : IngestState) (c : SeriesCall) (start stop : Time)
    (returned : List ProviderCandle) :
    (saveCandles st c start stop returned).2.candles c.symbol c.timeframe
      = if c.upsertFault.isSome = true ∨ c.commitFault.isSome = true then
          st.candles c.symbol c.timeframe
        else ((st.candles c.symbol c.timeframe).upsertCandles
          ((returned.filter (·.complete)).map (·.bar)) c.timeframe).1 := by
  unfold saveCandles
  cases c.upsertFault with
  | some text => simp
  | none =>
      cases c.commitFault with
      | some text => simp
      | none =>
          simp only [Option.isSome_none, Bool.false_eq_true, or_self, if_false]
          split <;> simp

/-- What a series does to its table: nothing, or the upsert of the candles that arrived. -/
theorem candles_ingestSeries (st : IngestState) (c : SeriesCall) :
    (svc.ingestSeries st c).2.candles c.symbol c.timeframe
      = (svc.arrivals st c).elim (st.candles c.symbol c.timeframe) fun candles =>
          ((st.candles c.symbol c.timeframe).upsertCandles candles c.timeframe).1 := by
  have hwindow : ∀ b, svc.windowOf { st with breaker := b } c = svc.windowOf st c := fun _ => rfl
  unfold ingestSeries arrivals
  cases hgate : st.breaker.beforeCall svc.breaker c.admitAt with
  | error e => rfl
  | ok b =>
      simp only [hwindow]
      cases hread : c.readFault with
      | some text => simp
      | none =>
          by_cases hempty : (svc.windowOf st c).2 ≤ (svc.windowOf st c).1
          · simp [hempty]
          · simp only [hempty, or_false, Option.isSome_none, Bool.false_eq_true, if_false]
            cases hanswer : c.answer (svc.windowOf st c).1 (svc.windowOf st c).2 with
            | transient text =>
                simp only [candles_providerFailed]
                rfl
            | provider text =>
                simp only [candles_providerFailed]
                rfl
            | unexpected text => rfl
            | candles returned =>
                simp only [candles_saveCandles]
                split <;> rfl

/-! ### The events of a series

The publishes come after the commit, one for each announced candle, as long as they succeed.
-/

/-- No publish of the series fails. -/
structure AnnouncesSucceed (c : CycleCall) : Prop where
  built : c.publishFault = none
  published : ∀ k, c.bus.publishBar k = false

theorem publishBars_all {fails : ℕ → Bool} (h : ∀ k, fails k = false) (k : ℕ)
    (events : List BarClosedEvent) : publishBars fails k events = events := by
  induction events generalizing k with
  | nil => rfl
  | cons event rest ih =>
      unfold publishBars
      rw [h k, if_neg Bool.false_ne_true, ih]

/-- What a series announces: the candles that arrived, up to the limit. -/
theorem bars_afterSeries (st : PublishingState) {c : CycleCall} (h : AnnouncesSucceed c) :
    (svc.afterSeries st c).bars = st.bars ++
      (((svc.arrivals st.toIngestState c.toSeriesCall).getD []).take
        svc.settings.maxBarsPerCycle).map fun bar => ⟨c.symbol, c.timeframe, bar⟩ := by
  show (svc.publish _ c _).bars = _
  generalize (svc.arrivals st.toIngestState c.toSeriesCall).getD [] = candles
  unfold publish
  rw [h.built]
  cases hlatest : latestCandle candles with
  | none =>
      rw [Newest.pick_eq_none hlatest]
      simp
  | some latest =>
      unfold publishNewBars cacheQuote
      simp only [publishBars_all h.published]
      split
      · rfl
      · split <;> rfl

/-- The events of a series are the rows it inserted, each once. -/
def AnnouncesNew (st st' : PublishingState) (c : CycleCall) : Prop :=
  ∃ events, st'.bars = st.bars ++ events ∧
    (∀ e ∈ events, e.symbol = c.symbol ∧ e.timeframe = c.timeframe) ∧
    (events.map (·.bar)).Perm
      (newRows (st.candles c.symbol c.timeframe) (st'.candles c.symbol c.timeframe))

/-- **When `bar.closed` is one event a new row**, for every series and everything the provider
can return. -/
theorem new_bars_iff (st : PublishingState) {c : CycleCall} (h : AnnouncesSucceed c) :
    AnnouncesNew st (svc.afterSeries st c) c ↔
      ∀ candles, svc.arrivals st.toIngestState c.toSeriesCall = some candles →
        FreshBatch svc.settings.maxBarsPerCycle (st.candles c.symbol c.timeframe) c.timeframe
          candles := by
  have hbars : (svc.afterSeries st c).bars = _ := bars_afterSeries st h
  have htable : (svc.afterSeries st c).candles c.symbol c.timeframe = _ :=
    candles_ingestSeries st.toIngestState c.toSeriesCall
  have hmap : ∀ candles : List Candle,
      (candles.map fun bar => (⟨c.symbol, c.timeframe, bar⟩ : BarClosedEvent)).map (·.bar)
        = candles := by
    intro candles
    rw [List.map_map]
    exact List.map_id candles
  constructor
  · rintro ⟨events, hevents, -, hperm⟩ candles harrived
    rw [harrived] at hbars htable
    obtain rfl := List.append_cancel_left (hevents.symm.trans hbars)
    rw [htable, hmap] at hperm
    exact (announced_iff _ _ _ _).mp hperm
  · intro hfresh
    refine ⟨_, hbars, fun e he => ?_, ?_⟩
    · obtain ⟨bar, -, rfl⟩ := List.mem_map.mp he
      exact ⟨rfl, rfl⟩
    · rw [htable, hmap]
      cases harrived : svc.arrivals st.toIngestState c.toSeriesCall with
      | none =>
          have hnone : newRows (st.candles c.symbol c.timeframe)
              (st.candles c.symbol c.timeframe) = [] := by
            refine List.filter_eq_nil_iff.mpr fun row hrow hnew => ?_
            exact of_decide_eq_true hnew (List.mem_map_of_mem hrow)
          simp [hnone]
      | some candles => exact (announced_iff _ _ _ _).mpr (hfresh candles harrived)

end IngestService

/-! ### A refreshed bar -/

/-- A backfill of the hour from eleven, which is stored. -/
def backfillHour : CycleCall :=
  { beforeOne (-seconds 3600) with
    timeframe := .H1
    forcedStart := some (-seconds 3600)
    forcedEnd := some 0 }

/-- The bar of the hour from eleven is stored. -/
def hourStored : PublishingState :=
  IngestService.defaultService.afterSeries emptyTables.unpublished backfillHour

/-- A bar that is backfilled again is announced again. -/
theorem refreshed_bar_announced : ¬ ∀ (svc : IngestService) (st : PublishingState) (c : CycleCall),
    IngestService.AnnouncesSucceed c →
      IngestService.AnnouncesNew st (svc.afterSeries st c) c := by
  intro h
  obtain ⟨events, hevents, -, hperm⟩ :=
    h .defaultService hourStored backfillHour ⟨rfl, fun _ => rfl⟩
  have hbefore : hourStored.bars.length = 1 := by decide +kernel
  have hafter : (IngestService.defaultService.afterSeries hourStored backfillHour).bars.length
      = 2 := by
    decide +kernel
  have hnone : newRows (hourStored.candles .eurusd .H1)
      ((IngestService.defaultService.afterSeries hourStored backfillHour).candles .eurusd .H1)
        = [] := by
    decide +kernel
  have hlength := hperm.length_eq
  rw [hevents, List.length_append, hbefore] at hafter
  rw [List.length_map] at hlength
  have hzero : events.length = 0 := hlength.trans (congrArg List.length hnone)
  omega

/-- The first time it is announced once. -/
theorem new_bar_announced :
    IngestService.AnnouncesNew emptyTables.unpublished hourStored backfillHour := by
  refine (IngestService.new_bars_iff _ ⟨rfl, fun _ => rfl⟩).mpr fun candles harrived => ?_
  obtain rfl : [⟨-seconds 3600, 1, 1, 1, 1⟩] = candles := Option.some.inj harrived
  refine ⟨by decide, fun bar hbar => ?_, by decide, by simp [IngestService.defaultService]⟩
  rw [List.mem_singleton.mp (List.mem_of_mem_take hbar)]
  exact ⟨-1, by decide⟩

end ForexAi
