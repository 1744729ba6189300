/-
One bad series and the others.

Whatever goes wrong in a series is caught and told in its result, with one exception: the two
handlers of a provider error write the snapshot of the breaker, and what that raises nobody
catches.  So a cycle gives one result for every pair, in order, exactly when no series both
gets a provider error and fails to write the snapshot (`SnapshotLost`); a failure anywhere
else, of the bus too, costs nothing but its own series.

`attempt_iff` is one series; `ingestAll_iff` is the induction over the series of a cycle.
-/
import ForexAi.Data.IngestCycle

namespace ForexAi

namespace IngestService

variable (svc : IngestService)

/-- The provider is called for the series and raises a provider error, and the snapshot of the
breaker cannot be written after it. -/
structure SnapshotLost (st : IngestState) (c : SeriesCall) : Prop where
  admitted : ∃ b, st.breaker.beforeCall svc.breaker c.admitAt = .ok b
  read : c.readFault = none
  window : (svc.windowOf st c).1 < (svc.windowOf st c).2
  error : (∃ text, c.answer (svc.windowOf st c).1 (svc.windowOf st c).2 = .transient text) ∨
    ∃ text, c.answer (svc.windowOf st c).1 (svc.windowOf st c).2 = .provider text
  unwritten : c.snapshot = false

theorem saveCandles_result (st : IngestState) (c : SeriesCall) (start stop : Time)
    (returned : List ProviderCandle) :
    (saveCandles st c start stop returned).1.symbol = c.symbol ∧
      (saveCandles st c start stop returned).1.timeframe = c.timeframe ∧
      (saveCandles st c start stop returned).1.skipped.any IngestSkip.writesSnapshot = false := by
  unfold saveCandles
  cases c.upsertFault with
  | some text => exact ⟨rfl, rfl, rfl⟩
  | none =>
      cases c.commitFault with
      | some text => exact ⟨rfl, rfl, rfl⟩
      | none =>
          simp only
          split
          · exact ⟨rfl, rfl, rfl⟩
          · exact ⟨rfl, rfl, rfl⟩

/-- The result of a series is about it, and tells of a provider error exactly where the provider
raised one. -/
theorem ingestSeries_result (st : IngestState) (c : SeriesCall) :
    (svc.ingestSeries st c).1.symbol = c.symbol ∧
      (svc.ingestSeries st c).1.timeframe = c.timeframe ∧
      ((svc.ingestSeries st c).1.skipped.any IngestSkip.writesSnapshot = true ↔
        (∃ b, st.breaker.beforeCall svc.breaker c.admitAt = .ok b) ∧ c.readFault = none ∧
        (svc.windowOf st c).1 < (svc.windowOf st c).2 ∧
        ((∃ text, c.answer (svc.windowOf st c).1 (svc.windowOf st c).2 = .transient text) ∨
          ∃ text, c.answer (svc.windowOf st c).1 (svc.windowOf st c).2 = .provider text)) := by
  have hwindow : ∀ b, svc.windowOf { st with breaker := b } c = svc.windowOf st c := fun _ => rfl
  unfold ingestSeries
  cases hgate : st.breaker.beforeCall svc.breaker c.admitAt with
  | error e => exact ⟨rfl, rfl, iff_of_false Bool.false_ne_true (by simp)⟩
  | ok b =>
      simp only
      cases hread : c.readFault with
      | some text => exact ⟨rfl, rfl, iff_of_false Bool.false_ne_true (by simp)⟩
      | none =>
          simp only [hwindow]
          by_cases hempty : (svc.windowOf st c).2 ≤ (svc.windowOf st c).1
          · rw [if_pos hempty]
            exact ⟨rfl, rfl, iff_of_false Bool.false_ne_true fun h =>
              absurd h.2.2.1 (not_lt.mpr hempty)⟩
          · rw [if_neg hempty]
            cases hanswer : c.answer (svc.windowOf st c).1 (svc.windowOf st c).2 with
            | transient text => exact ⟨rfl, rfl, iff_of_true rfl (by simp [not_le.mp hempty])⟩
            | provider text => exact ⟨rfl, rfl, iff_of_true rfl (by simp [not_le.mp hempty])⟩
            | unexpected text => exact ⟨rfl, rfl, iff_of_false Bool.false_ne_true (by simp)⟩
            | candles returned =>
                obtain ⟨hsymbol, htimeframe, hsaved⟩ := saveCandles_result
                  { st with breaker := b, calls := st.calls ++ [.returned] } c
                  (svc.windowOf st c).1 (svc.windowOf st c).2 returned
                refine ⟨hsymbol, htimeframe, ?_⟩
                rw [hsaved]
                exact iff_of_false Bool.false_ne_true (by simp)

/-- An exception leaves a series exactly where its snapshot is lost. -/
theorem attempt_iff (st : PublishingState) (c : CycleCall) :
    (svc.attempt st c).1 = none ↔ svc.SnapshotLost st.toIngestState c.toSeriesCall := by
  have hresult := (svc.ingestSeries_result st.toIngestState c.toSeriesCall).2.2
  show (if (svc.ingestSeries st.toIngestState c.toSeriesCall).1.skipped.any
    IngestSkip.writesSnapshot && !c.snapshot then none
      else some (svc.ingestSeries st.toIngestState c.toSeriesCall).1) = none ↔ _
  rw [ite_eq_left_iff]
  simp only [reduceCtorEq, imp_false, not_not, Bool.and_eq_true, Bool.not_eq_true', hresult]
  constructor
  · rintro ⟨⟨hadmitted, hread, hwindow, herror⟩, hunwritten⟩
    exact ⟨hadmitted, hread, hwindow, herror, hunwritten⟩
  · rintro ⟨hadmitted, hread, hwindow, herror, hunwritten⟩
    exact ⟨⟨hadmitted, hread, hwindow, herror⟩, hunwritten⟩

/-- A series that ends with a result ends with one about it. -/
theorem attempt_result {st : PublishingState} {c : CycleCall} {result : SeriesResult}
    (h : (svc.attempt st c).1 = some result) :
    (result.symbol, result.timeframe) = (c.symbol, c.timeframe) := by
  obtain ⟨hsymbol, htimeframe, -⟩ := svc.ingestSeries_result st.toIngestState c.toSeriesCall
  unfold attempt at h
  simp only at h
  split at h
  · exact absurd h (by simp)
  · obtain rfl := Option.some.inj h
    rw [hsymbol, htimeframe]

/-- The state after a series. -/
def afterSeries (st : PublishingState) (c : CycleCall) : PublishingState := (svc.attempt st c).2

theorem ingestAll_raised {st : PublishingState} {c : CycleCall} (rest : List CycleCall)
    (h : (svc.attempt st c).1 = none) :
    svc.ingestAll st (c :: rest) = (none, svc.afterSeries st c) := by
  unfold ingestAll
  simp only [h]
  rfl

theorem ingestAll_ended {st : PublishingState} {c : CycleCall} (rest : List CycleCall)
    {result : SeriesResult} (h : (svc.attempt st c).1 = some result) :
    svc.ingestAll st (c :: rest)
      = ((svc.ingestAll (svc.afterSeries st c) rest).1.map (result :: ·),
          (svc.ingestAll (svc.afterSeries st c) rest).2) := by
  rw [ingestAll]
  simp only [h]
  rfl

/-- **The series of a cycle**: one result each, in order, exactly when none of them loses its
snapshot. -/
theorem ingestAll_iff (st : PublishingState) (calls : List CycleCall) :
    (∃ results, (svc.ingestAll st calls).1 = some results ∧
        results.map (fun r => (r.symbol, r.timeframe))
          = calls.map fun c => (c.symbol, c.timeframe)) ↔
      Runs.Along svc.afterSeries
        (fun st c => ¬ svc.SnapshotLost st.toIngestState c.toSeriesCall) st calls := by
  induction calls generalizing st with
  | nil => exact iff_of_true ⟨[], rfl, rfl⟩ trivial
  | cons c rest ih =>
      show _ ↔ ¬ svc.SnapshotLost st.toIngestState c.toSeriesCall ∧
        Runs.Along svc.afterSeries _ (svc.afterSeries st c) rest
      rw [← ih, ← svc.attempt_iff]
      cases hfirst : (svc.attempt st c).1 with
      | none =>
          rw [svc.ingestAll_raised rest hfirst]
          simp
      | some result =>
          rw [svc.ingestAll_ended rest hfirst]
          simp only [reduceCtorEq, not_false_eq_true, true_and, Option.map_eq_some_iff,
            List.map_cons]
          constructor
          · rintro ⟨_, ⟨results, hresults, rfl⟩, hkeys⟩
            exact ⟨results, hresults, (List.cons.inj hkeys).2⟩
          · rintro ⟨results, hresults, hkeys⟩
            refine ⟨_, ⟨results, hresults, rfl⟩, ?_⟩
            rw [List.map_cons, svc.attempt_result hfirst]
            exact congrArg _ hkeys

theorem cycleCalls_pairs (instruments : List Symbol) (timeframes : List Timeframe)
    (range : Option (Time × Time)) (world : ℕ → CycleCall) :
    (cycleCalls instruments timeframes range world).map (fun c => (c.symbol, c.timeframe))
      = seriesPairs instruments timeframes := by
  refine List.ext_getElem? fun i => ?_
  unfold cycleCalls
  rw [List.getElem?_map, List.getElem?_mapIdx]
  cases (seriesPairs instruments timeframes)[i]? <;> rfl

/-- **When a cycle gives one result a pair**, in order. -/
theorem run_cycle_iff (st : PublishingState) (instruments : List Symbol)
    (timeframes : List Timeframe) (world : ℕ → CycleCall) :
    (∃ results, (svc.runCycle st instruments timeframes world).1 = some results ∧
        results.map (fun r => (r.symbol, r.timeframe)) = seriesPairs instruments timeframes) ↔
      Runs.Along svc.afterSeries
        (fun st c => ¬ svc.SnapshotLost st.toIngestState c.toSeriesCall) st
        (cycleCalls instruments timeframes none world) := by
  rw [← svc.ingestAll_iff, cycleCalls_pairs]
  rfl

end IngestService

/-- A service before its first cycle. -/
def emptyTables : IngestState where
  breaker := .new
  health := none
  candles := fun _ _ => .empty
  calls := []

/-- The provider times out, and the database is away when that is written down. -/
def timedOut : CycleCall where
  symbol := .eurusd
  timeframe := .H1
  admitAt := seconds 3660
  windowAt := seconds 3660
  failAt := seconds 3661
  persistAt := seconds 3661
  answer := fun _ _ => .transient "timeout"
  snapshot := false

/-- One series that times out ends the cycle, and its exception leaves it. -/
theorem timeout_ends_cycle : ¬ ∀ (svc : IngestService) (st : PublishingState)
    (instruments : List Symbol) (timeframes : List Timeframe) (world : ℕ → CycleCall),
    ∃ results, (svc.runCycle st instruments timeframes world).1 = some results ∧
      results.map (fun r => (r.symbol, r.timeframe))
        = IngestService.seriesPairs instruments timeframes := by
  intro h
  obtain ⟨results, hresults, -⟩ := h .defaultService emptyTables.unpublished
    [.eurusd, .gbpusd] [.H1] fun _ => timedOut
  have hraised : (IngestService.defaultService.runCycle emptyTables.unpublished
      [.eurusd, .gbpusd] [.H1] fun _ => timedOut).1.isNone = true := by
    decide +kernel
  rw [hresults] at hraised
  exact absurd hraised (by simp)

end ForexAi
