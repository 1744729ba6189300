/-
The latest price, and the latest candle.

Every series that brings candles overwrites the cached quote of its symbol with its own
latest candle, whatever is there.  So the cache holds the latest price ingested, by the time
its candle closed, as long as each series brings a candle that closed no earlier than any
before it (`NewestLast`): that is kept by a series (`quoteLatest_step`), and so by any cycles
and backfills (`quote_latest`).  A bar of a longer timeframe that comes late, or a backfill
of the past, breaks it.
-/
import ForexAi.Proofs.CycleOutcome

namespace ForexAi

/-! ### Runs of cycles

A cycle goes through its series until one raises, and a backfill is a cycle of one series.  So
what is done to the cache and the tables is a list of series, whatever it was asked as.
-/

/-- A cycle, or a backfill of a range. -/
inductive CycleOp where
  | cycle (instruments : List Symbol) (timeframes : List Timeframe) (world : ℕ → CycleCall)
  | backfill (instruments : List Symbol) (timeframes : List Timeframe) (start stop : Time)
      (world : ℕ → CycleCall)

namespace IngestService

variable (svc : IngestService)

/-- What `run_cycle` and `run_backfill` do. -/
def perform (st : PublishingState) : CycleOp → Option (List SeriesResult) × PublishingState
  | .cycle instruments timeframes world => svc.runCycle st instruments timeframes world
  | .backfill instruments timeframes start stop world =>
      svc.runBackfill st instruments timeframes start stop world

/-- The series a cycle gets to: up to one that ends in an exception, and that one. -/
def reached (st : PublishingState) : List CycleCall → List CycleCall
  | [] => []
  | c :: rest =>
      if (svc.attempt st c).1.isNone then [c] else c :: reached (svc.afterSeries st c) rest

theorem ingestAll_reached (st : PublishingState) (calls : List CycleCall) :
    (svc.ingestAll st calls).2 = Runs.run svc.afterSeries st (svc.reached st calls) := by
  induction calls generalizing st with
  | nil => rfl
  | cons c rest ih =>
      unfold reached
      cases hfirst : (svc.attempt st c).1 with
      | none =>
          rw [svc.ingestAll_raised rest hfirst]
          rfl
      | some result =>
          rw [svc.ingestAll_ended rest hfirst]
          exact ih (svc.afterSeries st c)

/-- The series of an operation that are ingested. -/
def seriesOfOp (st : PublishingState) : CycleOp → List CycleCall
  | .cycle instruments timeframes world =>
      svc.reached st (cycleCalls instruments timeframes none world)
  | .backfill instruments timeframes start stop world =>
      if stop ≤ start then []
      else svc.reached st (cycleCalls instruments timeframes (some (start, stop)) world)

theorem perform_run (st : PublishingState) (op : CycleOp) :
    (svc.perform st op).2 = Runs.run svc.afterSeries st (svc.seriesOfOp st op) := by
  cases op with
  | cycle instruments timeframes world => exact svc.ingestAll_reached st _
  | backfill instruments timeframes start stop world =>
      unfold perform runBackfill seriesOfOp
      simp only
      by_cases hempty : stop ≤ start
      · rw [if_pos hempty, if_pos hempty]
        rfl
      · rw [if_neg hempty, if_neg hempty]
        exact svc.ingestAll_reached st _

/-- The series of some operations, in the order they are ingested. -/
def seriesOfOps (st : PublishingState) : List CycleOp → List CycleCall
  | [] => []
  | op :: rest => svc.seriesOfOp st op ++ seriesOfOps (svc.perform st op).2 rest

/-- Cycles and backfills are runs of series. -/
theorem performs_run (st : PublishingState) (ops : List CycleOp) :
    Runs.run (fun st op => (svc.perform st op).2) st ops
      = Runs.run svc.afterSeries st (svc.seriesOfOps st ops) := by
  induction ops generalizing st with
  | nil => rfl
  | cons op rest ih =>
      show _ = Runs.run svc.afterSeries st
        (svc.seriesOfOp st op ++ svc.seriesOfOps (svc.perform st op).2 rest)
      rw [Runs.run_cons, ih, Runs.run_append, svc.perform_run]

/-! ### The quote

The cache says nothing of the candle it was written for.  Beside it runs the record of what
was ingested, and a quote is right when it is that of a latest candle on the record.
-/

/-- The quote of a symbol is that of an ingested candle of the greatest close time, and there is
none where nothing was ingested. -/
structure QuoteLatest (st : PublishingState) (symbol : Symbol) : Prop where
  none : (∀ i ∈ st.ingested, i.symbol ≠ symbol) → st.quotes symbol = none
  some : (∃ i ∈ st.ingested, i.symbol = symbol) → ∃ i ∈ st.ingested, i.symbol = symbol ∧
    st.quotes symbol = some (svc.quoteOf symbol i.bar) ∧
    ∀ j ∈ st.ingested, j.symbol = symbol → j.closeTime ≤ i.closeTime

/-- Every publish of a series succeeds. -/
structure PublishesSucceed (c : CycleCall) : Prop where
  built : c.publishFault = none
  cached : c.bus.setLatestPrice = false

/-- The latest candle a series brings closed no earlier than any candle of the symbol that was
ingested before. -/
def NewestLast (st : PublishingState) (c : CycleCall) : Prop :=
  ∀ candles latest, svc.arrivals st.toIngestState c.toSeriesCall = some candles →
    latestCandle candles = some latest →
    ∀ i ∈ st.ingested, i.symbol = c.symbol → i.closeTime ≤ latest.ts + c.timeframe.length

variable {svc}

theorem publish_ingested (st : PublishingState) (c : CycleCall) (candles : List Candle) :
    (svc.publish st c candles).ingested = st.ingested := by
  unfold publish
  split
  · unfold publishNewBars cacheQuote
    simp only
    split
    · rfl
    · split <;> rfl
  · rfl

theorem afterSeries_ingested (st : PublishingState) (c : CycleCall) :
    (svc.afterSeries st c).ingested = st.ingested ++
      ((svc.arrivals st.toIngestState c.toSeriesCall).getD []).map fun bar =>
        ⟨c.symbol, c.timeframe, bar⟩ :=
  publish_ingested _ c _

/-- What a series leaves in the cache: the quote of its latest candle, if it brought any. -/
theorem afterSeries_quotes (st : PublishingState) {c : CycleCall} (hsucceed : PublishesSucceed c) :
    (svc.afterSeries st c).quotes
      = (latestCandle ((svc.arrivals st.toIngestState c.toSeriesCall).getD [])).elim st.quotes
          fun latest =>
            Function.update st.quotes c.symbol (some (svc.quoteOf c.symbol latest)) := by
  show (svc.publish _ c _).quotes = _
  unfold publish
  rw [hsucceed.built]
  cases latestCandle ((svc.arrivals st.toIngestState c.toSeriesCall).getD []) with
  | none => rfl
  | some latest =>
      unfold publishNewBars cacheQuote
      simp only [hsucceed.cached, Bool.false_eq_true, if_false]
      split <;> rfl

theorem le_latestCandle {candles : List Candle} {latest : Candle}
    (h : latestCandle candles = some latest) : ∀ bar ∈ candles, bar.ts ≤ latest.ts := by
  obtain ⟨before, after, rfl, hbefore, hafter⟩ := (Newest.pick_lt_iff _).mp h
  intro bar hbar
  rcases List.mem_append.mp hbar with hbar | hbar
  · exact (hbefore bar hbar).le
  · rcases List.mem_cons.mp hbar with rfl | hbar
    · exact le_refl _
    · exact not_lt.mp (hafter bar hbar)

theorem QuoteLatest.congr {st st' : PublishingState} {symbol : Symbol}
    (h : svc.QuoteLatest st symbol) (hquote : st'.quotes symbol = st.quotes symbol)
    (hingested : ∀ i, (i ∈ st'.ingested ∧ i.symbol = symbol) ↔
      i ∈ st.ingested ∧ i.symbol = symbol) : svc.QuoteLatest st' symbol := by
  refine ⟨fun hnone => ?_, ?_⟩
  · rw [hquote]
    refine h.none fun i hi hsame => ?_
    exact hnone i ((hingested i).mpr ⟨hi, hsame⟩).1 hsame
  · rintro ⟨i, hi, hsame⟩
    obtain ⟨j, hj, hjsymbol, hlatest, hmax⟩ := h.some ⟨i, (hingested i).mp ⟨hi, hsame⟩⟩
    refine ⟨j, ((hingested j).mpr ⟨hj, hjsymbol⟩).1, hjsymbol, hquote.trans hlatest, ?_⟩
    intro k hk hksymbol
    exact hmax k ((hingested k).mp ⟨hk, hksymbol⟩).1 hksymbol

/-- The quote is right after candles of which one closed no earlier than all before. -/
theorem quoteLatest_arrived {st st' : PublishingState} {c : CycleCall} {candles : List Candle}
    {latest : Candle} (hlatest : latestCandle candles = some latest)
    (hquote : st'.quotes c.symbol = some (svc.quoteOf c.symbol latest))
    (hingested : st'.ingested = st.ingested ++
      candles.map fun bar => ⟨c.symbol, c.timeframe, bar⟩)
    (hnewest : ∀ i ∈ st.ingested, i.symbol = c.symbol →
      i.closeTime ≤ latest.ts + c.timeframe.length) : svc.QuoteLatest st' c.symbol := by
  have hmem : (⟨c.symbol, c.timeframe, latest⟩ : Ingested) ∈ st'.ingested := by
    rw [hingested]
    exact List.mem_append_right _ (List.mem_map_of_mem (Newest.pick_mem hlatest))
  refine ⟨fun hnone => absurd rfl (hnone _ hmem), fun _ => ⟨_, hmem, rfl, hquote, ?_⟩⟩
  intro j hj hjsymbol
  rw [hingested] at hj
  rcases List.mem_append.mp hj with hj | hj
  · exact hnewest j hj hjsymbol
  · obtain ⟨bar, hbar, rfl⟩ := List.mem_map.mp hj
    exact add_le_add_left (le_latestCandle hlatest bar hbar) _

/-- **A series keeps the quotes right** when its latest candle is the latest of all. -/
theorem quoteLatest_step {st : PublishingState} {c : CycleCall} (hsucceed : PublishesSucceed c)
    (hnewest : svc.NewestLast st c) (h : ∀ symbol, svc.QuoteLatest st symbol) (symbol : Symbol) :
    svc.QuoteLatest (svc.afterSeries st c) symbol := by
  have hquotes := svc.afterSeries_quotes st hsucceed
  have hingested := svc.afterSeries_ingested st c
  cases harrived : svc.arrivals st.toIngestState c.toSeriesCall with
  | none =>
      -- No candle came: the record and the cache are as before.
      rw [harrived] at hquotes hingested
      refine (h symbol).congr (congrFun hquotes symbol) fun i => ?_
      rw [hingested, Option.getD_none, List.map_nil, List.append_nil]
  | some candles =>
      rw [harrived, Option.getD_some] at hquotes hingested
      cases hlatest : latestCandle candles with
      | none =>
          rw [hlatest] at hquotes
          refine (h symbol).congr (congrFun hquotes symbol) fun i => ?_
          rw [hingested, Newest.pick_eq_none hlatest, List.map_nil, List.append_nil]
      | some latest =>
          rw [hlatest] at hquotes
          by_cases hsymbol : symbol = c.symbol
          · subst hsymbol
            refine quoteLatest_arrived hlatest ?_ hingested
              (hnewest candles latest harrived hlatest)
            rw [hquotes]
            exact Function.update_self ..
          · -- Another symbol: its quote is untouched, and nothing of it was added.
            refine (h symbol).congr ?_ fun i => ?_
            · rw [hquotes]
              exact Function.update_of_ne hsymbol _ _
            · rw [hingested]
              refine and_congr_left fun hi => ⟨fun hmem => ?_, List.mem_append_left _⟩
              rcases List.mem_append.mp hmem with hmem | hmem
              · exact hmem
              · obtain ⟨bar, -, rfl⟩ := List.mem_map.mp hmem
                exact absurd hi.symm hsymbol

/-- The quote after a series is the right one, and no earlier than any candle before it. -/
structure QuoteForward (svc : IngestService) (st st' : PublishingState) (symbol : Symbol) :
    Prop where
  latest : svc.QuoteLatest st' symbol
  forward : ∀ i ∈ st.ingested, i.symbol = symbol → ∃ j ∈ st'.ingested, j.symbol = symbol ∧
    st'.quotes symbol = some (svc.quoteOf symbol j.bar) ∧ i.closeTime ≤ j.closeTime

/-- **The latest price never goes back**, over any cycles and backfills in which every series
that brings candles brings the latest one, and it is the latest one when they are over. -/
theorem quote_latest (svc : IngestService) (start : IngestState) (ops : List CycleOp)
    (hsucceed : ∀ c ∈ svc.seriesOfOps start.unpublished ops, PublishesSucceed c)
    (hnewest : Runs.Along svc.afterSeries svc.NewestLast start.unpublished
      (svc.seriesOfOps start.unpublished ops)) :
    Runs.Along svc.afterSeries
        (fun st c => ∀ symbol, QuoteForward svc st (svc.afterSeries st c) symbol)
        start.unpublished (svc.seriesOfOps start.unpublished ops) ∧
      ∀ symbol, svc.QuoteLatest
        (Runs.run (fun st op => (svc.perform st op).2) start.unpublished ops) symbol := by
  have hboth : Runs.Along svc.afterSeries
      (fun st c => PublishesSucceed c ∧ svc.NewestLast st c) start.unpublished
      (svc.seriesOfOps start.unpublished ops) :=
    Runs.along_and.mpr ⟨Runs.along_mem.mono fun _ c hc => hsucceed c hc, hnewest⟩
  have hfirst : ∀ symbol, svc.QuoteLatest start.unpublished symbol := by
    intro symbol
    refine ⟨fun _ => rfl, ?_⟩
    rintro ⟨i, hi, -⟩
    exact absurd hi List.not_mem_nil
  have hstep : ∀ st c, (∀ symbol, svc.QuoteLatest st symbol) →
      PublishesSucceed c ∧ svc.NewestLast st c →
        ∀ symbol, svc.QuoteLatest (svc.afterSeries st c) symbol :=
    fun st c h hc => quoteLatest_step hc.1 hc.2 h
  refine ⟨?_, by rw [svc.performs_run]; exact Runs.invariant hstep hfirst hboth⟩
  refine (Runs.along_and.mpr ⟨hboth.invariant hstep hfirst, hboth⟩).mono ?_
  rintro st c ⟨h, hsucceeds, hlast⟩ symbol
  have hafter := quoteLatest_step hsucceeds hlast h symbol
  refine ⟨hafter, fun i hi hsymbol => ?_⟩
  have hkept : i ∈ (svc.afterSeries st c).ingested := by
    rw [afterSeries_ingested]
    exact List.mem_append_left _ hi
  obtain ⟨j, hj, hjsymbol, hquote, hmax⟩ := hafter.some ⟨i, hkept, hsymbol⟩
  exact ⟨j, hj, hjsymbol, hquote, hmax i hkept hsymbol⟩

end IngestService

/-! ### A first cycle -/

/-- A series at three minutes to one, for which the provider has one bar. -/
def beforeOne (ts : Time) : CycleCall where
  symbol := .eurusd
  timeframe := .M5
  admitAt := seconds 3420
  windowAt := seconds 3420
  failAt := seconds 3420
  persistAt := seconds 3420
  answer := fun _ _ => .candles [⟨⟨ts, 1, 1, 1, 1⟩, true⟩]

/-- The bars of five minutes, the last one from ten to one, and then those of an hour, the last
one from eleven. -/
def firstCycle : CycleOp :=
  .cycle [.eurusd] [.M5, .H1] fun k => beforeOne (if k = 0 then seconds 3000 else -seconds 3600)

/-- After the five minutes. -/
def afterFives : PublishingState :=
  IngestService.defaultService.afterSeries emptyTables.unpublished (beforeOne (seconds 3000))

/-- After the hour. -/
def afterHour : PublishingState :=
  IngestService.defaultService.afterSeries afterFives
    { beforeOne (-seconds 3600) with timeframe := .H1 }

/-- The first cycle leaves the price of an hour ago in the cache. -/
theorem coarse_bar_goes_back : ¬ ∀ (svc : IngestService) (start : IngestState)
    (ops : List CycleOp),
    (∀ c ∈ svc.seriesOfOps start.unpublished ops, IngestService.PublishesSucceed c) →
      Runs.Along svc.afterSeries (fun st c => ∀ symbol,
          IngestService.QuoteForward svc st (svc.afterSeries st c) symbol) start.unpublished
        (svc.seriesOfOps start.unpublished ops) := by
  intro h
  have halong := h .defaultService emptyTables [firstCycle] fun c hc => by
    rcases List.mem_cons.mp hc with rfl | hc
    · exact ⟨rfl, rfl⟩
    · rw [List.mem_singleton.mp hc]
      exact ⟨rfl, rfl⟩
  have hsecond : IngestService.QuoteForward .defaultService afterFives afterHour .eurusd :=
    halong.2.1 .eurusd
  have hfives : ∃ i ∈ afterFives.ingested, i.symbol = .eurusd ∧ i.closeTime = seconds 3300 := by
    decide +kernel
  have hhour : ∀ j ∈ afterHour.ingested,
      afterHour.quotes .eurusd = some (IngestService.defaultService.quoteOf .eurusd j.bar) →
        j.closeTime = 0 := by
    decide +kernel
  obtain ⟨i, hi, hsymbol, hclose⟩ := hfives
  obtain ⟨j, hj, -, hquote, hle⟩ := hsecond.forward i hi hsymbol
  rw [hclose, hhour j hj hquote] at hle
  exact absurd hle (by decide)

/-- The hour first, and then the five minutes. -/
def coarseFirst : CycleOp :=
  .cycle [.eurusd] [.H1, .M5] fun k => beforeOne (if k = 0 then -seconds 3600 else seconds 3000)

/-- A cycle in that order keeps it right. -/
theorem fine_bars_go_forward :
    Runs.Along IngestService.defaultService.afterSeries (fun st c => ∀ symbol,
        IngestService.QuoteForward .defaultService st
          (IngestService.defaultService.afterSeries st c) symbol) emptyTables.unpublished
        (IngestService.defaultService.seriesOfOps emptyTables.unpublished [coarseFirst]) ∧
      ∀ symbol, IngestService.QuoteLatest .defaultService
        (Runs.run (fun st op => (IngestService.defaultService.perform st op).2)
          emptyTables.unpublished [coarseFirst]) symbol := by
  refine IngestService.quote_latest _ _ _ (fun c hc => ?_) ⟨?_, ?_, trivial⟩
  · rcases List.mem_cons.mp hc with rfl | hc
    · exact ⟨rfl, rfl⟩
    · rw [List.mem_singleton.mp hc]
      exact ⟨rfl, rfl⟩
  · intro candles latest _ _ i hi
    exact absurd hi List.not_mem_nil
  · have harrived : IngestService.defaultService.arrivals
        (IngestService.defaultService.afterSeries emptyTables.unpublished
          { beforeOne (-seconds 3600) with timeframe := .H1 }).toIngestState
        (beforeOne (seconds 3000)).toSeriesCall = some [⟨seconds 3000, 1, 1, 1, 1⟩] := by
      decide +kernel
    have hclosed : ∀ i ∈ (IngestService.defaultService.afterSeries emptyTables.unpublished
        { beforeOne (-seconds 3600) with timeframe := .H1 }).ingested,
        i.closeTime ≤ seconds 3300 := by
      decide +kernel
    intro candles latest hcandles hlatest i hi _
    obtain rfl := Option.some.inj (harrived.symm.trans hcandles)
    obtain rfl := Option.some.inj hlatest
    exact hclosed i hi

end ForexAi
