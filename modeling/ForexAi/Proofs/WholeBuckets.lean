/-
Whole buckets.

A bucket is whole in a window when it starts in it and ends in it.  The synthetic provider
returns every whole bucket, one after the other (`contiguous`, `complete`), but it starts
with the bucket the window's start falls in; and the gap count expects that one too, and
the bucket the window's end falls in.  For a window from bucket to bucket there are no such
two, and for every other one of the two shows: `whole_buckets_iff`.
-/
import ForexAi.Data.Synthetic
import ForexAi.Proofs.CycleOutcome

namespace ForexAi

open SyntheticProvider

/-- A bucket of a window. -/
structure WholeBucket (start stop : Time) (tf : Timeframe) (t : Time) : Prop where
  bucket : IsBucket tf t
  lower : start ≤ t
  upper : t + tf.length ≤ stop

/-- The buckets of a window, in order. -/
def wholeBuckets (start stop : Time) (tf : Timeframe) : List Time :=
  (iterateBuckets start stop tf).filter fun t => decide (start ≤ t ∧ t + tf.length ≤ stop)

/-- One bucket follows the other. -/
theorem iterateBuckets_next {start stop a b : Time} {tf : Timeframe} {k : ℕ}
    (ha : (iterateBuckets start stop tf)[k]? = some a)
    (hb : (iterateBuckets start stop tf)[k + 1]? = some b) : b = a + tf.length := by
  unfold iterateBuckets at ha hb
  by_cases hback : stop < start
  · rw [if_pos hback] at ha
    exact absurd ha (by simp)
  · rw [if_neg hback] at ha hb
    obtain ⟨j, hj, rfl⟩ := Option.map_eq_some_iff.mp ((List.getElem?_map ..).symm.trans ha)
    obtain ⟨j', hj', rfl⟩ := Option.map_eq_some_iff.mp ((List.getElem?_map ..).symm.trans hb)
    obtain ⟨-, rfl⟩ := List.getElem?_eq_some_iff.mp hj
    obtain ⟨-, rfl⟩ := List.getElem?_eq_some_iff.mp hj'
    rw [List.getElem_range, List.getElem_range]
    push_cast
    rw [add_mul, one_mul, add_assoc]

/-! ### The gap count -/

namespace IngestService

/-- A series call that gets to ask for a window. -/
structure Asks (svc : IngestService) (st : IngestState) (c : SeriesCall) (start stop : Time) :
    Prop where
  admitted : ∃ b, st.breaker.beforeCall svc.breaker c.admitAt = .ok b
  read : c.readFault = none
  window : svc.windowOf st c = (start, stop)
  nonempty : start < stop

/-- The stamps of the complete candles of an answer. -/
def returnedStamps (returned : List ProviderCandle) : List Time :=
  ((returned.filter (·.complete)).map (·.bar)).map (·.ts)

/-- The gap count of an answer is that of the expected buckets. -/
theorem gapsDetected_eq {svc : IngestService} {st : IngestState} {c : SeriesCall}
    {start stop : Time} (h : Asks svc st c start stop) {returned : List ProviderCandle}
    (hanswer : c.answer start stop = .candles returned) :
    (svc.ingestSeries st c).1.gapsDetected
      = ((iterateBuckets start stop c.timeframe).filter fun t =>
          decide (t ∉ returnedStamps returned)).length := by
  obtain ⟨b, hb⟩ := h.admitted
  have hwindow : svc.windowOf { st with breaker := b } c = (start, stop) := h.window
  unfold ingestSeries
  simp only [hb, h.read, hwindow, if_neg (not_le.mpr h.nonempty), hanswer]
  unfold saveCandles
  cases c.upsertFault with
  | some text => rfl
  | none =>
      cases c.commitFault with
      | some text => rfl
      | none =>
          simp only
          split <;> rfl

end IngestService

/-! ### One convention

The buckets of the window, the provider's candles and the expected ones are three lists of
stamps, each of them contiguous.  Two such lists are one if they begin and end together.
-/

/-- The provider and the gap count go by the buckets of the window. -/
structure OneConvention (prices : Symbol → Timeframe → Time → BarPrices) (symbol : Symbol)
    (tf : Timeframe) (start stop : Time) : Prop where
  within : ∀ c ∈ syntheticCandles prices symbol tf start stop,
    start ≤ c.ts ∧ c.ts < stop ∧ c.ts + tf.length ≤ stop
  contiguous : ∀ k c c', (syntheticCandles prices symbol tf start stop)[k]? = some c →
    (syntheticCandles prices symbol tf start stop)[k + 1]? = some c' → c'.ts = c.ts + tf.length
  complete : ∀ t, WholeBucket start stop tf t →
    ∃ c ∈ syntheticCandles prices symbol tf start stop, c.ts = t
  /-- Whatever is returned for the window, what counts as a gap is a bucket of it that was not. -/
  gaps : ∀ (svc : IngestService) (st : IngestState) (c : SeriesCall), c.timeframe = tf →
    svc.Asks st c start stop → ∀ returned, c.answer start stop = .candles returned →
      (svc.ingestSeries st c).1.gapsDetected
        = ((wholeBuckets start stop tf).filter fun t =>
            decide (t ∉ IngestService.returnedStamps returned)).length

variable {prices : Symbol → Timeframe → Time → BarPrices} {symbol : Symbol} {tf : Timeframe}
  {start stop : Time}

theorem mem_synthetic_stamps {t : Time} :
    (∃ c ∈ syntheticCandles prices symbol tf start stop, c.ts = t) ↔
      t ∈ iterateBuckets start (alignToBucket stop tf) tf := by
  rw [← stamps_syntheticCandles prices symbol, List.mem_map]

theorem synthetic_contiguous (k : ℕ) (c c' : Candle)
    (hc : (syntheticCandles prices symbol tf start stop)[k]? = some c)
    (hc' : (syntheticCandles prices symbol tf start stop)[k + 1]? = some c') :
    c'.ts = c.ts + tf.length := by
  have hstamp : ∀ (j : ℕ) (d : Candle),
      (syntheticCandles prices symbol tf start stop)[j]? = some d →
        (iterateBuckets start (alignToBucket stop tf) tf)[j]? = some d.ts := by
    intro j d hd
    rw [← stamps_syntheticCandles prices symbol, List.getElem?_map, hd]
    rfl
  exact iterateBuckets_next (hstamp k c hc) (hstamp (k + 1) c' hc')

/-- And none of a window is missing. -/
theorem synthetic_complete (t : Time) (h : WholeBucket start stop tf t) :
    ∃ c ∈ syntheticCandles prices symbol tf start stop, c.ts = t := by
  have hend : t + tf.length ≤ alignToBucket stop tf :=
    Grid.le_floor tf.length_pos h.bucket.add_length h.upper
  have hlt : t < alignToBucket stop tf :=
    lt_of_lt_of_le (lt_add_of_pos_right t tf.length_pos) hend
  refine mem_synthetic_stamps.mpr (mem_iterateBuckets.mpr ⟨?_, h.bucket, ?_, hlt⟩)
  · exact not_lt.mpr (h.lower.trans hlt.le)
  · exact (Grid.floor_le tf.length_pos start).trans h.lower

theorem expected_whole_iff (h : start < stop) :
    (∀ t ∈ iterateBuckets start stop tf, start ≤ t ∧ t + tf.length ≤ stop) ↔
      IsBucket tf start ∧ IsBucket tf stop := by
  have hfirst : alignToBucket start tf ≤ start := Grid.floor_le tf.length_pos start
  constructor
  · intro hwhole
    constructor
    · have hmem : alignToBucket start tf ∈ iterateBuckets start stop tf :=
        mem_iterateBuckets.mpr ⟨not_lt.mpr h.le, isBucket_align start tf, le_rfl,
          hfirst.trans_lt h⟩
      rw [← le_antisymm hfirst (hwhole _ hmem).1]
      exact isBucket_align start tf
    · by_contra hinside
      have hlast : alignToBucket stop tf < stop := by
        refine lt_of_le_of_ne (Grid.floor_le tf.length_pos stop) fun heq => hinside ?_
        rw [← heq]
        exact isBucket_align stop tf
      have hmem : alignToBucket stop tf ∈ iterateBuckets start stop tf :=
        mem_iterateBuckets.mpr ⟨not_lt.mpr h.le, isBucket_align stop tf,
          Grid.le_floor tf.length_pos (isBucket_align start tf) (hfirst.trans h.le), hlast⟩
      exact absurd (hwhole _ hmem).2 (not_le.mpr (Grid.lt_floor_add tf.length_pos stop))
  · rintro ⟨hstart, hstop⟩ t ht
    obtain ⟨-, hbucket, hle, hlt⟩ := mem_iterateBuckets.mp ht
    rw [align_of_isBucket hstart] at hle
    exact ⟨hle, Grid.add_le_of_lt hbucket hstop hlt⟩

/-- A backfill of a window that is answered with nothing. -/
def emptyBackfill (symbol : Symbol) (tf : Timeframe) (start stop : Time) : SeriesCall where
  symbol := symbol
  timeframe := tf
  forcedStart := some start
  forcedEnd := some stop
  admitAt := stop
  windowAt := stop
  failAt := stop
  persistAt := stop
  answer := fun _ _ => .candles []

theorem emptyBackfill_asks (symbol : Symbol) (tf : Timeframe) (h : start < stop) :
    IngestService.defaultService.Asks emptyTables (emptyBackfill symbol tf start stop) start
      stop where
  admitted := ⟨.new, rfl⟩
  read := rfl
  window := rfl
  nonempty := h

/-- **When the three go by one convention**: for the windows from bucket to bucket. -/
theorem one_convention_iff (prices : Symbol → Timeframe → Time → BarPrices) (symbol : Symbol)
    (tf : Timeframe) {start stop : Time} (h : start < stop) :
    OneConvention prices symbol tf start stop ↔ IsBucket tf start ∧ IsBucket tf stop := by
  rw [← expected_whole_iff h]
  constructor
  · intro hconvention
    -- With nothing returned every expected bucket counts.
    have hasks := emptyBackfill_asks symbol tf h
    have hcount := (IngestService.gapsDetected_eq hasks rfl).symm.trans
      (hconvention.gaps _ _ _ rfl hasks [] rfl)
    have hall : ∀ l : List Time,
        (l.filter fun t => decide (t ∉ IngestService.returnedStamps [])) = l := by
      intro l
      exact List.filter_eq_self.mpr fun t _ => by simp [IngestService.returnedStamps]
    rw [hall, hall] at hcount
    intro t ht
    exact of_decide_eq_true (List.length_filter_eq_length_iff.mp hcount.symm t ht)
  · intro hwhole
    have hsame : wholeBuckets start stop tf = iterateBuckets start stop tf :=
      List.filter_eq_self.mpr fun t ht => decide_eq_true (hwhole t ht)
    refine ⟨fun c hc => ?_, synthetic_contiguous, synthetic_complete, ?_⟩
    · obtain ⟨hback, hbucket, hle, hlt⟩ :=
        mem_iterateBuckets.mp (mem_synthetic_stamps.mp ⟨c, hc, rfl⟩)
      have hbefore : c.ts < stop := hlt.trans_le (Grid.floor_le tf.length_pos stop)
      obtain ⟨hlower, hupper⟩ := hwhole c.ts
        (mem_iterateBuckets.mpr ⟨not_lt.mpr h.le, hbucket, hle, hbefore⟩)
      exact ⟨hlower, hbefore, hupper⟩
    · intro svc st c htf hasks returned hanswer
      subst htf
      rw [IngestService.gapsDetected_eq hasks hanswer, hsame]

/-- Every bar at par. -/
def atPar : Symbol → Timeframe → Time → BarPrices := fun _ _ _ => ⟨1, 1, 1, 1⟩

/-- The window of two hours goes from bucket to bucket. -/
theorem two_hours_convention : OneConvention atPar .eurusd .H1 0 (seconds 7200) :=
  (one_convention_iff atPar .eurusd .H1 (by decide)).mpr
    ⟨⟨0, by decide⟩, ⟨2, by decide⟩⟩

/-- From twenty past the hour the candle of the full hour is returned. -/
theorem candle_before_window : ¬ ∀ (prices : Symbol → Timeframe → Time → BarPrices)
    (symbol : Symbol) (tf : Timeframe) (start stop : Time), start < stop →
      OneConvention prices symbol tf start stop := by
  intro h
  have hconvention := h atPar .eurusd .H1 (seconds 1200) (seconds 7200) (by decide)
  obtain ⟨c, hc, hts⟩ : ∃ c ∈ syntheticCandles atPar .eurusd .H1 (seconds 1200) (seconds 7200),
      c.ts = 0 := mem_synthetic_stamps.mpr (by decide)
  have hlower := (hconvention.within c hc).1
  rw [hts] at hlower
  exact absurd hlower (by decide)

end ForexAi
