/-
The ingest service: fetch, save, answer the breaker.

`ingestSeries` is one (symbol, timeframe) of a cycle.  Everything that can go wrong on
the way is an input of it: what the provider answers, and where the session, the
repository or the publisher raise.  Each clock reading is an input too.

Beside the source's own state there is `calls`, how the provider answered each call
that was made; nothing reads it but the statements.  What is published is left out: no
state depends on it.
-/
import ForexAi.Agents.Base
import ForexAi.Data.Breaker
import ForexAi.Lib.Grid
import ForexAi.Lib.Runs
import Mathlib.Data.List.Induction

namespace ForexAi

/-! ### Buckets -/

/-- `previous_closed_bucket`. -/
def previousClosedBucket (now : Time) (tf : Timeframe) : Time := alignToBucket now tf - tf.length

/-- A stamp is the start of a bucket. -/
def IsBucket (tf : Timeframe) (ts : Time) : Prop := tf.length ∣ ts

/-- `iterate_buckets`: the bucket starts from the one that holds `start` on, before `stop`. -/
def iterateBuckets (start stop : Time) (tf : Timeframe) : List Time :=
  if stop < start then []
  else
    let first := alignToBucket start tf
    (List.range ((stop - first + tf.length - 1) / tf.length).toNat).map fun k : ℕ =>
      first + k * tf.length

theorem isBucket_align (ts : Time) (tf : Timeframe) : IsBucket tf (alignToBucket ts tf) :=
  Grid.dvd_floor tf.length ts

theorem align_of_isBucket {tf : Timeframe} {ts : Time} (h : IsBucket tf ts) :
    alignToBucket ts tf = ts :=
  Grid.floor_of_dvd h

theorem IsBucket.add_length {tf : Timeframe} {ts : Time} (h : IsBucket tf ts) :
    IsBucket tf (ts + tf.length) :=
  Int.dvd_add h (Int.dvd_refl tf.length)

theorem mem_iterateBuckets {start stop t : Time} {tf : Timeframe} :
    t ∈ iterateBuckets start stop tf ↔
      ¬ stop < start ∧ IsBucket tf t ∧ alignToBucket start tf ≤ t ∧ t < stop := by
  unfold iterateBuckets
  by_cases hback : stop < start
  · rw [if_pos hback]
    simp [hback]
  · rw [if_neg hback]
    simp only [List.mem_map, List.mem_range, Grid.lt_count_iff tf.length_pos]
    constructor
    · rintro ⟨k, hk, rfl⟩
      refine ⟨hback, Int.dvd_add (isBucket_align start tf) (Int.dvd_mul_left _ _), ?_, hk⟩
      exact le_add_of_nonneg_right (Int.mul_nonneg (Int.natCast_nonneg k) tf.length_pos.le)
    · rintro ⟨-, hbucket, hle, hlt⟩
      obtain ⟨q, hq⟩ := Int.dvd_sub hbucket (isBucket_align start tf)
      have hnonneg : 0 ≤ q := by
        by_contra hneg
        have hmul := mul_neg_of_pos_of_neg tf.length_pos (not_le.mp hneg)
        rw [← hq] at hmul
        exact absurd hle (not_le.mpr (sub_neg.mp hmul))
      have ht : alignToBucket start tf + (q.toNat : ℤ) * tf.length = t := by
        rw [Int.toNat_of_nonneg hnonneg, mul_comm, ← hq]
        exact add_sub_cancel _ _
      exact ⟨q.toNat, ht.trans_lt hlt, ht⟩

/-! ### The candle table

Rows are kept in the order of their stamps, one for each bucket.  An upsert aligns a candle
first, so what it writes is the start of a bucket whatever the provider sent.
-/

/-- `INSERT … ON CONFLICT DO UPDATE` of one row, in stamp order. -/
def upsertRow (row : Candle) : List Candle → List Candle
  | [] => [row]
  | c :: rest =>
      if row.ts < c.ts then row :: c :: rest
      else if row.ts = c.ts then row :: rest
      else c :: upsertRow row rest

theorem mem_upsertRow_ts {row : Candle} {rows : List Candle} {t : Time} :
    t ∈ (upsertRow row rows).map (·.ts) ↔ t = row.ts ∨ t ∈ rows.map (·.ts) := by
  induction rows with
  | nil => simp [upsertRow]
  | cons c rest ih =>
      unfold upsertRow
      by_cases hlt : row.ts < c.ts
      · rw [if_pos hlt, List.map_cons, List.mem_cons]
      · rw [if_neg hlt]
        by_cases heq : row.ts = c.ts
        · rw [if_pos heq, List.map_cons, List.map_cons, List.mem_cons, List.mem_cons, heq,
            or_self_left]
        · rw [if_neg heq, List.map_cons, List.map_cons, List.mem_cons, List.mem_cons, ih,
            or_left_comm]

theorem upsertRow_ascending {row : Candle} {rows : List Candle}
    (h : rows.Pairwise (·.ts < ·.ts)) : (upsertRow row rows).Pairwise (·.ts < ·.ts) := by
  induction rows with
  | nil => exact List.pairwise_singleton _ _
  | cons c rest ih =>
      obtain ⟨hc, hrest⟩ := List.pairwise_cons.mp h
      unfold upsertRow
      by_cases hlt : row.ts < c.ts
      · rw [if_pos hlt]
        refine List.pairwise_cons.mpr ⟨fun d hd => ?_, h⟩
        rcases List.mem_cons.mp hd with rfl | hd
        · exact hlt
        · exact hlt.trans (hc d hd)
      · rw [if_neg hlt]
        by_cases heq : row.ts = c.ts
        · rw [if_pos heq]
          refine List.pairwise_cons.mpr ⟨fun d hd => ?_, hrest⟩
          rw [heq]
          exact hc d hd
        · rw [if_neg heq]
          refine List.pairwise_cons.mpr ⟨fun d hd => ?_, ih hrest⟩
          have hmem : d.ts ∈ (upsertRow row rest).map (·.ts) := List.mem_map.mpr ⟨d, hd, rfl⟩
          rcases mem_upsertRow_ts.mp hmem with hrow | hold
          · rw [hrow]
            exact lt_of_le_of_ne (not_lt.mp hlt) (Ne.symm heq)
          · obtain ⟨e, he, hts⟩ := List.mem_map.mp hold
            rw [← hts]
            exact hc e he

/-- `unique_candles`: aligned, the first of each bucket. -/
def uniqueCandles (candles : List Candle) (tf : Timeframe) : List Candle :=
  candles.foldl (fun unique c =>
    let bucket := alignToBucket c.ts tf
    if unique.any fun u => decide (u.ts = bucket) then unique
    else unique ++ [{ c with ts := bucket }]) []

/-- `upsert_candles`: the series, and how many rows are new and how many were refreshed. -/
def Series.upsertCandles (s : Series) (candles : List Candle) (tf : Timeframe) :
    Series × ℕ × ℕ :=
  let unique := uniqueCandles candles tf
  let after : Series :=
    { rows := unique.foldl (fun rows row => upsertRow row rows) s.rows
      ascending := List.foldlRecOn unique _ s.ascending fun _ hrows _ _ =>
        upsertRow_ascending hrows }
  let inserted := after.rows.length - s.rows.length
  (after, inserted, unique.length - inserted)

theorem uniqueCandles_concat (candles : List Candle) (c : Candle) (tf : Timeframe) :
    uniqueCandles (candles ++ [c]) tf =
      if alignToBucket c.ts tf ∈ (uniqueCandles candles tf).map (·.ts) then uniqueCandles candles tf
      else uniqueCandles candles tf ++ [{ c with ts := alignToBucket c.ts tf }] := by
  unfold uniqueCandles
  rw [List.foldl_append, List.foldl_cons, List.foldl_nil]
  simp only [List.any_eq_true, decide_eq_true_eq, List.mem_map]

theorem mem_uniqueCandles_ts {candles : List Candle} {tf : Timeframe} {t : Time} :
    t ∈ (uniqueCandles candles tf).map (·.ts) ↔
      ∃ c ∈ candles, alignToBucket c.ts tf = t := by
  induction candles using List.reverseRecOn with
  | nil => simp [uniqueCandles]
  | append_singleton rest c ih =>
      rw [uniqueCandles_concat]
      simp only [List.mem_append, List.mem_singleton]
      split
      · rename_i hseen
        rw [ih]
        constructor
        · rintro ⟨d, hd, ht⟩
          exact ⟨d, Or.inl hd, ht⟩
        · rintro ⟨d, hd | rfl, ht⟩
          · exact ⟨d, hd, ht⟩
          · rw [ht] at hseen
            exact ih.mp hseen
      · rw [List.map_append, List.mem_append, ih, List.map_singleton, List.mem_singleton]
        constructor
        · rintro (⟨d, hd, ht⟩ | rfl)
          · exact ⟨d, Or.inl hd, ht⟩
          · exact ⟨c, Or.inr rfl, rfl⟩
        · rintro ⟨d, hd | rfl, ht⟩
          · exact Or.inl ⟨d, hd, ht⟩
          · exact Or.inr ht.symm

/-- **What is stored after an upsert**: what was, and the buckets of the candles. -/
theorem Series.mem_upsertCandles (s : Series) (candles : List Candle) (tf : Timeframe) {t : Time} :
    t ∈ (s.upsertCandles candles tf).1.stamps ↔
      t ∈ s.stamps ∨ ∃ c ∈ candles, alignToBucket c.ts tf = t := by
  rw [← mem_uniqueCandles_ts]
  show t ∈ ((uniqueCandles candles tf).foldl (fun rows row => upsertRow row rows) s.rows).map (·.ts)
    ↔ t ∈ s.rows.map (·.ts) ∨ _
  induction uniqueCandles candles tf using List.reverseRecOn with
  | nil => simp
  | append_singleton rest row ih =>
      rw [List.foldl_append, List.foldl_cons, List.foldl_nil, mem_upsertRow_ts, ih, List.map_append,
        List.mem_append, List.map_singleton, List.mem_singleton]
      tauto

/-! ### The service

The order of the steps is that of the source: the breaker, the window, the provider, the gap
count, the candles with their commit, the publishing, the breaker again.  At each of them the
call can end.
-/

/-- A candle as the provider returns it; its bucket is its stamp. -/
structure ProviderCandle where
  bar : Candle
  complete : Bool := true

/-- What a provider call gives. -/
inductive Fetch where
  | candles (returned : List ProviderCandle)
  /-- `ProviderTransientError` -/
  | transient (text : String)
  /-- any other `ProviderError` -/
  | provider (text : String)
  | unexpected (text : String)

/-- How a provider call that was made ended. -/
inductive CallResult where
  | returned | providerError | unexpected
  deriving DecidableEq, Repr

def Fetch.result : Fetch → CallResult
  | candles _ => .returned
  | transient _ => .providerError
  | provider _ => .providerError
  | unexpected _ => .unexpected

/-- Why a series was left. -/
inductive IngestSkip where
  | breaker (error : BreakerOpenError)
  | upToDate
  | transient (text : String) (opened : Bool)
  | provider (text : String) (opened : Bool)
  | error (text : String)
  deriving DecidableEq, Repr

/-- The outcome of one series within a cycle. -/
structure SeriesResult where
  symbol : Symbol
  timeframe : Timeframe
  inserted : ℕ := 0
  updated : ℕ := 0
  gapsDetected : ℕ := 0
  skipped : Option IngestSkip := none

structure IngestSettings where
  maxBarsPerCycle : ℕ := 500
  initialHistoryDays : ℕ := 2
  maxBarsPerCycle_pos : 1 ≤ maxBarsPerCycle := by decide

/-- The breaker's row of `provider_health`. -/
structure ProviderHealth where
  consecutiveFailures : ℕ
  breakerState : String
  openedAt : Option Time
  lastOkAt : Option Time
  updatedAt : Option Time

/-- A service and the tables it works on. -/
structure IngestState where
  breaker : CircuitBreaker
  health : Option ProviderHealth
  candles : Symbol → Timeframe → Series
  calls : List CallResult

structure IngestService where
  settings : IngestSettings
  breaker : BreakerConfig

/-- One series to ingest, and what the world does meanwhile. -/
structure SeriesCall where
  symbol : Symbol
  timeframe : Timeframe
  forcedStart : Option Time := none
  forcedEnd : Option Time := none
  /-- the clock at the gate, for the window, and when a failure is recorded and written -/
  admitAt : Time
  windowAt : Time
  failAt : Time
  persistAt : Time
  /-- an exception of the session or of `last_closed_ts` -/
  readFault : Option String := none
  answer : Time → Time → Fetch
  upsertFault : Option String := none
  commitFault : Option String := none
  /-- an exception after the commit -/
  publishFault : Option String := none
  /-- the snapshot of a failure is written -/
  snapshot : Bool := true

namespace IngestService

/-- `_fetch_window`. -/
def fetchWindow (settings : IngestSettings) (lastTs : Option Time) (tf : Timeframe) (now : Time)
    (forcedStart forcedEnd : Option Time) : Time × Time :=
  let step := tf.length
  let stop := forcedEnd.getD (previousClosedBucket now tf + step)
  match forcedStart with
  | some start => (start, stop)
  | none =>
      let start := match lastTs with
        | none => min (stop - settings.initialHistoryDays * Timeframe.D1.length) (stop - step)
        | some last => last + step
      let maxSpan := step * settings.maxBarsPerCycle
      (if maxSpan < stop - start then stop - maxSpan else start, stop)

/-- `persist_breaker_snapshot`. -/
def persistBreakerSnapshot (st : IngestState) (now : Time) : IngestState :=
  let lastOk := st.health.bind (·.lastOkAt)
  { st with
    health := some
      { consecutiveFailures := st.breaker.consecutiveFailures
        breakerState := st.breaker.state.value
        openedAt := st.breaker.openedAt
        lastOkAt := if st.breaker.state = .closed then some now else lastOk
        updatedAt := some now } }

/-- `load_breaker_snapshot`, into a service that was just made. -/
def loadBreakerSnapshot (st : IngestState) : IngestState :=
  { st with
    breaker := match st.health with
      | none => .new
      | some row => .load row.breakerState row.consecutiveFailures row.openedAt }

variable (svc : IngestService)

/-- The window a call asks for. -/
def windowOf (st : IngestState) (c : SeriesCall) : Time × Time :=
  fetchWindow svc.settings (st.candles c.symbol c.timeframe).lastClosedTs c.timeframe c.windowAt
    c.forcedStart c.forcedEnd

/-- The handler of a provider error. -/
def providerFailed (st : IngestState) (c : SeriesCall) : Bool × IngestState :=
  let (opened, breaker) := st.breaker.recordFailure svc.breaker c.failAt
  let st' := { st with breaker, calls := st.calls ++ [.providerError] }
  (opened, if c.snapshot then persistBreakerSnapshot st' c.persistAt else st')

/-- What follows the provider's candles. -/
def saveCandles (st : IngestState) (c : SeriesCall) (start stop : Time)
    (returned : List ProviderCandle) : SeriesResult × IngestState :=
  let candles := (returned.filter (·.complete)).map (·.bar)
  let outcome : SeriesResult :=
    { symbol := c.symbol
      timeframe := c.timeframe
      gapsDetected := ((iterateBuckets start stop c.timeframe).filter fun t =>
        decide (t ∉ candles.map (·.ts))).length }
  match c.upsertFault with
  | some text => ({ outcome with skipped := some (.error text) }, st)
  | none =>
      let (series, inserted, updated) :=
        (st.candles c.symbol c.timeframe).upsertCandles candles c.timeframe
      let outcome := { outcome with inserted, updated }
      match c.commitFault with
      | some text => ({ outcome with skipped := some (.error text) }, st)
      | none =>
          let saved := { st with
            candles := Function.update st.candles c.symbol
              (Function.update (st.candles c.symbol) c.timeframe series) }
          match (if candles.isEmpty then none else c.publishFault) with
          | some text => ({ outcome with skipped := some (.error text) }, saved)
          | none => (outcome, { saved with breaker := saved.breaker.recordSuccess })

/-- `_ingest_series`. -/
def ingestSeries (st : IngestState) (c : SeriesCall) : SeriesResult × IngestState :=
  let left (skipped : IngestSkip) : SeriesResult :=
    { symbol := c.symbol, timeframe := c.timeframe, skipped := some skipped }
  match st.breaker.beforeCall svc.breaker c.admitAt with
  | .error e => (left (.breaker e), st)
  | .ok breaker =>
      let st := { st with breaker }
      match c.readFault with
      | some text => (left (.error text), st)
      | none =>
          let (start, stop) := svc.windowOf st c
          if stop ≤ start then (left .upToDate, { st with breaker := st.breaker.recordSuccess })
          else
            match c.answer start stop with
            | .transient text =>
                let (opened, st) := svc.providerFailed st c
                (left (.transient text opened), st)
            | .provider text =>
                let (opened, st) := svc.providerFailed st c
                (left (.provider text opened), st)
            | .unexpected text =>
                (left (.error text), { st with calls := st.calls ++ [.unexpected] })
            | .candles returned =>
                saveCandles { st with calls := st.calls ++ [.returned] } c start stop returned

/-! ### Runs -/

/-- What happens to a service: a series of some cycle, the snapshot at the end of a cycle, or
a restart of the worker. -/
inductive Event where
  | series (c : SeriesCall)
  | persist (now : Time)
  | restart

def step (st : IngestState) : Event → IngestState
  | .series c => (svc.ingestSeries st c).2
  | .persist now => persistBreakerSnapshot st now
  | .restart => loadBreakerSnapshot st

omit svc in
/-- The service with the default settings. -/
def defaultService : IngestService where
  settings := {}
  breaker := { providerName := "synthetic" }

end IngestService

end ForexAi
