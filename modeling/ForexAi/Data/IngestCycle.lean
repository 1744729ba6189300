/-
The cycles of the ingest service, and what they publish.

A cycle ingests every series once, in order, and a backfill does so for a given range.
`attempt` is one of them: `ingestSeries`, with what reaches the bus after the commit.  The
bus may refuse anything; that ends the burst it happens in and nothing else.

Whoever answers a provider error writes the snapshot of the breaker, outside of any handler,
so a write that raises leaves the series with an exception and no result: `attempt` is `none`
there, and the cycle ends.

`ingested` is the record of every candle that was committed and came to be published;
nothing reads it but the statements.
-/
import ForexAi.Data.Ingest
import ForexAi.Lib.Newest

namespace ForexAi

/-- The latest price of a symbol, as it is cached and published. -/
structure Quote where
  symbol : Symbol
  price : ℚ
  bucketStart : Time
  synthetic : Bool
  deriving DecidableEq

/-- A `bar.closed` event; its volume and its source are left out. -/
structure BarClosedEvent where
  symbol : Symbol
  timeframe : Timeframe
  bar : Candle
  deriving DecidableEq

/-- Which calls of the bus raise. -/
structure BusFaults where
  setLatestPrice : Bool := false
  publishPrice : Bool := false
  /-- of a burst of bars, which ones -/
  publishBar : ℕ → Bool := fun _ => false

/-- One series of a cycle, and what the world does meanwhile.  An exception after the commit is
one while the first event is built. -/
structure CycleCall extends SeriesCall where
  bus : BusFaults := {}

/-- A candle that was ingested. -/
structure Ingested where
  symbol : Symbol
  timeframe : Timeframe
  bar : Candle

/-- When the candle closed. -/
def Ingested.closeTime (i : Ingested) : Time := i.bar.ts + i.timeframe.length

/-- A service with its tables, the price cache and the bus. -/
structure PublishingState extends IngestState where
  quotes : Symbol → Option Quote
  prices : List Quote
  bars : List BarClosedEvent
  ingested : List Ingested

/-- Nothing is cached and nothing was published. -/
def IngestState.unpublished (st : IngestState) : PublishingState :=
  { st with quotes := fun _ => none, prices := [], bars := [], ingested := [] }

/-- The exception of the snapshot is not caught where this skip is reported. -/
def IngestSkip.writesSnapshot : IngestSkip → Bool
  | transient _ _ => true
  | provider _ _ => true
  | _ => false

/-- The burst of `_publish_new_bars`, from the `k`-th bar on: up to the first that raises. -/
def publishBars (fails : ℕ → Bool) : ℕ → List BarClosedEvent → List BarClosedEvent
  | _, [] => []
  | k, event :: rest => if fails k then [] else event :: publishBars fails (k + 1) rest

namespace IngestService

variable (svc : IngestService)

/-- The name of the provider is that of the synthetic one. -/
def isSynthetic : Bool := svc.breaker.providerName == "synthetic"

/-- The quote of a candle. -/
def quoteOf (symbol : Symbol) (latest : Candle) : Quote where
  symbol := symbol
  price := latest.close
  bucketStart := latest.ts
  synthetic := svc.isSynthetic

/-- `max(candles, key=lambda c: c.bucket_start)`. -/
def latestCandle (candles : List Candle) : Option Candle :=
  Newest.pick (fun a b : Candle => a.ts < b.ts) candles

/-- `_cache_quote`: the cache first, then the channel. -/
def cacheQuote (st : PublishingState) (c : CycleCall) (latest : Candle) : PublishingState :=
  let quote := svc.quoteOf c.symbol latest
  if c.bus.setLatestPrice then st
  else
    let cached := { st with quotes := Function.update st.quotes c.symbol (some quote) }
    if c.bus.publishPrice then cached else { cached with prices := st.prices ++ [quote] }

/-- `_publish_new_bars`. -/
def publishNewBars (st : PublishingState) (c : CycleCall) (candles : List Candle) :
    PublishingState :=
  let events := (candles.take svc.settings.maxBarsPerCycle).map fun bar =>
    { symbol := c.symbol, timeframe := c.timeframe, bar : BarClosedEvent }
  { st with bars := st.bars ++ publishBars c.bus.publishBar 0 events }

/-- The candles a series commits and goes on with. -/
def arrivals (st : IngestState) (c : SeriesCall) : Option (List Candle) :=
  match st.breaker.beforeCall svc.breaker c.admitAt with
  | .error _ => none
  | .ok breaker =>
      let window := svc.windowOf { st with breaker } c
      if c.readFault.isSome = true ∨ window.2 ≤ window.1 then none
      else
        match c.answer window.1 window.2 with
        | .candles returned =>
            if c.upsertFault.isSome = true ∨ c.commitFault.isSome = true then none
            else some ((returned.filter (·.complete)).map (·.bar))
        | _ => none

/-- What follows the commit. -/
def publish (st : PublishingState) (c : CycleCall) (candles : List Candle) : PublishingState :=
  match latestCandle candles, c.publishFault with
  | some latest, none => svc.publishNewBars (svc.cacheQuote st c latest) c candles
  | _, _ => st

/-- `_ingest_series`, with what it publishes; `none` is an exception that leaves it. -/
def attempt (st : PublishingState) (c : CycleCall) : Option SeriesResult × PublishingState :=
  let result := svc.ingestSeries st.toIngestState c.toSeriesCall
  let candles := (svc.arrivals st.toIngestState c.toSeriesCall).getD []
  let recorded := { st with
    ingested := st.ingested ++ candles.map fun bar => ⟨c.symbol, c.timeframe, bar⟩ }
  let published := { svc.publish recorded c candles with toIngestState := result.2 }
  (if result.1.skipped.any IngestSkip.writesSnapshot && !c.snapshot then none else some result.1,
    published)

/-- The series of a cycle one after the other, up to the first exception. -/
def ingestAll (st : PublishingState) : List CycleCall → Option (List SeriesResult) × PublishingState
  | [] => (some [], st)
  | c :: rest =>
      let first := svc.attempt st c
      match first.1 with
      | none => (none, first.2)
      | some result =>
          let others := ingestAll first.2 rest
          (others.1.map (result :: ·), others.2)

/-- The pairs of a cycle, in order. -/
def seriesPairs (instruments : List Symbol) (timeframes : List Timeframe) :
    List (Symbol × Timeframe) :=
  instruments.flatMap fun symbol => timeframes.map fun timeframe => (symbol, timeframe)

/-- The calls of a cycle; `world` says what happens during each of them. -/
def cycleCalls (instruments : List Symbol) (timeframes : List Timeframe)
    (range : Option (Time × Time)) (world : ℕ → CycleCall) : List CycleCall :=
  (seriesPairs instruments timeframes).mapIdx fun k pair =>
    { world k with
      symbol := pair.1
      timeframe := pair.2
      forcedStart := range.map (·.1)
      forcedEnd := range.map (·.2) }

/-- `run_cycle`. -/
def runCycle (st : PublishingState) (instruments : List Symbol) (timeframes : List Timeframe)
    (world : ℕ → CycleCall) : Option (List SeriesResult) × PublishingState :=
  svc.ingestAll st (cycleCalls instruments timeframes none world)

/-- `run_backfill`. -/
def runBackfill (st : PublishingState) (instruments : List Symbol) (timeframes : List Timeframe)
    (start stop : Time) (world : ℕ → CycleCall) : Option (List SeriesResult) × PublishingState :=
  if stop ≤ start then (none, st)
  else svc.ingestAll st (cycleCalls instruments timeframes (some (start, stop)) world)

end IngestService

end ForexAi
