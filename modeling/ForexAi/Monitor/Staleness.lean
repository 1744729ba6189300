/-
The staleness watchdog.

While the week is open, a series whose newest bar started more than three intervals ago is
reported, and never for less than a quarter of an hour.
-/
import ForexAi.Agents.Base
import ForexAi.Bus.Events
import ForexAi.Data.MarketHours

namespace ForexAi

/-- `_MIN_THRESHOLD_SECONDS`. -/
def minThresholdSeconds : ℕ := 900

/-- `staleness_threshold_seconds`. -/
def stalenessThresholdSeconds (tf : Timeframe) : ℕ := max (tf.seconds * 3) minThresholdSeconds

structure StalenessFinding where
  symbol : Symbol
  timeframe : Timeframe
  /-- `none` where there are no bars at all -/
  ageSeconds : Option ℤ
  thresholdSeconds : ℕ
  marketOpen : Bool
  deriving DecidableEq

/-- `StalenessFinding.breached`. -/
def StalenessFinding.breached (f : StalenessFinding) : Bool :=
  if f.marketOpen then
    match f.ageSeconds with
    | none => true
    | some age => decide ((f.thresholdSeconds : ℤ) < age)
  else false

namespace StalenessMonitor

/-- `int((now - last_ts).total_seconds())`. -/
def ageSeconds (now last : Time) : ℤ := (now - last).tdiv (seconds 1)

/-- The alert of `_emit_alert`; whether it can be published changes nothing. -/
def alertOf (now : Time) (f : StalenessFinding) : Event where
  eventType := "alert.staleness"
  payload :=
    [("symbol", .text f.symbol.code), ("timeframe", .text f.timeframe.code),
      ("age_seconds", match f.ageSeconds with | none => .null | some age => .int age),
      ("threshold_seconds", .int f.thresholdSeconds), ("market_open", .bool f.marketOpen)]
  producer := "monitor"
  producedAt := now

/-- What `check` finds about one series. -/
def findingOf (tables : Symbol → Timeframe → Series) (now : Time) (symbol : Symbol)
    (tf : Timeframe) : StalenessFinding where
  symbol := symbol
  timeframe := tf
  ageSeconds := (tables symbol tf).lastClosedTs.map (ageSeconds now)
  thresholdSeconds := stalenessThresholdSeconds tf
  marketOpen := isMarketOpen now

/-- `check`: the findings, and the alerts sent on the way. -/
def check (tables : Symbol → Timeframe → Series) (instruments : List Symbol)
    (timeframes : List Timeframe) (now : Time) : List StalenessFinding × List Event :=
  let findings := instruments.flatMap fun symbol => timeframes.map (findingOf tables now symbol)
  (findings, (findings.filter (·.breached)).map (alertOf now))

theorem mem_check {tables : Symbol → Timeframe → Series} {instruments : List Symbol}
    {timeframes : List Timeframe} {now : Time} {f : StalenessFinding} :
    f ∈ (check tables instruments timeframes now).1 ↔
      ∃ symbol ∈ instruments, ∃ tf ∈ timeframes, findingOf tables now symbol tf = f := by
  unfold check
  simp only [List.mem_flatMap, List.mem_map]

/-- A series is in breach while the week is open and its newest bar, if there is one, is old. -/
theorem breached_iff (tables : Symbol → Timeframe → Series) (now : Time) (symbol : Symbol)
    (tf : Timeframe) :
    (findingOf tables now symbol tf).breached = true ↔
      isMarketOpen now = true ∧ ∀ last, (tables symbol tf).lastClosedTs = some last →
        (stalenessThresholdSeconds tf : ℤ) < ageSeconds now last := by
  unfold findingOf StalenessFinding.breached
  cases hopen : isMarketOpen now with
  | false => simp
  | true =>
      cases hlast : (tables symbol tf).lastClosedTs with
      | none => simp
      | some last => simp

end StalenessMonitor

end ForexAi
