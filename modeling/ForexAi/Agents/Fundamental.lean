/-
The fundamental agent: the nearness of events and the surprise of released figures.

For a bar the agent is given the stored events of the pair's two currencies around it.  The
nearest of them, before the bar or after it, is its event risk: the impact decays linearly
over ninety minutes either way, whatever the importance.  An event whose figure is known and
differs from the forecast counts for or against its currency, by its importance.  A text that
spells no number is no figure.

The rationale text is left out; nothing reads it.
-/
import ForexAi.Agents.Technical
import ForexAi.Data.Content
import ForexAi.Lib.Latest
import Mathlib.Data.List.Sort

namespace ForexAi

/-- `currencies_of`: base and quote. -/
def currenciesOf (symbol : Symbol) : String × String :=
  (String.ofList (symbol.code.toList.take 3), String.ofList (symbol.code.toList.drop 3))

/-- An event as the agent is given it. -/
structure EventView where
  timestampUtc : Time
  importance : Importance
  currency : String
  actual : Option String
  forecast : Option String
  title : String

/-- The view of a stored event. -/
def EconomicEventRow.view (row : EconomicEventRow) : EventView where
  timestampUtc := row.timestampUtc
  importance := row.importance
  currency := row.currency
  actual := row.actual
  forecast := row.forecast
  title := row.title

/-- The query of the events around a bar: twelve hours either way, of its two currencies. -/
def queriedFor (symbol : Symbol) (bucketTs : Time) (row : EconomicEventRow) : Bool :=
  decide (bucketTs - seconds 43200 ≤ row.timestampUtc) &&
    decide (row.timestampUtc < bucketTs + seconds 43200) &&
      [(currenciesOf symbol).1, (currenciesOf symbol).2].contains row.currency

/-- The rows of the events around a bar, the latest fifty. -/
def eventRowsFor (t : EventTable) (symbol : Symbol) (bucketTs : Time) : List EconomicEventRow :=
  Latest.latest (·.timestampUtc) 50 (t.rows.filter (queriedFor symbol bucketTs))

/-- The events that `_load_content` loads for a bar. -/
def eventsFor (t : EventTable) (symbol : Symbol) (bucketTs : Time) : List EventView :=
  (eventRowsFor t symbol bucketTs).map (·.view)

/-! ### The nearness of an event -/

/-- `_WINDOW_MINUTES`. -/
def Importance.windowMinutes : Importance → ℤ
  | low => 0
  | medium => 45
  | high => 90

/-- `EventImpact`, without its reason's text. -/
structure EventImpact where
  impact : ℚ
  windowMinutes : ℤ
  withinWindow : Bool
  deriving DecidableEq

/-- `abs((now - event_ts).total_seconds()) / 60`. -/
def minutesApart (eventTs now : Time) : ℚ := |((now - eventTs : ℤ) : ℚ)| / 60000000

/-- `event_impact`. -/
def eventImpact (eventTs now : Time) (importance : Importance)
    (halfWindowMinutes : Option ℤ) : Option EventImpact :=
  let half := halfWindowMinutes.getD importance.windowMinutes
  if half ≤ 0 then none
  else
    let delta := minutesApart eventTs now
    if (half : ℚ) < delta then none
    else
      some { impact := Rounding.roundTo 4 (max 0 (1 - delta / half)), windowMinutes := half,
             withinWindow := decide (delta ≤ half) }

/-- `_IMPACT_WINDOW_MIN`. -/
def impactWindowMin : ℤ := 90

/-- One turn of the loop of `_max_impact`. -/
def peakStep (now : Time) (peak : ℚ) (v : EventView) : ℚ :=
  match eventImpact v.timestampUtc now v.importance (some impactWindowMin) with
  | some i => max peak i.impact
  | none => peak

/-- `_max_impact`. -/
def maxImpact (events : List EventView) (now : Time) : ℚ :=
  Rounding.roundTo 4 (events.foldl (peakStep now) 0)

/-! ### The surprise of a figure -/

/-- `_IMPORTANCE_IMPACT`. -/
def Importance.impact : Importance → ℚ
  | low => 1 / 5
  | medium => 1 / 2
  | high => 4 / 5

/-- `surprise_direction`. -/
def surpriseDirection (actual forecast : Option PyFloat) : ℤ :=
  match actual, forecast with
  | some a, some f => if f < a then 1 else if a < f then -1 else 0
  | _, _ => 0

variable [PyText]

/-- `parse_number`. -/
def parseNumber (raw : Option String) : Option PyFloat :=
  match raw.filter fun text => decide (text ≠ "") with
  | none => none
  | some text =>
      let cleaned := PyText.strip ((text.replace "," ".").replace "%" " ")
      (PyText.split cleaned).head?.bind PyText.float

/-- The surprise of an event. -/
def EventView.surprise (v : EventView) : ℤ :=
  surpriseDirection (parseNumber v.actual) (parseNumber v.forecast)

/-- One turn of the loop of `_currency_bias`. -/
def biasStep (currency : String) (acc : ℚ × ℚ) (v : EventView) : ℚ × ℚ :=
  if PyText.upper v.currency ≠ currency then acc
  else if v.surprise = 0 then acc
  else (acc.1 + v.surprise * v.importance.impact, acc.2 + v.importance.impact)

/-- `_currency_bias`. -/
def currencyBias (events : List EventView) (currency : String) : ℚ :=
  let (total, weightSum) := events.foldl (biasStep currency) (0, 0)
  if weightSum = 0 then 0 else max (-1) (min 1 (total / weightSum))

/-- Base bias less quote bias. -/
def differential (events : List EventView) (symbol : Symbol) : ℚ :=
  let (base, quote) := currenciesOf symbol
  currencyBias events base - currencyBias events quote

/-- `_decide`: the direction and the confidence. -/
def Fundamental.decide (impact differential : ℚ) (eventCount : ℕ) : Direction × ℚ :=
  if eventCount = 0 then (.flat, 0)
  -- Very high event risk suppresses directional bets during the window.
  else if 17 / 20 ≤ impact then (.flat, 1 / 10)
  else if |differential| < 1 / 4 then (.flat, 0)
  else
    let influence := |differential|
    let confidence := 1 / 5 + 1 / 2 * influence + 1 / 10 * min 1 ((eventCount : ℚ) / 6)
    (if 0 < differential then .long else .short,
      Rounding.roundTo 4 (min 1 (if 1 / 2 ≤ impact then confidence * (4 / 5) else confidence)))

/-- `FundamentalAgent.analyze`. -/
def Fundamental.analyze (ctx : AnalysisContext) (events : List EventView) : AgentSignal :=
  let (base, quote) := currenciesOf ctx.symbol
  let impact := maxImpact events ctx.now
  let baseBias := currencyBias events base
  let quoteBias := currencyBias events quote
  let differential := baseBias - quoteBias
  let decided := Fundamental.decide impact differential events.length
  buildSignal .fundamental ctx decided.1 decided.2
    [ ("impact", .num impact), ("base_bias", .num (Rounding.roundTo 4 baseBias)),
      ("quote_bias", .num (Rounding.roundTo 4 quoteBias)),
      ("differential", .num (Rounding.roundTo 4 differential)),
      ("event_count", .num events.length), ("currency_base", .text base),
      ("currency_quote", .text quote) ]

end ForexAi
