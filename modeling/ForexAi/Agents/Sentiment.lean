/-
The sentiment agent: what the headlines of the last days say about the two currencies.

For a bar the agent is given the recent items that list no pair, or one that has the base of the
bar's pair in front or its quote behind.  A headline is scored by a lexicon of finance terms,
and its score counts the less the older it is.  A currency's aggregate is the weighted mean over
the items that list a pair with it.  Of the pairs an item lists, scoring keeps the first.

The scores are sums of decimals, computed exactly here.  The decay is an exponential and is
handed in.  The matched terms, the label and the rationale are left out; nothing reads them.
-/
import ForexAi.Agents.Fundamental
import Mathlib.Algebra.BigOperators.Group.List.Basic
import Mathlib.Algebra.Order.Ring.Rat

namespace ForexAi

/-! ### The lexicon -/

/-- `_POSITIVE` and `_NEGATIVE`, in hundredths. -/
def lexiconTerms : List (String × ℤ) :=
  [("beat", 70), ("beats", 70), ("surge", 80), ("surges", 80), ("rally", 70), ("rallies", 70),
    ("gain", 60), ("gains", 60), ("rose", 60), ("rise", 50), ("strong", 50), ("boost", 60),
    ("boosted", 60), ("growth", 50), ("above forecast", 70), ("above forecasts", 70),
    ("hawkish", 50), ("tightening", 40), ("expansion", 50), ("recovery", 50), ("upside", 50),
    ("miss", -70), ("misses", -70), ("plunge", -80), ("plunges", -80), ("drop", -60),
    ("falls", -60), ("fell", -60), ("weak", -50), ("weakness", -55), ("slump", -75),
    ("slumps", -75), ("below forecast", -70), ("below forecasts", -70), ("dovish", -50),
    ("cut", -50), ("cuts", -50), ("recession", -80), ("contraction", -60), ("downside", -50),
    ("unemployment", -40), ("inflation", -30)]

/-- `_INTENSIFIERS`, in hundredths. -/
def intensifiers : List (String × ℤ) := [("sharply", 30), ("strongly", 25), ("significantly", 20)]

/-- `_NEGATOR_PHRASES`. -/
def negatorPhrases : List String := ["does not", "did not", "won't", "no significant"]

/-- `_contains_phrase`. -/
def containsPhrase (text phrase : String) : Bool := decide (phrase.toList <:+: text.toList)

section

variable [PyText]

/-- The score of `finance_lexicon_score`. -/
def financeLexiconScore (headline : String) : ℚ :=
  let text := if headline = "" then "" else PyText.lower headline
  if text = "" then 0
  else
    let terms := ((lexiconTerms.filter fun term => containsPhrase text term.1).map (·.2)).sum
    let intense := (intensifiers.filter fun word => containsPhrase text word.1).foldl
      (fun (score : ℤ) word => if 0 ≤ score then score + word.2 else score - word.2) terms
    let negated := if negatorPhrases.any (containsPhrase text) then -intense else intense
    let score := if (PyText.split text).contains "not" && decide (negated ≠ 0) then -negated
      else negated
    Rounding.roundTo 4 ((score : ℚ) / 100)

end

/-! ### The decay -/

/-- `math.exp(-math.log(2) * x)`. -/
class Halving where
  halved : ℚ → ℚ

/-- Nothing decays. -/
@[reducible] def Halving.none : Halving where
  halved := fun _ => 1

/-- `decay_weight`. -/
def decayWeight [Halving] (publishedUtc now : Time) (halfLifeHours : ℚ) : ℚ :=
  let ageHours := max 0 (((now - publishedUtc : ℤ) : ℚ) / 3600000000)
  if halfLifeHours ≤ 0 then 1 else Halving.halved (ageHours / halfLifeHours)

/-! ### Items -/

/-- A news item as the agent is given it; a stamp that does not parse is none. -/
structure NewsView where
  headline : Option String
  publishedUtc : Option Time
  symbols : List String

/-- The columns of `news_items` that `_load_content` reads. -/
structure NewsItemRow where
  headline : String
  publishedUtc : Time
  symbols : List String

def NewsItemRow.view (row : NewsItemRow) : NewsView where
  headline := some row.headline
  publishedUtc := some row.publishedUtc
  symbols := row.symbols

/-- `_symbols_touch`. -/
def symbolsTouch (symbols : List String) (pair : Symbol) : Bool :=
  let (base, quote) := currenciesOf pair
  symbols.any fun s => decide (s.length = 6) &&
    (decide (String.ofList (s.toList.take 3) = base) ||
      decide (String.ofList (s.toList.drop 3) = quote))

/-- The latest fifty items that were published no more than two days and a half before a bar. -/
def recentNews (rows : List NewsItemRow) (bucketTs : Time) : List NewsItemRow :=
  Latest.latest (·.publishedUtc) 50 (rows.filter fun row =>
    decide (bucketTs - seconds 43200 - seconds 172800 ≤ row.publishedUtc))

/-- The headlines that `_load_content` loads for a bar. -/
def newsFor (rows : List NewsItemRow) (symbol : Symbol) (bucketTs : Time) : List NewsView :=
  ((recentNews rows bucketTs).filter fun row =>
    decide (row.symbols = []) || symbolsTouch row.symbols symbol).map (·.view)

/-- What `_score_items` makes of an item. -/
structure ScoredItem where
  score : ℚ
  weight : ℚ
  currency : List String

/-- `_has_currency`. -/
def hasCurrency (symbols : List String) (currency : String) : Bool :=
  symbols.any fun symbol => decide (symbol.length = 6) &&
    [String.ofList (symbol.toList.take 3), String.ofList (symbol.toList.drop 3)].contains currency

namespace Sentiment

/-- `_currency_aggregate`'s loop, one item. -/
def aggregateStep (currency : String) (acc : ℚ × ℚ) (item : ScoredItem) : ℚ × ℚ :=
  if hasCurrency item.currency currency then
    (acc.1 + item.score * item.weight, acc.2 + item.weight)
  else acc

/-- The mean of scores under weights, cut to [-1, 1]. -/
def boundedMean (total weightSum : ℚ) : ℚ :=
  if weightSum = 0 then 0 else max (-1) (min 1 (total / weightSum))

/-- `_currency_aggregate`. -/
def currencyAggregate (scored : List ScoredItem) (currency : String) : ℚ :=
  let (total, weightSum) := scored.foldl (aggregateStep currency) (0, 0)
  boundedMean total weightSum

/-- `_decide`. -/
def decide (differential weightedCount : ℚ) : Direction × ℚ :=
  let confidence := min (4 / 5) (15 / 100 + 1 / 2 * min 1 |differential| + 1 / 20 * weightedCount)
  if 12 / 100 < differential then (.long, Rounding.roundTo 4 (min 1 confidence))
  else if differential < -(12 / 100) then (.short, Rounding.roundTo 4 (min 1 confidence))
  else (.flat, 0)

variable [PyText] [Halving]

/-- `_score_items`, one item. -/
def scoreItem (now : Time) (item : NewsView) : ScoredItem where
  score := financeLexiconScore (item.headline.getD "")
  weight := Rounding.roundTo 4
    (match item.publishedUtc with
      | some published => decayWeight published now 6
      | none => 1)
  currency := item.symbols.take 1

/-- `_score_items`. -/
def scoreItems (news : List NewsView) (now : Time) : List ScoredItem := news.map (scoreItem now)

/-- `SentimentAgent.analyze`. -/
def analyze (ctx : AnalysisContext) (news : List NewsView) : AgentSignal :=
  let (base, quote) := currenciesOf ctx.symbol
  let perItem := scoreItems news ctx.now
  let baseAgg := currencyAggregate perItem base
  let quoteAgg := currencyAggregate perItem quote
  let differential := baseAgg - quoteAgg
  let weightedCount := (perItem.map fun item => max 0 item.weight).sum
  let decided := decide differential weightedCount
  buildSignal .sentiment ctx decided.1 decided.2
    [ ("differential", .num (Rounding.roundTo 4 differential)),
      ("base_agg", .num (Rounding.roundTo 4 baseAgg)),
      ("quote_agg", .num (Rounding.roundTo 4 quoteAgg)),
      ("item_count", .num perItem.length),
      ("weighted_count", .num (Rounding.roundTo 4 weightedCount)) ]

end Sentiment

end ForexAi
