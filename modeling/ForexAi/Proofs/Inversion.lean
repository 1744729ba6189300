/-
A pair quoted the other way around.

The fundamental and the sentiment agent weigh what is known of the base currency against what
is known of the quote currency.  Quoted the other way around a pair has the two exchanged, so
the difference changes its sign, and with it the direction, and nothing else does.

The events of a bar are those of its two currencies, whichever of them comes first; so the
fundamental agent turns around from the stored events on (`eventsFor_inverse`).  The headlines
of a bar are not: an item is loaded where it lists a pair with the bar's base in front or its
quote behind, so an item about the euro in pounds is loaded for the euro in dollars and not for
the dollar in euros.  The sentiment agent turns around where the two bars are given the same
headlines, which they are where the items agree about it (`newsFor_inverse`).
-/
import ForexAi.Agents.Sentiment
import ForexAi.Proofs.Mirror

namespace ForexAi

/-! ### The other way around -/

/-- Upper case is upper case character by character. -/
theorem toUpper_ofList (cs : List Char) :
    (String.ofList cs).toUpper = String.ofList (cs.map Char.toUpper) := by
  apply String.toList_injective
  simp [String.toUpper, String.toList_map]

/-- The pair with base and quote exchanged. -/
def Symbol.inverse (s : Symbol) : Symbol where
  code := String.ofList (s.code.toList.drop 3 ++ s.code.toList.take 3)
  upper := by
    have hupper : s.code.toList.map Char.toUpper = s.code.toList := by
      have h := congrArg String.toList s.upper
      simpa [String.toUpper, String.toList_map] using h
    rw [toUpper_ofList, List.map_append, List.map_drop, List.map_take, hupper]

/-- The currencies of the inverse pair. -/
theorem currenciesOf_inverse {s : Symbol} (h : s.code.length = 6) :
    currenciesOf s.inverse = (currenciesOf s).swap := by
  have hlength : (s.code.toList.drop 3).length = 3 := by
    rw [List.length_drop, String.length_toList, h]
  unfold currenciesOf Symbol.inverse Prod.swap
  simp only [String.toList_ofList]
  rw [List.take_left' hlength, List.drop_left' hlength]

/-- The signals of a pair and of its inverse. -/
structure Inverted (a b : AgentSignal) : Prop where
  direction : b.direction = a.direction.mirror
  confidence : b.confidence = a.confidence
  differential : ∃ d, a.features.get "differential" = some (.num d) ∧
    b.features.get "differential" = some (.num (-d))
  bucketTs : b.bucketTs = a.bucketTs
  validUntil : b.validUntil = a.validUntil

/-! ### Sentiment

The two currencies are aggregated by themselves, and only the difference of their aggregates
knows which of them is the base.
-/

namespace Sentiment

/-- The verdict on the opposite difference. -/
theorem decide_neg (differential weightedCount : ℚ) :
    decide (-differential) weightedCount =
      ((decide differential weightedCount).1.mirror, (decide differential weightedCount).2) := by
  unfold decide
  simp only [abs_neg]
  rcases lt_or_ge (12 / 100) differential with hlong | hlong
  · rw [if_pos hlong, if_neg (by linarith), if_pos (by linarith)]
    rfl
  · rcases lt_or_ge differential (-(12 / 100)) with hshort | hshort
    · rw [if_neg (by linarith : ¬ 12 / 100 < differential), if_pos hshort, if_pos (by linarith)]
      rfl
    · rw [if_neg (by linarith : ¬ 12 / 100 < differential),
        if_neg (by linarith : ¬ differential < -(12 / 100)),
        if_neg (by linarith), if_neg (by linarith)]
      rfl

variable [PyText] [Halving]

theorem analyze_inverse {ctx : AnalysisContext} (h : ctx.symbol.code.length = 6)
    (news : List NewsView) :
    Inverted (analyze ctx news) (analyze { ctx with symbol := ctx.symbol.inverse } news) := by
  have hneg : ∀ x y : ℚ, y - x = -(x - y) := fun x y => (neg_sub x y).symm
  unfold analyze
  simp only
  rw [currenciesOf_inverse h]
  simp only [Prod.fst_swap, Prod.snd_swap]
  rw [hneg (currencyAggregate (scoreItems news ctx.now) (currenciesOf ctx.symbol).1), decide_neg,
    Rounding.roundTo_neg]
  exact ⟨rfl, rfl, ⟨_, rfl, rfl⟩, rfl, rfl⟩

end Sentiment

/-- Every recent item that lists pairs is loaded for both quotations of the pair or for
neither. -/
def LoadedAlike (rows : List NewsItemRow) (symbol : Symbol) (bucketTs : Time) : Prop :=
  ∀ row ∈ recentNews rows bucketTs, row.symbols ≠ [] →
    symbolsTouch row.symbols symbol.inverse = symbolsTouch row.symbols symbol

/-- The headlines of a bar are then those of the inverse pair's bar. -/
theorem newsFor_inverse {rows : List NewsItemRow} {symbol : Symbol} {bucketTs : Time}
    (h : LoadedAlike rows symbol bucketTs) :
    newsFor rows symbol.inverse bucketTs = newsFor rows symbol bucketTs := by
  unfold newsFor
  refine congrArg (List.map _) (List.filter_congr fun row hrow => ?_)
  by_cases hnone : row.symbols = []
  · simp [hnone]
  · rw [h row hrow hnone]

/-! ### Fundamentals -/

/-- The events of a bar are those of the inverse pair's bar. -/
theorem eventsFor_inverse {symbol : Symbol} (h : symbol.code.length = 6) (t : EventTable)
    (bucketTs : Time) : eventsFor t symbol.inverse bucketTs = eventsFor t symbol bucketTs := by
  have hquery : ∀ row, queriedFor symbol.inverse bucketTs row = queriedFor symbol bucketTs row := by
    intro row
    unfold queriedFor
    rw [currenciesOf_inverse h]
    simp only [Prod.fst_swap, Prod.snd_swap, List.contains_cons, List.contains_nil, Bool.or_false]
    rw [Bool.or_comm (row.currency == (currenciesOf symbol).2)]
  unfold eventsFor eventRowsFor
  rw [show queriedFor symbol.inverse bucketTs = queriedFor symbol bucketTs from funext hquery]

/-- The verdict on the opposite difference. -/
theorem Fundamental.decide_neg (impact differential : ℚ) (eventCount : ℕ) :
    Fundamental.decide impact (-differential) eventCount =
      ((Fundamental.decide impact differential eventCount).1.mirror,
        (Fundamental.decide impact differential eventCount).2) := by
  unfold Fundamental.decide
  rw [abs_neg]
  by_cases hnone : eventCount = 0
  · rw [if_pos hnone, if_pos hnone]
    rfl
  · by_cases hrisk : 17 / 20 ≤ impact
    · rw [if_neg hnone, if_neg hnone, if_pos hrisk, if_pos hrisk]
      rfl
    · by_cases hsmall : |differential| < 1 / 4
      · rw [if_neg hnone, if_neg hnone, if_neg hrisk, if_neg hrisk, if_pos hsmall, if_pos hsmall]
        rfl
      · rw [if_neg hnone, if_neg hnone, if_neg hrisk, if_neg hrisk, if_neg hsmall, if_neg hsmall]
        have hne : differential ≠ 0 := by
          intro hzero
          rw [hzero, abs_zero] at hsmall
          exact hsmall (by norm_num)
        simp only [Prod.mk.injEq, and_true]
        rcases lt_or_gt_of_ne hne with hneg | hpos
        · rw [if_pos (by linarith), if_neg (by linarith)]
          rfl
        · rw [if_neg (by linarith), if_pos hpos]
          rfl

section

variable [PyText]

theorem Fundamental.analyze_inverse {ctx : AnalysisContext} (h : ctx.symbol.code.length = 6)
    (events : List EventView) :
    Inverted (Fundamental.analyze ctx events)
      (Fundamental.analyze { ctx with symbol := ctx.symbol.inverse } events) := by
  have hneg : ∀ x y : ℚ, y - x = -(x - y) := fun x y => (neg_sub x y).symm
  unfold Fundamental.analyze
  simp only
  rw [currenciesOf_inverse h]
  simp only [Prod.fst_swap, Prod.snd_swap]
  rw [hneg (currencyBias events (currenciesOf ctx.symbol).1), Fundamental.decide_neg,
    Rounding.roundTo_neg]
  exact ⟨rfl, rfl, ⟨_, rfl, rfl⟩, rfl, rfl⟩

variable [Halving]

/-- **A pair quoted the other way around gets the opposite votes**: whatever the stored events
are, and whatever headlines both bars are given, the directions turn around and the confidence
stays.  From the stored items on this is so where they are loaded alike. -/
theorem votes_inverse (ctx : AnalysisContext) (h : ctx.symbol.code.length = 6) (t : EventTable)
    (rows : List NewsItemRow) :
    Inverted (Fundamental.analyze ctx (eventsFor t ctx.symbol ctx.bucketTs))
        (Fundamental.analyze { ctx with symbol := ctx.symbol.inverse }
          (eventsFor t ctx.symbol.inverse ctx.bucketTs)) ∧
      (∀ news, Inverted (Sentiment.analyze ctx news)
        (Sentiment.analyze { ctx with symbol := ctx.symbol.inverse } news)) ∧
      (LoadedAlike rows ctx.symbol ctx.bucketTs →
        Inverted (Sentiment.analyze ctx (newsFor rows ctx.symbol ctx.bucketTs))
          (Sentiment.analyze { ctx with symbol := ctx.symbol.inverse }
            (newsFor rows ctx.symbol.inverse ctx.bucketTs))) := by
  rw [eventsFor_inverse h]
  refine ⟨Fundamental.analyze_inverse h _, Sentiment.analyze_inverse h, fun halike => ?_⟩
  rw [newsFor_inverse halike]
  exact Sentiment.analyze_inverse h _

end

/-- A bar of the euro. -/
def euroBar : AnalysisContext where
  symbol := .eurusd
  timeframe := .H1
  bucketTs := 0
  candles := []
  now := seconds 3600
  prevDaily := none

/-- A European figure that comes out as the bar is looked at. -/
def euroFigure : EconomicEventRow where
  provider := "calendar"
  title := "CPI"
  timestampUtc := seconds 3600
  importance := .high
  currency := "EUR"
  forecast := some "2"
  dedupKey := "cpi"

def euroCalendar : EventTable := ⟨[euroFigure], List.nodup_singleton _⟩

/-- Two headlines, one about the euro in pounds and the pound in euros, and one about no pair. -/
def euroHeadlines : List NewsItemRow :=
  [⟨"ECB hawkish", 0, ["EURGBP", "GBPEUR"]⟩, ⟨"markets quiet", 0, []⟩]

/-- The figure keeps both quotations flat; the headlines buy the euro in dollars, and sell the
dollar in euros. -/
theorem votes_inverse_eurusd :
    let waits := @Fundamental.analyze .plain euroBar (eventsFor euroCalendar .eurusd 0)
    let buys := @Sentiment.analyze .plain .none euroBar (newsFor euroHeadlines .eurusd 0)
    (waits.confidence = 1 / 10 ∧ buys.direction = .long) ∧
      Inverted waits
        (@Fundamental.analyze .plain { euroBar with symbol := Symbol.eurusd.inverse }
          (eventsFor euroCalendar Symbol.eurusd.inverse 0)) ∧
      Inverted buys
        (@Sentiment.analyze .plain .none { euroBar with symbol := Symbol.eurusd.inverse }
          (newsFor euroHeadlines Symbol.eurusd.inverse 0)) := by
  have halike : LoadedAlike euroHeadlines .eurusd 0 := by
    unfold LoadedAlike
    decide +kernel
  have hvotes := @votes_inverse .plain .none euroBar (by decide) euroCalendar euroHeadlines
  exact ⟨⟨by decide +kernel, by decide +kernel⟩, hvotes.1, hvotes.2.2 halike⟩

/-- An item about the euro in pounds is loaded for one quotation only. -/
example : symbolsTouch ["EURGBP"] .eurusd = true ∧
    symbolsTouch ["EURGBP"] Symbol.eurusd.inverse = false := by decide +kernel

end ForexAi
