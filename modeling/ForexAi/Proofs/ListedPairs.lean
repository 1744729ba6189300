/-
Which of an item's pairs count.

The aggregate of a currency asks of every item whether one of its pairs has the currency,
and says so in a comment.  What it asks is what scoring left of the pairs, the first one.
An item therefore speaks for the currencies of its first pair alone, and listing the pairs
in another order changes the signal.

Both are right exactly where the pairs do not differ in what matters: at one currency where
the first pair has it if any has (`contributes_iff`), and in every order where all pairs of
an item are of the same currencies (`every_pair_counts_iff`).
-/
import ForexAi.Agents.Sentiment
import Mathlib.Data.List.Forall2

namespace ForexAi

/-- The six-letter pair is of the currency. -/
def PairHas (pair currency : String) : Prop :=
  pair.length = 6 ∧
    (currency = String.ofList (pair.toList.take 3) ∨ currency = String.ofList (pair.toList.drop 3))

/-- At least one of the pairs listed for the item is of the currency. -/
def NewsView.Lists (item : NewsView) (currency : String) : Prop :=
  ∃ pair ∈ item.symbols, PairHas pair currency

theorem hasCurrency_iff (symbols : List String) (currency : String) :
    hasCurrency symbols currency = true ↔ ∃ pair ∈ symbols, PairHas pair currency := by
  unfold hasCurrency PairHas
  simp

/-- The same items with the pairs of each in some order. -/
def Rearranged : List NewsView → List NewsView → Prop :=
  List.Forall₂ fun item item' => item.headline = item'.headline ∧
    item.publishedUtc = item'.publishedUtc ∧ item.symbols.Perm item'.symbols

theorem lists_of_perm {item item' : NewsView} (h : item.symbols.Perm item'.symbols)
    (currency : String) : item.Lists currency ↔ item'.Lists currency := by
  unfold NewsView.Lists
  simp only [h.mem_iff]

/-- The first pair of an item is of the currency if any is. -/
def FirstPairSpeaks (item : NewsView) (currency : String) : Prop :=
  item.Lists currency → ∀ first, item.symbols.head? = some first → PairHas first currency

/-- All pairs of an item are of the same currencies. -/
def PairsAgree (item : NewsView) : Prop :=
  ∀ currency, item.Lists currency → ∀ pair ∈ item.symbols, PairHas pair currency

/-- Where an item's pairs agree, the first one speaks for all. -/
theorem PairsAgree.speaks {item item' : NewsView} (h : PairsAgree item)
    (hperm : item.symbols.Perm item'.symbols) (currency : String) :
    FirstPairSpeaks item' currency := by
  intro hlists first hfirst
  have hmem : first ∈ item.symbols := hperm.mem_iff.mpr (List.mem_of_head? hfirst)
  exact h currency ((lists_of_perm hperm currency).mpr hlists) first hmem

/-- The item with one of its pairs first. -/
def bringFirst (pair : String) (item : NewsView) : NewsView :=
  { item with
    symbols := if pair ∈ item.symbols then pair :: item.symbols.erase pair else item.symbols }

theorem rearranged_bringFirst (pair : String) (news : List NewsView) :
    Rearranged news (news.map (bringFirst pair)) := by
  unfold Rearranged
  rw [List.forall₂_map_right_iff, List.forall₂_same]
  refine fun item _ => ⟨rfl, rfl, ?_⟩
  unfold bringFirst
  by_cases h : pair ∈ item.symbols
  · simp only [if_pos h]
    exact List.perm_cons_erase h
  · simp only [if_neg h]
    exact List.Perm.refl _

theorem rearranged_mem {news news' : List NewsView} (h : Rearranged news news')
    {item' : NewsView} (hmem : item' ∈ news') :
    ∃ item ∈ news, item.symbols.Perm item'.symbols := by
  induction h with
  | nil => exact absurd hmem (by simp)
  | cons hitem _ ih =>
      rcases List.mem_cons.mp hmem with rfl | hrest
      · exact ⟨_, List.mem_cons_self, hitem.2.2⟩
      · obtain ⟨item, hin, hperm⟩ := ih hrest
        exact ⟨item, List.mem_cons_of_mem _ hin, hperm⟩

namespace Sentiment

/-! ### What counts

The aggregate is a fold over the items with a sum of weights and a weighted sum.  Read as a
mean over the items that are taken in, it depends on which these are and on nothing else of
the pairs.
-/

/-- The items of a currency, and what they come to. -/
theorem aggregate_fold (currency : String) (scored : List ScoredItem) (acc : ℚ × ℚ) :
    scored.foldl (aggregateStep currency) acc =
      (acc.1 + ((scored.filter (hasCurrency ·.currency currency)).map
          fun item => item.score * item.weight).sum,
        acc.2 + ((scored.filter (hasCurrency ·.currency currency)).map (·.weight)).sum) := by
  induction scored generalizing acc with
  | nil => simp
  | cons item rest ih =>
      rw [List.foldl_cons, ih]
      unfold aggregateStep
      by_cases h : hasCurrency item.currency currency = true
      · rw [if_pos h]
        simp [h, add_assoc]
      · rw [if_neg h]
        simp [h]

variable [PyText] [Halving]

/-- The aggregate takes the item in, with its score under its weight. -/
def Contributes (now : Time) (item : NewsView) (currency : String) : Prop :=
  hasCurrency (scoreItem now item).currency currency = true

instance (now : Time) (item : NewsView) (currency : String) :
    Decidable (Contributes now item currency) :=
  inferInstanceAs (Decidable (_ = true))

theorem aggregateStep_taken {now : Time} {item : NewsView} {currency : String}
    (h : Contributes now item currency) (acc : ℚ × ℚ) :
    aggregateStep currency acc (scoreItem now item) =
      (acc.1 + (scoreItem now item).score * (scoreItem now item).weight,
        acc.2 + (scoreItem now item).weight) := if_pos h

theorem aggregateStep_passed {now : Time} {item : NewsView} {currency : String}
    (h : ¬ Contributes now item currency) (acc : ℚ × ℚ) :
    aggregateStep currency acc (scoreItem now item) = acc := if_neg h

/-- **The aggregate of a currency is the mean over the items that contribute.** -/
theorem currencyAggregate_eq (news : List NewsView) (now : Time) (currency : String) :
    currencyAggregate (scoreItems news now) currency =
      let taken := (news.filter fun item => Contributes now item currency).map (scoreItem now)
      boundedMean (taken.map fun item => item.score * item.weight).sum
        (taken.map (·.weight)).sum := by
  have hfilter : (scoreItems news now).filter (hasCurrency ·.currency currency)
      = (news.filter fun item => Contributes now item currency).map (scoreItem now) := by
    unfold scoreItems
    rw [List.filter_map]
    refine congrArg _ (List.filter_congr fun item _ => ?_)
    exact Bool.eq_iff_iff.mpr (decide_eq_true_iff (p := Contributes now item currency)).symm
  unfold currencyAggregate
  rw [aggregate_fold, hfilter]
  simp

theorem contributes_iff_head (now : Time) (item : NewsView) (currency : String) :
    Contributes now item currency ↔
      ∃ first, item.symbols.head? = some first ∧ PairHas first currency := by
  unfold Contributes
  rw [hasCurrency_iff]
  show (∃ pair ∈ item.symbols.take 1, _) ↔ _
  cases item.symbols with
  | nil => simp
  | cons first rest => simp

/-! ### At one currency -/

/-- The item counts exactly where a pair of it has the currency. -/
theorem contributes_iff (now : Time) (item : NewsView) (currency : String) :
    (Contributes now item currency ↔ item.Lists currency) ↔ FirstPairSpeaks item currency := by
  unfold FirstPairSpeaks
  rw [contributes_iff_head]
  refine ⟨fun h hlists first hfirst => ?_, fun h => ⟨?_, fun hlists => ?_⟩⟩
  · obtain ⟨first', hfirst', hhas⟩ := h.mpr hlists
    rw [hfirst] at hfirst'
    rw [Option.some.inj hfirst']
    exact hhas
  · rintro ⟨first, hfirst, hhas⟩
    exact ⟨first, List.mem_of_head? hfirst, hhas⟩
  · obtain ⟨pair, hpair, hhas⟩ := hlists
    have hsome : item.symbols.head?.isSome = true :=
      List.isSome_head?.mpr (List.ne_nil_of_mem hpair)
    obtain ⟨first, hfirst⟩ := Option.isSome_iff_exists.mp hsome
    exact ⟨first, hfirst, h ⟨pair, hpair, hhas⟩ first hfirst⟩

/-! ### In every order

Bringing another pair to the front is an order, too.  So if the signal is to be the same in
every order, each pair of an item has to speak for the same currencies.
-/

/-- The mean of the scores, under their weights, of the items that list a pair of the currency. -/
def listedMean (now : Time) (news : List NewsView) (currency : String) : ℚ :=
  let listed := (news.filter fun item => hasCurrency item.symbols currency).map (scoreItem now)
  boundedMean (listed.map fun item => item.score * item.weight).sum (listed.map (·.weight)).sum

/-- However the pairs are listed, an item counts for the currencies of all of them, the
aggregate is the mean over these items, and the signal is the same. -/
structure EveryPairCounts (now : Time) (news : List NewsView) : Prop where
  counted : ∀ news', Rearranged news news' → ∀ item ∈ news', ∀ currency,
    Contributes now item currency ↔ item.Lists currency
  mean : ∀ news', Rearranged news news' → ∀ currency,
    currencyAggregate (scoreItems news' now) currency = listedMean now news' currency
  same : ∀ news', Rearranged news news' → ∀ ctx : AnalysisContext, ctx.now = now →
    analyze ctx news' = analyze ctx news

/-- Where the items that count are those that list the currency, the aggregate is their mean. -/
theorem aggregate_eq_listedMean {now : Time} {news : List NewsView} {currency : String}
    (h : ∀ item ∈ news, Contributes now item currency ↔ item.Lists currency) :
    currencyAggregate (scoreItems news now) currency = listedMean now news currency := by
  have hfilter : (news.filter fun item => Contributes now item currency)
      = news.filter fun item => hasCurrency item.symbols currency := by
    refine List.filter_congr fun item hitem => Bool.eq_iff_iff.mpr ?_
    rw [decide_eq_true_iff, h item hitem, hasCurrency_iff]
    rfl
  rw [currencyAggregate_eq, hfilter]
  rfl

/-- Where the pairs agree, no order of them changes an aggregate. -/
theorem aggregate_rearranged {news news' : List NewsView} (h : Rearranged news news')
    (hagree : ∀ item ∈ news, PairsAgree item) (now : Time) (currency : String) (acc : ℚ × ℚ) :
    (scoreItems news' now).foldl (aggregateStep currency) acc
      = (scoreItems news now).foldl (aggregateStep currency) acc := by
  induction h generalizing acc with
  | nil => rfl
  | @cons item item' rest rest' hitem _ ih =>
      obtain ⟨hheadline, hpublished, hperm⟩ := hitem
      have hitem := hagree item List.mem_cons_self
      have hsame : Contributes now item' currency ↔ Contributes now item currency := by
        rw [(contributes_iff now item' currency).mpr (hitem.speaks hperm currency),
          (contributes_iff now item currency).mpr (hitem.speaks (List.Perm.refl _) currency)]
        exact (lists_of_perm hperm currency).symm
      have hscore : (scoreItem now item').score = (scoreItem now item).score := by
        unfold scoreItem
        rw [hheadline]
      have hweight : (scoreItem now item').weight = (scoreItem now item).weight := by
        unfold scoreItem
        rw [hpublished]
      have hstep : aggregateStep currency acc (scoreItem now item')
          = aggregateStep currency acc (scoreItem now item) := by
        by_cases htaken : Contributes now item currency
        · rw [aggregateStep_taken (hsame.mpr htaken), aggregateStep_taken htaken, hscore, hweight]
        · rw [aggregateStep_passed fun h => htaken (hsame.mp h), aggregateStep_passed htaken]
      show (scoreItems rest' now).foldl _ (aggregateStep currency acc (scoreItem now item')) = _
      rw [hstep, ih fun item hin => hagree item (List.mem_cons_of_mem _ hin)]
      rfl

theorem weights_rearranged {news news' : List NewsView} (h : Rearranged news news')
    (now : Time) : (scoreItems news' now).map (·.weight) =
      (scoreItems news now).map (·.weight) := by
  induction h with
  | nil => rfl
  | @cons item item' rest rest' hitem _ ih =>
      have hweight : (scoreItem now item').weight = (scoreItem now item).weight := by
        unfold scoreItem
        rw [hitem.2.1]
      exact congrArg₂ List.cons hweight ih

theorem analyze_rearranged {news news' : List NewsView} (h : Rearranged news news')
    (hagree : ∀ item ∈ news, PairsAgree item) (ctx : AnalysisContext) :
    analyze ctx news' = analyze ctx news := by
  have haggregate (currency : String) : currencyAggregate (scoreItems news' ctx.now) currency
      = currencyAggregate (scoreItems news ctx.now) currency := by
    unfold currencyAggregate
    rw [aggregate_rearranged h hagree]
  have hweights : (scoreItems news' ctx.now).map (fun item => max 0 item.weight)
      = (scoreItems news ctx.now).map (fun item => max 0 item.weight) := by
    have hmap := congrArg (List.map fun w : ℚ => max 0 w) (weights_rearranged h ctx.now)
    rwa [List.map_map, List.map_map] at hmap
  have hlength : (scoreItems news' ctx.now).length = (scoreItems news ctx.now).length := by
    unfold scoreItems
    rw [List.length_map, List.length_map, h.length_eq]
  unfold analyze
  simp only [haggregate, hweights, hlength]

/-- **When every listed pair counts**: at one currency, where the first pair has it if any
has; whatever the order, where the pairs of an item are all of the same currencies. -/
theorem every_pair_counts_iff (now : Time) (news : List NewsView) :
    (∀ currency, (∀ item ∈ news, Contributes now item currency ↔ item.Lists currency) ↔
      ∀ item ∈ news, FirstPairSpeaks item currency) ∧
    (EveryPairCounts now news ↔ ∀ item ∈ news, PairsAgree item) := by
  refine ⟨fun currency => forall₂_congr fun item _ => contributes_iff now item currency,
    fun h item hitem currency hlists pair hpair => ?_, fun h => ?_⟩
  · -- With the pair listed first the item has to count for the currency still.
    have hmem : bringFirst pair item ∈ news.map (bringFirst pair) := List.mem_map_of_mem hitem
    have hsymbols : (bringFirst pair item).symbols = pair :: item.symbols.erase pair := by
      unfold bringFirst
      exact if_pos hpair
    have hcounted := h.counted _ (rearranged_bringFirst pair news) _ hmem currency
    have hperm : item.symbols.Perm (bringFirst pair item).symbols := by
      rw [hsymbols]
      exact List.perm_cons_erase hpair
    have htaken := hcounted.mpr ((lists_of_perm hperm currency).mp hlists)
    rw [contributes_iff_head, hsymbols] at htaken
    obtain ⟨first, hfirst, hhas⟩ := htaken
    rwa [← Option.some.inj hfirst] at hhas
  · have hcounted : ∀ news', Rearranged news news' → ∀ item' ∈ news', ∀ currency,
        Contributes now item' currency ↔ item'.Lists currency := by
      intro news' hnews item' hitem' currency
      obtain ⟨item, hitem, hperm⟩ := rearranged_mem hnews hitem'
      exact (contributes_iff now item' currency).mpr ((h item hitem).speaks hperm currency)
    refine ⟨hcounted, fun news' hnews currency => ?_, fun news' hnews ctx _ => ?_⟩
    · exact aggregate_eq_listedMean fun item' hitem' => hcounted news' hnews item' hitem' currency
    · exact analyze_rearranged hnews h ctx

omit [PyText] [Halving]

/-- An item about the euro against the dollar and against the pound. -/
def twoPairs : NewsView where
  headline := none
  publishedUtc := none
  symbols := ["EURUSD", "EURGBP"]

/-- The item does not count for the pound, though one of its pairs is of the pound. -/
theorem second_pair_lost : ¬ ∀ (_ : PyText) (_ : Halving) (now : Time) (news : List NewsView)
    (currency : String), ∀ item ∈ news, Contributes now item currency ↔ item.Lists currency := by
  intro h
  have hcounts := h PyText.plain Halving.none 0 [twoPairs] "GBP" twoPairs List.mem_cons_self
  have hlists : twoPairs.Lists "GBP" :=
    (hasCurrency_iff twoPairs.symbols "GBP").mp (by decide +kernel)
  have htaken := hcounts.mpr hlists
  exact absurd htaken (by unfold Contributes; decide +kernel)

end Sentiment

end ForexAi
