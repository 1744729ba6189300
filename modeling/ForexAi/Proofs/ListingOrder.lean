/-
In which order the timeframes are listed.

The replay sorts the timeframes or asks whether one is among them, so listing them otherwise
changes nothing of it (`run_listing`).  The report takes the one that is listed first for the
period of the returns, which are those of the smallest.  The two ratios scale with the root of
that period, so they depend on it unless they are zero.
-/
import ForexAi.Backtest.Report
import ForexAi.Proofs.NoBias
import ForexAi.Proofs.NoLookAhead

namespace ForexAi

open Columns Technical

/-- Sorting forgets the order there was. -/
theorem insertionSort_eq_of_perm {α : Type*} (r : α → α → Prop) [DecidableRel r]
    (htotal : ∀ a b, r a b ∨ r b a) (htrans : ∀ a b c, r a b → r b c → r a c)
    (hantisymm : ∀ a b, r a b → r b a → a = b) {xs ys : List α} (h : xs.Perm ys) :
    xs.insertionSort r = ys.insertionSort r := by
  have : Std.Total r := ⟨htotal⟩
  have : IsTrans α r := ⟨htrans⟩
  have hperm : (xs.insertionSort r).Perm (ys.insertionSort r) :=
    (List.perm_insertionSort r xs).trans (h.trans (List.perm_insertionSort r ys).symm)
  exact hperm.eq_of_pairwise (fun a b _ _ hab hba => hantisymm a b hab hba)
    (List.pairwise_insertionSort r xs) (List.pairwise_insertionSort r ys)

theorem byRank_eq_of_perm {xs ys : List Timeframe} (h : xs.Perm ys) : byRank xs = byRank ys :=
  insertionSort_eq_of_perm (fun a b : Timeframe => a.rank ≤ b.rank)
    (fun a b => Nat.le_total a.rank b.rank)
    (fun _ _ _ hab hbc => Nat.le_trans hab hbc)
    (fun _ _ hab hba => Timeframe.rank_injective (Nat.le_antisymm hab hba)) h

theorem largestFirst_eq_of_perm {xs ys : List Timeframe} (h : xs.Perm ys) :
    xs.insertionSort (fun a b => b.rank ≤ a.rank)
      = ys.insertionSort fun a b => b.rank ≤ a.rank :=
  insertionSort_eq_of_perm (fun a b : Timeframe => b.rank ≤ a.rank)
    (fun a b => Nat.le_total b.rank a.rank)
    (fun _ _ _ hab hbc => Nat.le_trans hbc hab)
    (fun _ _ hab hba => Timeframe.rank_injective (Nat.le_antisymm hba hab)) h

/-! ### The replay

Every part of a replay sees the timeframes sorted, or asks whether one of them is there.
Neither knows the order they were listed in.
-/

/-- The driver with its timeframes listed otherwise. -/
def Driver.listing (d : Driver) (timeframes : List Timeframe) (hne : timeframes ≠ []) : Driver :=
  { d with cfg := { d.cfg with timeframes, timeframes_ne := hne } }

namespace Driver

variable {d : Driver} {timeframes : List Timeframe} {hne : timeframes ≠ []}
  (h : timeframes.Perm d.cfg.timeframes)

include h

theorem fine_listing : (d.listing timeframes hne).cfg.fine = d.cfg.fine := by
  unfold BacktestConfig.fine
  have hsame : byRank (d.listing timeframes hne).cfg.timeframes = byRank d.cfg.timeframes :=
    byRank_eq_of_perm h
  simp only [hsame]

theorem contextFrames_listing :
    (d.listing timeframes hne).cfg.contextFrames = d.cfg.contextFrames := by
  unfold BacktestConfig.contextFrames
  rw [fine_listing h]
  exact congrArg _ (largestFirst_eq_of_perm h)

theorem signalsAt_listing : (d.listing timeframes hne).signalsAt = d.signalsAt := by
  funext symbol timeframe bars i bucket
  have hprev : (d.listing timeframes hne).prevDaily symbol bucket = d.prevDaily symbol bucket := by
    have hmem : Timeframe.D1 ∈ (d.listing timeframes hne).cfg.timeframes ↔
        Timeframe.D1 ∈ d.cfg.timeframes := h.mem_iff
    unfold prevDaily
    simp only [hmem]
    rfl
  unfold signalsAt
  rw [hprev]
  rfl

omit h in
theorem decideOutcome_eq_of_perm {a b : List Timeframe} (hab : a.Perm b) (last : RecentDecisions)
    (symbol : Symbol) (timeframe : Timeframe) (bucketTs now : Time) (signals : Signals) (price : ℚ)
    (gate : GateState) (risk : RiskParams) :
    decideOutcome last symbol timeframe bucketTs now signals price a gate risk
      = decideOutcome last symbol timeframe bucketTs now signals price b gate risk := by
  have hinputs : decisionInputs last symbol timeframe bucketTs now signals price a gate
      = decisionInputs last symbol timeframe bucketTs now signals price b gate := by
    unfold decisionInputs parentContext
    rw [byRank_eq_of_perm hab]
  unfold decideOutcome
  simp only [hinputs]

theorem runContextTf_listing : (d.listing timeframes hne).runContextTf = d.runContextTf := by
  funext s symbol timeframe
  have hbar : (d.listing timeframes hne).contextBar = d.contextBar := by
    funext symbol timeframe bars s i
    unfold contextBar decidesAt
    simp only [signalsAt_listing h, fun last symbol tf ts now signals price gate risk =>
      decideOutcome_eq_of_perm (a := (d.listing timeframes hne).cfg.timeframes) h last symbol tf ts
        now signals price gate risk]
    rfl
  unfold runContextTf
  rw [hbar]
  rfl

variable [Digest]

theorem fineBar_listing : (d.listing timeframes hne).fineBar = d.fineBar := by
  have hpending : (d.listing timeframes hne).executePending = d.executePending := by
    funext symbol s bar
    unfold executePending
    rw [fine_listing h]
  have hdecide : (d.listing timeframes hne).decideClose = d.decideClose := by
    funext symbol bars i s bar
    unfold decideClose decidesAt
    simp only [signalsAt_listing h, fine_listing h,
      fun last symbol tf ts now signals price gate risk =>
        decideOutcome_eq_of_perm (a := (d.listing timeframes hne).cfg.timeframes) h last symbol tf
          ts now signals price gate risk]
    rfl
  funext symbol bars s i
  unfold fineBar
  rw [hpending, hdecide]

theorem runFine_listing : (d.listing timeframes hne).runFine = d.runFine := by
  have htally : (d.listing timeframes hne).tally = d.tally := by
    funext symbol bars agent
    unfold tally
    rw [signalsAt_listing h, fine_listing h]
    rfl
  have hcoverage : (d.listing timeframes hne).appendCoverage = d.appendCoverage := by
    funext symbol bars s
    unfold appendCoverage
    rw [htally, fine_listing h]
    rfl
  funext s symbol
  unfold runFine
  rw [hcoverage, fineBar_listing h, fine_listing h]
  rfl

/-- **The replay does not see the order.** -/
theorem run_listing : (d.listing timeframes hne).run = d.run := by
  unfold run context
  rw [runFine_listing h, runContextTf_listing h, contextFrames_listing h]
  rfl

end Driver

/-! ### The report

The ratios are the mean over the deviation, times the root of the number of periods in a year.
Two periods give one ratio only if it is zero, or if the root does not tell them apart.
-/

/-- The returns of an equity curve do not move on average, or do not move at all, or cannot be
computed. -/
def Steady (equityPoints : List (Time × ℚ)) : Prop :=
  ∀ returns ∈ returnsOf (equityPoints.map (·.2)),
    meanOf returns = 0 ∨ ∀ r ∈ returns, r = meanOf returns

instance (equityPoints : List (Time × ℚ)) : Decidable (Steady equityPoints) :=
  inferInstanceAs (Decidable (∀ returns ∈ _, _))

theorem steady_of_short {equityPoints : List (Time × ℚ)} (h : equityPoints.length < 2) :
    Steady equityPoints := by
  intro returns hreturns
  have hnone : returns = [] := by
    match equityPoints, h with
    | [], _ => exact (Option.some.inj hreturns).symm
    | [_], _ => exact (Option.some.inj hreturns).symm
  refine Or.inr fun r hr => ?_
  rw [hnone] at hr
  exact absurd hr List.not_mem_nil

theorem returnsOf_ne_nil {prices returns : List ℚ} (hlong : 2 ≤ prices.length)
    (h : returnsOf prices = some returns) : returns ≠ [] := by
  match prices, hlong with
  | previous :: price :: rest, _ =>
      unfold returnsOf at h
      by_cases hzero : previous = 0
      · rw [if_pos hzero] at h
        exact absurd h (by simp)
      · rw [if_neg hzero] at h
        obtain ⟨later, -, rfl⟩ := Option.map_eq_some_iff.mp h
        simp

section Ratios

variable [SquareRoot]

/-- The square root tells the factors of the timeframes apart. -/
def RootsApart : Prop := ∀ tf tf' : Timeframe,
  SquareRoot.sqrt (annualizationFactor tf) = SquareRoot.sqrt (annualizationFactor tf') → tf = tf'

theorem annualised_inj (hapart : RootsApart) {meanR spread : ℚ} (hmean : meanR ≠ 0)
    (hspread : 0 < spread) {tf tf' : Timeframe} :
    annualised meanR spread (annualizationFactor tf)
      = annualised meanR spread (annualizationFactor tf') ↔ tf = tf' := by
  refine ⟨fun heq => hapart tf tf' ?_, fun heq => by rw [heq]⟩
  unfold annualised at heq
  rw [if_pos hspread, if_pos hspread] at heq
  exact mul_left_cancel₀ (div_ne_zero hmean hspread.ne') heq

theorem annualised_still {meanR spread : ℚ} (h : meanR = 0 ∨ spread = 0) (ann ann' : ℚ) :
    annualised meanR spread ann = annualised meanR spread ann' := by
  unfold annualised
  rcases h with h | h
  · simp [h]
  · simp [h]

/-- Returns that do not differ have no deviation, and those that lose have none. -/
theorem deviations_zero (hroot : RootAtZero) {returns : List ℚ} (hne : returns ≠ [])
    (h : ∀ r ∈ returns, r = meanOf returns) : deviation returns = 0 ∧ downsideOf returns = 0 := by
  refine ⟨(deviation_eq_zero_iff hroot hne).mpr h, ?_⟩
  unfold downsideOf
  by_cases hlosing : (returns.filter fun r => decide (r < 0)) = []
  · simp only [hlosing, if_true]
  · simp only [hlosing, if_false]
    refine (deviation_eq_zero_iff hroot hlosing).mpr fun r hr => ?_
    have hall : ∀ x ∈ returns.filter (fun r => decide (r < 0)), x = meanOf returns :=
      fun x hx => h x (List.mem_filter.mp hx).1
    rw [meanOf_eq hlosing hall]
    exact hall r hr

/-- Both ratios, of returns there are. -/
def ratiosOf (returns : List ℚ) (ann : ℚ) : ℚ × ℚ :=
  (annualised (meanOf returns) (deviation returns) ann,
    annualised (meanOf returns) (downsideOf returns) ann)

/-- The ratios tell the timeframes apart where the returns move on average and differ. -/
theorem ratiosOf_eq_iff (hroot : RootAtZero) (hapart : RootsApart) {returns : List ℚ}
    (hne : returns ≠ []) (tf tf' : Timeframe) :
    ratiosOf returns (annualizationFactor tf) = ratiosOf returns (annualizationFactor tf') ↔
      tf = tf' ∨ (meanOf returns = 0 ∨ ∀ r ∈ returns, r = meanOf returns) := by
  unfold ratiosOf
  simp only [Prod.mk.injEq]
  constructor
  · intro ⟨hsharpe, _⟩
    by_cases hstill : meanOf returns = 0 ∨ ∀ r ∈ returns, r = meanOf returns
    · exact Or.inr hstill
    · left
      have hspread : 0 < deviation returns := by
        refine lt_of_le_of_ne (deviation_nonneg returns) fun hzero => hstill (Or.inr ?_)
        exact (deviation_eq_zero_iff hroot hne).mp hzero.symm
      exact (annualised_inj hapart (fun hmean => hstill (Or.inl hmean)) hspread).mp hsharpe
  · intro h
    rcases h with rfl | hmean | hflat
    · exact ⟨rfl, rfl⟩
    · exact ⟨annualised_still (Or.inl hmean) _ _, annualised_still (Or.inl hmean) _ _⟩
    · obtain ⟨hspread, hdownside⟩ := deviations_zero hroot hne hflat
      exact ⟨annualised_still (Or.inr hspread) _ _, annualised_still (Or.inr hdownside) _ _⟩

/-- **The ratios say the period**, unless the curve is steady. -/
theorem riskAdjusted_eq_iff (hroot : RootAtZero) (hapart : RootsApart)
    (equityPoints : List (Time × ℚ)) (tf tf' : Timeframe) :
    riskAdjusted equityPoints tf = riskAdjusted equityPoints tf' ↔
      tf = tf' ∨ Steady equityPoints := by
  unfold riskAdjusted
  by_cases hshort : equityPoints.length < 2
  · rw [if_pos hshort, if_pos hshort]
    exact ⟨fun _ => Or.inr (steady_of_short hshort), fun _ => rfl⟩
  · rw [if_neg hshort, if_neg hshort]
    cases hreturns : returnsOf (equityPoints.map (·.2)) with
    | none =>
        refine ⟨fun _ => Or.inr fun returns h => ?_, fun _ => rfl⟩
        rw [hreturns] at h
        exact absurd h (by simp)
    | some returns =>
        have hne : returns ≠ [] :=
          returnsOf_ne_nil (by simpa using not_lt.mp hshort) hreturns
        have hsteady : Steady equityPoints ↔
            meanOf returns = 0 ∨ ∀ r ∈ returns, r = meanOf returns := by
          unfold Steady
          rw [hreturns]
          simp
        rw [hsteady, ← ratiosOf_eq_iff hroot hapart hne]
        exact Option.some_inj

variable [Digest]

/-- Two runs report the same trades, equity points and metrics, and their ratios are annualised
with the period of the equity points. -/
structure Driver.SameReport (d d' : Driver) : Prop where
  trades : d'.run.broker.trades = d.run.broker.trades
  equityPoints : d'.run.equityPoints = d.run.equityPoints
  metrics : d'.metrics = d.metrics
  annualised : d.metrics.map (fun m => (m.sharpe, m.sortino))
    = riskAdjusted d.run.equityPoints d.cfg.fine

theorem metrics_ratios (d : Driver) : d.metrics.map (fun m => (m.sharpe, m.sortino))
    = riskAdjusted d.run.equityPoints d.cfg.firstListed := by
  unfold Driver.metrics buildMetrics
  rw [Option.map_map]
  exact congrFun Option.map_id _

/-- The rest of the report does not see the order. -/
theorem metrics_listing {d : Driver} {timeframes : List Timeframe} {hne : timeframes ≠ []}
    (h : timeframes.Perm d.cfg.timeframes) : (d.listing timeframes hne).metrics = d.metrics ↔
      riskAdjusted d.run.equityPoints (timeframes.head hne)
        = riskAdjusted d.run.equityPoints d.cfg.firstListed := by
  refine ⟨fun heq => ?_, fun heq => ?_⟩
  · have hratios := congrArg (Option.map fun m : RunMetrics => (m.sharpe, m.sortino)) heq
    rw [metrics_ratios, metrics_ratios, Driver.run_listing h] at hratios
    exact hratios
  · unfold Driver.metrics buildMetrics
    rw [Driver.run_listing h]
    have hfirst : (d.listing timeframes hne).cfg.firstListed = timeframes.head hne := rfl
    rw [hfirst, heq]
    rfl

/-- **When the order of the timeframes does not matter.**  Trades and equity points are the
same in whatever order the timeframes are listed.  The metrics are too, with the ratios
annualised by the period of the equity points, if and only if the smallest timeframe is listed
first both times or the equity curve is steady. -/
theorem listing_order_iff (hroot : RootAtZero) (hapart : RootsApart) (d : Driver)
    (timeframes : List Timeframe) (hne : timeframes ≠ []) (h : timeframes.Perm d.cfg.timeframes) :
    ((d.listing timeframes hne).run.broker.trades = d.run.broker.trades ∧
      (d.listing timeframes hne).run.equityPoints = d.run.equityPoints) ∧
    (d.SameReport (d.listing timeframes hne) ↔
      (d.cfg.firstListed = d.cfg.fine ∧ timeframes.head hne = d.cfg.fine) ∨
        Steady d.run.equityPoints) := by
  have hrun := @Driver.run_listing d timeframes hne h _
  have hratios := riskAdjusted_eq_iff hroot hapart d.run.equityPoints
  refine ⟨⟨by rw [hrun], by rw [hrun]⟩, fun hsame => ?_,
    fun hcond => ⟨by rw [hrun], by rw [hrun], ?_, ?_⟩⟩
  · have hmetrics := (hratios _ _).mp ((metrics_listing h).mp hsame.metrics)
    have hannualised := (hratios _ _).mp ((metrics_ratios d).symm.trans hsame.annualised)
    rcases hannualised with hfirst | hsteady
    · rcases hmetrics with hhead | hsteady
      · exact Or.inl ⟨hfirst, hhead.trans hfirst⟩
      · exact Or.inr hsteady
    · exact Or.inr hsteady
  · rw [metrics_listing h, hratios]
    rcases hcond with ⟨hfirst, hhead⟩ | hsteady
    · exact Or.inl (hhead.trans hfirst.symm)
    · exact Or.inr hsteady
  · rw [metrics_ratios, hratios]
    rcases hcond with ⟨hfirst, -⟩ | hsteady
    · exact Or.inl hfirst
    · exact Or.inr hsteady

end Ratios

/-! ### One hour of profit -/

/-- The square root, rounded up to twelve decimals. -/
@[reducible] def SquareRoot.decimal : SquareRoot where
  sqrt x := if x ≤ 0 then 0 else ((Nat.sqrt ⌊x * 10 ^ 24⌋₊ + 1 : ℕ) : ℚ) / 10 ^ 12
  nonneg := fun x _ => by
    split_ifs
    · exact le_refl 0
    · positivity

theorem decimal_rootAtZero : @RootAtZero SquareRoot.decimal := by
  intro x hx
  show (if x ≤ 0 then (0 : ℚ) else ((Nat.sqrt ⌊x * 10 ^ 24⌋₊ + 1 : ℕ) : ℚ) / 10 ^ 12) = 0 ↔ x = 0
  by_cases hzero : x ≤ 0
  · rw [if_pos hzero]
    exact ⟨fun _ => le_antisymm hzero hx, fun _ => rfl⟩
  · have hpos : (0 : ℚ) < ((Nat.sqrt ⌊x * 10 ^ 24⌋₊ + 1 : ℕ) : ℚ) / 10 ^ 12 := by positivity
    rw [if_neg hzero]
    exact ⟨fun h => absurd h hpos.ne', fun h => absurd h.le hzero⟩

theorem decimal_rootsApart : @RootsApart SquareRoot.decimal := by
  intro tf tf' h
  cases tf <;> cases tf' <;> first | rfl | exact absurd h (by decide +kernel)

/-- A bar that stands at one price. -/
def levelBar (ts : Time) (price : ℚ) : Candle where
  ts := ts
  openPrice := price
  high := price
  low := price
  close := price

/-- Three hours, the last of them a cent higher. -/
def risingSeries : Series where
  rows := [levelBar 0 (11 / 10), levelBar (seconds 3600) (11 / 10),
    levelBar (seconds 7200) (111 / 100)]
  ascending := by decide

/-- A driver that goes long on them, with its timeframes listed smallest first. -/
def risingDriver (others : List Timeframe) : Driver where
  cfg := stubConfig [.eurusd] (.H1 :: others) (List.cons_ne_nil _ _)
  risk := .default
  history := fun _ timeframe =>
    if timeframe = .H1 then risingSeries else .empty
  runner := stubRunner .long

/-- The order of the larger timeframes does not matter. -/
theorem larger_swapped : @Driver.SameReport SquareRoot.decimal Digest.zero
    (risingDriver [.H4, .D1])
    ((risingDriver [.H4, .D1]).listing [.H1, .D1, .H4] (List.cons_ne_nil _ _)) :=
  ((@listing_order_iff SquareRoot.decimal Digest.zero decimal_rootAtZero decimal_rootsApart
    (risingDriver [.H4, .D1]) [.H1, .D1, .H4] (List.cons_ne_nil _ _)
    ((List.Perm.swap _ _ _).cons _)).2).mpr (Or.inl ⟨rfl, rfl⟩)

/-- With the larger timeframe first the ratios are annualised by it. -/
theorem larger_first : ¬ ∀ (_ : SquareRoot) (_ : Digest), RootAtZero → RootsApart →
    ∀ (d : Driver) (timeframes : List Timeframe) (hne : timeframes ≠ []),
      timeframes.Perm d.cfg.timeframes → d.SameReport (d.listing timeframes hne) := by
  intro h
  have hperm : [Timeframe.H4, .H1].Perm (risingDriver [.H4]).cfg.timeframes := List.Perm.swap _ _ _
  have hsame := @h SquareRoot.decimal Digest.zero decimal_rootAtZero decimal_rootsApart
    (risingDriver [.H4]) [.H4, .H1] (List.cons_ne_nil _ _) hperm
  have hmetrics := (@metrics_listing SquareRoot.decimal Digest.zero _ _ _ hperm).mp
    (@Driver.SameReport.metrics SquareRoot.decimal Digest.zero _ _ hsame)
  rcases (@riskAdjusted_eq_iff SquareRoot.decimal decimal_rootAtZero decimal_rootsApart _ _ _).mp
    hmetrics with hfirst | hsteady
  · exact absurd hfirst (by decide)
  · exact absurd hsteady (by decide +kernel)

end ForexAi
