/-
The bounded lookback and the whole history.

The driver hands the agents the last 320 candles up to a bar and says that nothing is lost:
every indicator is said to look back a fixed number of bars.  Up to bar 319 nothing is lost
because nothing is dropped (`window_eq_take`).

After that something is.  The exponential means are recursions; on the window they start at its
first close instead of at the mean of what came before, and a mean never forgets its start
(`blend_injective`).  So the two signals can only agree where both means of the dropped bars
happen to be the first close that is kept (`remembered`), and a market that moves once and then
stands still is a history of any length where they are not.
-/
import ForexAi.Agents.Regime
import ForexAi.Backtest.Driver
import ForexAi.Lib.Memory
import ForexAi.Lib.Reflection

namespace ForexAi

open Columns

/-! ### What is dropped and what is kept -/

/-- The bars up to `i` that the driver does not hand on. -/
def Driver.dropped (bars : List Candle) (i : ℕ) : List Candle :=
  bars.take (i + 1 - Driver.lookback)

theorem Driver.dropped_append_window {bars : List Candle} (i : ℕ) :
    Driver.dropped bars i ++ Driver.window bars i = bars.take (i + 1) := by
  have h : Driver.dropped bars i = (bars.take (i + 1)).take (i + 1 - Driver.lookback) := by
    unfold Driver.dropped
    rw [List.take_take, min_eq_left (Nat.sub_le _ _)]
  rw [h]
  exact List.take_append_drop _ _

/-- As long as nothing is dropped the window is the whole history. -/
theorem Driver.window_eq_take {bars : List Candle} {i : ℕ} (h : i < Driver.lookback) :
    Driver.window bars i = bars.take (i + 1) := by
  unfold Driver.window
  rw [show i + 1 - Driver.lookback = 0 by omega, List.drop_zero]

theorem Driver.length_window {bars : List Candle} {i : ℕ} (hi : i < bars.length)
    (h : Driver.lookback ≤ i) : (Driver.window bars i).length = Driver.lookback := by
  unfold Driver.window
  rw [List.length_drop, List.length_take]
  omega

theorem Driver.length_dropped {bars : List Candle} {i : ℕ} (hi : i < bars.length) :
    (Driver.dropped bars i).length = i + 1 - Driver.lookback := by
  unfold Driver.dropped
  rw [List.length_take]
  omega

/-- The signals of both agents on the window are the ones on the whole history up to the
bar. -/
def LookbackEquivalent [SquareRoot] (ctx : AnalysisContext) (bars : List Candle) (i : ℕ) : Prop :=
  Technical.analyze { ctx with candles := Driver.window bars i }
      = Technical.analyze { ctx with candles := bars.take (i + 1) } ∧
    Regime.analyze { ctx with candles := Driver.window bars i }
      = Regime.analyze { ctx with candles := bars.take (i + 1) }

/-! ### The means

An exponential mean is a fold with two ingredients, the mean so far and the next close, and is
injective in the first.  A mean over the window that equals the mean over the history had to
start at the same value.
-/

/-- The exponential mean of all closes, however few there are. -/
def runningEma (n : ℕ) (data : List Candle) : Option ℚ :=
  lastValid (ewmMean (2 / ((n : ℚ) + 1)) 0 (closes data))

theorem runningEma_cons (n : ℕ) (c : Candle) (rest : List Candle) :
    runningEma n (c :: rest) = some (blend (2 / ((n : ℚ) + 1)) c.close (rest.map (·.close))) :=
  lastValid_of_getLast? (getLast?_ewmMean _ c.close (Nat.zero_le _))

theorem ema_cons {n : ℕ} (c : Candle) {rest : List Candle} (h : n ≤ rest.length + 1) :
    lastValid (ema n (closes (c :: rest)))
      = some (blend (2 / ((n : ℚ) + 1)) c.close (rest.map (·.close))) :=
  lastValid_of_getLast? (getLast?_ewmMean _ c.close (by simpa using h))

/-- **What is dropped is remembered.**  A mean that is the same with and without the bars
before the window has, over these bars, come to the first close of the window. -/
theorem remembered {n : ℕ} (hn : n ≠ 1) {dropped : List Candle} {first : Candle}
    {rest : List Candle} (hne : dropped ≠ []) (hlong : n ≤ rest.length + 1)
    (h : lastValid (ema n (closes (first :: rest)))
      = lastValid (ema n (closes (dropped ++ first :: rest)))) :
    runningEma n dropped = some first.close := by
  cases dropped with
  | nil => exact absurd rfl hne
  | cons d ds =>
      have hmany : n ≤ (ds ++ first :: rest).length + 1 := by
        rw [List.length_append, List.length_cons]
        omega
      rw [List.cons_append, ema_cons first hlong, ema_cons d hmany, List.map_append, List.map_cons,
        blend_append] at h
      rw [runningEma_cons]
      have hpos : (n : ℚ) + 1 ≠ 0 := by positivity
      have halpha : 2 / ((n : ℚ) + 1) ≠ 1 := by
        rw [Ne, div_eq_one_iff_eq hpos]
        intro hc
        exact hn (by exact_mod_cast (by linarith : (n : ℚ) = 1))
      -- the first kept close is blended into what is remembered, and has to leave it as it is
      have hstart := blend_injective halpha (Option.some.inj h)
      have hzero : (1 - 2 / ((n : ℚ) + 1))
          * (blend (2 / ((n : ℚ) + 1)) d.close (ds.map (·.close)) - first.close) = 0 := by
        linear_combination -hstart
      have hsame := (mul_eq_zero.mp hzero).resolve_left (sub_ne_zero.mpr halpha.symm)
      rw [sub_eq_zero.mp hsame]

/-! ### The signals

The two means are among the features of every signal that is computed, so equal signals have
equal means.  That is the only thing read off the signals.
-/

theorem Feature.ofOption_injective {x y : Option ℚ} (h : Feature.ofOption x = Feature.ofOption y) :
    x = y := by
  cases x <;> cases y <;> simp_all [Feature.ofOption]

section Signals

variable [SquareRoot]

/-- Equal signals have equal means. -/
theorem emas_of_analyze {ctx : AnalysisContext} {data data' : List Candle}
    (hlong : Technical.minBars ≤ data.length) (hlong' : Technical.minBars ≤ data'.length)
    (h : Technical.analyze { ctx with candles := data } =
      Technical.analyze { ctx with candles := data' }) :
    lastValid (ema 9 (closes data)) = lastValid (ema 9 (closes data')) ∧
      lastValid (ema 21 (closes data)) = lastValid (ema 21 (closes data')) := by
  have hfeatures := congrArg AgentSignal.features h
  rw [Technical.analyze_features hlong, Technical.analyze_features hlong'] at hfeatures
  simp only [Technical.Readings.features, Technical.Readings.indicators, List.cons.injEq,
    Prod.mk.injEq, Feature.dict.injEq] at hfeatures
  obtain ⟨-, -, -, ⟨-, ⟨-, hfast⟩, ⟨-, hslow⟩, -⟩, -⟩ := hfeatures
  exact ⟨Feature.ofOption_injective hfast, Feature.ofOption_injective hslow⟩

/-- Beyond the lookback the signals agree only where both means of the dropped bars are the
first close that is kept. -/
theorem remembered_of_equivalent {ctx : AnalysisContext} {bars : List Candle} {i : ℕ}
    (hi : i < bars.length) (hlate : Driver.lookback ≤ i) (h : LookbackEquivalent ctx bars i) :
    runningEma 9 (Driver.dropped bars i) = (Driver.window bars i).head?.map (·.close) ∧
      runningEma 21 (Driver.dropped bars i) = (Driver.window bars i).head?.map (·.close) := by
  have hwindow := Driver.length_window hi hlate
  have hwhole : (bars.take (i + 1)).length = i + 1 := by
    rw [List.length_take]
    omega
  have hlookback : Driver.lookback = 320 := rfl
  have hmin : Technical.minBars = 34 := rfl
  obtain ⟨hfast, hslow⟩ := emas_of_analyze (by omega) (by omega) h.1
  have hne : Driver.dropped bars i ≠ [] := by
    intro hempty
    have hlen := Driver.length_dropped hi
    rw [hempty, List.length_nil] at hlen
    omega
  rw [← Driver.dropped_append_window] at hfast hslow
  cases hkept : Driver.window bars i with
  | nil => rw [hkept, List.length_nil] at hwindow; omega
  | cons first rest =>
      rw [hkept, List.length_cons] at hwindow
      rw [hkept] at hfast hslow
      exact ⟨remembered (by decide) hne (by omega) hfast,
        remembered (by decide) hne (by omega) hslow⟩

theorem equivalent_of_lt {i : ℕ} (h : i < Driver.lookback) (ctx : AnalysisContext)
    (bars : List Candle) : LookbackEquivalent ctx bars i := by
  unfold LookbackEquivalent
  rw [Driver.window_eq_take h]
  exact ⟨rfl, rfl⟩

omit [SquareRoot] in
theorem runningEma_level (n : ℕ) {data : List Candle} {p : ℚ} (hne : data ≠ [])
    (h : ∀ c ∈ data, c.close = p) : runningEma n data = some p := by
  cases data with
  | nil => exact absurd rfl hne
  | cons c rest =>
      have hrest : rest.map (·.close) = List.replicate rest.length p := by
        refine List.eq_replicate_iff.mpr ⟨List.length_map _, fun x hx => ?_⟩
        obtain ⟨d, hd, rfl⟩ := List.mem_map.mp hx
        exact h d (List.mem_cons_of_mem _ hd)
      rw [runningEma_cons, hrest, h c List.mem_cons_self, blend_replicate]

/-- A replay whose signals all agree starts on one price: until the last window begins, no close
has moved. -/
theorem level_of_equivalent {bars : List Candle} {ctx : ℕ → AnalysisContext}
    (h : ∀ i < bars.length, LookbackEquivalent (ctx i) bars i) {first : Candle} {rest : List Candle}
    (hbars : bars = first :: rest) :
    ∀ k, k + Driver.lookback ≤ bars.length + 1 → ∀ c ∈ bars.take k, c.close = first.close := by
  have hlookback : Driver.lookback = 320 := rfl
  intro k
  induction k with
  | zero => intro _ c hc; simp at hc
  | succ k ih =>
      intro hk c hc
      have hlevel := ih (by omega)
      have hlt : k < bars.length := by omega
      rw [List.take_add_one, List.getElem?_eq_getElem hlt, Option.toList_some, List.mem_append,
        List.mem_singleton] at hc
      rcases hc with hc | rfl
      · exact hlevel c hc
      · rcases Nat.eq_zero_or_pos k with rfl | hpos
        · simp [hbars]
        · have hi : k + 319 < bars.length := by omega
          have hdropped : Driver.dropped bars (k + 319) = bars.take k := by
            unfold Driver.dropped
            rw [hlookback, show k + 319 + 1 - 320 = k by omega]
          have hwindow : (Driver.window bars (k + 319)).head? = some bars[k] := by
            unfold Driver.window
            rw [hlookback, List.head?_drop, List.getElem?_take, if_pos (by omega),
              show k + 319 + 1 - 320 = k by omega, List.getElem?_eq_getElem hlt]
          have hmean := (remembered_of_equivalent hi (by omega) (h (k + 319) hi)).1
          have hne : bars.take k ≠ [] := by
            intro hnil
            have hlen := congrArg List.length hnil
            rw [List.length_take, List.length_nil] at hlen
            omega
          rw [hdropped, hwindow, runningEma_level 9 hne hlevel] at hmean
          exact (Option.some.inj hmean).symm

end Signals

/-! ### A market that moved once -/

/-- A bar without movement. -/
def stillBar (price : ℚ) (hour : ℕ) : Candle :=
  { ts := seconds (3600 * hour), openPrice := price, high := price, low := price, close := price }

/-- An hour at 2.00, and from then on every hour at 1.00. -/
def movedOnce (n : ℕ) : List Candle :=
  stillBar 2 0 :: (List.range n).map fun i => stillBar 1 (i + 1)

/-- Where it is analysed. -/
def hourly : AnalysisContext where
  symbol := .eurusd
  timeframe := .H1
  bucketTs := 0
  candles := []
  now := seconds 3600
  prevDaily := none

theorem length_movedOnce (n : ℕ) : (movedOnce n).length = n + 1 := by simp [movedOnce]

/-- What a candle history is: prices in order and above zero, the stamps ascending. -/
structure CandleHistory (bars : List Candle) : Prop where
  valid : ∀ c ∈ bars, c.Valid
  positive : ∀ c ∈ bars, 0 < c.low
  ascending : bars.Pairwise (·.ts < ·.ts)

theorem stillBar_valid (price : ℚ) (hour : ℕ) : (stillBar price hour).Valid :=
  ⟨le_refl _, le_refl _, le_refl _, le_refl _⟩

theorem candleHistory_movedOnce (n : ℕ) : CandleHistory (movedOnce n) := by
  have hbar : ∀ c ∈ movedOnce n, ∃ price hour, c = stillBar price hour ∧ (0 : ℚ) < price := by
    intro c hc
    rcases List.mem_cons.mp hc with rfl | hc
    · exact ⟨2, 0, rfl, by norm_num⟩
    · obtain ⟨i, -, rfl⟩ := List.mem_map.mp hc
      exact ⟨1, i + 1, rfl, by norm_num⟩
  have hstamp : ∀ {a b : ℕ}, a < b → seconds (3600 * a) < seconds (3600 * b) := by
    intro a b hab
    show ((3600 * a : ℕ) : ℤ) * 1000000 < ((3600 * b : ℕ) : ℤ) * 1000000
    omega
  refine ⟨?_, ?_, ?_⟩
  · intro c hc
    obtain ⟨price, hour, rfl, -⟩ := hbar c hc
    exact stillBar_valid price hour
  · intro c hc
    obtain ⟨price, hour, rfl, hpos⟩ := hbar c hc
    exact hpos
  · refine List.pairwise_cons.mpr ⟨?_, ?_⟩
    · intro c hc
      obtain ⟨i, -, rfl⟩ := List.mem_map.mp hc
      exact hstamp (Nat.succ_pos i)
    · refine List.pairwise_map.mpr (List.pairwise_lt_range.imp ?_)
      intro a b hab
      exact hstamp (Nat.succ_lt_succ hab)

/-- Whatever is dropped of it, the market that moved once is remembered. -/
theorem movedOnce_not_equivalent [SquareRoot] (ctx : AnalysisContext) {i : ℕ}
    (h : Driver.lookback ≤ i) : ¬ LookbackEquivalent ctx (movedOnce i) i := by
  have hlookback : Driver.lookback = 320 := rfl
  intro hequivalent
  have hi : i < (movedOnce i).length := by
    rw [length_movedOnce]
    omega
  have hmean := (remembered_of_equivalent hi h hequivalent).1
  obtain ⟨k, hk⟩ : ∃ k, i + 1 - Driver.lookback = k + 1 := ⟨i - Driver.lookback, by omega⟩
  have hdropped : Driver.dropped (movedOnce i) i
      = stillBar 2 0 :: ((List.range i).map fun j => stillBar 1 (j + 1)).take k := by
    unfold Driver.dropped movedOnce
    rw [hk, List.take_succ_cons]
  have hcloses : (((List.range i).map fun j => stillBar 1 (j + 1)).take k).map (·.close)
      = List.replicate k 1 := by
    refine List.eq_replicate_iff.mpr ⟨?_, ?_⟩
    · rw [List.length_map, List.length_take, List.length_map, List.length_range]
      omega
    · intro x hx
      obtain ⟨c, hc, rfl⟩ := List.mem_map.mp hx
      obtain ⟨j, -, rfl⟩ := List.mem_map.mp (List.mem_of_mem_take hc)
      rfl
  have hfirst : (Driver.window (movedOnce i) i).head?.map (·.close) = some 1 := by
    unfold Driver.window movedOnce
    rw [List.head?_drop, List.getElem?_take, if_pos (by omega), hk, List.getElem?_cons_succ,
      List.getElem?_map, List.getElem?_range (by omega)]
    rfl
  rw [hdropped, runningEma_cons, hcloses, hfirst] at hmean
  have hsame : blend (2 / (((9 : ℕ) : ℚ) + 1)) 2 (List.replicate k 1)
      = blend (2 / (((9 : ℕ) : ℚ) + 1)) 1 (List.replicate k 1) := by
    rw [blend_replicate]
    exact Option.some.inj hmean
  exact absurd (blend_injective (by norm_num) hsame) (by norm_num)

/-! ### The lookback -/

/-- **When the bounded lookback is the whole history.**  At a bar the two agree for every history
exactly if nothing has been dropped there.  Where something has been dropped, they agree in a
history only if both means of what was dropped are the first close that is kept; and a replay in
which they agree at every bar either drops nothing or has not moved its close before the last
window begins. -/
theorem lookback_equivalent_iff [SquareRoot] :
    (∀ i : ℕ, (∀ (ctx : AnalysisContext) (bars : List Candle), CandleHistory bars →
        i < bars.length → LookbackEquivalent ctx bars i) ↔ i < Driver.lookback) ∧
      (∀ (ctx : AnalysisContext) (bars : List Candle), ∀ i < bars.length, Driver.lookback ≤ i →
        LookbackEquivalent ctx bars i →
          runningEma 9 (Driver.dropped bars i) = (Driver.window bars i).head?.map (·.close) ∧
          runningEma 21 (Driver.dropped bars i) = (Driver.window bars i).head?.map (·.close)) ∧
      ∀ (ctx : ℕ → AnalysisContext) (bars : List Candle),
        (∀ i < bars.length, LookbackEquivalent (ctx i) bars i) →
        ∃ price, ∀ c ∈ bars.take (bars.length + 1 - Driver.lookback), c.close = price := by
  refine ⟨?_, ?_, ?_⟩
  · intro i
    constructor
    · intro h
      by_contra hlate
      have hi : i < (movedOnce i).length := by
        rw [length_movedOnce]
        omega
      exact movedOnce_not_equivalent hourly (not_lt.mp hlate)
        (h hourly _ (candleHistory_movedOnce i) hi)
    · intro h ctx bars _ _
      exact equivalent_of_lt h ctx bars
  · intro ctx bars i hi hlate h
    exact remembered_of_equivalent hi hlate h
  · intro ctx bars h
    cases hbars : bars with
    | nil => exact ⟨0, by simp⟩
    | cons first rest =>
        refine ⟨first.close, ?_⟩
        rw [← hbars]
        rcases le_or_gt Driver.lookback (bars.length + 1) with hlong | hshort
        · exact level_of_equivalent h hbars _ (by omega)
        · rw [show bars.length + 1 - Driver.lookback = 0 by omega]
          simp

/-- Once the first bar of a market that moved once is dropped, the window says something else than
the history. -/
theorem movedOnce_divergent : ¬ ∀ (_ : SquareRoot) (ctx : AnalysisContext) (bars : List Candle)
    (i : ℕ), CandleHistory bars → i < bars.length → LookbackEquivalent ctx bars i := by
  intro h
  have hi : 320 < (movedOnce 320).length := by
    rw [length_movedOnce]
    omega
  exact @movedOnce_not_equivalent SquareRoot.rational hourly 320 (by decide)
    (h SquareRoot.rational hourly (movedOnce 320) 320 (candleHistory_movedOnce 320) hi)

end ForexAi
