/-
The agent worker: one closed bar in, one signal of every registered agent out.

`process_bar` reads a frame of stored candles and the previous day, and hands the same
frame to every agent.  The frame is the interesting part: the query
behind it has a limit and no bounds, so it is cut at the wrong end as soon as more rows
are stored than the agents look back over (`frame_right_iff`).

News and events come from other tables, and no agent reads the frame's volume column or
the pip size; none of them appears.  An agent is a function of its context.
-/
import ForexAi.Backtest.Driver
import ForexAi.Lib.Ascending

namespace ForexAi

/-- A `bar.closed` entry, unwrapped. -/
structure BarClosed where
  symbol : Symbol
  timeframe : Timeframe
  ts : Time

/-- The worker's registry and its lookback, `LOOKBACK_BARS` unless given. -/
structure AgentWorker where
  agents : List (AnalysisContext → AgentSignal)
  lookback : ℕ := 150

namespace AgentWorker

variable (w : AgentWorker)

/-- `_load_series`: the query has a limit and neither a start nor an end. -/
def loadSeries (history : History) (symbol : Symbol) (timeframe : Timeframe) : List Candle :=
  (history symbol timeframe).loadCandles none none w.lookback

/-- `_prev_daily`: the newest stored day. -/
def prevDaily (history : History) (symbol : Symbol) : Option PrevDaily :=
  (history symbol .D1).rows.getLast?.map fun c => { high := c.high, low := c.low, close := c.close }

/-- The frame of `process_bar`. -/
def frame (history : History) (bar : BarClosed) : List Candle :=
  w.loadSeries history bar.symbol bar.timeframe

/-- The contexts of `process_bar`, one an agent, at the clock's readings. -/
def contexts (history : History) (clock : ℕ → Time) (bar : BarClosed) :
    List AnalysisContext :=
  (List.range w.agents.length).map fun i =>
    { symbol := bar.symbol
      timeframe := bar.timeframe
      bucketTs := bar.ts
      candles := w.frame history bar
      now := clock i
      prevDaily := prevDaily history bar.symbol }

/-- `process_bar`: the signals it saves and publishes. -/
def processBar (history : History) (clock : ℕ → Time) (bar : BarClosed) :
    List AgentSignal :=
  List.zipWith (fun agent ctx => agent ctx) w.agents (w.contexts history clock bar)

theorem frame_eq_take (history : History) (bar : BarClosed) :
    w.frame history bar = (history bar.symbol bar.timeframe).rows.take w.lookback := by
  unfold frame loadSeries Series.loadCandles
  simp

end AgentWorker

/-! ### The window of a bar -/

namespace Series

/-- The rows up to a bucket. -/
def upTo (s : Series) (b : Time) : List Candle := s.rows.filter fun c => decide (c.ts ≤ b)

/-- The newest `lookback` rows up to a bucket, ascending. -/
def windowAt (s : Series) (lookback : ℕ) (b : Time) : List Candle :=
  (s.upTo b).drop ((s.upTo b).length - lookback)

/-- The rows up to a bucket come first. -/
theorem rows_upTo (s : Series) (b : Time) :
    ∃ later, s.rows = s.upTo b ++ later ∧ ∀ c ∈ later, b < c.ts := by
  have hsplit := Ascending.split_filter (p := fun c : Candle => decide (c.ts ≤ b))
    (l := s.rows) (s.ascending.imp fun hlt hle => by
      simp only [decide_eq_true_eq] at hle ⊢
      exact hlt.le.trans hle)
  obtain ⟨later, hrows, hfail⟩ := hsplit
  exact ⟨later, hrows, fun c hc => by simpa using hfail c hc⟩

/-- The rows up to a bucket are the first ones, as soon as these are the ones up to it. -/
theorem upTo_eq_take {s : Series} {b : Time} {n : ℕ} (hbefore : ∀ c ∈ s.rows.take n, c.ts ≤ b)
    (hafter : ∀ c ∈ s.rows.drop n, b < c.ts) : s.upTo b = s.rows.take n := by
  have hfail : ∀ c ∈ s.rows.drop n, decide (c.ts ≤ b) = false :=
    fun c hc => decide_eq_false (not_le.mpr (hafter c hc))
  calc s.upTo b
      = (s.rows.take n ++ s.rows.drop n).filter fun c => decide (c.ts ≤ b) := by
        rw [List.take_append_drop]; rfl
    _ = (s.rows.take n).filter fun c => decide (c.ts ≤ b) :=
        Ascending.filter_append_of_fails _ hfail
    _ = s.rows.take n :=
        List.filter_eq_self.mpr fun c hc => decide_eq_true (hbefore c hc)

/-- The last row up to a stored bucket is the candle of that bucket. -/
theorem upTo_getLast {s : Series} {b : Time} (h : b ∈ s.stamps) :
    ∃ c, (s.upTo b).getLast? = some c ∧ c.ts = b := by
  obtain ⟨c, hc, rfl⟩ := List.mem_map.mp h
  have hmem : c ∈ s.upTo c.ts := List.mem_filter.mpr ⟨hc, by simp⟩
  cases hlast : (s.upTo c.ts).getLast? with
  | none => rw [List.getLast?_eq_none_iff.mp hlast] at hmem; exact absurd hmem (by simp)
  | some last =>
      refine ⟨last, rfl, le_antisymm ?_ ?_⟩
      · simpa using (List.mem_filter.mp (List.mem_of_getLast? hlast)).2
      · have hasc : (s.upTo c.ts).Pairwise (·.ts < ·.ts) := s.ascending.sublist List.filter_sublist
        exact Ascending.key_le_newest Candle.ts hasc hlast c hmem

end Series

/-- **The backtest's window is the window of its bar.** -/
theorem Driver.window_eq_windowAt (s : Series) {i : ℕ} {c : Candle} (h : s.rows[i]? = some c) :
    Driver.window s.rows i = s.windowAt Driver.lookback c.ts := by
  obtain ⟨hi, hget⟩ := List.getElem?_eq_some_iff.mp h
  have htake : s.upTo c.ts = s.rows.take (i + 1) := by
    refine Series.upTo_eq_take (fun x hx => ?_) (fun x hx => ?_)
    · obtain ⟨j, hj, rfl⟩ := List.mem_take_iff_getElem.mp hx
      rcases Nat.lt_or_ge j i with hlt | hge
      · have hij := List.pairwise_iff_getElem.mp s.ascending j i (by omega) hi hlt
        rw [hget] at hij
        exact hij.le
      · have heq : j = i := by omega
        subst heq
        rw [hget]
    · obtain ⟨j, hj, rfl⟩ := List.mem_drop_iff_getElem.mp hx
      have hij := List.pairwise_iff_getElem.mp s.ascending i (i + 1 + j) hi (by omega) (by omega)
      rwa [hget] at hij
  unfold Driver.window Series.windowAt
  rw [htake, List.length_take_of_le hi]

namespace AgentWorker

variable (w : AgentWorker)

/-- The frame of a bar is the window of the bar, and the bar's own candle is its last row. -/
def FrameRight (history : History) (bar : BarClosed) : Prop :=
  w.frame history bar
      = (history bar.symbol bar.timeframe).windowAt w.lookback bar.ts ∧
    ∃ c, (w.frame history bar).getLast? = some c ∧ c.ts = bar.ts

/-- **When the agents see the right window**: of the stored rows, exactly as many lie up to
the bar as the query returns. -/
theorem frame_right_iff (history : History) (bar : BarClosed)
    (hstored : bar.ts ∈ (history bar.symbol bar.timeframe).stamps) :
    w.FrameRight history bar ↔
      ((history bar.symbol bar.timeframe).upTo bar.ts).length
        = min w.lookback (history bar.symbol bar.timeframe).rows.length := by
  unfold FrameRight
  rw [frame_eq_take]
  set s := history bar.symbol bar.timeframe with hs
  obtain ⟨later, hrows, hlater⟩ := s.rows_upTo bar.ts
  refine ⟨fun h => ?_, fun h => ?_⟩
  · obtain ⟨-, c, hlast, hts⟩ := h
    -- The last row of the cut is the bar's, so the cut ends where the rows up to it end.
    obtain ⟨init, hinit⟩ := List.getLast?_eq_some_iff.mp hlast
    have hcut : s.upTo bar.ts = s.rows.take w.lookback := by
      have hasc : (s.rows.take w.lookback ++ s.rows.drop w.lookback).Pairwise (·.ts < ·.ts) := by
        rw [List.take_append_drop]
        exact s.ascending
      rw [hinit] at hasc
      obtain ⟨hrow, -, hdrop⟩ := List.pairwise_append.mp hasc
      refine Series.upTo_eq_take (fun x hx => ?_) (fun x hx => ?_)
      · rw [← hinit] at hrow
        exact hts ▸ Ascending.key_le_newest Candle.ts hrow hlast x hx
      · exact hts ▸ hdrop c (by simp) x hx
    rw [hcut, List.length_take]
  · have htake : s.rows.take w.lookback = s.upTo bar.ts := by
      rcases Nat.le_total w.lookback s.rows.length with hle | hle
      · rw [Nat.min_eq_left hle] at h
        rw [hrows]
        exact List.take_left' h
      · rw [Nat.min_eq_right hle] at h
        have hnil : later = [] := by
          have hlength := congrArg List.length hrows
          rw [List.length_append] at hlength
          exact List.length_eq_zero_iff.mp (by omega)
        rw [hnil, List.append_nil] at hrows
        rw [List.take_of_length_le hle, hrows]
    rw [htake]
    refine ⟨?_, Series.upTo_getLast hstored⟩
    unfold Series.windowAt
    rw [show (s.upTo bar.ts).length - w.lookback = 0 by omega, List.drop_zero]

/-- Two hours of EURUSD. -/
def twoHours : History := fun _ _ =>
  { rows :=
      [{ ts := 0, openPrice := 1, high := 1, low := 1, close := 1 },
        { ts := seconds 3600, openPrice := 2, high := 2, low := 2, close := 2 }]
    ascending := by decide }

/-- A worker that looks back one bar. -/
def oneBarBack : AgentWorker := { agents := [], lookback := 1 }

/-- With one bar of lookback the first hour is seen right, and with the driver's the second is seen
in the driver's window. -/
theorem firstHour_right :
    oneBarBack.FrameRight twoHours { symbol := .eurusd, timeframe := .H1, ts := 0 } ∧
      frame { agents := [], lookback := Driver.lookback } twoHours
          { symbol := .eurusd, timeframe := .H1, ts := seconds 3600 }
        = Driver.window (twoHours .eurusd .H1).rows 1 := by
  refine ⟨(oneBarBack.frame_right_iff twoHours _ (by decide)).mpr (by decide), ?_⟩
  rw [Driver.window_eq_windowAt (twoHours .eurusd .H1) rfl]
  exact ((frame_right_iff { agents := [], lookback := Driver.lookback } twoHours
    { symbol := .eurusd, timeframe := .H1, ts := seconds 3600 } (by decide)).mpr (by decide)).1

/-- The second hour is analysed on the frame of the first. -/
theorem secondHour_wrong : ¬ ∀ (w : AgentWorker) (history : History) (bar : BarClosed),
    bar.ts ∈ (history bar.symbol bar.timeframe).stamps → w.FrameRight history bar := by
  intro h
  have hwindow := (h oneBarBack twoHours
    { symbol := .eurusd, timeframe := .H1, ts := seconds 3600 } (by decide)).1
  exact absurd hwindow (by decide)

end AgentWorker

end ForexAi
