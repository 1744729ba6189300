/-
The previous day, live and replayed.

The pivots of the technical agent are drawn from the previous day.  The driver looks
for it among its days: it passes over every one that is over at the bar and stops at
the first that is not.  The worker asks the table for the newest day, whatever the bar.
For a bar that is processed in time the newest stored day is the one before; for a late
one it is a day the bar cannot have known, or the bar's own.

`prevDaily_ended` and `driver_prevDaily` say what either side finds in terms of the days
that are over; `previous_day_parity_iff` compares them.
-/
import ForexAi.Workers.AgentWorker

namespace ForexAi

/-- What the agents are told of a day. -/
def Candle.daily (c : Candle) : PrevDaily := { high := c.high, low := c.low, close := c.close }

namespace Series

/-- The stored days that are over at a bucket. -/
def endedDays (days : Series) (bucket : Time) : List Candle :=
  days.rows.filter fun c => decide (c.ts + Timeframe.D1.length ≤ bucket)

/-- The newest day that is over at a bucket. -/
def endedDay (days : Series) (bucket : Time) : Option Candle := (days.endedDays bucket).getLast?

variable {days : Series} {bucket : Time}

/-- No day that is over is newer than the newest. -/
theorem le_endedDay {last : Candle} (h : days.endedDay bucket = some last) {c : Candle}
    (hc : c ∈ days.endedDays bucket) : c.ts ≤ last.ts := by
  have hasc : (days.endedDays bucket).Pairwise (·.ts < ·.ts) :=
    days.ascending.sublist List.filter_sublist
  exact Ascending.key_le_newest Candle.ts hasc h c hc

/-- Where the newest stored day is over, every stored day is. -/
theorem endedDays_eq_rows {last : Candle} (h : days.rows.getLast? = some last)
    (hover : last.ts + Timeframe.D1.length ≤ bucket) : days.endedDays bucket = days.rows := by
  have hlast : days.lastClosedTs = some last.ts := by
    unfold lastClosedTs
    rw [h]
    rfl
  unfold endedDays
  refine List.filter_eq_self.mpr fun c hc => decide_eq_true ?_
  have hle : c.ts ≤ last.ts := le_lastClosedTs hlast hc
  have hsum : c.ts + Timeframe.D1.length ≤ last.ts + Timeframe.D1.length :=
    add_le_add_left hle _
  exact hsum.trans hover

end Series

/-! ### The two sides

Both sides look for one stored day: the worker by the newest row, the driver by walking the
days it loaded.  What each finds is said in terms of the days that are over.
-/

/-- The worker hands on the newest stored day. -/
theorem AgentWorker.prevDaily_eq (history : History) (symbol : Symbol) :
    AgentWorker.prevDaily history symbol
      = (history symbol .D1).rows.getLast?.map Candle.daily := rfl

/-- Every agent is told the same day. -/
theorem AgentWorker.prevDaily_of_contexts (w : AgentWorker) {history : History}
    {clock : ℕ → Time} {bar : BarClosed} {ctx : AnalysisContext}
    (h : ctx ∈ w.contexts history clock bar) :
    ctx.prevDaily = AgentWorker.prevDaily history bar.symbol := by
  obtain ⟨i, -, rfl⟩ := List.mem_map.mp h
  rfl

theorem AgentWorker.contexts_ne_nil (w : AgentWorker) (h : w.agents ≠ []) (history : History)
    (clock : ℕ → Time) (bar : BarClosed) : w.contexts history clock bar ≠ [] := by
  unfold AgentWorker.contexts
  simpa using h

/-- The days the driver passes over: those that are over, from its first bucket on. -/
theorem Driver.endedDays_loaded (d : Driver) (symbol : Symbol) {bucket : Time}
    (hbar : bucket < d.cfg.stop) :
    ((d.loadBars symbol .D1).takeWhile fun c => decide (c.ts + Timeframe.D1.length ≤ bucket))
      = ((d.history symbol .D1).endedDays bucket).filter fun c =>
          decide (alignToBucket d.cfg.start .D1 ≤ c.ts) := by
  have hasc : (d.loadBars symbol .D1).Pairwise fun a b =>
      decide (b.ts + Timeframe.D1.length ≤ bucket) = true →
        decide (a.ts + Timeframe.D1.length ≤ bucket) = true := by
    refine ((d.history symbol .D1).ascending.sublist List.filter_sublist).imp ?_
    intro a b hlt hover
    simp only [decide_eq_true_eq] at hover ⊢
    exact (add_lt_add_left hlt _).le.trans hover
  rw [Ascending.takeWhile_eq_filter hasc]
  unfold Driver.loadBars Series.endedDays
  rw [List.filter_filter, List.filter_filter]
  refine List.filter_congr fun c _ => ?_
  have hday : 0 < Timeframe.D1.length := Timeframe.D1.length_pos
  -- A day that is over at a bar of the run began before the run's end.
  by_cases hover : c.ts + Timeframe.D1.length ≤ bucket
  · have hstop : c.ts < d.cfg.stop :=
      ((lt_add_of_pos_right _ hday).trans_le hover).trans hbar
    simp [hover, hstop]
  · simp [hover]

/-- The driver finds the newest day that is over, if its days go back that far. -/
theorem Driver.prevDaily_of_endedDay (d : Driver) {symbol : Symbol} {bucket : Time}
    (hbar : bucket < d.cfg.stop) {last : Candle}
    (h : (d.history symbol .D1).endedDay bucket = some last) :
    d.prevDaily symbol bucket =
      if Timeframe.D1 ∈ d.cfg.timeframes ∧ alignToBucket d.cfg.start .D1 ≤ last.ts
      then some last.daily else none := by
  unfold Driver.prevDaily
  by_cases hframe : Timeframe.D1 ∈ d.cfg.timeframes
  · rw [if_pos hframe, d.endedDays_loaded symbol hbar]
    obtain ⟨front, hfront⟩ := List.getLast?_eq_some_iff.mp h
    by_cases hstart : alignToBucket d.cfg.start .D1 ≤ last.ts
    · rw [if_pos ⟨hframe, hstart⟩, hfront, List.filter_append]
      simp [hstart, Candle.daily]
    · have hnil : (((d.history symbol .D1).endedDays bucket).filter fun c =>
          decide (alignToBucket d.cfg.start .D1 ≤ c.ts)) = [] := by
        refine List.filter_eq_nil_iff.mpr fun c hc hfrom => hstart ?_
        exact Int.le_trans (of_decide_eq_true hfrom) (Series.le_endedDay h hc)
      rw [if_neg fun hboth => hstart hboth.2, hnil]
      rfl
  · rw [if_neg hframe, if_neg fun hboth => hframe hboth.1]

theorem Driver.prevDaily_eq_none (d : Driver) {symbol : Symbol} {bucket : Time}
    (hbar : bucket < d.cfg.stop) (h : (d.history symbol .D1).endedDay bucket = none) :
    d.prevDaily symbol bucket = none := by
  unfold Driver.prevDaily
  rw [d.endedDays_loaded symbol hbar, List.getLast?_eq_none_iff.mp h]
  simp

/-! ### Parity -/

/-- The agents of the worker and those of the driver are told of the newest day that is
over at the bar. -/
structure PreviousDayParity (d : Driver) (w : AgentWorker) (clock : ℕ → Time) (bar : BarClosed) :
    Prop where
  /-- Both sides say the same. -/
  agree : ∀ ctx ∈ w.contexts d.history clock bar,
    ctx.prevDaily = d.prevDaily bar.symbol bar.ts
  /-- What they say is the newest day that is over. -/
  ended : d.prevDaily bar.symbol bar.ts
    = ((d.history bar.symbol .D1).endedDay bar.ts).map Candle.daily

/-- The newest stored day is over at the bar, or reads like the newest that is. -/
def NewestDayOver (days : Series) (bucket : Time) : Prop :=
  ∀ last, days.rows.getLast? = some last →
    last.ts + Timeframe.D1.length ≤ bucket ∨
      ∃ c, days.endedDay bucket = some c ∧ c.daily = last.daily

/-- The run replays days, and goes back to the newest one that is over at the bar. -/
def DaysReplayed (cfg : BacktestConfig) (days : Series) (bucket : Time) : Prop :=
  ∀ c, days.endedDay bucket = some c →
    Timeframe.D1 ∈ cfg.timeframes ∧ alignToBucket cfg.start .D1 ≤ c.ts

theorem newest_eq_ended_iff (days : Series) (bucket : Time) :
    days.rows.getLast?.map Candle.daily = (days.endedDay bucket).map Candle.daily
      ↔ NewestDayOver days bucket := by
  unfold NewestDayOver
  refine ⟨fun h last hlast => ?_, fun h => ?_⟩
  · rw [hlast, Option.map_some] at h
    obtain ⟨c, hc, hdaily⟩ := Option.map_eq_some_iff.mp h.symm
    exact Or.inr ⟨c, hc, hdaily⟩
  · cases hlast : days.rows.getLast? with
    | none =>
        have hnil : days.endedDays bucket = [] := by
          unfold Series.endedDays
          rw [List.getLast?_eq_none_iff.mp hlast, List.filter_nil]
        unfold Series.endedDay
        rw [hnil]
        rfl
    | some last =>
        rcases h last hlast with hover | ⟨c, hc, hdaily⟩
        · unfold Series.endedDay
          rw [Series.endedDays_eq_rows hlast hover, hlast]
        · rw [hc, Option.map_some, Option.map_some, hdaily]

theorem driver_eq_ended_iff (d : Driver) (symbol : Symbol) {bucket : Time}
    (hbar : bucket < d.cfg.stop) :
    d.prevDaily symbol bucket = ((d.history symbol .D1).endedDay bucket).map Candle.daily
      ↔ DaysReplayed d.cfg (d.history symbol .D1) bucket := by
  unfold DaysReplayed
  cases hended : (d.history symbol .D1).endedDay bucket with
  | none => simp [d.prevDaily_eq_none hbar hended]
  | some c =>
      rw [d.prevDaily_of_endedDay hbar hended, Option.map_some]
      by_cases hboth : Timeframe.D1 ∈ d.cfg.timeframes ∧ alignToBucket d.cfg.start .D1 ≤ c.ts
      · rw [if_pos hboth]
        exact iff_of_true rfl fun x hx => Option.some.inj hx ▸ hboth
      · rw [if_neg hboth]
        exact iff_of_false (by simp) fun h => hboth (h c rfl)

/-- **When the previous day is the same live and replayed**: the newest stored day is over
at the bar, and the run goes back to it. -/
theorem previous_day_parity_iff (d : Driver) (w : AgentWorker) (hagents : w.agents ≠ [])
    (clock : ℕ → Time) (bar : BarClosed) (hbar : bar.ts < d.cfg.stop) :
    PreviousDayParity d w clock bar ↔
      NewestDayOver (d.history bar.symbol .D1) bar.ts ∧
        DaysReplayed d.cfg (d.history bar.symbol .D1) bar.ts := by
  rw [← newest_eq_ended_iff, ← driver_eq_ended_iff d bar.symbol hbar,
    ← AgentWorker.prevDaily_eq]
  refine ⟨fun h => ⟨?_, h.ended⟩, fun h => ⟨fun ctx hctx => ?_, h.2⟩⟩
  · obtain ⟨ctx, hctx⟩ :=
      List.exists_mem_of_ne_nil _ (w.contexts_ne_nil hagents d.history clock bar)
    rw [← h.ended, ← w.prevDaily_of_contexts hctx]
    exact h.agree ctx hctx
  · rw [w.prevDaily_of_contexts hctx, h.2]
    exact h.1

/-- Two stored days, the second twice as high. -/
def twoDays : Series where
  rows :=
    [{ ts := 0, openPrice := 1, high := 1, low := 1, close := 1 },
      { ts := seconds 86400, openPrice := 2, high := 2, low := 2, close := 2 }]
  ascending := by decide

theorem hourly_and_daily_ne_nil : [Timeframe.H1, .D1] ≠ [] := List.cons_ne_nil _ _

/-- Three days of hours and days. -/
def threeDayRun : Driver where
  cfg :=
    { start := 0, stop := seconds 259200, symbols := [.eurusd], timeframes := [.H1, .D1],
      timeframes_ne := hourly_and_daily_ne_nil }
  risk := .default
  history := fun _ _ => twoDays
  runner := fun _ _ => none

/-- A worker whose agent has nothing to say. -/
def silentWorker : AgentWorker := { agents := [fun ctx => buildSignal .technical ctx .flat 0 []] }

/-- At midnight, with both days over, live and replay agree. -/
theorem parity_at_midnight :
    PreviousDayParity threeDayRun silentWorker (fun _ => seconds 172800)
      { symbol := .eurusd, timeframe := .H1, ts := seconds 172800 } := by
  refine (previous_day_parity_iff threeDayRun silentWorker (by simp [silentWorker]) _ _
    (by decide)).mpr ⟨fun last hlast => Or.inl ?_, fun c hc => ⟨by decide, ?_⟩⟩
  · rw [← Option.some.inj hlast]
    decide
  · rw [← Option.some.inj hc]
    decide

/-- The noon bar of the second day, processed after that day was stored, is given the
figures of the second day. -/
theorem disparity_for_late_bar : ¬ ∀ (d : Driver) (w : AgentWorker) (clock : ℕ → Time)
    (bar : BarClosed), w.agents ≠ [] → bar.ts < d.cfg.stop → PreviousDayParity d w clock bar := by
  intro h
  have hparity := h threeDayRun silentWorker (fun _ => seconds 180000)
    { symbol := .eurusd, timeframe := .H1, ts := seconds 129600 } (by simp [silentWorker])
    (by decide)
  have hagree := hparity.agree _ (List.mem_map.mpr ⟨0, by decide, rfl⟩)
  have hhigh : (some (2 : ℚ)) = some 1 := congrArg (Option.map PrevDaily.high) hagree
  exact absurd hhigh (by decide)

end ForexAi
