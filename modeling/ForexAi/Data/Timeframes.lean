/-
Time, timeframes, and the stored candles.

A timestamp is an integer number of microseconds since the epoch, the resolution
of the `datetime` the source works with; everything is UTC, so nothing else has to
be carried.  A bucket is named by its start.

A stored series is the candle table restricted to one instrument and timeframe.
The table has one row per bucket and every query orders by it, so the series is a
list whose stamps strictly ascend, and the structure carries that.
-/
import ForexAi.Lib.Ascending
import Mathlib.Algebra.Order.Ring.Int
import Mathlib.Algebra.Order.Ring.Rat
import Mathlib.Data.List.Pairwise

namespace ForexAi

/-- Microseconds since the epoch, UTC. -/
abbrev Time := ℤ

/-- `timedelta(seconds=n)`. -/
def seconds (n : ℕ) : Time := n * 1000000

theorem seconds_nonneg (n : ℕ) : 0 ≤ seconds n := by
  unfold seconds
  exact Int.mul_nonneg (Int.natCast_nonneg n) (by decide)

/-- The supported candle intervals. -/
inductive Timeframe where
  | M5 | M15 | H1 | H4 | D1
  deriving DecidableEq, Repr

namespace Timeframe

/-- `Timeframe._SECONDS`. -/
def seconds : Timeframe → ℕ
  | M5 => 5 * 60
  | M15 => 15 * 60
  | H1 => 60 * 60
  | H4 => 4 * 60 * 60
  | D1 => 24 * 60 * 60

/-- Position in ascending duration order. -/
def rank : Timeframe → ℕ
  | M5 => 0
  | M15 => 1
  | H1 => 2
  | H4 => 3
  | D1 => 4

/-- The string the database and the configuration hold. -/
def code : Timeframe → String
  | M5 => "M5"
  | M15 => "M15"
  | H1 => "H1"
  | H4 => "H4"
  | D1 => "D1"

/-- The interval as a duration. -/
def length (tf : Timeframe) : Time := ForexAi.seconds tf.seconds

theorem length_pos (tf : Timeframe) : 0 < tf.length := by
  cases tf <;> decide

theorem rank_injective {a b : Timeframe} (h : a.rank = b.rank) : a = b := by
  cases a <;> cases b <;> first | rfl | exact absurd h (by decide)

/-- Lengths are in the order of the ranks. -/
theorem length_lt {a b : Timeframe} (h : a.rank < b.rank) : a.length < b.length := by
  cases a <;> cases b <;> first | exact absurd h (by decide) | decide

end Timeframe

/-- Floor a timestamp to the start of its bucket. -/
def alignToBucket (ts : Time) (tf : Timeframe) : Time := ts - ts % tf.length

/-! ### Stored candles -/

/-- One closed bar as the candle table holds it. -/
structure Candle where
  ts : Time
  openPrice : ℚ
  high : ℚ
  low : ℚ
  close : ℚ
  deriving DecidableEq, Repr

/-- The stored bars of one instrument and timeframe, in stamp order. -/
structure Series where
  rows : List Candle
  ascending : rows.Pairwise (·.ts < ·.ts)

namespace Series

/-- Nothing is stored. -/
def empty : Series := ⟨[], List.Pairwise.nil⟩

/-- The stamps of a series. -/
def stamps (s : Series) : List Time := s.rows.map (·.ts)

theorem stamps_ascending (s : Series) : s.stamps.Pairwise (· < ·) := by
  unfold stamps
  exact List.pairwise_map.mpr s.ascending

/-- `last_closed_ts`: the most recent stored bucket. -/
def lastClosedTs (s : Series) : Option Time := s.rows.getLast?.map (·.ts)

/-- `load_candles`: the rows from `start` on and before `stop`, ascending, at most `limit`.
A bound that is `none` filters nothing. -/
def loadCandles (s : Series) (start stop : Option Time) (limit : ℕ) : List Candle :=
  (s.rows.filter fun c =>
    (match start with | none => true | some t => decide (t ≤ c.ts)) &&
    (match stop with | none => true | some t => decide (c.ts < t))).take limit

theorem loadCandles_sublist (s : Series) (start stop : Option Time) (limit : ℕ) :
    (s.loadCandles start stop limit).Sublist s.rows :=
  (List.take_sublist _ _).trans List.filter_sublist

theorem loadCandles_ascending (s : Series) (start stop : Option Time) (limit : ℕ) :
    (s.loadCandles start stop limit).Pairwise (·.ts < ·.ts) :=
  s.ascending.sublist (s.loadCandles_sublist start stop limit)

/-- No stored bar is newer than the last closed one. -/
theorem le_lastClosedTs {s : Series} {latest : Time} (h : s.lastClosedTs = some latest)
    {c : Candle} (hc : c ∈ s.rows) : c.ts ≤ latest := by
  unfold lastClosedTs at h
  cases hl : s.rows.getLast? with
  | none => rw [hl] at h; simp at h
  | some last =>
      rw [hl] at h
      simp only [Option.map_some, Option.some.injEq] at h
      subst h
      exact Ascending.key_le_newest Candle.ts s.ascending hl c hc

theorem lastClosedTs_mem {s : Series} {latest : Time} (h : s.lastClosedTs = some latest) :
    latest ∈ s.stamps := by
  unfold lastClosedTs at h
  obtain ⟨c, hc, rfl⟩ := Option.map_eq_some_iff.mp h
  exact List.mem_map.mpr ⟨c, List.mem_of_getLast? hc, rfl⟩

theorem lastClosedTs_eq_none {s : Series} (h : s.lastClosedTs = none) : s.rows = [] := by
  simpa [lastClosedTs] using h

/-- Where a bar is stored there is a newest one. -/
theorem exists_lastClosedTs {series : Series} {t : Time} (h : t ∈ series.stamps) :
    ∃ latestClosed, series.lastClosedTs = some latestClosed ∧ t ≤ latestClosed := by
  obtain ⟨row, hrow, rfl⟩ := List.mem_map.mp h
  cases hlatest : series.lastClosedTs with
  | none =>
      rw [lastClosedTs_eq_none hlatest] at hrow
      exact absurd hrow (by simp)
  | some latestClosed => exact ⟨latestClosed, rfl, le_lastClosedTs hlatest hrow⟩

end Series

end ForexAi
