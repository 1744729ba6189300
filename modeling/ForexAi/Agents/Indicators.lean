/-
The technical indicators.

A window is a list of candles; every indicator is a column aligned to it, with its
warm-up missing.  Numbers are exact.  The one function that leaves the rationals is
the square root of the Bollinger bands, so it is a parameter.
-/
import ForexAi.Data.Timeframes
import ForexAi.Lib.Columns
import Mathlib.Algebra.Field.Rat
import Mathlib.Algebra.Order.Field.Rat
import Mathlib.Data.Rat.Sqrt

namespace ForexAi

open Columns

/-- The library's square root. -/
class SquareRoot where
  sqrt : ℚ → ℚ
  nonneg : ∀ x, 0 ≤ x → 0 ≤ sqrt x

/-- The root that is exact on squares. -/
@[reducible] def SquareRoot.rational : SquareRoot where
  sqrt := Rat.sqrt
  nonneg := fun x _ => Rat.sqrt_nonneg x

/-- A candle's prices are in order. -/
def Candle.Valid (c : Candle) : Prop :=
  c.low ≤ c.openPrice ∧ c.low ≤ c.close ∧ c.openPrice ≤ c.high ∧ c.close ≤ c.high

instance (c : Candle) : Decidable c.Valid := by
  unfold Candle.Valid
  infer_instance

/-- The columns of a window. -/
def closes (data : List Candle) : Column ℚ := ofList (data.map (·.close))

def highs (data : List Candle) : Column ℚ := ofList (data.map (·.high))

def lows (data : List Candle) : Column ℚ := ofList (data.map (·.low))

/-- The mean of the trailing `n` values. -/
def sma (n : ℕ) (xs : Column ℚ) : Column ℚ := rolling n (fun w => some (meanOf w)) xs

/-- The exponential mean, seeded with the first value. -/
def ema (n : ℕ) (xs : Column ℚ) : Column ℚ := ewmMean (2 / (n + 1)) n xs

/-- `rsi`'s last step, for one average gain and one average loss. -/
def rsiOf (gain loss : ℚ) : Option ℚ :=
  if loss = 0 then (if 0 < gain then some 100 else none)
  else some (100 - 100 / (1 + gain / loss))

/-- The relative strength index. -/
def rsi (n : ℕ) (close : Column ℚ) : Column ℚ :=
  let delta := diff close
  let gain := delta.map (·.map (max 0))
  let loss := delta.map (·.map fun d => max 0 (-d))
  Columns.zip rsiOf (wilderSmooth n gain) (wilderSmooth n loss)

/-- The MACD line, its signal line, and the histogram. -/
def macd (fast slow signalLen : ℕ) (close : Column ℚ) : Column ℚ × Column ℚ × Column ℚ :=
  let line := Columns.sub (ema fast close) (ema slow close)
  let signal : Column ℚ := ewmMean (2 / (signalLen + 1)) 0 line
  (line, signal, Columns.sub line signal)

/-- The population standard deviation of a window. -/
def deviation [SquareRoot] (w : List ℚ) : ℚ :=
  SquareRoot.sqrt (meanOf (w.map fun x => (x - meanOf w) ^ 2))

/-- The Bollinger bands: middle, upper, lower. -/
def bollinger [SquareRoot] (n : ℕ) (numStd : ℚ) (close : Column ℚ) :
    Column ℚ × Column ℚ × Column ℚ :=
  let mid := sma n close
  let spread := scale numStd (rolling n (fun w => some (deviation w)) close)
  (mid, Columns.add mid spread, Columns.sub mid spread)

/-- The true range of a candle after a close. -/
def rangeAfter (previous : ℚ) (c : Candle) : ℚ :=
  max (max |c.high - c.low| |c.high - previous|) |c.low - previous|

/-- The true ranges; the first is the candle's own range. -/
def trueRange : List Candle → List ℚ
  | [] => []
  | c :: rest => (c.high - c.low) :: List.zipWith (fun p q => rangeAfter p.close q) (c :: rest) rest

/-- The average true range. -/
def atr (data : List Candle) (n : ℕ) : Column ℚ := wilderSmooth n (ofList (trueRange data))

/-- The slow stochastic: `%K` and `%D`. -/
def stochastic (data : List Candle) (kLength kSmooth dSmooth : ℕ) : Column ℚ × Column ℚ :=
  let lowest := rolling kLength List.min? (lows data)
  let highest := rolling kLength List.max? (highs data)
  let rawK :=
    Columns.div (scale 100 (Columns.sub (closes data) lowest)) (Columns.sub highest lowest)
  let slowK := sma kSmooth rawK
  (slowK, sma dSmooth slowK)

/-- A directional move: `up` where it is the larger one and positive. -/
def directionalMove (up down : Option ℚ) : Option ℚ :=
  match up, down with
  | some u, some d => if d < u ∧ 0 < u then some u else some 0
  | _, _ => some 0

/-- Wilder's directional movement: the ADX, `+DI`, `-DI`.  Where the true range is zero so is
the movement, and the quotient is missing. -/
def directionalMovement (data : List Candle) (n : ℕ) : Column ℚ × Column ℚ × Column ℚ :=
  let upMove := diff (highs data)
  let downMove := scale (-1) (diff (lows data))
  let plusDm := List.zipWith directionalMove upMove downMove
  let minusDm := List.zipWith directionalMove downMove upMove
  let range := atr data n
  let plusDi := Columns.div (scale 100 (wilderSmooth n plusDm)) range
  let minusDi := Columns.div (scale 100 (wilderSmooth n minusDm)) range
  let spread := (Columns.sub plusDi minusDi).map (·.map fun x => 100 * |x|)
  let dx := Columns.div spread (Columns.add plusDi minusDi)
  (fillPresent dx (wilderSmooth n (ofList (present dx))), plusDi, minusDi)

/-- The Donchian channel: upper, middle, lower. -/
def donchian (data : List Candle) (n : ℕ) : Column ℚ × Column ℚ × Column ℚ :=
  let upper := rolling n List.max? (highs data)
  let lower := rolling n List.min? (lows data)
  (upper, scale (1 / 2) (Columns.add upper lower), lower)

/-- Classic floor-trader pivots. -/
structure PivotLevels where
  pivot : ℚ
  r1 : ℚ
  r2 : ℚ
  r3 : ℚ
  s1 : ℚ
  s2 : ℚ
  s3 : ℚ

/-- `floor_pivots` from a prior period's high, low and close. -/
def floorPivots (prevHigh prevLow prevClose : ℚ) : PivotLevels :=
  let p := (prevHigh + prevLow + prevClose) / 3
  let hl := prevHigh - prevLow
  { pivot := p
    r1 := 2 * p - prevLow
    r2 := p + hl
    r3 := prevHigh + 2 * (p - prevLow)
    s1 := 2 * p - prevHigh
    s2 := p - hl
    s3 := prevLow - 2 * (prevHigh - p) }

/-! ### The length of the true range -/

theorem length_trueRange (data : List Candle) : (trueRange data).length = data.length := by
  cases data with
  | nil => rfl
  | cons c rest =>
      unfold trueRange
      rw [List.length_cons, List.length_zipWith, List.length_cons]
      omega

/-- A window of at least `n` candles has an average true range. -/
theorem lastValid_atr {data : List Candle} {n : ℕ} (hpos : 0 < n) (hlong : n ≤ data.length) :
    ∃ a, lastValid (atr data n) = some a := by
  refine lastValid_wilderSmooth hpos ?_
  rw [length_trueRange]
  exact hlong

end ForexAi
