/-
The synthetic market-data provider.

Which candles a request gets is a matter of the buckets alone.  What a candle's prices are,
a noise evaluated in floating point at four instants of the bucket, is handed in as
`prices`, a function of symbol, timeframe and bucket.
-/
import ForexAi.Data.Ingest

namespace ForexAi

/-- The prices of a bar. -/
structure BarPrices where
  openPrice : ℚ
  high : ℚ
  low : ℚ
  close : ℚ

namespace SyntheticProvider

variable (prices : Symbol → Timeframe → Time → BarPrices)

/-- `generate_candle`. -/
def generateCandle (symbol : Symbol) (tf : Timeframe) (bucketStart : Time) : Candle where
  ts := alignToBucket bucketStart tf
  openPrice := (prices symbol tf bucketStart).openPrice
  high := (prices symbol tf bucketStart).high
  low := (prices symbol tf bucketStart).low
  close := (prices symbol tf bucketStart).close

/-- `synthetic_candles`. -/
def syntheticCandles (symbol : Symbol) (tf : Timeframe) (start stop : Time) : List Candle :=
  let closedEnd := min stop (previousClosedBucket stop tf + tf.length)
  ((iterateBuckets start closedEnd tf).filter fun bucket =>
    decide (bucket + tf.length ≤ stop)).map (generateCandle prices symbol tf)

/-- The stamps of the candles are the buckets up to the one the end falls in. -/
theorem stamps_syntheticCandles (symbol : Symbol) (tf : Timeframe) (start stop : Time) :
    (syntheticCandles prices symbol tf start stop).map (·.ts)
      = iterateBuckets start (alignToBucket stop tf) tf := by
  have hend : min stop (previousClosedBucket stop tf + tf.length) = alignToBucket stop tf := by
    unfold previousClosedBucket
    rw [sub_add_cancel]
    exact min_eq_right (Grid.floor_le tf.length_pos stop)
  have hclosed : ∀ bucket ∈ iterateBuckets start (alignToBucket stop tf) tf,
      decide (bucket + tf.length ≤ stop) = true := by
    intro bucket hbucket
    obtain ⟨-, hstart, -, hlt⟩ := mem_iterateBuckets.mp hbucket
    have hnext := Grid.add_le_of_lt hstart (isBucket_align stop tf) hlt
    exact decide_eq_true (hnext.trans (Grid.floor_le tf.length_pos stop))
  have hsame : ∀ bucket ∈ iterateBuckets start (alignToBucket stop tf) tf,
      (generateCandle prices symbol tf bucket).ts = bucket := fun bucket hbucket =>
    align_of_isBucket (mem_iterateBuckets.mp hbucket).2.1
  unfold syntheticCandles
  simp only [hend]
  rw [List.filter_eq_self.mpr hclosed, List.map_map]
  exact (List.map_congr_left hsame).trans (List.map_id _)

end SyntheticProvider

end ForexAi
