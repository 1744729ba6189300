/-
The weekend and the staleness watchdog.

A series holds its open buckets when every bucket that has closed and saw the week open is
stored.  Whether that keeps the watchdog quiet is a matter of the clock alone: it does if
and only if one of these buckets is young enough (`quiet_iff`).

Counted from Sunday 22:00 the week is open for five days and then closed for two
(`isMarketOpen_iff`), so a bucket from before the weekend is two days old when the week opens
(`weekend_gap`).  Until the bucket the opening falls into has closed there is no younger
one, and every series is in breach, except a daily one, whose three days reach back to
Friday: `no_false_alarm_iff`.
-/
import ForexAi.Data.Ingest
import ForexAi.Monitor.Staleness
import Mathlib.Tactic.Linarith

namespace ForexAi

/-! ### The week -/

/-- Open, closed and open again: two days are in between. -/
theorem weekend_gap {t c now : ℤ} (htc : t ≤ c) (hcn : c ≤ now) (hopen : isMarketOpen t = true)
    (hclosed : isMarketOpen c ≠ true) (hnow : isMarketOpen now = true) :
    t + 172800000000 ≤ now := by
  rw [isMarketOpen_iff] at hopen hnow
  rw [Ne, isMarketOpen_iff] at hclosed
  omega

/-! ### The buckets a series has to hold

The condition is on the table and the clock together; whether a bucket saw the week open is a
matter of its first instant.
-/

/-- `datetime.min`: there is no earlier stamp. -/
def firstInstant : Time := -62135596800000000

/-- A bucket that has closed by `now` and saw the week open. -/
structure OpenBucket (tf : Timeframe) (now b : Time) : Prop where
  bucket : IsBucket tf b
  first : firstInstant ≤ b
  closed : b + tf.length ≤ now
  traded : ∃ t, b ≤ t ∧ t < b + tf.length ∧ isMarketOpen t = true

/-- Every such bucket is stored. -/
def HoldsOpenBuckets (tf : Timeframe) (now : Time) (s : Series) : Prop :=
  ∀ b, OpenBucket tf now b → b ∈ s.stamps

theorem exists_open_series (tf : Timeframe) (now : Time) :
    ∃ s : Series, ∀ b, b ∈ s.stamps ↔ OpenBucket tf now b := by
  classical
  have hmem : ∀ b, OpenBucket tf now b →
      b ∈ (iterateBuckets firstInstant now tf).filter fun b => decide (OpenBucket tf now b) := by
    intro b hb
    have hbefore : b < now := lt_of_lt_of_le (lt_add_of_pos_right b tf.length_pos) hb.closed
    refine List.mem_filter.mpr ⟨mem_iterateBuckets.mpr ⟨?_, hb.bucket, ?_, hbefore⟩,
      decide_eq_true hb⟩
    · exact not_lt.mpr (hb.first.trans hbefore.le)
    · exact (Grid.floor_le tf.length_pos _).trans hb.first
  refine ⟨(Series.empty.upsertCandles
    (((iterateBuckets firstInstant now tf).filter fun b => decide (OpenBucket tf now b)).map
      fun b => ⟨b, 1, 1, 1, 1⟩) tf).1, fun b => ?_⟩
  rw [Series.mem_upsertCandles]
  constructor
  · intro hb
    rcases hb with hb | ⟨c, hc, rfl⟩
    · exact absurd hb (by simp [Series.empty, Series.stamps])
    · obtain ⟨d, hd, rfl⟩ := List.mem_map.mp hc
      have hopen := of_decide_eq_true (List.mem_filter.mp hd).2
      rw [align_of_isBucket hopen.bucket]
      exact hopen
  · intro hb
    exact Or.inr ⟨_, List.mem_map.mpr ⟨b, hmem b hb, rfl⟩, align_of_isBucket hb.bucket⟩

namespace StalenessMonitor

/-! ### Ages

An age is counted from the start of the newest bucket, in whole seconds.  A bucket that has
just closed is one length old, and just before the next one closes it is two.
-/

theorem ageSeconds_le {now a b : Time} (h : a ≤ b) : ageSeconds now b ≤ ageSeconds now a := by
  unfold ageSeconds
  exact Int.tdiv_le_tdiv (by decide) (sub_le_sub_left h now)

theorem ageSeconds_le_iff {now b : ℤ} {limit : ℕ} (h : b ≤ now) :
    ageSeconds now b ≤ limit ↔ now < b + (limit + 1) * 1000000 := by
  have hage : ageSeconds now b = (now - b) / 1000000 :=
    Int.tdiv_eq_ediv_of_nonneg (sub_nonneg.mpr h)
  rw [hage]
  omega

theorem two_lengths_le (tf : Timeframe) :
    tf.length + tf.length ≤ (stalenessThresholdSeconds tf : ℤ) * 1000000 := by
  cases tf <;> decide

theorem threshold_le {tf : Timeframe} (h : tf ≠ .D1) : stalenessThresholdSeconds tf ≤ 43200 := by
  cases tf with
  | D1 => exact absurd rfl h
  | _ => decide

/-! ### When the watchdog is quiet

The bucket before the current one is the youngest that has closed.  Either it saw the week
open, or it is from the weekend and the next candidate lies before it.
-/

/-- **The watchdog is quiet when a bucket it has to find is young enough.** -/
theorem quiet_iff (tf : Timeframe) (now : Time) (symbol : Symbol) :
    (∀ tables : Symbol → Timeframe → Series, HoldsOpenBuckets tf now (tables symbol tf) →
        (findingOf tables now symbol tf).breached = false) ↔
      (isMarketOpen now = true →
        ∃ b, OpenBucket tf now b ∧ ageSeconds now b ≤ stalenessThresholdSeconds tf) := by
  constructor
  · intro hquiet hopen
    obtain ⟨s, hs⟩ := exists_open_series tf now
    have hbreach := hquiet (fun _ _ => s) fun b hb => (hs b).mpr hb
    rw [← Bool.not_eq_true, breached_iff] at hbreach
    simp only [hopen, true_and, not_forall, not_lt] at hbreach
    obtain ⟨last, hlast, hage⟩ := hbreach
    exact ⟨last, (hs last).mp (Series.lastClosedTs_mem hlast), hage⟩
  · intro hyoung tables hholds
    rw [← Bool.not_eq_true, breached_iff]
    rintro ⟨hopen, hold⟩
    obtain ⟨b, hb, hage⟩ := hyoung hopen
    obtain ⟨last, hlast, hle⟩ := Series.exists_lastClosedTs (hholds b hb)
    exact absurd ((hold last hlast).trans_le (ageSeconds_le hle)) (not_lt.mpr hage)

/-- A bucket has closed, and before the current one started the week was open; a daily series
only needs the first. -/
def Settled (tf : Timeframe) (now : Time) : Prop :=
  firstInstant + tf.length ≤ now ∧ (tf = .D1 ∨ isMarketOpen (alignToBucket now tf - 1) = true)

instance (tf : Timeframe) (now : Time) : Decidable (Settled tf now) := by
  unfold Settled
  infer_instance

theorem firstInstant_bucket (tf : Timeframe) : IsBucket tf firstInstant := by
  cases tf <;> exact Int.dvd_of_emod_eq_zero (by decide)

theorem last_bucket_young {tf : Timeframe} {now : Time} (hfirst : firstInstant + tf.length ≤ now)
    (htraded : isMarketOpen (alignToBucket now tf - 1) = true) :
    ∃ b, OpenBucket tf now b ∧ ageSeconds now b ≤ stalenessThresholdSeconds tf := by
  have hfloor : alignToBucket now tf ≤ now := Grid.floor_le tf.length_pos now
  have hnext : now < alignToBucket now tf + tf.length := Grid.lt_floor_add tf.length_pos now
  have hstart : firstInstant + tf.length ≤ alignToBucket now tf :=
    Grid.le_floor tf.length_pos (firstInstant_bucket tf).add_length hfirst
  have hwidth := two_lengths_le tf
  have hpos := tf.length_pos
  have hpast : alignToBucket now tf - tf.length ≤ now :=
    (sub_le_self _ hpos.le).trans hfloor
  refine ⟨alignToBucket now tf - tf.length, ⟨?_, ?_, ?_, alignToBucket now tf - 1, ?_, ?_, htraded⟩,
    ?_⟩
  · exact Int.dvd_sub (isBucket_align now tf) (Int.dvd_refl _)
  · exact le_sub_iff_add_le.mpr hstart
  · rw [sub_add_cancel]
    exact hfloor
  · exact sub_le_sub_left hpos _
  · rw [sub_add_cancel]
    exact sub_one_lt _
  · refine (ageSeconds_le_iff hpast).mpr ?_
    linarith

/-- The day before yesterday is young enough for a daily series, and where yesterday ended closed
it saw the week open. -/
theorem day_before_young {now : ℤ} (hfirst : firstInstant + Timeframe.D1.length ≤ now)
    (hclosed : isMarketOpen (alignToBucket now .D1 - 1) ≠ true) :
    ∃ b, OpenBucket .D1 now b ∧ ageSeconds now b ≤ stalenessThresholdSeconds .D1 := by
  have hlength : Timeframe.D1.length = 86400000000 := by decide
  have halign : alignToBucket now .D1 = now - now % 86400000000 := by
    rw [alignToBucket, hlength]
  have hday : (-62135510400000000 : ℤ) ≤ now := hfirst
  have hstart : (-62135596800000000 : ℤ) ≤ now - now % 86400000000 - 172800000000 := by
    rw [halign, Ne, isMarketOpen_iff] at hclosed
    omega
  have hfriday : isMarketOpen (now - now % 86400000000 - 172800000000) = true := by
    rw [isMarketOpen_iff]
    rw [halign, Ne, isMarketOpen_iff] at hclosed
    omega
  refine ⟨now - now % 86400000000 - 172800000000, ⟨?_, hstart, ?_, _, le_rfl, ?_, hfriday⟩, ?_⟩
  · show (86400000000 : ℤ) ∣ now - now % 86400000000 - 172800000000
    omega
  · show (now - now % 86400000000 - 172800000000 : ℤ) + 86400000000 ≤ now
    omega
  · exact lt_add_of_pos_right _ Timeframe.D1.length_pos
  · have hthreshold : stalenessThresholdSeconds .D1 = 259200 := by decide
    rw [hthreshold, ageSeconds_le_iff (by omega)]
    omega

theorem traded_of_young {tf : Timeframe} {now b : ℤ} (hdaily : tf ≠ .D1)
    (hopen : isMarketOpen now = true) (hb : OpenBucket tf now b)
    (hage : ageSeconds now b ≤ stalenessThresholdSeconds tf) :
    isMarketOpen (alignToBucket now tf - 1) = true := by
  by_contra hclosed
  have hthreshold := threshold_le hdaily
  obtain ⟨t, hle, hlt, htraded⟩ := hb.traded
  have hend : b + tf.length ≤ alignToBucket now tf :=
    Grid.le_floor tf.length_pos hb.bucket.add_length hb.closed
  have hfloor : alignToBucket now tf ≤ now := Grid.floor_le tf.length_pos now
  have hgap := weekend_gap (Int.le_sub_one_of_lt (hlt.trans_le hend))
    ((sub_one_lt _).le.trans hfloor) htraded hclosed hopen
  rw [ageSeconds_le_iff ((le_add_of_nonneg_right tf.length_pos.le).trans hb.closed)] at hage
  have hlimit : ((stalenessThresholdSeconds tf : ℕ) : ℤ) ≤ 43200 := Int.ofNat_le.mpr hthreshold
  linarith

theorem settled_iff {tf : Timeframe} {now : Time} (hopen : isMarketOpen now = true) :
    (∃ b, OpenBucket tf now b ∧ ageSeconds now b ≤ stalenessThresholdSeconds tf) ↔
      Settled tf now := by
  constructor
  · rintro ⟨b, hb, hage⟩
    refine ⟨(add_le_add_left hb.first _).trans hb.closed, ?_⟩
    by_cases hdaily : tf = .D1
    · exact Or.inl hdaily
    · exact Or.inr (traded_of_young hdaily hopen hb hage)
  · rintro ⟨hfirst, hcase⟩
    by_cases htraded : isMarketOpen (alignToBucket now tf - 1) = true
    · exact last_bucket_young hfirst htraded
    · obtain rfl := hcase.resolve_right htraded
      exact day_before_young hfirst htraded

/-- **When there is no false alarm**: at exactly these instants, whatever is stored beside the
open buckets and whatever else is checked. -/
theorem no_false_alarm_iff (tf : Timeframe) (now : Time) :
    (∀ (tables : Symbol → Timeframe → Series) (instruments : List Symbol)
        (timeframes : List Timeframe) (symbol : Symbol),
        HoldsOpenBuckets tf now (tables symbol tf) →
        ∀ f ∈ (check tables instruments timeframes now).1,
          f.symbol = symbol → f.timeframe = tf → f.breached = false) ↔
      (isMarketOpen now = true → Settled tf now) := by
  constructor
  · intro hquiet hopen
    refine (settled_iff hopen).mp ((quiet_iff tf now .eurusd).mp (fun tables hholds => ?_) hopen)
    exact hquiet tables [.eurusd] [tf] .eurusd hholds _
      (mem_check.mpr ⟨.eurusd, List.mem_singleton_self _, tf, List.mem_singleton_self _, rfl⟩) rfl
      rfl
  · intro hsettled tables instruments timeframes symbol hholds f hf hsymbol hframe
    obtain ⟨symbol, -, tf, -, rfl⟩ := mem_check.mp hf
    obtain rfl : symbol = _ := hsymbol
    obtain rfl : tf = _ := hframe
    exact (quiet_iff _ now _).mpr (fun hopen => (settled_iff hopen).mpr (hsettled hopen)) tables
      hholds

end StalenessMonitor

/-- The first instant of the week of 2024-01-07. -/
def weeklyOpen : Time := seconds 1704664800

/-- At the weekly open the hourly series that holds everything is in breach. -/
theorem weekly_open_alarm : ¬ ∀ (tf : Timeframe) (now : Time)
    (tables : Symbol → Timeframe → Series) (instruments : List Symbol)
    (timeframes : List Timeframe) (symbol : Symbol), HoldsOpenBuckets tf now (tables symbol tf) →
      ∀ f ∈ (StalenessMonitor.check tables instruments timeframes now).1,
        f.symbol = symbol → f.timeframe = tf → f.breached = false := by
  intro h
  have hopen : isMarketOpen weeklyOpen = true := by decide
  have hquiet : StalenessMonitor.Settled .H1 weeklyOpen := by
    refine (StalenessMonitor.settled_iff hopen).mp
      ((StalenessMonitor.quiet_iff .H1 weeklyOpen .eurusd).mp (fun tables hholds => ?_) hopen)
    exact h .H1 weeklyOpen tables [.eurusd] [.H1] .eurusd hholds _
      (StalenessMonitor.mem_check.mpr
        ⟨.eurusd, List.mem_singleton_self _, .H1, List.mem_singleton_self _, rfl⟩) rfl rfl
  exact absurd hquiet (by decide)

end ForexAi
