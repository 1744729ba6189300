/-
Where the market week opens and closes.

The opening is one moment of the week counted from Sunday 22:00, and the closing another, five
days on.  The next opening is looked for from a second back, so that a stamp on the boundary
finds itself; that the market is open at such a stamp is asked first, and when it is closed no
boundary lies in the second before it.  Monday 00:00 is a candidate too, and always the later
one (`nextOpen_of_closed`).
-/
import ForexAi.Data.MarketHours
import Mathlib.Order.Bounds.Basic

namespace ForexAi

/-- The market passes from open to closed: a microsecond ago it was open. -/
def MarketCloses (t : ℤ) : Prop := isMarketOpen (t - 1) = true ∧ isMarketOpen t = false

theorem isMarketOpen_eq_false_iff (t : ℤ) :
    isMarketOpen t = false ↔ 432000000000 ≤ (t + 266400000000) % 604800000000 := by
  rw [← Bool.not_eq_true, isMarketOpen_iff, not_lt]

/-- The market closes five days after it opened. -/
theorem marketCloses_iff (t : ℤ) :
    MarketCloses t ↔ (t + 266400000000) % 604800000000 = 432000000000 := by
  unfold MarketCloses
  rw [isMarketOpen_iff, isMarketOpen_eq_false_iff]
  omega

/-! ### The three boundaries

Each boundary is computed from the start of the stamp's day and its weekday.  Counted from
Sunday 22:00 the three are at fixed places of the week.
-/

theorem sundayOpen_spec (after : ℤ) :
    let u := nextBoundary 6 openSundayHour 0 after
    after < u ∧ u ≤ after + 604800000000 ∧ (u + 266400000000) % 604800000000 = 0 := by
  have hclock : OnTheClock 6 openSundayHour 0 := ⟨by decide, by decide, by decide⟩
  obtain ⟨hafter, hweek, hmoment⟩ := nextBoundary_spec hclock after
  rw [isBoundary_iff hclock] at hmoment
  unfold openSundayHour at hafter hweek hmoment ⊢
  exact ⟨hafter, hweek, by omega⟩

theorem mondayStart_spec (after : ℤ) :
    let u := nextBoundary 0 0 0 after
    after < u ∧ u ≤ after + 604800000000 ∧
      (u + 266400000000) % 604800000000 = 7200000000 := by
  have hclock : OnTheClock 0 0 0 := ⟨by decide, by decide, by decide⟩
  obtain ⟨hafter, hweek, hmoment⟩ := nextBoundary_spec hclock after
  rw [isBoundary_iff hclock] at hmoment
  exact ⟨hafter, hweek, by omega⟩

theorem fridayClose_spec (after : ℤ) :
    let u := nextBoundary 4 closeFridayHour 0 after
    after < u ∧ u ≤ after + 604800000000 ∧
      (u + 266400000000) % 604800000000 = 432000000000 := by
  have hclock : OnTheClock 4 closeFridayHour 0 := ⟨by decide, by decide, by decide⟩
  obtain ⟨hafter, hweek, hmoment⟩ := nextBoundary_spec hclock after
  rw [isBoundary_iff hclock] at hmoment
  unfold closeFridayHour at hafter hweek hmoment ⊢
  exact ⟨hafter, hweek, by omega⟩

/-! ### The next opening -/

theorem nextOpen_of_open {ts : ℤ} (h : isMarketOpen ts = true) : nextOpen ts = ts := by
  unfold nextOpen
  exact if_pos h

/-- While the market is closed the next opening is Sunday's. -/
theorem nextOpen_of_closed {ts : ℤ} (h : isMarketOpen ts = false) :
    ts < nextOpen ts ∧ nextOpen ts ≤ ts + 172800000000 ∧
      (nextOpen ts + 266400000000) % 604800000000 = 0 := by
  have hclosed := (isMarketOpen_eq_false_iff ts).mp h
  obtain ⟨hsunday, hweek, hmoment⟩ := sundayOpen_spec (ts - seconds 1)
  obtain ⟨hmonday, -, hmoment'⟩ := mondayStart_spec (ts - seconds 1)
  have hsecond : seconds 1 = 1000000 := by decide
  have hnext : nextOpen ts = min (nextBoundary 6 openSundayHour 0 (ts - seconds 1))
      (nextBoundary 0 0 0 (ts - seconds 1)) := by
    unfold nextOpen
    simp [h]
  rw [hsecond] at hsunday hweek hmoment hmonday hmoment' hnext
  rw [hnext]
  generalize nextBoundary 6 openSundayHour 0 (ts - 1000000) = u at hsunday hweek hmoment ⊢
  generalize nextBoundary 0 0 0 (ts - 1000000) = m at hmonday hmoment' ⊢
  have hle : u ≤ m := by omega
  rw [min_eq_left hle]
  omega

/-- **The first instant the market is open**, from the stamp on. -/
theorem nextOpen_isLeast (ts : ℤ) :
    IsLeast {t : ℤ | ts ≤ t ∧ isMarketOpen t = true} (nextOpen ts) := by
  cases h : isMarketOpen ts with
  | true =>
      rw [nextOpen_of_open h]
      exact ⟨⟨le_refl ts, h⟩, fun t ht => ht.1⟩
  | false =>
      have hclosed := (isMarketOpen_eq_false_iff ts).mp h
      obtain ⟨hafter, hnear, hmoment⟩ := nextOpen_of_closed h
      refine ⟨⟨hafter.le, ?_⟩, fun t ht => ?_⟩
      · rw [isMarketOpen_iff, hmoment]
        decide
      · obtain ⟨hle, hopen⟩ := ht
        rw [isMarketOpen_iff] at hopen
        omega

/-! ### The next closing -/

/-- The next closing is the Friday after the next opening, or after the stamp. -/
theorem nextClose_eq (ts : ℤ) : nextClose ts = nextBoundary 4 closeFridayHour 0 (nextOpen ts) := by
  unfold nextClose
  cases h : isMarketOpen ts with
  | true => simp [nextOpen_of_open h]
  | false => simp

/-- The market is open from the next opening to the next closing. -/
theorem open_until_close {ts t : ℤ} (hopens : nextOpen ts ≤ t) (hcloses : t < nextClose ts) :
    isMarketOpen t = true := by
  have hopen := (nextOpen_isLeast ts).1.2
  obtain ⟨hafter, hweek, hmoment⟩ := fridayClose_spec (nextOpen ts)
  rw [nextClose_eq] at hcloses
  rw [isMarketOpen_iff] at hopen ⊢
  omega

/-- **The first instant the market closes**, after the stamp. -/
theorem nextClose_isLeast (ts : ℤ) : IsLeast {t : ℤ | ts < t ∧ MarketCloses t} (nextClose ts) := by
  obtain ⟨hfrom, hopen⟩ := (nextOpen_isLeast ts).1
  obtain ⟨hafter, hweek, hmoment⟩ := fridayClose_spec (nextOpen ts)
  rw [← nextClose_eq] at hafter hweek hmoment
  refine ⟨⟨hfrom.trans_lt hafter, (marketCloses_iff _).mpr hmoment⟩, fun t ht => ?_⟩
  obtain ⟨hlt, hcloses⟩ := ht
  -- Just before it closes the market is open, so the opening is not after it.
  have hopened : nextOpen ts ≤ t - 1 := (nextOpen_isLeast ts).2 ⟨by omega, hcloses.1⟩
  rw [marketCloses_iff] at hcloses
  by_contra hearly
  have hstill := open_until_close (le_trans hopened (by omega)) (not_le.mp hearly)
  rw [isMarketOpen_iff] at hstill
  omega

/-- **The boundaries of the market's hours**, for every instant. -/
theorem market_boundaries (ts : Time) :
    IsLeast {t : Time | ts ≤ t ∧ isMarketOpen t = true} (nextOpen ts) ∧
      IsLeast {t : Time | ts < t ∧ MarketCloses t} (nextClose ts) ∧
      ∀ t, max ts (nextOpen ts) ≤ t → t < nextClose ts → isMarketOpen t = true :=
  ⟨nextOpen_isLeast ts, nextClose_isLeast ts,
    fun _ hopens hcloses => open_until_close ((le_max_right _ _).trans hopens) hcloses⟩

end ForexAi
