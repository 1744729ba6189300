/-
Market hours.

The week opens on Sunday at 22:00 and closes on Friday at 22:00, both UTC.  A stamp is an
instant, in microseconds since the epoch, whatever zone it is written in.

Counted from Sunday 22:00 the week is open for five days and then closed for two
(`isMarketOpen_iff`).  A weekday and a time of the day are a moment of that count too
(`isBoundary_iff`), and the next such moment is at most a week away (`nextBoundary_spec`).
-/
import ForexAi.Data.Timeframes

namespace ForexAi

/-- `datetime.weekday()`: Monday is 0.  The epoch was a Thursday. -/
def weekday (t : Time) : ℤ := (t / 86400000000 + 3) % 7

/-- `datetime.hour`. -/
def hourOfDay (t : Time) : ℤ := t % 86400000000 / 3600000000

/-- `_OPEN_SUNDAY_HOUR`. -/
def openSundayHour : ℤ := 22

/-- `_CLOSE_FRIDAY_HOUR`. -/
def closeFridayHour : ℤ := 22

/-- `is_market_open`. -/
def isMarketOpen (t : Time) : Bool :=
  if weekday t = 6 then decide (openSundayHour ≤ hourOfDay t)
  else if weekday t = 4 then decide (hourOfDay t < closeFridayHour)
  else decide (weekday t ≠ 5)

/-- The week is open for the first five days from Sunday 22:00 on. -/
theorem isMarketOpen_iff (t : ℤ) :
    isMarketOpen t = true ↔ (t + 266400000000) % 604800000000 < 432000000000 := by
  unfold isMarketOpen weekday hourOfDay openSundayHour closeFridayHour
  by_cases hsunday : (t / 86400000000 + 3) % 7 = 6
  · rw [if_pos hsunday, decide_eq_true_eq]
    omega
  · rw [if_neg hsunday]
    by_cases hfriday : (t / 86400000000 + 3) % 7 = 4
    · rw [if_pos hfriday, decide_eq_true_eq]
      omega
    · rw [if_neg hfriday, decide_eq_true_eq]
      omega

/-! ### The next boundary -/

/-- `replace(hour=hour, minute=minute, second=0, microsecond=0)`. -/
def replaceClock (t hour minute : ℤ) : ℤ :=
  t - t % 86400000000 + hour * 3600000000 + minute * 60000000

/-- The loop of `_next_boundary`: a candidate that is not after is put off by weeks. -/
def skipWeeks (after candidate : ℤ) : ℤ :=
  if _h : candidate ≤ after then skipWeeks after (candidate + 604800000000) else candidate
termination_by (after + 1 - candidate).toNat
decreasing_by omega

/-- `_next_boundary`. -/
def nextBoundary (day hour minute after : ℤ) : ℤ :=
  let candidate := replaceClock after hour minute
  let daysAhead := (day - weekday candidate) % 7
  let daysAhead := if daysAhead = 0 ∧ candidate ≤ after then 7 else daysAhead
  let candidate := if 0 < daysAhead then candidate + daysAhead * 86400000000 else candidate
  skipWeeks after candidate

/-- `next_open`. -/
def nextOpen (ts : ℤ) : ℤ :=
  let sundayOpen := nextBoundary 6 openSundayHour 0 (ts - seconds 1)
  let mondayStart := nextBoundary 0 0 0 (ts - seconds 1)
  if isMarketOpen ts then ts else min sundayOpen mondayStart

/-- `next_close`. -/
def nextClose (ts : ℤ) : ℤ :=
  let fridayClose := nextBoundary 4 closeFridayHour 0 ts
  if isMarketOpen ts then fridayClose
  else
    let opening := nextOpen ts
    nextBoundary 4 closeFridayHour 0 opening

/-! ### What the next boundary is -/

/-- The weekday and the time of the day are the given ones. -/
def IsBoundary (day hour minute t : ℤ) : Prop :=
  weekday t = day ∧ t % 86400000000 = hour * 3600000000 + minute * 60000000

/-- There are such a weekday and such a time of the day. -/
structure OnTheClock (day hour minute : ℤ) : Prop where
  day_range : 0 ≤ day ∧ day < 7
  hour_range : 0 ≤ hour ∧ hour < 24
  minute_range : 0 ≤ minute ∧ minute < 60

/-- A weekday and a time of the day are a moment of the week, which begins on Monday. -/
theorem isBoundary_iff {day hour minute : ℤ} (h : OnTheClock day hour minute) (t : ℤ) :
    IsBoundary day hour minute t ↔ (t + 259200000000) % 604800000000
      = day * 86400000000 + (hour * 3600000000 + minute * 60000000) := by
  obtain ⟨hday, hhour, hminute⟩ := h
  unfold IsBoundary weekday
  have hclock : 0 ≤ hour * 3600000000 + minute * 60000000 ∧
      hour * 3600000000 + minute * 60000000 < 86400000000 := by omega
  omega

/-- The candidate is on the given weekday once the days ahead are added. -/
theorem weekday_add_days (t days : ℤ) :
    weekday (t + days * 86400000000) = (weekday t + days) % 7 := by
  unfold weekday
  omega

theorem replaceClock_day {hour minute : ℤ} (hhour : 0 ≤ hour ∧ hour < 24)
    (hminute : 0 ≤ minute ∧ minute < 60) (t : ℤ) :
    weekday (replaceClock t hour minute) = weekday t ∧
      replaceClock t hour minute % 86400000000 = hour * 3600000000 + minute * 60000000 := by
  unfold weekday replaceClock
  omega

/-- The loop goes round for a candidate that is not after, and for no other. -/
theorem skipWeeks_of_lt {after candidate : ℤ} (h : after < candidate) :
    skipWeeks after candidate = candidate := by
  rw [skipWeeks]
  exact dif_neg (not_le.mpr h)

/-- **The next boundary** is after the stamp, at most a week away, and at the given moment of
the week. -/
theorem nextBoundary_spec {day hour minute : ℤ} (h : OnTheClock day hour minute) (after : ℤ) :
    after < nextBoundary day hour minute after ∧
      nextBoundary day hour minute after ≤ after + 604800000000 ∧
      IsBoundary day hour minute (nextBoundary day hour minute after) := by
  obtain ⟨hweekday, hclock⟩ := replaceClock_day h.hour_range h.minute_range after
  have hday := h.day_range
  have hnear : replaceClock after hour minute < after + 86400000000 ∧
      after - 86400000000 < replaceClock after hour minute := by
    have hhour := h.hour_range
    have hminute := h.minute_range
    unfold replaceClock
    omega
  unfold nextBoundary
  simp only
  generalize replaceClock after hour minute = candidate at hweekday hclock hnear ⊢
  have hrange : 0 ≤ weekday candidate ∧ weekday candidate < 7 := by
    unfold weekday
    omega
  generalize hdays : (if (day - weekday candidate) % 7 = 0 ∧ candidate ≤ after then 7
    else (day - weekday candidate) % 7) = days
  have hahead : 0 ≤ days ∧ (weekday candidate + days) % 7 = day ∧
      after < candidate + days * 86400000000 ∧
      candidate + days * 86400000000 ≤ after + 604800000000 := by
    rw [← hdays]
    split_ifs with hpast
    -- The day is today and the time has passed: it is next week.
    · omega
    · by_cases hsame : (day - weekday candidate) % 7 = 0
      · have hfuture : after < candidate := not_le.mp fun hle => hpast ⟨hsame, hle⟩
        omega
      · omega
  obtain ⟨hnonneg, hday', hlater, hweek⟩ := hahead
  have hcandidate : (if 0 < days then candidate + days * 86400000000 else candidate)
      = candidate + days * 86400000000 := by
    split_ifs
    · rfl
    · omega
  rw [hcandidate, skipWeeks_of_lt hlater]
  refine ⟨hlater, hweek, ?_, by omega⟩
  rw [weekday_add_days]
  exact hday'

end ForexAi
