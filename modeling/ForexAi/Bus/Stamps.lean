/-
Stamps read back.

A consumer reads the stamp of an event with `datetime.fromisoformat`.  A date is looked up by
its day in the years that begin in March, and what the calendar does not have is refused.  So
the day of a printed date is the day it was printed for (`dayOf_civil`), and a printed stamp
is read as the moment it stands for (`fromisoformat_isoformat`).
-/
import ForexAi.Bus.Chronology

namespace ForexAi

/-- The day of a date, if the calendar has it. -/
def dayOf (year month day : ℤ) : Option ℤ :=
  let march := if month ≤ 2 then year - 1 else year
  let marchMonth := if month ≤ 2 then month + 9 else month - 3
  let found := march / 400 * 146097 + (march % 400 * 365 + march % 400 / 4 - march % 400 / 100) +
    ((153 * marchMonth + 2) / 5 + day - 1) - 719468
  if 1 ≤ year ∧ civil found = (year, month, day) then some found else none

/-- The microseconds of a stamp, if it has any. -/
def readFraction : List Char → Option (ℕ × List Char)
  | '.' :: cs => FixedWidth.read 6 cs
  | cs => some (0, cs)

/-- The offset of a stamp, which ends it. -/
def readOffset : List Char → Option Time
  | ['Z'] => some 0
  | sign :: cs =>
      match FixedWidth.unspell [(2, [':']), (2, [])] cs with
      | some ([hour, minute], []) =>
          if 24 ≤ hour ∨ 60 ≤ minute then none
          else if sign = '+' then some ((hour * 3600 + minute * 60) * 1000000)
          else if sign = '-' then some (-((hour * 3600 + minute * 60) * 1000000))
          else none
      | _ => none
  | [] => none

/-- `datetime.fromisoformat`, on stamps with a time and an offset. -/
def fromisoformat (s : String) : Option Time :=
  match FixedWidth.unspell stampFields s.toList with
  | some ([year, month, day, hour, minute, second], tail) =>
      match dayOf year month day, readFraction tail with
      | some found, some (micro, rest) =>
          match readOffset rest with
          | some offset =>
              if 24 ≤ hour ∨ 60 ≤ minute ∨ 60 ≤ second then none
              else some (found * 86400000000 + (hour * 3600 + minute * 60 + second) * 1000000 +
                micro - offset)
          | none => none
      | _, _ => none
  | _ => none

/-! ### The day of a date -/

/-- **The day of a date is the day that has it.** -/
theorem dayOf_civil {day : ℤ} (h : 1 ≤ (civil day).1) :
    dayOf (civil day).1 (civil day).2.1 (civil day).2.2 = some day := by
  have hera := yearOfEra_bounds (a := (day + 719468) % 146097) (by omega) (by omega)
  have hday := marchDay_bounds day
  have hmonth : (if (civil day).2.1 ≤ 2 then (civil day).2.1 + 9 else (civil day).2.1 - 3) =
      (5 * marchDay day + 2) / 153 := by
    rw [civil_eq]
    simp only
    split_ifs <;> omega
  have hyear : (if (civil day).2.1 ≤ 2 then (civil day).1 - 1 else (civil day).1) =
      marchYear day := by
    rw [civil_eq]
    simp only
    split_ifs <;> omega
  have hlast : (civil day).2.2 =
      marchDay day - (153 * ((5 * marchDay day + 2) / 153) + 2) / 5 + 1 := by
    rw [civil_eq]
  have hcycle : marchYear day / 400 = (day + 719468) / 146097 ∧
      marchYear day % 400 = yearOfEra ((day + 719468) % 146097) := by
    unfold marchYear
    omega
  have hmarch : marchDay day = (day + 719468) % 146097 -
      (365 * yearOfEra ((day + 719468) % 146097) + yearOfEra ((day + 719468) % 146097) / 4 -
        yearOfEra ((day + 719468) % 146097) / 100) := rfl
  have hfound : (day + 719468) / 146097 * 146097 +
      (yearOfEra ((day + 719468) % 146097) * 365 + yearOfEra ((day + 719468) % 146097) / 4 -
        yearOfEra ((day + 719468) % 146097) / 100) +
      ((153 * ((5 * marchDay day + 2) / 153) + 2) / 5 + (civil day).2.2 - 1) - 719468 = day := by
    omega
  unfold dayOf
  simp only
  rw [hmonth, hyear, hcycle.1, hcycle.2, hfound, if_pos ⟨h, rfl⟩]

/-! ### The end of a stamp -/

theorem readOffset_utc : readOffset "+00:00".toList = some 0 := by rfl

theorem readFraction_stampTail (t : Time) :
    readFraction (stampTail t) =
      some ((t % 86400000000 % 1000000).toNat, "+00:00".toList) := by
  unfold stampTail
  by_cases hmicro : t % 86400000000 % 1000000 = 0
  · rw [if_pos hmicro, hmicro]
    rfl
  · rw [if_neg hmicro]
    exact FixedWidth.read_text (by omega) _

/-- **A printed stamp is read as the moment it stands for.** -/
theorem fromisoformat_isoformat {t : ℤ} (h : Representable t) :
    fromisoformat (isoformat t) = some t := by
  have hyear := h.year
  have hdate := civil_bounds (t / 86400000000)
  have hday := dayOf_civil hyear.1
  have hread : FixedWidth.unspell stampFields (isoformat t).toList =
      some (stampNumbers t, stampTail t) := by
    rw [toList_isoformat h]
    exact FixedWidth.unspell_spell (stampNumbers_fit h) _
  unfold fromisoformat
  rw [hread]
  unfold stampNumbers
  simp only
  rw [Int.toNat_of_nonneg (by omega), Int.toNat_of_nonneg (by omega),
    Int.toNat_of_nonneg (by omega), hday, readFraction_stampTail]
  simp only
  rw [readOffset_utc]
  simp only
  rw [if_neg (by omega)]
  have hsum : (t / 86400000000 * 86400000000 +
      ((t % 86400000000 / 1000000 / 3600).toNat * 3600 +
        (t % 86400000000 / 1000000 / 60 % 60).toNat * 60 +
        (t % 86400000000 / 1000000 % 60).toNat) * 1000000 +
      (t % 86400000000 % 1000000).toNat - 0 : ℤ) = t := by omega
  exact congrArg some hsum

end ForexAi
