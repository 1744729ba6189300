/-
Stamps in order.

A stamp is printed with its year, month, day, hour, minute and second in fields of fixed
widths, then the microseconds if there are any, then the offset.  So two printed stamps
compare as the stamps do (`isoformat_lt`): the fields go up with the time, and where they
are equal the sign of the offset comes before the point of the microseconds.

The part with an argument in it is the date.  Years that begin in March put the leap day
last, and in these the day number, the year and the day of the year go up together
(`march_before`); January and February are handed over to the next year by the month.
-/
import ForexAi.Bus.Events
import ForexAi.Lib.FixedWidth
import Mathlib.Data.String.Basic
import Mathlib.Tactic.Linarith

namespace ForexAi

/-! ### Years that begin in March -/

/-- The year within four hundred of a day within them. -/
def yearOfEra (dayOfEra : ℤ) : ℤ :=
  (dayOfEra - dayOfEra / 1460 + dayOfEra / 36524 - dayOfEra / 146096) / 365

/-- The day within that year. -/
def dayOfYear (dayOfEra : ℤ) : ℤ :=
  dayOfEra - (365 * yearOfEra dayOfEra + yearOfEra dayOfEra / 4 - yearOfEra dayOfEra / 100)

theorem yearOfEra_mono {a b : ℤ} (h : a ≤ b) : yearOfEra a ≤ yearOfEra b := by
  unfold yearOfEra
  refine Int.ediv_le_ediv (by decide) ?_
  omega

theorem yearOfEra_bounds {a : ℤ} (hlow : 0 ≤ a) (hhigh : a ≤ 146096) :
    0 ≤ yearOfEra a ∧ yearOfEra a ≤ 399 := by
  unfold yearOfEra
  omega

/-- The centuries of a year are those of the day. -/
theorem centuries {a : ℤ} (hlow : 0 ≤ a) (hhigh : a ≤ 146096) :
    yearOfEra a / 100 = a / 36524 - a / 146096 := by
  unfold yearOfEra
  have hcentury : a / 36524 = 0 ∨ a / 36524 = 1 ∨ a / 36524 = 2 ∨ a / 36524 = 3 ∨
      a / 36524 = 4 := by omega
  have hlast : a / 146096 = 0 ∨ a / 146096 = 1 := by omega
  rcases hlast with hlast | hlast
  · rw [hlast]
    rcases hcentury with h | h | h | h | h <;> rw [h] <;> omega
  · have hend : a = 146096 := by omega
    rw [hend]
    decide

/-- The leap years of a year are those of the day, but perhaps for the last. -/
theorem leaps {a : ℤ} (hlow : 0 ≤ a) (hhigh : a ≤ 146096) :
    yearOfEra a / 4 ≤ a / 1460 ∧ a / 1460 ≤ yearOfEra a / 4 + 1 := by
  unfold yearOfEra
  have hcentury : 0 ≤ a / 36524 ∧ a / 36524 ≤ 4 := by omega
  have hlast : 0 ≤ a / 146096 ∧ a / 146096 ≤ 1 := by omega
  omega

theorem dayOfYear_bounds {a : ℤ} (hlow : 0 ≤ a) (hhigh : a ≤ 146096) :
    0 ≤ dayOfYear a ∧ dayOfYear a ≤ 365 := by
  have hleaps := leaps hlow hhigh
  unfold dayOfYear
  rw [centuries hlow hhigh]
  unfold yearOfEra at hleaps ⊢
  omega

/-- The year that begins in March. -/
def marchYear (day : ℤ) : ℤ :=
  yearOfEra ((day + 719468) % 146097) + (day + 719468) / 146097 * 400

/-- The day of that year. -/
def marchDay (day : ℤ) : ℤ := dayOfYear ((day + 719468) % 146097)

theorem marchDay_bounds (day : ℤ) : 0 ≤ marchDay day ∧ marchDay day ≤ 365 :=
  dayOfYear_bounds (by omega) (by omega)

/-- **Days in order are in order by their years and the days of these.** -/
theorem march_before {a b : ℤ} (h : a < b) :
    marchYear a < marchYear b ∨ (marchYear a = marchYear b ∧ marchDay a < marchDay b) := by
  have ha := yearOfEra_bounds (a := (a + 719468) % 146097) (by omega) (by omega)
  have hb := yearOfEra_bounds (a := (b + 719468) % 146097) (by omega) (by omega)
  unfold marchYear marchDay
  rcases lt_or_ge ((a + 719468) / 146097) ((b + 719468) / 146097) with hera | hera
  · left
    omega
  · have hsame : (a + 719468) / 146097 = (b + 719468) / 146097 := by omega
    have hday : (a + 719468) % 146097 < (b + 719468) % 146097 := by omega
    have hyear := yearOfEra_mono hday.le
    rcases lt_or_eq_of_le hyear with hlt | heq
    · left
      omega
    · right
      refine ⟨by rw [heq, hsame], ?_⟩
      unfold dayOfYear
      rw [heq]
      omega

/-! ### The calendar -/

/-- Dates in order. -/
def DateBefore (a b : ℤ × ℤ × ℤ) : Prop :=
  a.1 < b.1 ∨ (a.1 = b.1 ∧ (a.2.1 < b.2.1 ∨ (a.2.1 = b.2.1 ∧ a.2.2 < b.2.2)))

/-- The date of a day from its year and its day of the year. -/
theorem civil_eq (day : ℤ) :
    let month := (5 * marchDay day + 2) / 153
    let calendarMonth := if month < 10 then month + 3 else month - 9
    civil day = (marchYear day + (if calendarMonth ≤ 2 then 1 else 0), calendarMonth,
      marchDay day - (153 * month + 2) / 5 + 1) := rfl

/-- **Days in order have dates in order.** -/
theorem civil_before {a b : ℤ} (h : a < b) : DateBefore (civil a) (civil b) := by
  have ha := marchDay_bounds a
  have hb := marchDay_bounds b
  have horder := march_before h
  rw [civil_eq, civil_eq]
  unfold DateBefore
  simp only
  split_ifs <;> omega

theorem civil_bounds (day : ℤ) : 1 ≤ (civil day).2.1 ∧ (civil day).2.1 ≤ 12 ∧
    1 ≤ (civil day).2.2 ∧ (civil day).2.2 ≤ 31 := by
  have hday := marchDay_bounds day
  rw [civil_eq]
  simp only
  split_ifs <;> omega

/-! ### Printed stamps -/

/-- A stamp a `datetime` can hold: the years are those from 1 to 9999. -/
structure Representable (t : Time) : Prop where
  first : -62135596800000000 ≤ t
  last : t < 253402300800000000

instance (t : Time) : Decidable (Representable t) :=
  decidable_of_iff (-62135596800000000 ≤ t ∧ t < 253402300800000000)
    ⟨fun h => ⟨h.1, h.2⟩, fun h => ⟨h.first, h.last⟩⟩

theorem Representable.day {t : ℤ} (h : Representable t) :
    -719162 ≤ t / 86400000000 ∧ t / 86400000000 ≤ 2932896 := by
  have hfirst : (-62135596800000000 : ℤ) ≤ t := h.first
  have hlast : t < (253402300800000000 : ℤ) := h.last
  omega

theorem Representable.year {t : Time} (h : Representable t) :
    1 ≤ (civil (t / 86400000000)).1 ∧ (civil (t / 86400000000)).1 ≤ 9999 := by
  have hmin : civil (-719162) = (1, 1, 1) := by decide
  have hmax : civil 2932896 = (9999, 12, 31) := by decide
  constructor
  · rcases lt_or_eq_of_le h.day.1 with hlt | heq
    · have hbefore := civil_before hlt
      rw [hmin] at hbefore
      unfold DateBefore at hbefore
      simp only at hbefore
      omega
    · rw [← heq, hmin]
  · rcases lt_or_eq_of_le h.day.2 with hlt | heq
    · have hbefore := civil_before hlt
      rw [hmax] at hbefore
      unfold DateBefore at hbefore
      simp only at hbefore
      omega
    · rw [heq, hmax]

/-- A number that is not negative and fits is printed in exactly its width. -/
theorem toList_padded {width : ℕ} (hwidth : 0 < width) {n : ℤ} (hn : 0 ≤ n)
    (hfits : n.toNat < 10 ^ width) : (padded width n).toList = FixedWidth.text width n.toNat := by
  obtain ⟨k, rfl⟩ := Int.eq_ofNat_of_zero_le hn
  have hdigits : toString (k : ℤ) = String.ofList (Nat.toDigits 10 k) :=
    Nat.toString_eq_ofList_toDigits
  rw [Int.toNat_natCast] at hfits ⊢
  rw [← FixedWidth.replicate_toDigits hwidth hfits]
  unfold padded
  rw [hdigits, String.toList_append, String.toList_ofList, String.toList_ofList,
    String.length_ofList]

/-- The fields of a stamp up to the second, with what separates them. -/
def stampFields : List (ℕ × List Char) :=
  [(4, ['-']), (2, ['-']), (2, ['T']), (2, [':']), (2, [':']), (2, [])]

/-- The numbers in these fields. -/
def stampNumbers (t : Time) : List ℕ :=
  let date := civil (t / 86400000000)
  let second := t % 86400000000 / 1000000
  [date.1.toNat, date.2.1.toNat, date.2.2.toNat, (second / 3600).toNat, (second / 60 % 60).toNat,
    (second % 60).toNat]

/-- The microseconds, if there are any, and the offset. -/
def stampTail (t : Time) : List Char :=
  if t % 86400000000 % 1000000 = 0 then "+00:00".toList
  else '.' :: (FixedWidth.text 6 (t % 86400000000 % 1000000).toNat ++ "+00:00".toList)

theorem stampNumbers_fit {t : Time} (h : Representable t) :
    FixedWidth.Fits stampFields (stampNumbers t) := by
  have hyear := h.year
  have hdate := civil_bounds (t / 86400000000)
  unfold FixedWidth.Fits stampFields stampNumbers
  simp only [List.forall₂_cons, List.forall₂_nil_left_iff, and_true]
  refine ⟨?_, ?_, ?_, ?_, ?_, ?_⟩ <;> omega

/-- **A stamp is printed field by field.** -/
theorem toList_isoformat {t : Time} (h : Representable t) :
    (isoformat t).toList = FixedWidth.spell stampFields (stampNumbers t) (stampTail t) := by
  have hyear := h.year
  have hdate := civil_bounds (t / 86400000000)
  have htail : ((if t % 86400000000 % 1000000 = 0 then "" else
      "." ++ padded 6 (t % 86400000000 % 1000000)) ++ "+00:00").toList = stampTail t := by
    unfold stampTail
    by_cases hmicro : t % 86400000000 % 1000000 = 0
    · rw [if_pos hmicro, if_pos hmicro]
      rfl
    · rw [if_neg hmicro, if_neg hmicro, String.toList_append, String.toList_append,
        toList_padded (by decide) (by omega) (by omega)]
      rfl
  have hyearText : (padded 4 (civil (t / 86400000000)).1).toList
      = FixedWidth.text 4 (civil (t / 86400000000)).1.toNat :=
    toList_padded (by decide) (by omega) (by omega)
  have hmonthText : (padded 2 (civil (t / 86400000000)).2.1).toList
      = FixedWidth.text 2 (civil (t / 86400000000)).2.1.toNat :=
    toList_padded (by decide) (by omega) (by omega)
  have hdayText : (padded 2 (civil (t / 86400000000)).2.2).toList
      = FixedWidth.text 2 (civil (t / 86400000000)).2.2.toNat :=
    toList_padded (by decide) (by omega) (by omega)
  have hhourText : (padded 2 (t % 86400000000 / 1000000 / 3600)).toList
      = FixedWidth.text 2 (t % 86400000000 / 1000000 / 3600).toNat :=
    toList_padded (by decide) (by omega) (by omega)
  have hminuteText : (padded 2 (t % 86400000000 / 1000000 / 60 % 60)).toList
      = FixedWidth.text 2 (t % 86400000000 / 1000000 / 60 % 60).toNat :=
    toList_padded (by decide) (by omega) (by omega)
  have hsecondText : (padded 2 (t % 86400000000 / 1000000 % 60)).toList
      = FixedWidth.text 2 (t % 86400000000 / 1000000 % 60).toNat :=
    toList_padded (by decide) (by omega) (by omega)
  rw [← htail]
  unfold isoformat stampFields stampNumbers
  simp only [FixedWidth.spell, String.toList_append, hyearText, hmonthText, hdayText, hhourText,
    hminuteText, hsecondText, List.append_assoc, List.nil_append]
  rfl

/-- On one day the later clock has the later numbers, or the same but for the microseconds. -/
theorem clock_before {c d : ℤ} (hc : 0 ≤ c) (h : c < d) :
    List.Lex (· < ·)
        [(c / 1000000 / 3600).toNat, (c / 1000000 / 60 % 60).toNat, (c / 1000000 % 60).toNat]
        [(d / 1000000 / 3600).toNat, (d / 1000000 / 60 % 60).toNat, (d / 1000000 % 60).toNat] ∨
      (c / 1000000 = d / 1000000 ∧ c % 1000000 < d % 1000000) := by
  rcases lt_or_ge (c / 1000000 / 3600) (d / 1000000 / 3600) with hhour | hhour
  · exact Or.inl (List.Lex.rel (by omega))
  have hsameHour : c / 1000000 / 3600 = d / 1000000 / 3600 := by omega
  rcases lt_or_ge (c / 1000000 / 60 % 60) (d / 1000000 / 60 % 60) with hminute | hminute
  · rw [hsameHour]
    exact Or.inl (List.Lex.cons (List.Lex.rel (by omega)))
  have hsameMinute : c / 1000000 / 60 % 60 = d / 1000000 / 60 % 60 := by omega
  rcases lt_or_ge (c / 1000000 % 60) (d / 1000000 % 60) with hsecond | hsecond
  · rw [hsameHour, hsameMinute]
    exact Or.inl (List.Lex.cons (List.Lex.cons (List.Lex.rel (by omega))))
  · right
    omega

/-- The numbers of a later stamp are later, or the same but for the microseconds. -/
theorem stampNumbers_before {s t : ℤ} (hs : Representable s) (h : s < t) :
    List.Lex (· < ·) (stampNumbers s) (stampNumbers t) ∨
      (stampNumbers s = stampNumbers t ∧
        s % 86400000000 % 1000000 < t % 86400000000 % 1000000) := by
  have hyear := hs.year
  have hdate := civil_bounds (s / 86400000000)
  rcases lt_or_ge (s / 86400000000) (t / 86400000000) with hday | hday
  · left
    have hbefore := civil_before hday
    unfold DateBefore at hbefore
    unfold stampNumbers
    simp only
    rcases hbefore with hlt | ⟨heq, hlt | ⟨heq', hlt⟩⟩
    · exact List.Lex.rel (by omega)
    · rw [heq]
      exact List.Lex.cons (List.Lex.rel (by omega))
    · rw [heq, heq']
      exact List.Lex.cons (List.Lex.cons (List.Lex.rel (by omega)))
  · have hsame : s / 86400000000 = t / 86400000000 := by omega
    unfold stampNumbers
    simp only
    rw [hsame]
    rcases clock_before (by omega) (show s % 86400000000 < t % 86400000000 by omega) with
      hclock | ⟨hsecond, hmicro⟩
    · exact Or.inl (List.Lex.cons (List.Lex.cons (List.Lex.cons hclock)))
    · rw [hsecond]
      exact Or.inr ⟨rfl, hmicro⟩

/-- The sign of the offset comes before the point of the microseconds. -/
theorem stampTail_lt {s t : ℤ} (h : s % 86400000000 % 1000000 < t % 86400000000 % 1000000) :
    List.Lex (· < ·) (stampTail s) (stampTail t) := by
  have ht : t % 86400000000 % 1000000 ≠ 0 := by omega
  unfold stampTail
  rw [if_neg ht]
  by_cases hs : s % 86400000000 % 1000000 = 0
  · rw [if_pos hs]
    exact List.Lex.rel (by decide : '+' < '.')
  · rw [if_neg hs]
    refine List.Lex.cons (FixedWidth.lex_append (FixedWidth.text_lt ?_ ?_) (by simp) _ _)
    · omega
    · omega

/-- **Stamps in order are printed in order.** -/
theorem isoformat_lt {s t : Time} (hs : Representable s) (ht : Representable t) (h : s < t) :
    isoformat s < isoformat t := by
  rw [String.lt_iff_toList_lt, toList_isoformat hs, toList_isoformat ht]
  rcases stampNumbers_before hs h with hearlier | ⟨hsame, hmicro⟩
  · exact FixedWidth.spell_lt (stampNumbers_fit ht) hearlier rfl _ _
  · rw [hsame]
    exact FixedWidth.spell_same _ _ (stampTail_lt hmicro)

theorem isoformat_lt_iff {s t : Time} (hs : Representable s) (ht : Representable t) :
    isoformat s < isoformat t ↔ s < t := by
  refine ⟨fun h => ?_, isoformat_lt hs ht⟩
  by_contra hnot
  rcases lt_or_eq_of_le (not_lt.mp hnot) with hlt | heq
  · exact lt_asymm h (isoformat_lt ht hs hlt)
  · rw [heq] at h
    exact lt_irrefl _ h

theorem isoformat_le_iff {s t : Time} (hs : Representable s) (ht : Representable t) :
    isoformat s ≤ isoformat t ↔ s ≤ t := by
  rw [← not_lt, ← not_lt, isoformat_lt_iff ht hs]

theorem isoformat_inj {s t : Time} (hs : Representable s) (ht : Representable t) :
    isoformat s = isoformat t ↔ s = t := by
  rw [le_antisymm_iff, le_antisymm_iff, isoformat_le_iff hs ht, isoformat_le_iff ht hs]

end ForexAi
