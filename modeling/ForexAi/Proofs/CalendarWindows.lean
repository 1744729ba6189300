/-
One calendar through windows.

What is scheduled in a slot is the same for every request (`Scheduled`); a request decides
only which slots it covers (`Covers`).  It covers whole slots: also what is before its start
in the first one, and after its end in the last one.  Two neighbouring windows that meet
inside a slot both cover it.  And it covers twelve slots at most, so a window of more than
three days is cut, and what is cut off may be what a later window shows.

The calendar is seen whole exactly when none of that meets an event:
`one_calendar_iff`.
-/
import ForexAi.Data.SyntheticContent
import ForexAi.Lib.Ascending

namespace ForexAi

namespace SyntheticContent

/-! ### What is scheduled

A slot and a template decide by the hash whether something is scheduled, and when.  The
request has no part in it.
-/

variable {blake2b : String → Fin (2 ^ 64)}

/-- Something is scheduled in a slot, at `t`. -/
def Scheduled (blake2b : String → Fin (2 ^ 64)) (slot : ℤ) (t : Time) : Prop :=
  ∃ pair ∈ currencyPairs, ∃ templateIdx < calendarTemplates.length,
    occupied blake2b pair.1 templateIdx slot = true ∧
      eventTime blake2b pair.1 templateIdx slot = t

theorem slotId_of_mem {slot : ℤ} {e : SyntheticEvent} (h : e ∈ slotEvents blake2b slot) :
    e.slotId = slot := by
  obtain ⟨pair, -, he⟩ := List.mem_flatMap.mp h
  obtain ⟨template, -, rfl⟩ := List.mem_map.mp he
  rfl

/-- The events of a slot are what is scheduled in it. -/
theorem scheduled_iff {slot : ℤ} {t : Time} :
    Scheduled blake2b slot t ↔ ∃ e ∈ slotEvents blake2b slot, e.timestampUtc = t := by
  constructor
  · rintro ⟨pair, hpair, templateIdx, hidx, hoccupied, rfl⟩
    have htemplate : (calendarTemplates[templateIdx], templateIdx) ∈ calendarTemplates.zipIdx :=
      List.mk_mem_zipIdx_iff_getElem?.mpr (List.getElem?_eq_getElem hidx)
    exact ⟨_, List.mem_flatMap.mpr ⟨pair, hpair, List.mem_map.mpr
      ⟨_, List.mem_filter.mpr ⟨htemplate, hoccupied⟩, rfl⟩⟩, rfl⟩
  · rintro ⟨e, he, rfl⟩
    obtain ⟨pair, hpair, he⟩ := List.mem_flatMap.mp he
    obtain ⟨template, htemplate, rfl⟩ := List.mem_map.mp he
    obtain ⟨hmem, hoccupied⟩ := List.mem_filter.mp htemplate
    have hidx := List.mem_zipIdx_iff_getElem?.mp hmem
    exact ⟨pair, hpair, template.2, (List.getElem?_eq_some_iff.mp hidx).1, hoccupied, rfl⟩

theorem hashUniform_nonneg (parts : List String) : 0 ≤ hashUniform blake2b parts := by
  unfold hashUniform
  positivity

theorem hashUniform_le_one (parts : List String) : hashUniform blake2b parts ≤ 1 := by
  unfold hashUniform
  rw [div_le_one (by positivity)]
  exact_mod_cast (blake2b _).isLt.le

/-- A fraction of a length is rounded to between nought and the length. -/
theorem halfEven_fraction {q : ℚ} (hlow : 0 ≤ q) (hhigh : q ≤ 1) {length : ℤ} (h : 0 ≤ length) :
    0 ≤ Rounding.halfEven (q * length) ∧ Rounding.halfEven (q * length) ≤ length := by
  have hlength : (0 : ℚ) ≤ (length : ℚ) := Int.cast_nonneg h
  constructor
  · by_contra hneg
    have hbelow := (Rounding.halfEven_le_iff (q * length) (-1)).mp (by omega)
    have hnonneg : 0 ≤ q * length := mul_nonneg hlow hlength
    rcases hbelow with hlt | ⟨heq, -⟩
    · push_cast at hlt
      linarith
    · push_cast at heq
      linarith
  · have hle : q * length ≤ length := mul_le_of_le_one_left hlength hhigh
    exact (Rounding.halfEven_le_iff _ _).mpr (Or.inl (by linarith))

/-- An event is in its slot, or at the start of the next. -/
theorem scheduled_bounds {slot : ℤ} {t : Time} (h : Scheduled blake2b slot t) :
    slotStart slot ≤ t ∧ t ≤ slotStart (slot + 1) := by
  obtain ⟨pair, -, templateIdx, -, -, rfl⟩ := h
  obtain ⟨hlow, hhigh⟩ := halfEven_fraction (hashUniform_nonneg _) (hashUniform_le_one _)
    slotLength_pos.le (q := hashUniform blake2b ["t|" ++ slotKey pair.1 templateIdx slot])
  rw [slotStart_succ]
  exact ⟨le_add_of_nonneg_right hlow, add_le_add_right hhigh _⟩

/-! ### What a window covers

The slots of a window are those from the one its start is in to the one its end is in, of
which it takes the first twelve.
-/

/-- A request covers a slot. -/
def Covers (since stop : Time) (slot : ℤ) : Prop :=
  slotOf since ≤ slot ∧ slot < slotOf since + 12 ∧ slot ≤ slotOf (stop - 1)

theorem mem_windowSlots {since stop : Time} (h : since < stop) {slot : ℤ} :
    slot ∈ windowSlots since stop ↔ Covers since stop slot := by
  have hsorted : ((List.range 12).map fun k : ℕ => slotOf since + k).Pairwise fun a b =>
      decide (slotStart b < stop) = true → decide (slotStart a < stop) = true := by
    refine List.pairwise_map.mpr (List.pairwise_lt_range.imp fun {j k} hjk hk => ?_)
    simp only [decide_eq_true_eq, slotStart_lt_iff] at hk ⊢
    omega
  unfold windowSlots Covers
  rw [if_neg (not_le.mpr h), Ascending.takeWhile_eq_filter hsorted, List.mem_filter, List.mem_map,
    decide_eq_true_eq, slotStart_lt_iff]
  constructor
  · rintro ⟨⟨k, hk, rfl⟩, hlast⟩
    rw [List.mem_range] at hk
    exact ⟨by omega, by omega, hlast⟩
  · rintro ⟨hfirst, hcap, hlast⟩
    refine ⟨⟨(slot - slotOf since).toNat, List.mem_range.mpr (by omega), by omega⟩, hlast⟩

/-- A request shows the events of the slots it covers. -/
theorem mem_events {since stop : Time} (h : since < stop) {e : SyntheticEvent} :
    e ∈ syntheticCalendarEvents blake2b since stop ↔
      Covers since stop e.slotId ∧ e ∈ slotEvents blake2b e.slotId := by
  unfold syntheticCalendarEvents
  rw [List.mem_flatMap]
  constructor
  · rintro ⟨slot, hslot, he⟩
    rw [slotId_of_mem he]
    exact ⟨(mem_windowSlots h).mp hslot, he⟩
  · rintro ⟨hcovers, he⟩
    exact ⟨e.slotId, (mem_windowSlots h).mpr hcovers, he⟩

/-! ### One calendar

A window is cut in two, and both parts and the whole are asked for.  What can differ is what
each shows beyond its bounds, and what the whole does not get to.
-/

/-- Two windows that meet, and the one they make together. -/
structure SplitWindow where
  since : Time
  mid : Time
  stop : Time
  lower : since < mid
  upper : mid < stop

variable (blake2b)

/-- The window shows what is in it, and what one of its two parts shows, which no event is in
both of. -/
structure OneCalendar (w : SplitWindow) : Prop where
  within : ∀ e ∈ syntheticCalendarEvents blake2b w.since w.stop,
    w.since ≤ e.timestampUtc ∧ e.timestampUtc < w.stop
  disjoint : ∀ e ∈ syntheticCalendarEvents blake2b w.since w.mid,
    e ∉ syntheticCalendarEvents blake2b w.mid w.stop
  union : ∀ e, e ∈ syntheticCalendarEvents blake2b w.since w.stop ↔
    e ∈ syntheticCalendarEvents blake2b w.since w.mid ∨
      e ∈ syntheticCalendarEvents blake2b w.mid w.stop

/-- No event is where a window cuts a slot or is cut itself. -/
structure Unbroken (w : SplitWindow) : Prop where
  /-- The slot the window starts in has no event before the start. -/
  head : ∀ t, Scheduled blake2b (slotOf w.since) t → w.since ≤ t
  /-- The slot it ends in, if it is covered, has no event from the end on. -/
  tail : slotOf (w.stop - 1) < slotOf w.since + 12 →
    ∀ t, Scheduled blake2b (slotOf (w.stop - 1)) t → t < w.stop
  /-- The parts meet where a slot starts, or in one with no event, or beyond the twelfth. -/
  seam : slotStart (slotOf w.mid) = w.mid ∨ slotOf w.since + 12 ≤ slotOf w.mid ∨
    ∀ t, ¬ Scheduled blake2b (slotOf w.mid) t
  /-- Beyond the twelfth slot the later part shows no event. -/
  reach : ∀ slot, slotOf w.since + 12 ≤ slot → slotOf w.mid ≤ slot → slot < slotOf w.mid + 12 →
    slotStart slot < w.stop → ∀ t, ¬ Scheduled blake2b slot t

variable {blake2b}

/-- The slots of the three instants, in order. -/
structure SlotOrder (w : SplitWindow) : Prop where
  lower : slotOf w.since ≤ slotOf (w.mid - 1)
  seam : slotOf (w.mid - 1) ≤ slotOf w.mid
  next : slotOf w.mid - 1 ≤ slotOf (w.mid - 1)
  upper : slotOf w.mid ≤ slotOf (w.stop - 1)

theorem slotOf_mono {t u : Time} (h : t ≤ u) : slotOf t ≤ slotOf u := by
  rw [← slotStart_le_iff]
  exact (slotStart_le_iff.mpr le_rfl).trans h

theorem slotOrder (w : SplitWindow) : SlotOrder w where
  lower := slotOf_mono (Int.le_sub_one_of_lt w.lower)
  seam := slotOf_mono (sub_one_lt w.mid).le
  next := by
    rw [← slotStart_lt_iff]
    have hnext := slotStart_succ (slotOf w.mid - 1)
    rw [sub_add_cancel] at hnext
    refine lt_of_lt_of_le ?_ (slotStart_le_iff.mpr (le_refl (slotOf w.mid)))
    rw [hnext]
    exact lt_add_of_pos_right _ slotLength_pos
  upper := slotOf_mono (Int.le_sub_one_of_lt w.upper)

/-- An instant is a slot's start exactly when the instant before is in an earlier slot. -/
theorem aligned_iff (t : Time) : slotStart (slotOf t) = t ↔ slotOf (t - 1) < slotOf t := by
  have hle : slotStart (slotOf t) ≤ t := slotStart_le_iff.mpr le_rfl
  rw [← not_le, ← slotStart_lt_iff, not_lt]
  constructor
  · intro h
    exact h.ge
  · intro h
    exact le_antisymm hle h

theorem exists_event {since stop : Time} (h : since < stop) {slot : ℤ} {t : Time}
    (hcovers : Covers since stop slot) (ht : Scheduled blake2b slot t) :
    ∃ e ∈ syntheticCalendarEvents blake2b since stop, e.slotId = slot ∧ e.timestampUtc = t := by
  obtain ⟨e, he, rfl⟩ := scheduled_iff.mp ht
  have hslot := slotId_of_mem he
  refine ⟨e, (mem_events h).mpr ?_, hslot, rfl⟩
  rw [hslot]
  exact ⟨hcovers, he⟩

theorem within_iff (w : SplitWindow) :
    (∀ e ∈ syntheticCalendarEvents blake2b w.since w.stop,
        w.since ≤ e.timestampUtc ∧ e.timestampUtc < w.stop) ↔
      (∀ t, Scheduled blake2b (slotOf w.since) t → w.since ≤ t) ∧
        (slotOf (w.stop - 1) < slotOf w.since + 12 →
          ∀ t, Scheduled blake2b (slotOf (w.stop - 1)) t → t < w.stop) := by
  have hwindow := w.lower.trans w.upper
  obtain ⟨hlower, hseam, hnext, hupper⟩ := slotOrder w
  constructor
  · intro hwithin
    refine ⟨fun t ht => ?_, fun hcap t ht => ?_⟩
    · obtain ⟨e, he, -, rfl⟩ := exists_event hwindow ⟨le_rfl, by omega, by omega⟩ ht
      exact (hwithin e he).1
    · obtain ⟨e, he, -, rfl⟩ := exists_event hwindow ⟨by omega, hcap, le_rfl⟩ ht
      exact (hwithin e he).2
  · intro ⟨hhead, htail⟩ e he
    obtain ⟨⟨hfirst, hcap, hlast⟩, hslot⟩ := (mem_events hwindow).mp he
    have ht : Scheduled blake2b e.slotId e.timestampUtc := scheduled_iff.mpr ⟨e, hslot, rfl⟩
    obtain ⟨hstart, hend⟩ := scheduled_bounds ht
    constructor
    · by_cases heq : e.slotId = slotOf w.since
      · exact hhead _ (heq ▸ ht)
      · have hafter : ¬ slotStart e.slotId ≤ w.since := by
          rw [slotStart_le_iff]
          omega
        exact (not_le.mp hafter).le.trans hstart
    · by_cases heq : e.slotId = slotOf (w.stop - 1)
      · exact htail (heq ▸ hcap) _ (heq ▸ ht)
      · exact hend.trans_lt (slotStart_lt_iff.mpr (by omega))

theorem disjoint_iff (w : SplitWindow) :
    (∀ e ∈ syntheticCalendarEvents blake2b w.since w.mid,
        e ∉ syntheticCalendarEvents blake2b w.mid w.stop) ↔
      (slotStart (slotOf w.mid) = w.mid ∨ slotOf w.since + 12 ≤ slotOf w.mid ∨
        ∀ t, ¬ Scheduled blake2b (slotOf w.mid) t) := by
  obtain ⟨hlower, hseam, hnext, hupper⟩ := slotOrder w
  rw [aligned_iff]
  constructor
  · intro hdisjoint
    by_contra hnot
    simp only [not_or, not_forall, not_not] at hnot
    obtain ⟨hinside, hcap, t, ht⟩ := hnot
    obtain ⟨e, he, hslot, -⟩ := exists_event w.lower ⟨by omega, by omega, by omega⟩ ht
    refine hdisjoint e he ((mem_events w.upper).mpr ⟨?_, ((mem_events w.lower).mp he).2⟩)
    rw [hslot]
    exact ⟨le_rfl, by omega, hupper⟩
  · intro hcase e he he'
    obtain ⟨⟨hfirst, hcap, hlast⟩, hslot⟩ := (mem_events w.lower).mp he
    obtain ⟨⟨hfirst', -, -⟩, -⟩ := (mem_events w.upper).mp he'
    have heq : e.slotId = slotOf w.mid := by omega
    rcases hcase with haligned | hbeyond | hnone
    · omega
    · omega
    · exact hnone e.timestampUtc (heq ▸ scheduled_iff.mpr ⟨e, hslot, rfl⟩)

theorem union_iff (w : SplitWindow) :
    (∀ e, e ∈ syntheticCalendarEvents blake2b w.since w.stop ↔
        e ∈ syntheticCalendarEvents blake2b w.since w.mid ∨
          e ∈ syntheticCalendarEvents blake2b w.mid w.stop) ↔
      ∀ slot, slotOf w.since + 12 ≤ slot → slotOf w.mid ≤ slot → slot < slotOf w.mid + 12 →
        slotStart slot < w.stop → ∀ t, ¬ Scheduled blake2b slot t := by
  have hwindow := w.lower.trans w.upper
  obtain ⟨hlower, hseam, hnext, hupper⟩ := slotOrder w
  constructor
  · intro hunion slot hbeyond hfirst hcap hlast t ht
    rw [slotStart_lt_iff] at hlast
    obtain ⟨e, he, hslot, -⟩ := exists_event w.upper ⟨hfirst, hcap, hlast⟩ ht
    obtain ⟨⟨-, hwhole, -⟩, -⟩ := (mem_events hwindow).mp ((hunion e).mpr (Or.inr he))
    omega
  · intro hnone e
    rw [mem_events hwindow, mem_events w.lower, mem_events w.upper, ← or_and_right]
    refine and_congr_left fun hslot => ?_
    have ht : Scheduled blake2b e.slotId e.timestampUtc := scheduled_iff.mpr ⟨e, hslot, rfl⟩
    have hreach : slotOf w.since + 12 ≤ e.slotId → slotOf w.mid ≤ e.slotId →
        e.slotId < slotOf w.mid + 12 → ¬ e.slotId ≤ slotOf (w.stop - 1) := by
      intro hbeyond hfirst hcap hlast
      exact hnone e.slotId hbeyond hfirst hcap (slotStart_lt_iff.mpr hlast) _ ht
    unfold Covers
    omega

/-- **When the calendar is one seen through windows**: for exactly these windows, whatever the
hash. -/
theorem one_calendar_iff (blake2b : String → Fin (2 ^ 64)) (w : SplitWindow) :
    OneCalendar blake2b w ↔ Unbroken blake2b w := by
  constructor
  · intro h
    obtain ⟨hhead, htail⟩ := (within_iff w).mp h.within
    exact ⟨hhead, htail, (disjoint_iff w).mp h.disjoint, (union_iff w).mp h.union⟩
  · intro h
    exact ⟨(within_iff w).mpr ⟨h.head, h.tail⟩, (disjoint_iff w).mpr h.seam,
      (union_iff w).mpr h.reach⟩

/-- The hash of the two texts that decide the euro area's GDP in slot 0; nothing else is
scheduled. -/
def gdpOnly (key : String) : Fin (2 ^ 64) :=
  if key = "forex-ai-synthetic-content|EUR|2|0" then 926202524118245533
  else if key = "forex-ai-synthetic-content|t|EUR|2|0" then 448873762127876382
  else 18446744073709551615

/-- From five in the morning of 2024-01-01 to noon, cut at six. -/
def fiveToNoon : SplitWindow where
  since := calendarEpoch + seconds 18000
  mid := calendarEpoch + seconds 21600
  stop := calendarEpoch + seconds 43200
  lower := by decide
  upper := by decide

/-- The window shows the event of nine minutes past midnight. -/
theorem event_before_window : ¬ ∀ (blake2b : String → Fin (2 ^ 64)) (w : SplitWindow),
    OneCalendar blake2b w := by
  intro h
  have hhead := ((within_iff fiveToNoon).mp (h gdpOnly fiveToNoon).within).1
  have hslot : slotOf fiveToNoon.since = 0 := by decide
  have hscheduled : Scheduled gdpOnly 0 (calendarEpoch + 525603501) := by
    refine ⟨("EUR", ["EURUSD"]), by decide, 2, by decide, ?_, ?_⟩
    · decide +kernel
    · decide +kernel
  rw [hslot] at hhead
  exact absurd (hhead _ hscheduled) (by decide)

end SyntheticContent

end ForexAi
