/-
What importance has to do with an event's window.

The proximity model has a window for each importance: none for a low event, forty-five
minutes for a medium one, ninety for a high one.  The agent hands the ninety minutes in for
all of them, and the importance is not looked at.  A low event therefore has the impact of
a high one, and a medium event has one for twice as long as it should.

The impact comes down to the distance in minutes (`impactOf_eq`), so what goes wrong can be
said of distances: an event goes wrong where it is inside the ninety minutes and outside its
own window, four digits allowing (`in_own_window_iff`).
-/
import ForexAi.Proofs.EventWindow

namespace ForexAi

open Rounding

/-- What an event counts for in `_max_impact`. -/
def impactOf (now : Time) (v : EventView) : ℚ :=
  match eventImpact v.timestampUtc now v.importance (some impactWindowMin) with
  | some i => i.impact
  | none => 0

/-- The minutes between an event and now. -/
def EventView.minutes (now : Time) (v : EventView) : ℚ := minutesApart v.timestampUtc now

/-- How near so many minutes are, on a scale of ninety in four digits. -/
def nearness (minutes : ℚ) : ℚ := roundTo 4 (max 0 (1 - minutes / 90))

/-- **The impact is a matter of the distance alone.** -/
theorem impactOf_eq (now : Time) (v : EventView) : impactOf now v = nearness (v.minutes now) := by
  unfold impactOf eventImpact impactWindowMin EventView.minutes nearness
  by_cases hfar : (90 : ℚ) < minutesApart v.timestampUtc now
  · have hzero : max 0 (1 - minutesApart v.timestampUtc now / 90) = 0 := by
      refine max_eq_left ?_
      linarith
    have hround : (roundTo 4 0 : ℚ) = 0 := by decide +kernel
    simp [hfar, hzero, hround]
  · simp [hfar]

/-- An impact is written in four digits. -/
theorem impactOf_scaled (now : Time) (v : EventView) :
    ∃ n : ℤ, impactOf now v * 10 ^ 4 = n := by
  rw [impactOf_eq]
  unfold nearness
  exact ⟨_, roundTo_scaled 4 _⟩

theorem impactOf_nonneg (now : Time) (v : EventView) : 0 ≤ impactOf now v := by
  rw [impactOf_eq]
  unfold nearness
  rw [roundTo_nonneg_iff]
  have hpos : (0 : ℚ) ≤ max 0 (1 - v.minutes now / 90) := le_max_left _ _
  have hunit : -(1 / 2 / 10 ^ 4) ≤ (0 : ℚ) := by norm_num
  exact hunit.trans hpos

/-- From 89.9955 minutes on the impact rounds to nothing. -/
theorem impactOf_eq_zero_iff (now : Time) (v : EventView) :
    impactOf now v = 0 ↔ 899955 / 10000 ≤ v.minutes now := by
  have hle : impactOf now v ≤ 0 ↔ 899955 / 10000 ≤ v.minutes now := by
    rw [impactOf_eq]
    unfold nearness
    rw [roundTo_nonpos_iff, max_le_iff]
    constructor
    · rintro ⟨-, h⟩
      linarith
    · intro h
      exact ⟨by norm_num, by linarith⟩
  rw [← hle]
  exact ⟨fun h => h.le, fun h => h.antisymm (impactOf_nonneg now v)⟩

/-! ### The maximum

A maximum over events is taken in two ways: as a fold in the code, and as a bound that some
event attains.  The second is what two lists can be compared by.
-/

theorem peakStep_eq {now : Time} {peak : ℚ} (h : 0 ≤ peak) (v : EventView) :
    peakStep now peak v = max peak (impactOf now v) := by
  unfold peakStep impactOf
  cases eventImpact v.timestampUtc now v.importance (some impactWindowMin) with
  | none => exact (max_eq_left h).symm
  | some i => rfl

/-- The peak is what it starts from or the impact of an event. -/
theorem peak_attained {now : Time} (events : List EventView) {peak : ℚ} (h : 0 ≤ peak) :
    events.foldl (peakStep now) peak = peak ∨
      ∃ v ∈ events, events.foldl (peakStep now) peak = impactOf now v := by
  induction events generalizing peak with
  | nil => exact Or.inl rfl
  | cons v rest ih =>
      rw [List.foldl_cons, peakStep_eq h]
      rcases ih (h.trans (le_max_left _ (impactOf now v))) with hstart | ⟨u, hu, hpeak⟩
      · rw [hstart]
        rcases max_choice peak (impactOf now v) with hkept | hnew
        · exact Or.inl hkept
        · exact Or.inr ⟨v, List.mem_cons_self, hnew⟩
      · exact Or.inr ⟨u, List.mem_cons_of_mem _ hu, hpeak⟩

/-- The maximum is nothing or the impact of an event. -/
theorem maxImpact_attained (events : List EventView) (now : Time) :
    maxImpact events now = 0 ∨ ∃ v ∈ events, maxImpact events now = impactOf now v := by
  unfold maxImpact
  rcases @peak_attained now events 0 (le_refl 0) with hnone | ⟨v, hv, hpeak⟩
  · left
    rw [hnone]
    decide +kernel
  · right
    refine ⟨v, hv, ?_⟩
    obtain ⟨n, hn⟩ := impactOf_scaled now v
    rw [hpeak]
    exact le_antisymm (roundTo_le_of_le 4 hn le_rfl) (le_roundTo_of_le 4 hn le_rfl)

theorem impactOf_le_maxImpact {events : List EventView} {now : Time} {v : EventView}
    (hv : v ∈ events) : impactOf now v ≤ maxImpact events now := by
  unfold impactOf
  cases hi : eventImpact v.timestampUtc now v.importance (some impactWindowMin) with
  | none =>
      show 0 ≤ maxImpact events now
      rcases maxImpact_attained events now with hzero | ⟨u, -, hu⟩
      · exact hzero.ge
      · rw [hu]
        exact impactOf_nonneg now u
  | some i => exact impact_le_maxImpact hv hi

/-- The maximum of a list is bounded by that of another where each of its events counts for
nothing or for no more than one of the other list. -/
theorem maxImpact_le_iff (events events' : List EventView) (now : Time) :
    maxImpact events now ≤ maxImpact events' now ↔
      ∀ v ∈ events, impactOf now v = 0 ∨ ∃ u ∈ events', impactOf now v ≤ impactOf now u := by
  refine ⟨fun h v hv => ?_, fun h => ?_⟩
  · have hle := (impactOf_le_maxImpact hv).trans h
    rcases maxImpact_attained events' now with hzero | ⟨u, hu, hmax⟩
    · rw [hzero] at hle
      exact Or.inl (hle.antisymm (impactOf_nonneg now v))
    · exact Or.inr ⟨u, hu, hmax ▸ hle⟩
  · have hnonneg : 0 ≤ maxImpact events' now := by
      rcases maxImpact_attained events' now with hzero | ⟨u, -, hu⟩
      · exact hzero.ge
      · rw [hu]
        exact impactOf_nonneg now u
    rcases maxImpact_attained events now with hzero | ⟨v, hv, hmax⟩
    · rw [hzero]
      exact hnonneg
    · rw [hmax]
      rcases h v hv with hnone | ⟨u, hu, hle⟩
      · rw [hnone]
        exact hnonneg
      · exact hle.trans (impactOf_le_maxImpact hu)

/-! ### Two lists that differ by low events

An event that the other list does not have can only matter if it is nearer than all of that
list.  Nothing else can raise the maximum.
-/

/-- The two lists have the same events of medium and high importance, in the same order. -/
def SameBesidesLow (events events' : List EventView) : Prop :=
  (events.filter fun v => decide (v.importance ≠ .low))
    = events'.filter fun v => decide (v.importance ≠ .low)

/-- Every low event of the first list is too far away to count, or no nearer than some event
of the second. -/
def LowMatched (now : Time) (events events' : List EventView) : Prop :=
  ∀ v ∈ events, v.importance = .low → 899955 / 10000 ≤ v.minutes now ∨
    ∃ u ∈ events', nearness (v.minutes now) ≤ nearness (u.minutes now)

theorem maxImpact_le_of_same {events events' : List EventView} {now : Time}
    (h : SameBesidesLow events events') :
    maxImpact events now ≤ maxImpact events' now ↔ LowMatched now events events' := by
  rw [maxImpact_le_iff]
  unfold LowMatched
  refine forall₂_congr fun v hv => ?_
  rw [impactOf_eq_zero_iff]
  simp only [impactOf_eq]
  refine ⟨fun hv' _ => hv', fun hlow => ?_⟩
  by_cases himportance : v.importance = .low
  · exact hlow himportance
  · -- An event that is not low is in both lists.
    have hmem : v ∈ events.filter fun v => decide (v.importance ≠ .low) :=
      List.mem_filter.mpr ⟨hv, by simpa using himportance⟩
    rw [h] at hmem
    exact Or.inr ⟨v, (List.mem_filter.mp hmem).1, le_rfl⟩

/-- Two lists that differ by low events have one impact where the low events of either are
matched by the other. -/
theorem maxImpact_eq_iff {events events' : List EventView} {now : Time}
    (h : SameBesidesLow events events') :
    maxImpact events now = maxImpact events' now ↔
      LowMatched now events events' ∧ LowMatched now events' events := by
  have hback : SameBesidesLow events' events := Eq.symm h
  rw [le_antisymm_iff, maxImpact_le_of_same h, maxImpact_le_of_same hback]

/-! ### An event and its own window

The four digits of the impact leave a margin below a minute inside the ninety, where an event
counts for nothing.
-/

/-- The event counts for something only inside the window of its importance; a low event has
none. -/
def InOwnWindow (now : Time) (v : EventView) : Prop :=
  impactOf now v ≠ 0 →
    0 < v.importance.windowMinutes ∧ v.minutes now ≤ v.importance.windowMinutes

/-- The event is inside the window of its importance, or outside every window. -/
def WellAway (now : Time) (v : EventView) : Prop :=
  v.importance = .high ∨ 899955 / 10000 ≤ v.minutes now ∨
    (v.importance = .medium ∧ v.minutes now ≤ 45)

/-- An event keeps to its own window exactly where it is well away. -/
theorem in_own_window_iff (now : Time) (v : EventView) : InOwnWindow now v ↔ WellAway now v := by
  unfold InOwnWindow WellAway
  rw [ne_eq, impactOf_eq_zero_iff, not_le]
  cases himportance : v.importance with
  | low =>
      refine ⟨fun h => Or.inr (Or.inl ?_), ?_⟩
      · by_contra hnear
        exact absurd (h (not_le.mp hnear)).1 (by decide)
      · rintro (h | h | ⟨h, -⟩)
        · exact absurd h (by simp)
        · exact fun hnear => absurd hnear (not_lt.mpr h)
        · exact absurd h (by simp)
  | medium =>
      refine ⟨fun h => Or.inr ?_, ?_⟩
      · rcases le_or_gt (899955 / 10000) (v.minutes now) with hfar | hnear
        · exact Or.inl hfar
        · exact Or.inr ⟨rfl, by simpa [Importance.windowMinutes] using (h hnear).2⟩
      · rintro (h | h | ⟨-, h⟩)
        · exact absurd h (by simp)
        · exact fun hnear => absurd hnear (not_lt.mpr h)
        · exact fun _ => ⟨by decide, by simpa [Importance.windowMinutes] using h⟩
  | high =>
      refine iff_of_true (fun hnear => ⟨by decide, ?_⟩) (Or.inl rfl)
      have hninety : v.minutes now ≤ 90 := by linarith
      simpa [Importance.windowMinutes] using hninety

theorem WellAway.far_of_low {now : Time} {v : EventView} (h : WellAway now v)
    (hlow : v.importance = .low) : 899955 / 10000 ≤ v.minutes now := by
  rcases h with himportance | hfar | ⟨himportance, -⟩
  · exact absurd (hlow.symm.trans himportance) (by simp)
  · exact hfar
  · exact absurd (hlow.symm.trans himportance) (by simp)

/-! ### Low events are idle -/

/-- Low events make no difference between the two lists, and every event keeps to its own
window. -/
structure LowIdle (now : Time) (events events' : List EventView) : Prop where
  same : SameBesidesLow events events' → maxImpact events now = maxImpact events' now
  own : ∀ v ∈ events ++ events', InOwnWindow now v

/-- **When low events are idle**: two lists that differ by low events alone have one impact
exactly where the low events of either are matched by the other; and they are idle, with every
event in its own window, exactly where every event is well away.

The impact is computed exactly here.  In binary fractions a tie of the rounding may go the other
way: the one at 89.9955 minutes gives 0.0001. -/
theorem low_events_idle_iff (now : Time) (events events' : List EventView) :
    (SameBesidesLow events events' →
      (maxImpact events now = maxImpact events' now ↔
        LowMatched now events events' ∧ LowMatched now events' events)) ∧
    (LowIdle now events events' ↔ ∀ v ∈ events ++ events', WellAway now v) := by
  refine ⟨maxImpact_eq_iff, fun h v hv => (in_own_window_iff now v).mp (h.own v hv), fun h => ?_⟩
  refine ⟨fun hsame => (maxImpact_eq_iff hsame).mpr ⟨?_, ?_⟩,
    fun v hv => (in_own_window_iff now v).mpr (h v hv)⟩
  · exact fun v hv hlow => Or.inl ((h v (List.mem_append_left _ hv)).far_of_low hlow)
  · exact fun v hv hlow => Or.inl ((h v (List.mem_append_right _ hv)).far_of_low hlow)

/-- An event of the euro at some minutes past the epoch. -/
def eventAt (importance : Importance) (minutes : ℕ) : EventView where
  timestampUtc := seconds (60 * minutes)
  importance := importance
  currency := "EUR"
  actual := none
  forecast := none
  title := ""

/-- A low event ninety-five minutes away is idle beside a high one. -/
theorem low_event_idle :
    LowIdle 0 [eventAt .high 30] [eventAt .high 30, eventAt .low 95] := by
  refine (low_events_idle_iff 0 _ _).2.mpr fun v hv => ?_
  simp only [List.cons_append, List.nil_append, List.mem_cons, List.not_mem_nil, or_false] at hv
  rcases hv with rfl | rfl | rfl
  · exact Or.inl rfl
  · exact Or.inl rfl
  · exact Or.inr (Or.inl (by decide +kernel))

/-- A low event ten minutes away opens a window. -/
theorem low_event_window : ¬ ∀ (now : Time) (events events' : List EventView),
    LowIdle now events events' := by
  intro h
  have hsame := (h 0 [] [eventAt .low 10]).same rfl
  exact absurd hsame (by decide +kernel)

end ForexAi
