/-
When the window of an event opens.

The agents read twelve hours either way of a bar, and the proximity model is the same before
an event and after it.  The content worker asks its provider for what lies between the
look-back and now.  So an event is not in the table before its time has passed at a cycle
(`upcoming_not_handed`), and the side of its window that lies before it stays shut.

What a bar is handed is exact: of the event, the first report that was committed
(`find_run`), when it still has the event's time and fewer than fifty rows are ahead of it
(`handed_iff`).  An event that is handed counts for at least its own proximity
(`impact_le_maxImpact`).
-/
import ForexAi.Proofs.Releases

namespace ForexAi

open Rounding

/-! ### The impact of an event that is handed over -/

/-- The peak is at least what it starts from, and at least the impact of every event. -/
theorem le_peak {now : Time} {events : List EventView} {x peak : ℚ}
    (h : x ≤ peak ∨ ∃ v ∈ events, ∃ i,
      eventImpact v.timestampUtc now v.importance (some impactWindowMin) = some i ∧ x ≤ i.impact) :
    x ≤ events.foldl (peakStep now) peak := by
  induction events generalizing peak with
  | nil =>
      rcases h with h | ⟨v, hv, -⟩
      · exact h
      · exact absurd hv (by simp)
  | cons v rest ih =>
      rw [List.foldl_cons]
      refine ih ?_
      rcases h with h | ⟨u, hu, i, hi, hle⟩
      · left
        unfold peakStep
        split
        · exact h.trans (le_max_left _ _)
        · exact h
      · rcases List.mem_cons.mp hu with rfl | hrest
        · left
          unfold peakStep
          rw [hi]
          exact hle.trans (le_max_right _ _)
        · exact Or.inr ⟨u, hrest, i, hi, hle⟩

/-- **An event that is handed over counts for its proximity.** -/
theorem impact_le_maxImpact {now : Time} {events : List EventView} {v : EventView}
    (hv : v ∈ events) {importance : Importance} {i : EventImpact}
    (hi : eventImpact v.timestampUtc now importance (some impactWindowMin) = some i) :
    i.impact ≤ maxImpact events now := by
  -- The half window is given, so the importance is not looked at.
  have hcount : eventImpact v.timestampUtc now v.importance (some impactWindowMin) = some i := hi
  obtain ⟨x, hx⟩ : ∃ x, i.impact = roundTo 4 x := by
    unfold eventImpact at hi
    simp only at hi
    split at hi
    · exact absurd hi (by simp)
    · split at hi
      · exact absurd hi (by simp)
      · exact ⟨_, (congrArg EventImpact.impact (Option.some.inj hi)).symm⟩
  have hpeak := @le_peak now events i.impact 0 (Or.inr ⟨v, hv, i, hcount, le_refl _⟩)
  unfold maxImpact
  rw [hx] at hpeak ⊢
  exact le_roundTo_of_le 4 (roundTo_scaled 4 x) hpeak

/-! ### What a bar is handed

The query takes rows of the two currencies around the bar, the latest first, and stops at
fifty.  So a row is handed unless enough rows are ahead of it.
-/

/-- How many rows of a bar's query are ahead of a row: the later ones, and of its own stamp
those stored before it. -/
def rowsAhead (t : EventTable) (symbol : Symbol) (bucketTs : Time) (row : EconomicEventRow) : ℕ :=
  let queried := t.rows.filter (queriedFor symbol bucketTs)
  Latest.ahead (·.timestampUtc) (queried.takeWhile fun r => decide (r.dedupKey ≠ row.dedupKey))
    queried row

/-- A row is handed over when it is queried and few enough are ahead of it. -/
theorem mem_eventRowsFor_iff {t : EventTable} {symbol : Symbol} {bucketTs : Time}
    {row : EconomicEventRow} :
    row ∈ eventRowsFor t symbol bucketTs ↔
      row ∈ t.rows ∧ queriedFor symbol bucketTs row = true ∧
        rowsAhead t symbol bucketTs row < 50 := by
  unfold eventRowsFor rowsAhead
  simp only
  set queried := t.rows.filter (queriedFor symbol bucketTs) with hqueried
  have hkeys : (queried.map (·.dedupKey)).Nodup :=
    t.uq_dedup.sublist (List.filter_sublist.map _)
  by_cases hmem : row ∈ queried
  · obtain ⟨hrow, hquery⟩ := List.mem_filter.mp hmem
    obtain ⟨before, after, hsplit⟩ := List.append_of_mem hmem
    have hbefore : queried.takeWhile (fun r => decide (r.dedupKey ≠ row.dedupKey)) = before := by
      rw [hsplit] at hkeys ⊢
      rw [List.takeWhile_append_of_pos, List.takeWhile_cons_of_neg (by simp), List.append_nil]
      intro r hr
      rw [List.map_append, List.nodup_append] at hkeys
      have hne := hkeys.2.2 r.dedupKey (List.mem_map.mpr ⟨r, hr, rfl⟩) row.dedupKey (by simp)
      simpa using hne
    rw [hbefore]
    have hnodup : (before ++ row :: after).Nodup := by
      rw [← hsplit]
      exact hkeys.of_map _
    rw [hsplit, Latest.mem_latest_iff hnodup]
    exact ⟨fun h => ⟨hrow, hquery, h⟩, fun h => h.2.2⟩
  · refine iff_of_false (fun h => ?_) fun h => hmem (List.mem_filter.mpr ⟨h.1, h.2.1⟩)
    exact hmem ((List.perm_insertionSort _ _).mem_iff.mp (List.mem_of_mem_take h))

/-- The event is among the rows a bar is handed, with its time and its currency. -/
def Handed [PyText] (t : EventTable) (symbol : Symbol) (bucketTs : Time)
    (e : NormalizedEconomicEvent) : Prop :=
  ∃ row ∈ eventRowsFor t symbol bucketTs, row.dedupKey = calendarDedupKey e ∧
    row.timestampUtc = e.timestampUtc ∧ row.currency = e.currency

/-- The event matters to a bar: it is of the pair, and at most ninety minutes away. -/
structure DueWithin (symbol : Symbol) (now : Time) (e : NormalizedEconomicEvent) : Prop where
  currency : [(currenciesOf symbol).1, (currenciesOf symbol).2].contains e.currency = true
  close : |now - e.timestampUtc| ≤ seconds 5400

theorem DueWithin.queried {symbol : Symbol} {now : Time} {e : NormalizedEconomicEvent}
    (h : DueWithin symbol now e) {row : EconomicEventRow}
    (hstamp : row.timestampUtc = e.timestampUtc)
    (hcurrency : row.currency = e.currency) : queriedFor symbol now row = true := by
  obtain ⟨hlow, hhigh⟩ := abs_le.mp h.close
  have hsince : now - seconds 43200 ≤ e.timestampUtc := by
    unfold seconds at hlow hhigh ⊢
    push_cast at hlow hhigh ⊢
    linarith
  have hbefore : e.timestampUtc < now + seconds 43200 := by
    unfold seconds at hlow hhigh ⊢
    push_cast at hlow hhigh ⊢
    linarith
  unfold queriedFor
  rw [hstamp, hcurrency, h.currency, decide_eq_true hsince, decide_eq_true hbefore]
  rfl

variable [PyText]

/-- The first committed report of the event has its time and currency, and its row is not
crowded out. -/
def ReportedInTime (cfg : ContentSettings) (cycles : List CalendarCycle) (symbol : Symbol)
    (now : Time) (e : NormalizedEconomicEvent) : Prop :=
  ∃ first, firstReport cfg cycles (calendarDedupKey e) = some first ∧
    first.timestampUtc = e.timestampUtc ∧ first.currency = e.currency ∧
    rowsAhead (Runs.run (fun t c => CalendarCycle.step cfg t c) .empty cycles) symbol now
      (eventValues first) < 50

/-- **An event is handed over exactly when it was reported in time.** -/
theorem handed_iff (cfg : ContentSettings) (cycles : List CalendarCycle) {symbol : Symbol}
    {now : Time} {e : NormalizedEconomicEvent} (hnear : DueWithin symbol now e) :
    Handed (Runs.run (fun t c => CalendarCycle.step cfg t c) .empty cycles) symbol now e ↔
      ReportedInTime cfg cycles symbol now e := by
  set t := Runs.run (fun t c => CalendarCycle.step cfg t c) .empty cycles with ht
  have hfind := find_run cfg cycles (calendarDedupKey e)
  rw [← ht] at hfind
  constructor
  · rintro ⟨row, hrow, hkey, hstamp, hcurrency⟩
    obtain ⟨hmem, -, hahead⟩ := mem_eventRowsFor_iff.mp hrow
    have hstored : t.find row.dedupKey = some row := Keyed.find_of_mem t.uq_dedup hmem
    rw [hkey, hfind] at hstored
    obtain ⟨first, hfirst, rfl⟩ := Option.map_eq_some_iff.mp hstored
    exact ⟨first, hfirst, hstamp, hcurrency, hahead⟩
  · rintro ⟨first, hfirst, hstamp, hcurrency, hahead⟩
    rw [hfirst, Option.map_some] at hfind
    obtain ⟨hmem, hkey⟩ := Keyed.mem_of_find hfind
    exact ⟨eventValues first,
      mem_eventRowsFor_iff.mpr ⟨hmem, hnear.queried hstamp hcurrency, hahead⟩,
      hkey, hstamp, hcurrency⟩

/-- The event counts for a bar: it is handed over, and the impact is at least its own. -/
structure Counts (t : EventTable) (symbol : Symbol) (now : Time) (e : NormalizedEconomicEvent) :
    Prop where
  handed : Handed t symbol now e
  impact : ∀ i, eventImpact e.timestampUtc now e.importance none = some i →
    i.impact ≤ maxImpact (eventsFor t symbol now) now

theorem counts_of_handed {t : EventTable} {symbol : Symbol} {now : Time}
    {e : NormalizedEconomicEvent} (himportance : e.importance = .high)
    (h : Handed t symbol now e) : Counts t symbol now e := by
  refine ⟨h, fun i hi => ?_⟩
  obtain ⟨row, hrow, -, hstamp, -⟩ := h
  rw [himportance] at hi
  rw [← hstamp] at hi
  have hview : row.view ∈ eventsFor t symbol now := by
    unfold eventsFor
    exact List.mem_map.mpr ⟨row, hrow, rfl⟩
  exact @impact_le_maxImpact now _ row.view hview .high i hi

/-- A cycle whose provider keeps to the window it is asked for. -/
def CalendarCycle.KeepsWindow (cfg : ContentSettings) (c : CalendarCycle) : Prop :=
  ∀ e ∈ c.reported cfg, e.timestampUtc < c.now

/-- **Where providers keep to the window, an event to come is not handed over.** -/
theorem upcoming_not_handed {cfg : ContentSettings} {cycles : List CalendarCycle} {symbol : Symbol}
    {now : Time} {e : NormalizedEconomicEvent}
    (hkeeps : ∀ c ∈ cycles, c.now ≤ now ∧ c.KeepsWindow cfg) (hupcoming : now ≤ e.timestampUtc) :
    ¬ ReportedInTime cfg cycles symbol now e := by
  rintro ⟨first, hfirst, hstamp, -⟩
  obtain ⟨c, hc, hreported⟩ := List.mem_flatMap.mp (List.mem_of_find?_eq_some hfirst)
  obtain ⟨hclock, hwindow⟩ := hkeeps c (List.mem_filter.mp hc).1
  have hpast : e.timestampUtc < c.now := hstamp ▸ hwindow first hreported
  exact absurd hupcoming (not_le.mpr (lt_of_lt_of_le hpast hclock))

/-- **When the window of an event is open.**  After any cycles, a near event of high importance
counts for a bar at `now` exactly when it was reported in time; and where providers keep to
the window they are asked for, that is never so before the event. -/
theorem event_window_iff (cfg : ContentSettings) (cycles : List CalendarCycle) {symbol : Symbol}
    {now : Time} {e : NormalizedEconomicEvent} (himportance : e.importance = .high)
    (hnear : DueWithin symbol now e) :
    (Counts (Runs.run (fun t c => CalendarCycle.step cfg t c) .empty cycles) symbol now e ↔
      ReportedInTime cfg cycles symbol now e) ∧
    ((∀ c ∈ cycles, c.now ≤ now ∧ c.KeepsWindow cfg) → now ≤ e.timestampUtc →
      ¬ ReportedInTime cfg cycles symbol now e) := by
  refine ⟨?_, upcoming_not_handed⟩
  rw [← handed_iff cfg cycles hnear]
  exact ⟨Counts.handed, counts_of_handed himportance⟩

omit [PyText]

/-- A rate decision of the ECB half an hour after one o'clock. -/
def rateDecision : NormalizedEconomicEvent where
  provider := "finnhub"
  title := "ECB rate decision"
  timestampUtc := seconds 5400
  importance := .high
  currency := "EUR"
  externalId := some "18"

/-- A cycle at one o'clock does not see it, though the provider lists it. -/
theorem window_not_open : ¬ ∀ (_ : PyText) (cfg : ContentSettings) (cycles : List CalendarCycle)
    (c : CalendarCycle) (listing : List NormalizedEconomicEvent) (symbol : Symbol)
    (e : NormalizedEconomicEvent), c.raises = false →
    (c.fetch = fun since stop =>
      some (listing.filter fun e => decide (since ≤ e.timestampUtc ∧ e.timestampUtc < stop))) →
    e ∈ listing → e.importance = .high → DueWithin symbol c.now e →
      Counts (Runs.run (fun t c => CalendarCycle.step cfg t c) .empty (cycles ++ [c])) symbol c.now
        e := by
  intro h
  have hcounts := h PyText.plain calendarSettings [] (reporting (seconds 3600) rateDecision)
    [rateDecision] .eurusd rateDecision rfl rfl List.mem_cons_self rfl
    ⟨by decide +kernel, by decide +kernel⟩
  obtain ⟨⟨row, hrow, -⟩, -⟩ := hcounts
  have hempty : (eventRowsFor (Runs.run
      (fun t c => @CalendarCycle.step PyText.plain calendarSettings t c) .empty
      ([] ++ [reporting (seconds 3600) rateDecision])) .eurusd
      (reporting (seconds 3600) rateDecision).now).isEmpty = true := by decide +kernel
  rw [List.isEmpty_iff.mp hempty] at hrow
  exact absurd hrow (by simp)

/-- At two o'clock it does. -/
theorem window_open_after : @Counts PyText.plain
    (Runs.run (fun t c => @CalendarCycle.step PyText.plain calendarSettings t c) .empty
      [reporting (seconds 7200) rateDecision]) .eurusd (seconds 7200) rateDecision := by
  refine (@event_window_iff PyText.plain calendarSettings [reporting (seconds 7200) rateDecision]
    .eurusd (seconds 7200) rateDecision rfl ⟨by decide +kernel, by decide +kernel⟩).1.mpr ?_
  exact ⟨rateDecision, by decide +kernel, rfl, rfl, by decide +kernel⟩

end ForexAi
