/-
Whether a released figure is stored.

An event keeps its key from its first report to its last, and the first row of a key stays
(`Keyed.find_insertAll`).  So the stored row is the first report that was committed
(`find_run`), with the figure that report had.  The figure of a later report is stored only
if it is the same one, and a report without a figure, once committed, is never completed.
-/
import ForexAi.Agents.Fundamental

namespace ForexAi

/-! ### The first report -/

/-- The first committed report of a key. -/
def firstReport [PyText] (cfg : ContentSettings) (cycles : List CalendarCycle) (key : String) :
    Option NormalizedEconomicEvent :=
  ((cycles.filter fun c => !c.raises).flatMap (·.reported cfg)).find?
    fun e => decide (calendarDedupKey e = key)

namespace EventTable

variable [PyText]

/-- The stored row carries the figure of the report, and the agent's surprise on it is of that
figure. -/
def Released (t : EventTable) (e : NormalizedEconomicEvent) : Prop :=
  ∃ row ∈ t.rows, row.dedupKey = calendarDedupKey e ∧ row.actual = e.actual ∧
    row.view.surprise = surpriseDirection (parseNumber e.actual) (parseNumber row.forecast)

/-- It is the row's figure that decides. -/
theorem released_iff_find (t : EventTable) (e : NormalizedEconomicEvent) :
    t.Released e ↔ (t.find (calendarDedupKey e)).map (·.actual) = some e.actual := by
  constructor
  · intro ⟨row, hrow, hkey, hactual, _⟩
    have hfind : t.find row.dedupKey = some row := Keyed.find_of_mem t.uq_dedup hrow
    rw [← hkey, hfind, Option.map_some, hactual]
  · intro h
    obtain ⟨row, hrow, hactual⟩ := Option.map_eq_some_iff.mp h
    obtain ⟨hmem, hkey⟩ := Keyed.mem_of_find hrow
    refine ⟨row, hmem, hkey, hactual, ?_⟩
    show surpriseDirection (parseNumber row.actual) (parseNumber row.forecast) = _
    rw [hactual]

end EventTable

variable [PyText]

/-- A cycle keeps what a key finds, or adds its first report of the key. -/
theorem find_step (cfg : ContentSettings) (t : EventTable) (c : CalendarCycle) (key : String) :
    (c.step cfg t).find key
      = (t.find key).or ((firstReport cfg [c] key).map eventValues) := by
  unfold CalendarCycle.step firstReport
  by_cases hraises : c.raises = true
  · rw [if_pos hraises]
    simp [hraises]
  · rw [if_neg hraises]
    have hreports : ([c].filter fun c => !c.raises).flatMap (·.reported cfg) = c.reported cfg := by
      simp [hraises]
    unfold EventTable.find
    rw [hreports, rows_saveEvents, Keyed.find_insertAll]
    refine congrArg _ ?_
    unfold Keyed.find
    rw [List.find?_map]
    rfl

/-- **The stored row of a key is its first committed report.** -/
theorem find_run (cfg : ContentSettings) (cycles : List CalendarCycle) (key : String) :
    (Runs.run (fun t c => CalendarCycle.step cfg t c) .empty cycles).find key
      = (firstReport cfg cycles key).map eventValues := by
  have hfrom (t : EventTable) : (Runs.run (fun t c => CalendarCycle.step cfg t c) t cycles).find key
      = (t.find key).or ((firstReport cfg cycles key).map eventValues) := by
    induction cycles generalizing t with
    | nil => simp [firstReport]
    | cons c rest ih =>
        have hcons : firstReport cfg (c :: rest) key
            = (firstReport cfg [c] key).or (firstReport cfg rest key) := by
          unfold firstReport
          rw [← List.find?_append, ← List.flatMap_append, ← List.filter_append]
          rfl
        rw [Runs.run_cons, ih, find_step, hcons, Option.map_or, Option.or_assoc]
  rw [hfrom]
  exact Option.none_or

/-- **A repeated cycle changes nothing**: the same reports, at whatever time, add no row. -/
theorem step_again (cfg : ContentSettings) (t : EventTable) {c c' : CalendarCycle}
    (hcommitted : c.raises = false) (hsame : c'.reported cfg = c.reported cfg) :
    c'.step cfg (c.step cfg t) = c.step cfg t := by
  unfold CalendarCycle.step
  by_cases hraises : c'.raises = true
  · rw [if_pos hraises]
  · rw [if_neg hraises, hcommitted, if_neg (by simp), hsame]
    refine EventTable.ext ?_
    rw [rows_saveEvents, rows_saveEvents]
    exact Keyed.insertAll_again _ _

/-- **When a released figure reaches the agents.**  After a committed cycle that reports an event,
the stored row carries its figure, and repeating the cycle changes nothing, if and only if
the first committed report of the event has that figure. -/
theorem released_iff (cfg : ContentSettings) (cycles : List CalendarCycle) (c : CalendarCycle)
    (e : NormalizedEconomicEvent) (hcommitted : c.raises = false) :
    let t := Runs.run (fun t c => CalendarCycle.step cfg t c) .empty (cycles ++ [c])
    (t.Released e ∧ ∀ c' : CalendarCycle, c'.reported cfg = c.reported cfg → c'.step cfg t = t) ↔
      ((firstReport cfg (cycles ++ [c]) (calendarDedupKey e)).map (·.actual)) = some e.actual := by
  intro t
  have hfigure : t.Released e ↔
      ((firstReport cfg (cycles ++ [c]) (calendarDedupKey e)).map (·.actual)) = some e.actual := by
    rw [EventTable.released_iff_find, find_run, Option.map_map]
    exact Iff.rfl
  have hrepeat : ∀ c' : CalendarCycle, c'.reported cfg = c.reported cfg → c'.step cfg t = t := by
    intro c' hsame
    have ht : t = c.step cfg (Runs.run (fun t c => CalendarCycle.step cfg t c) .empty cycles) :=
      Runs.run_append _ _ _ _
    rw [ht]
    exact step_again cfg _ hcommitted hsame
  rw [← hfigure]
  exact ⟨fun h => h.1, fun h => ⟨h, hrepeat⟩⟩

omit [PyText]

/-- An event before its release. -/
def scheduledCpi : NormalizedEconomicEvent where
  provider := "finnhub"
  title := "EUR CPI"
  timestampUtc := seconds 3600
  importance := .high
  currency := "EUR"
  forecast := some "2"
  externalId := some "17"

/-- The same event after it. -/
def releasedCpi : NormalizedEconomicEvent := { scheduledCpi with actual := some "3" }

/-- A cycle at `now` that reports one event. -/
def reporting (now : Time) (e : NormalizedEconomicEvent) : CalendarCycle where
  now := now
  fetch := fun since stop =>
    some ([e].filter fun e => decide (since ≤ e.timestampUtc ∧ e.timestampUtc < stop))

/-- The default settings; nothing is synthesized. -/
def calendarSettings : ContentSettings where
  synthetic := fun _ _ => []

/-- A figure that is known at the first report is stored. -/
theorem released_at_once : @EventTable.Released PyText.plain
    (Runs.run (fun t c => @CalendarCycle.step PyText.plain calendarSettings t c) .empty
      ([] ++ [reporting (seconds 7200) releasedCpi])) releasedCpi := by
  refine ((@released_iff PyText.plain calendarSettings [] (reporting (seconds 7200) releasedCpi)
    releasedCpi rfl).mpr ?_).1
  decide +kernel

/-- A figure that is released between two cycles is lost. -/
theorem figure_lost : ¬ ∀ (_ : PyText) (cfg : ContentSettings) (cycles : List CalendarCycle)
    (c₀ c : CalendarCycle) (e₀ e : NormalizedEconomicEvent),
    c₀.raises = false → e₀ ∈ c₀.reported cfg → e₀.actual = none →
      c.raises = false → e ∈ c.reported cfg → e.actual ≠ none → e.SameEvent e₀ →
        (Runs.run (fun t c => CalendarCycle.step cfg t c) .empty
          (cycles ++ [c₀, c])).Released e := by
  intro h
  obtain ⟨row, hrow, -, hactual, -⟩ := h PyText.plain calendarSettings []
    (reporting (seconds 7200) scheduledCpi) (reporting (seconds 10800) releasedCpi) scheduledCpi
    releasedCpi rfl (by decide +kernel) rfl rfl (by decide +kernel) (by decide)
    ⟨rfl, rfl, rfl, rfl, rfl⟩
  have hstored : ((Runs.run
      (fun t c => @CalendarCycle.step PyText.plain calendarSettings t c) .empty
      ([] ++ [reporting (seconds 7200) scheduledCpi,
        reporting (seconds 10800) releasedCpi])).rows.all
        fun row => decide (row.actual = none)) = true := by decide +kernel
  have hnone := of_decide_eq_true (List.all_eq_true.mp hstored row hrow)
  rw [hactual] at hnone
  exact absurd hnone (by decide)

end ForexAi
