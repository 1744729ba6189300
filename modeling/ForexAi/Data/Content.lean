/-
The economic calendar: providers, keys, and the stored events.

Each cycle asks the provider for the events of the look-back window, falls back to the
synthetic generator when the provider fails, and saves what it got.  An event is stored
under a key made of its identifying fields, with an insert that does nothing on a conflict.
-/
import ForexAi.Data.Timeframes
import ForexAi.Lib.Keyed
import ForexAi.Lib.Runs
import Mathlib.Order.WithBot

namespace ForexAi

/-- What `float` reads: a number or an infinity.  A NaN compares with nothing, as a text that is
no number. -/
abbrev PyFloat := WithBot (WithTop ℚ)

/-- What the content pipeline asks of Python's library: the case and the blanks of a text, the
number it spells, how a stamp prints in the host's zone, and a digest. -/
class PyText where
  lower : String → String
  upper : String → String
  strip : String → String
  split : String → List String
  float : String → Option PyFloat
  isoformat : Time → String
  sha256 : String → String

/-- Enough of it for plain texts without blanks, and for whole numbers; the digest is the text. -/
@[reducible] def PyText.plain : PyText where
  lower := String.toLower
  upper := String.toUpper
  strip := id
  split := fun text => [text]
  float := fun text => text.toInt?.map fun n => ((((n : ℚ) : WithTop ℚ)) : PyFloat)
  isoformat := toString
  sha256 := id

/-- `IMPORTANCE_LEVELS`. -/
inductive Importance where
  | low | medium | high
  deriving DecidableEq, Repr

/-- One normalized economic-calendar event. -/
structure NormalizedEconomicEvent where
  provider : String
  title : String
  timestampUtc : Time
  importance : Importance
  currency : String := ""
  symbols : List String := []
  actual : Option String := none
  forecast : Option String := none
  previous : Option String := none
  surpriseScore : Option ℚ := none
  externalId : Option String := none
  deriving DecidableEq

/-- A row of `economic_events`. -/
structure EconomicEventRow extends NormalizedEconomicEvent where
  dedupKey : String

/-! ### Keys -/

section Keys

variable [PyText]

/-- `_hash_canonical`. -/
def hashCanonical (parts : List String) : String := PyText.sha256 (String.intercalate "|" parts)

/-- `calendar_dedup_key`: by the provider's identifier where there is one, else by the fields
that identify the event. -/
def calendarDedupKey (e : NormalizedEconomicEvent) : String :=
  match e.externalId.filter fun id => decide (id ≠ "") with
  | some id => hashCanonical ["ext", PyText.lower e.provider, id]
  | none =>
      hashCanonical ["fields", PyText.lower e.provider, PyText.lower (PyText.strip e.title),
        PyText.isoformat e.timestampUtc, PyText.upper e.currency]

/-- `_event_values`. -/
def eventValues (e : NormalizedEconomicEvent) : EconomicEventRow where
  toNormalizedEconomicEvent := e
  dedupKey := calendarDedupKey e

/-- The provider, the identifier, and the fields that identify an event are those of another. -/
structure NormalizedEconomicEvent.SameEvent (e e' : NormalizedEconomicEvent) : Prop where
  provider : e.provider = e'.provider
  externalId : e.externalId = e'.externalId
  title : e.title = e'.title
  timestampUtc : e.timestampUtc = e'.timestampUtc
  currency : e.currency = e'.currency

end Keys

/-! ### The table -/

/-- `economic_events`, under its unique key. -/
@[ext] structure EventTable where
  rows : List EconomicEventRow
  uq_dedup : (rows.map (·.dedupKey)).Nodup

namespace EventTable

def empty : EventTable := ⟨[], List.nodup_nil⟩

/-- The row under a key. -/
def find (t : EventTable) (key : String) : Option EconomicEventRow :=
  Keyed.find (·.dedupKey) t.rows key

/-- `ON CONFLICT (dedup_key) DO NOTHING`. -/
def insert (t : EventTable) (row : EconomicEventRow) : EventTable where
  rows := Keyed.insertNew (·.dedupKey) t.rows row
  uq_dedup := Keyed.nodup_insertNew t.uq_dedup row

end EventTable

/-! ### The cycles -/

/-- The settings of the calendar, and the synthetic generator. -/
structure ContentSettings where
  calendarLookbackHours : ℕ := 48
  synthetic : Time → Time → List NormalizedEconomicEvent

/-- One cycle: the clock, what the provider answers for a window (`none` where it fails), and
whether the cycle raises before it commits. -/
structure CalendarCycle where
  now : Time
  fetch : Time → Time → Option (List NormalizedEconomicEvent)
  raises : Bool := false

/-- What the cycle saves: the provider's events of the window, or the synthetic ones. -/
def CalendarCycle.reported (cfg : ContentSettings) (c : CalendarCycle) :
    List NormalizedEconomicEvent :=
  let since := c.now - seconds (cfg.calendarLookbackHours * 3600)
  (c.fetch since c.now).getD (cfg.synthetic since c.now)

variable [PyText]

/-- `save_events`: how many rows are new, and the table. -/
def saveEvents (t : EventTable) (events : List NormalizedEconomicEvent) : ℕ × EventTable :=
  events.foldl
    (fun run e =>
      (if (run.2.find (calendarDedupKey e)).isSome then run.1 else run.1 + 1,
        run.2.insert (eventValues e)))
    (0, t)

/-- `_safe_calendar`, on the committed table. -/
def CalendarCycle.step (cfg : ContentSettings) (t : EventTable) (c : CalendarCycle) : EventTable :=
  if c.raises then t else (saveEvents t (c.reported cfg)).2

/-- The rows that are left. -/
theorem rows_saveEvents (t : EventTable) (events : List NormalizedEconomicEvent) :
    (saveEvents t events).2.rows
      = Keyed.insertAll (·.dedupKey) t.rows (events.map eventValues) := by
  have hfrom (run : ℕ × EventTable) : (events.foldl
      (fun run e =>
        (if (run.2.find (calendarDedupKey e)).isSome then run.1 else run.1 + 1,
          run.2.insert (eventValues e))) run).2.rows
        = Keyed.insertAll (·.dedupKey) run.2.rows (events.map eventValues) := by
    induction events generalizing run with
    | nil => rfl
    | cons e rest ih =>
        rw [List.foldl_cons, ih]
        rfl
  exact hfrom (0, t)

end ForexAi
