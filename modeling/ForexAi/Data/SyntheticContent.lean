/-
The synthetic economic calendar.

Time is cut into slots of six hours.  Whether a currency has an event of a kind in a slot,
and when in the slot it is, are read off hashes of the three, so the calendar is the same
whoever asks; a request walks the slots of its window, from the one it starts in.

The hash is BLAKE2b of eight bytes; it is handed in as `blake2b`, a number for a text, and
the fraction of it is taken as a rational.
-/
import ForexAi.Bus.Events
import ForexAi.Data.Content
import ForexAi.Lib.Rounding
import Mathlib.Data.Rat.Floor

namespace ForexAi

/-- An event with its `raw_payload`, whose kind is always `synthetic`. -/
structure SyntheticEvent extends NormalizedEconomicEvent where
  slotId : ℤ
  deriving DecidableEq

namespace SyntheticContent

/-- `_CURRENCY_PAIRS`. -/
def currencyPairs : List (String × List String) :=
  [("EUR", ["EURUSD"]),
    ("GBP", ["GBPUSD"]),
    ("USD", ["EURUSD", "GBPUSD", "USDJPY", "AUDUSD", "USDCAD", "USDCHF", "NZDUSD"]),
    ("JPY", ["USDJPY"]),
    ("AUD", ["AUDUSD"]),
    ("CAD", ["USDCAD"]),
    ("CHF", ["USDCHF"]),
    ("NZD", ["NZDUSD"])]

/-- `_CALENDAR_TEMPLATES`. -/
def calendarTemplates : List (String × Importance) :=
  [("CPI YoY", .high),
    ("Core CPI MoM", .medium),
    ("GDP QoQ", .high),
    ("Interest Rate Decision", .high),
    ("Unemployment Rate", .high),
    ("Non-Farm Employment Change", .high),
    ("PMI Composite", .medium),
    ("Retail Sales MoM", .medium),
    ("Trade Balance", .low),
    ("CB Policy Meeting Minutes", .medium)]

/-! ### Slots -/

/-- 2024-01-01, where slot 0 starts. -/
def calendarEpoch : Time := seconds 1704067200

/-- Six hours. -/
def slotLength : Time := seconds 21600

/-- Where a slot starts. -/
def slotStart (slot : ℤ) : Time := calendarEpoch + slot * slotLength

/-- The slot an instant falls in. -/
def slotOf (t : Time) : ℤ := (t - calendarEpoch) / slotLength

theorem slotLength_pos : 0 < slotLength := by decide

/-- A slot starts by an instant exactly when it is not after the instant's slot. -/
theorem slotStart_le_iff {slot : ℤ} {t : Time} : slotStart slot ≤ t ↔ slot ≤ slotOf t := by
  unfold slotStart slotOf
  rw [Int.le_ediv_iff_mul_le slotLength_pos]
  exact (le_sub_iff_add_le').symm

theorem slotStart_lt_iff {slot : ℤ} {t : Time} : slotStart slot < t ↔ slot ≤ slotOf (t - 1) := by
  rw [← slotStart_le_iff]
  exact Int.le_sub_one_iff.symm

theorem slotStart_succ (slot : ℤ) : slotStart (slot + 1) = slotStart slot + slotLength := by
  unfold slotStart
  rw [add_mul, one_mul, add_assoc]

/-- The slots of a window: from the one it starts in, twelve at most, while they start before
its end. -/
def windowSlots (since stop : Time) : List ℤ :=
  if stop ≤ since then []
  else
    ((List.range 12).map fun k : ℕ => slotOf since + k).takeWhile fun slot =>
      decide (slotStart slot < stop)

/-! ### The calendar -/

variable (blake2b : String → Fin (2 ^ 64))

/-- `_hash_uniform`. -/
def hashUniform (parts : List String) : ℚ :=
  (blake2b (String.intercalate "|" ("forex-ai-synthetic-content" :: parts))).val / 2 ^ 64

/-- What a slot, a currency and a template are hashed under. -/
def slotKey (currency : String) (templateIdx : ℕ) (slot : ℤ) : String :=
  currency ++ "|" ++ toString templateIdx ++ "|" ++ toString slot

/-- A number with two decimals and a percent sign; a small negative one keeps its sign. -/
def percent (value : ℚ) : String :=
  let hundredths := (Rounding.halfEven (value * 100)).natAbs
  (if value < 0 then "-" else "") ++ toString (hundredths / 100) ++ "." ++
    padded 2 (hundredths % 100 : ℕ) ++ "%"

/-- `_pct`. -/
def pct (kind currency : String) (templateIdx : ℕ) (slot : ℤ) (scale offset : ℚ) : String :=
  percent (hashUniform blake2b [kind ++ "|" ++ slotKey currency templateIdx slot] * scale - offset)

/-- Whether a slot has an event of a currency and a template. -/
def occupied (currency : String) (templateIdx : ℕ) (slot : ℤ) : Bool :=
  decide (hashUniform blake2b [slotKey currency templateIdx slot] ≤ 35 / 100)

/-- When it is: that fraction of six hours after the slot's start, to the microsecond. -/
def eventTime (currency : String) (templateIdx : ℕ) (slot : ℤ) : Time :=
  slotStart slot + Rounding.halfEven
    (hashUniform blake2b ["t|" ++ slotKey currency templateIdx slot] * (slotLength : ℚ))

/-- The event of a currency and a template in a slot. -/
def eventOf (currency : String) (symbols : List String) (templateIdx : ℕ) (slug : String)
    (importance : Importance) (slot : ℤ) : SyntheticEvent where
  provider := "synthetic"
  externalId := some
    ("synthetic-" ++ toString slot ++ "-" ++ currency ++ "-" ++ toString templateIdx)
  title := currency ++ " " ++ slug
  timestampUtc := eventTime blake2b currency templateIdx slot
  importance := importance
  currency := currency
  symbols := symbols
  actual :=
    if hashUniform blake2b [slotKey currency templateIdx slot] < 30 / 100 then none
    else some (pct blake2b "a" currency templateIdx slot 8 4)
  forecast := some (pct blake2b "f" currency templateIdx slot 6 3)
  previous := some (pct blake2b "p" currency templateIdx slot 6 3)
  surpriseScore := none
  slotId := slot

/-- The events of a slot. -/
def slotEvents (slot : ℤ) : List SyntheticEvent :=
  currencyPairs.flatMap fun pair =>
    (calendarTemplates.zipIdx.filter fun template => occupied blake2b pair.1 template.2 slot).map
      fun template => eventOf blake2b pair.1 pair.2 template.2 template.1.1 template.1.2 slot

/-- `synthetic_calendar_events`. -/
def syntheticCalendarEvents (since stop : Time) : List SyntheticEvent :=
  (windowSlots since stop).flatMap (slotEvents blake2b)

end SyntheticContent

end ForexAi
