/-
The event envelope of the bus.

A payload is decoded JSON.  What the consumers do with a value is to print it and to ask
whether it is empty, so a number with a fraction, a list or a nested object is carried as
what it prints and whether it counts as empty.

Every producer stamps its events in UTC, so a stamp prints with the offset `+00:00`.
-/
import ForexAi.Data.Timeframes

namespace ForexAi

/-- One value of a payload. -/
inductive PayloadValue where
  | null
  | bool (b : Bool)
  | int (n : ℤ)
  | text (s : String)
  | other (shown : String) (empty : Bool)
  deriving DecidableEq

namespace PayloadValue

/-- `str(value)`. -/
def str : PayloadValue → String
  | null => "None"
  | bool true => "True"
  | bool false => "False"
  | int n => toString n
  | text s => s
  | other shown _ => shown

/-- `bool(value)`. -/
def truthy : PayloadValue → Bool
  | null => false
  | bool b => b
  | int n => decide (n ≠ 0)
  | text s => decide (s ≠ "")
  | other _ empty => !empty

end PayloadValue

/-- A payload; keys are distinct, so the first entry of a key is its value. -/
abbrev Payload := List (String × PayloadValue)

/-- `payload.get(key)`; a key that is missing reads as `None`. -/
def Payload.get (p : Payload) (key : String) : PayloadValue := (p.lookup key).getD .null

/-- `Event`. -/
structure Event where
  eventType : String
  payload : Payload
  producer : String
  producedAt : Time
  correlationId : String := ""

/-! ### How a stamp prints -/

/-- The proleptic Gregorian date of a day counted from 1970-01-01: year, month, day. -/
def civil (day : ℤ) : ℤ × ℤ × ℤ :=
  -- Years start in March here, so the leap day is the last one.
  let shifted := day + 719468
  let era := shifted / 146097
  let dayOfEra := shifted % 146097
  let yearOfEra := (dayOfEra - dayOfEra / 1460 + dayOfEra / 36524 - dayOfEra / 146096) / 365
  let dayOfYear := dayOfEra - (365 * yearOfEra + yearOfEra / 4 - yearOfEra / 100)
  let month := (5 * dayOfYear + 2) / 153
  let calendarMonth := if month < 10 then month + 3 else month - 9
  (yearOfEra + era * 400 + (if calendarMonth ≤ 2 then 1 else 0), calendarMonth,
    dayOfYear - (153 * month + 2) / 5 + 1)

/-- A number in at least `width` digits. -/
def padded (width : ℕ) (n : ℤ) : String :=
  let digits := toString n
  String.ofList (List.replicate (width - digits.length) '0') ++ digits

/-- `datetime.isoformat()`; the microseconds only when there are any. -/
def isoformat (t : Time) : String :=
  let (year, month, day) := civil (t / 86400000000)
  let clock := t % 86400000000
  let second := clock / 1000000
  let micro := clock % 1000000
  padded 4 year ++ "-" ++ padded 2 month ++ "-" ++ padded 2 day ++ "T" ++
    padded 2 (second / 3600) ++ ":" ++ padded 2 (second / 60 % 60) ++ ":" ++
    padded 2 (second % 60) ++ (if micro = 0 then "" else "." ++ padded 6 micro) ++ "+00:00"

example : isoformat 951782400000001 = "2000-02-29T00:00:00.000001+00:00" := by decide +kernel

end ForexAi
