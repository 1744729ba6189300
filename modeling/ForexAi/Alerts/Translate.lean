/-
From a bus event to an alert row.

`digest_event_id` is what the table's unique key is made of: the event's own
`event_id` where its payload has one, else a hash of five of its fields.  The hash is
SHA-256 in hexadecimal; it is handed in as `sha256`, a function of the text.
-/
import Mathlib.Data.List.Infix
import ForexAi.Bus.Events

namespace ForexAi

/-- The first `n` characters: `value[:n]`. -/
def clip (value : String) (n : ℕ) : String := String.ofList (value.toList.take n)

theorem length_clip (value : String) (n : ℕ) : (clip value n).length ≤ n := by
  unfold clip
  rw [String.length_ofList]
  exact List.length_take_le n _

/-- `_truncate`. -/
def truncate (value : String) (length : ℕ) : String :=
  if value.length ≤ length then value else clip value (length - 1) ++ "…"

theorem length_truncate (value : String) {length : ℕ} (h : 0 < length) :
    (truncate value length).length ≤ length := by
  unfold truncate
  by_cases hshort : value.length ≤ length
  · rw [if_pos hshort]
    exact hshort
  · rw [if_neg hshort, String.length_append]
    have hclip := length_clip value (length - 1)
    have hdots : "…".length = 1 := by decide
    omega

/-- `_TITLE_MAX`. -/
def titleMax : ℕ := 255

/-- `_s`. -/
def Payload.field (p : Payload) (key : String) : String :=
  match p.get key with
  | .null => ""
  | value => value.str

/-- `a or b` on strings. -/
def orElse (a b : String) : String := if a = "" then b else a

/-- `a or b` on payload values. -/
def PayloadValue.orElse (a b : PayloadValue) : PayloadValue := if a.truthy then a else b

/-! ### Severity -/

/-- `lower()`, as far as it can yield an ASCII letter: the Kelvin sign and the dotted capital I
are the two other characters whose lower case has one. -/
def lower (s : String) : List Char :=
  s.toList.flatMap fun c =>
    if c = Char.ofNat 0x212A then ['k']
    else if c = Char.ofNat 0x130 then ['i', Char.ofNat 0x307]
    else [c.toLower]

/-- `severity_for`. -/
def severityFor (eventType : String) : String :=
  let has (word : String) : Bool := decide (word.toList <:+: lower eventType)
  if has "critical" then "critical"
  else if has "breach" || has "staleness" || has "veto" || has "blocked" || has "budget"
      || has "brake" then "warning"
  else "info"

/-! ### Alerts -/

/-- `AlertIn`, which is also the row of `alert_events` it becomes. -/
structure AlertIn where
  eventId : String
  eventType : String
  source : String
  severity : String
  title : String
  message : Option String
  symbol : Option String
  timeframe : Option String
  producer : String
  correlationId : Option String
  occurredAt : Time
  payload : Payload

/-- What the columns take: their lengths, and the check on the severity. -/
def AlertIn.Storable (a : AlertIn) : Prop :=
  a.eventId.length ≤ 64 ∧ a.eventType.length ≤ 64 ∧ a.source.length ≤ 32 ∧
  a.severity ∈ ["info", "warning", "critical"] ∧ a.title.length ≤ 255 ∧
  (∀ s ∈ a.symbol, s.length ≤ 12) ∧ (∀ s ∈ a.timeframe, s.length ≤ 8) ∧
  a.producer.length ≤ 64 ∧ (∀ s ∈ a.correlationId, s.length ≤ 64)

instance (a : AlertIn) : Decidable a.Storable := by
  unfold AlertIn.Storable
  infer_instance

section

variable (sha256 : String → String)

/-- The text `digest_event_id` hashes. -/
def Event.material (e : Event) : String :=
  "|".intercalate
    [e.eventType, e.producer, isoformat e.producedAt, e.payload.field "symbol",
      e.payload.field "timeframe"]

/-- `digest_event_id`. -/
def digestEventId (e : Event) : String :=
  let provided := e.payload.field "event_id"
  if provided ≠ "" then truncate provided 64 else clip (sha256 e.material) 32

/-- `_TITLES[event_type].format(…)`, `"Alert: {subject}"` for the other types. -/
def titleFor (eventType symbol timeframe subject : String) : String :=
  match eventType with
  | "alert.staleness" => "Stale market data: " ++ symbol ++ " " ++ timeframe
  | "alert.risk_brake" => "Risk brake tripped: " ++ subject
  | "alert.llm_budget" => "LLM daily budget guard: " ++ subject
  | "alert.orchestrator" => "Orchestrator/system alert: " ++ subject
  | "alert.system" => "System alert: " ++ subject
  | _ => "Alert: " ++ subject

/-- `value or None`, printed and cut. -/
def shownOrNone (value : PayloadValue) (length : ℕ) : Option String :=
  if value.truthy then some (clip value.str length) else none

/-- `translate`. -/
def translate (e : Event) (defaultSource : String) : AlertIn :=
  let payload := e.payload
  let symbol := (payload.get "symbol").orElse (payload.get "pair")
  let timeframe := payload.get "timeframe"
  let lastPart := (e.eventType.splitOn ".").getLastD ""
  let subject := orElse (payload.field "subject") (orElse (payload.field "reason") lastPart)
  let message := payload.field "message"
  { eventId := digestEventId sha256 e
    eventType := e.eventType
    source := orElse (payload.field "source") (orElse e.producer defaultSource)
    severity := orElse (payload.field "severity") (severityFor e.eventType)
    title := truncate
      (titleFor e.eventType (if symbol.truthy then symbol.str else "n/a")
        (if timeframe.truthy then timeframe.str else "n/a") subject) titleMax
    message := if message = "" then none else some message
    symbol := shownOrNone symbol 12
    timeframe := shownOrNone timeframe 8
    producer := e.producer
    correlationId := if e.correlationId = "" then none else some e.correlationId
    occurredAt := e.producedAt
    payload := payload }

@[simp] theorem translate_eventId (e : Event) (defaultSource : String) :
    (translate sha256 e defaultSource).eventId = digestEventId sha256 e := rfl

/-- An identifier always fits its column. -/
theorem length_digestEventId (e : Event) : (digestEventId sha256 e).length ≤ 64 := by
  unfold digestEventId
  by_cases h : e.payload.field "event_id" ≠ ""
  · rw [if_pos h]
    exact length_truncate _ (by decide)
  · rw [if_neg h]
    exact (length_clip _ 32).trans (by decide)

end

end ForexAi
