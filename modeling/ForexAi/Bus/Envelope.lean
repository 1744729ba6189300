/-
The event envelope over the wire.

A producer writes an event with `to_json`, and every consumer (the agent worker, the
orchestrator, the alert worker, the websocket hub) reads it with `from_json`.  The payload is
a dictionary, so its keys are distinct, and the stamp is one a `datetime` can hold; a
`BusEvent` carries both facts, and that is all the round trip needs (`fromJson_toJson`).

What is read are six fields by their names, so further fields and the order of all of them
make no difference.
-/
import ForexAi.Bus.Stamps
import ForexAi.Lib.Json
import ForexAi.Workers.AgentPoll

namespace ForexAi

open Json (Value Distinct DistinctFields)

/-- The numbers of a payload: how they are written, and `int(x)` for them and for texts. -/
structure WireNumbers (N : Type) extends Json.NumberFormat N where
  ofInt : ℤ → N
  toInt : N → Option ℤ
  toInt_ofInt (n : ℤ) : toInt (ofInt n) = some n
  intOfText : String → Option ℤ

/-- `Event`, with its whole payload. -/
structure BusEvent (N : Type) where
  eventType : String
  payload : List (String × Value N)
  producer : String
  producedAt : Time
  schemaVersion : ℤ
  correlationId : String
  distinct : Distinct (.obj payload)
  representable : Representable producedAt

/-- What `from_json` builds; what it does not look at keeps any type. -/
structure ReceivedEvent (N : Type) where
  eventType : Value N
  payload : Value N
  producer : Value N
  producedAt : Time
  schemaVersion : ℤ
  correlationId : Value N

section

variable {N : Type} (fmt : WireNumbers N)

/-- `int(value)`; `none` where it raises. -/
def WireNumbers.int : Value N → Option ℤ
  | .num n => fmt.toInt n
  | .bool b => some (if b then 1 else 0)
  | .str s => fmt.intOfText s
  | _ => none

namespace BusEvent

/-- `asdict(self)`, with the stamp printed. -/
def fields (e : BusEvent N) : List (String × Value N) :=
  [("event_type", .str e.eventType), ("payload", .obj e.payload), ("producer", .str e.producer),
    ("produced_at", .str (isoformat e.producedAt)),
    ("schema_version", .num (fmt.ofInt e.schemaVersion)),
    ("correlation_id", .str e.correlationId)]

/-- `Event.to_json`. -/
def toJson (e : BusEvent N) : String := Json.dumps fmt.toNumberFormat false (.obj (e.fields fmt))

/-- An event as a consumer should have it. -/
def received (e : BusEvent N) : ReceivedEvent N where
  eventType := .str e.eventType
  payload := .obj e.payload
  producer := .str e.producer
  producedAt := e.producedAt
  schemaVersion := e.schemaVersion
  correlationId := .str e.correlationId

end BusEvent

/-- `Event.from_json` on the decoded text. -/
def ReceivedEvent.ofFields (data : List (String × Value N)) : Option (ReceivedEvent N) :=
  match data.lookup "event_type", data.lookup "payload", data.lookup "producer",
      data.lookup "produced_at", fmt.int ((data.lookup "schema_version").getD (.num (fmt.ofInt 1))) with
  | some eventType, some payload, some producer, some (.str stamp), some schemaVersion =>
      (fromisoformat stamp).map fun producedAt =>
        { eventType, payload, producer, producedAt, schemaVersion
          correlationId := (data.lookup "correlation_id").getD (.str "") }
  | _, _, _, _, _ => none

/-- `Event.from_json`; `none` where it raises. -/
def ReceivedEvent.fromJson (raw : String) : Option (ReceivedEvent N) :=
  match Json.loads fmt.toNumberFormat raw with
  | some (.obj data) => ReceivedEvent.ofFields fmt data
  | _ => none

/-! ### The fields of an event -/

theorem lookup_of_mem {V : Type} {fs : List (String × V)} (h : (fs.map Prod.fst).Nodup)
    {key : String} {v : V} (hmem : (key, v) ∈ fs) : fs.lookup key = some v := by
  induction fs with
  | nil => exact absurd hmem (by simp)
  | cons f rest ih =>
      rw [List.map_cons, List.nodup_cons] at h
      rcases List.mem_cons.mp hmem with rfl | hrest
      · exact List.lookup_cons_self
      · have hne : ¬ key = f.1 := by
          intro heq
          exact h.1 (heq ▸ List.mem_map_of_mem hrest)
        rw [List.lookup_cons, show (key == f.1) = false from by simpa using hne]
        exact ih h.2 hrest

theorem BusEvent.distinct_fields (e : BusEvent N) : Distinct (.obj (e.fields fmt)) := by
  refine ⟨by simp [BusEvent.fields], ?_⟩
  exact ⟨trivial, e.distinct, trivial, trivial, trivial, trivial, trivial⟩

/-- The six fields, wherever they stand among others. -/
theorem ReceivedEvent.ofFields_of_mem (e : BusEvent N) {data : List (String × Value N)}
    (hkeys : (data.map Prod.fst).Nodup) (h : ∀ f ∈ e.fields fmt, f ∈ data) :
    ReceivedEvent.ofFields fmt data = some e.received := by
  have hfield : ∀ key v, (key, v) ∈ e.fields fmt → data.lookup key = some v := by
    intro key v hmem
    exact lookup_of_mem hkeys (h (key, v) hmem)
  have hversion : fmt.int (.num (fmt.ofInt e.schemaVersion)) = some e.schemaVersion :=
    fmt.toInt_ofInt e.schemaVersion
  unfold ReceivedEvent.ofFields
  rw [hfield "event_type" (.str e.eventType) (by simp [BusEvent.fields]),
    hfield "payload" (.obj e.payload) (by simp [BusEvent.fields]),
    hfield "producer" (.str e.producer) (by simp [BusEvent.fields]),
    hfield "produced_at" (.str (isoformat e.producedAt)) (by simp [BusEvent.fields]),
    hfield "schema_version" (.num (fmt.ofInt e.schemaVersion)) (by simp [BusEvent.fields]),
    hfield "correlation_id" (.str e.correlationId) (by simp [BusEvent.fields]),
    Option.getD_some, hversion]
  simp only
  rw [fromisoformat_isoformat e.representable]
  rfl

theorem ReceivedEvent.fromJson_dumps {data : List (String × Value N)} (h : Distinct (.obj data)) :
    ReceivedEvent.fromJson fmt (Json.dumps fmt.toNumberFormat false (.obj data)) =
      ReceivedEvent.ofFields fmt data := by
  unfold ReceivedEvent.fromJson
  rw [Json.loads_dump _ _ h]

/-- **Every event is read as it was written**, and also where a later producer writes more
fields or writes them in another order. -/
theorem fromJson_toJson (e : BusEvent N) :
    ReceivedEvent.fromJson fmt (e.toJson fmt) = some e.received ∧
      ∀ data, Distinct (.obj data) → (∀ f ∈ e.fields fmt, f ∈ data) →
        ReceivedEvent.fromJson fmt (Json.dumps fmt.toNumberFormat false (.obj data)) =
          some e.received := by
  have hread : ∀ data, Distinct (.obj data) → (∀ f ∈ e.fields fmt, f ∈ data) →
      ReceivedEvent.fromJson fmt (Json.dumps fmt.toNumberFormat false (.obj data)) =
        some e.received := by
    intro data hdata h
    rw [ReceivedEvent.fromJson_dumps fmt hdata]
    exact ReceivedEvent.ofFields_of_mem fmt e hdata.1 h
  exact ⟨hread _ (e.distinct_fields fmt) fun _ h => h, hread⟩

/-- Payloads whose numbers are whole. -/
def wholeNumbers : WireNumbers ℤ where
  toNumberFormat := Json.ints
  ofInt n := n
  toInt n := some n
  toInt_ofInt _ := rfl
  intOfText s := Json.readInt s.toList

/-- An event about the first bar there is. -/
def firstBar : BusEvent ℤ where
  eventType := "bar.closed"
  payload := [("symbol", .str "EURUSD"), ("volume", .num (-3))]
  producer := "ingest"
  producedAt := 0
  schemaVersion := 1
  correlationId := ""
  distinct := ⟨by simp, trivial, trivial, trivial⟩
  representable := by decide

theorem fromJson_toJson_reordered :
    ReceivedEvent.fromJson wholeNumbers (Json.dumps Json.ints false
      (.obj (("trace", .null) :: (firstBar.fields wholeNumbers).reverse))) =
      some firstBar.received := by
  refine (fromJson_toJson wholeNumbers firstBar).2 _ ⟨by simp [BusEvent.fields], ?_⟩ ?_
  · exact ⟨trivial, trivial, trivial, trivial, trivial, firstBar.distinct, trivial, trivial⟩
  · intro f hf
    exact List.mem_cons_of_mem _ (List.mem_reverse.mpr hf)

/-! ### What the agent worker takes from it -/

/-- An event as `_unwrap` looks at it, where `shown` prints the values of a payload. -/
def ReceivedEvent.envelope (shown : Value N → PayloadValue) (e : ReceivedEvent N) : Envelope where
  eventType :=
    match e.eventType with
    | .str s => s
    -- What is no text is no type that a consumer compares with.
    | _ => ""
  payload :=
    match e.payload with
    | .obj fields => some (fields.map fun f => (f.1, shown f.2))
    | _ => none

/-- The agent worker's decoder. -/
def decode (shown : Value N → PayloadValue) (raw : String) : Option Envelope :=
  (ReceivedEvent.fromJson fmt raw).map (ReceivedEvent.envelope shown)

/-- **The bar that a producer wrote is the bar the agent worker takes.** -/
theorem unwrap_toJson (shown : Value N → PayloadValue) {e : BusEvent N}
    (htype : e.eventType = "bar.closed") (hpayload : e.payload ≠ []) :
    AgentPoll.unwrap (decode fmt shown) (e.toJson fmt) =
      .bar (e.payload.map fun f => (f.1, (shown f.2).str)) := by
  have hdecode : decode fmt shown (e.toJson fmt) =
      some (⟨e.eventType, some (e.payload.map fun f => (f.1, shown f.2))⟩ : Envelope) := by
    unfold decode
    rw [(fromJson_toJson fmt e).1]
    rfl
  have htext : e.toJson fmt ≠ "" := by
    intro hempty
    rw [hempty] at hdecode
    exact absurd hdecode (by simp [decode, ReceivedEvent.fromJson, Json.loads,
      Json.value, Json.skip])
  unfold AgentPoll.unwrap
  rw [if_neg htext, hdecode]
  simp only
  rw [if_neg (by rw [htype]; simp), if_neg (by simpa using hpayload), List.map_map]
  rfl

end

end ForexAi
