/-
What the items of a live page are read from.

A live item is read from the frame of an event, a loaded one from a row of the REST API.  Both
carry the bucket as a text that goes into the key as it is.  The agents and the orchestrator
print it with `isoformat`; a response model leaves it to the serialiser (`jsonTime`).  `rest`
is the object an item was read from, for the fields that are only shown.
-/
import ForexAi.Alerts.Orchestrator
import ForexAi.Decisions.Repository
import ForexAi.Frontend.LiveLists
import ForexAi.Realtime.Frames

namespace ForexAi

/-- `agent_id`. -/
def AgentId.name : AgentId → String
  | .technical => "technical"
  | .regime => "regime"
  | .fundamental => "fundamental"
  | .sentiment => "sentiment"

def DecisionStatus.value : DecisionStatus → String
  | .analysis => "ANALYSIS"
  | .paper => "PAPER"
  | .blocked => "BLOCKED"

namespace LivePage

/-! ### What the backend sends -/

/-- A signal with the columns that no rule reads.  A `float` is carried as it prints. -/
structure SignalRecord where
  signal : ForexAi.AgentSignal
  version : String
  rationale : String
  runId : String
  confidence : PayloadValue
  features : PayloadValue

/-- The event of a signal: `AgentWorker.process_bar`. -/
def signalEmitted (now : Time) (r : SignalRecord) : Event where
  eventType := "signal.emitted"
  payload :=
    [("agent_id", .text r.signal.agentId.name), ("version", .text r.version),
      ("symbol", .text r.signal.symbol.code), ("timeframe", .text r.signal.timeframe.code),
      ("direction", .text r.signal.direction.value), ("confidence", r.confidence),
      ("bucket_ts", .text (isoformat r.signal.bucketTs)),
      ("valid_until", .text (isoformat r.signal.validUntil)), ("rationale", .text r.rationale)]
  producer := "agents"
  producedAt := now
  correlationId := r.runId

/-- `SignalOut`, as `_to_out` fills it in and the response is serialised. -/
def signalOut (jsonTime : Time → String) (r : SignalRecord) : Payload :=
  [("agent_id", .text r.signal.agentId.name), ("version", .text r.version),
    ("symbol", .text r.signal.symbol.code), ("timeframe", .text r.signal.timeframe.code),
    ("direction", .text r.signal.direction.value), ("confidence", r.confidence),
    ("bucket_ts", .text (jsonTime r.signal.bucketTs)), ("rationale", .text r.rationale),
    ("features", r.features), ("created_at", .text (jsonTime r.signal.createdAt)),
    ("valid_until", .text (jsonTime r.signal.validUntil)), ("run_id", .text r.runId)]

/-- The numbers of a decision as they print, and its hash. -/
structure DecisionFigures where
  confidence : PayloadValue
  agreement : PayloadValue
  coverage : PayloadValue
  inputsHash : String

/-- `_emit_decision`. -/
def decisionEmitted (now : Time) (r : DecideResult) (figures : DecisionFigures) : Event where
  eventType := "decision.emitted"
  payload :=
    [("symbol", .text r.symbol.code), ("timeframe", .text r.timeframe.code),
      ("bucket_ts", .text (isoformat r.bucketTs)),
      ("direction", .text ((r.direction.map Direction.value).getD "FLAT")),
      ("status", .text ((r.status.map DecisionStatus.value).getD "ANALYSIS")),
      ("confidence", figures.confidence), ("agreement", figures.agreement),
      ("coverage", figures.coverage), ("veto_code", .text (r.vetoCode.getD "")),
      ("inputs_hash", .text figures.inputsHash)]
  producer := "orchestrator"
  producedAt := now

/-- The columns of a decision that no rule reads, as they print. -/
structure DecisionColumns where
  id : PayloadValue
  runId : String
  vetoReason : PayloadValue
  weights : PayloadValue
  codeVersions : PayloadValue
  rationale : PayloadValue

/-- `DecisionOut`, as `_decision_out` fills it in and the response is serialised. -/
def decisionOut (jsonTime : Time → String) (row : DecisionRow) (figures : DecisionFigures)
    (columns : DecisionColumns) : Payload :=
  [("id", columns.id), ("run_id", .text columns.runId), ("symbol", .text row.symbol.code),
    ("timeframe", .text row.timeframe.code), ("bucket_ts", .text (jsonTime row.bucketTs)),
    ("fused_direction", .text row.fusedDirection.value), ("confidence", figures.confidence),
    ("agreement", figures.agreement), ("status", .text row.status.value),
    ("veto_code", (row.veto.map fun v => PayloadValue.text v.1).getD .null),
    ("veto_reason", columns.vetoReason), ("inputs_hash", .text figures.inputsHash),
    ("weights", columns.weights), ("code_versions", columns.codeVersions),
    ("rationale", columns.rationale), ("decision_at", .text (jsonTime row.decisionAt)),
    ("valid_until", .text (jsonTime row.validUntil))]

/-! ### How the browser reads it -/

/-- `str`. -/
def str : PayloadValue → Option String
  | .text s => if s = "" then none else some s
  | _ => none

/-- `String(value ?? "")`. -/
def shown : PayloadValue → String
  | .null => ""
  | .bool true => "true"
  | .bool false => "false"
  | .int n => toString n
  | .text s => s
  | .other s _ => s

/-- `a ?? b`. -/
def coalesce : PayloadValue → PayloadValue → PayloadValue
  | .null, b => b
  | a, _ => a

def toAgentSignal (raw : Payload) : AgentSignal Payload where
  agentId :=
    (str (coalesce (coalesce (raw.get "agent_id") (raw.get "agent")) (.text "unknown"))).getD
      "unknown"
  symbol := shown (raw.get "symbol")
  timeframe := shown (raw.get "timeframe")
  bucketTs := (str (raw.get "bucket_ts")).getD ""
  rest := raw

def toDecision (raw : Payload) : DecisionItem Payload where
  symbol := shown (raw.get "symbol")
  timeframe := shown (raw.get "timeframe")
  bucketTs := (str (raw.get "bucket_ts")).getD ""
  rest := raw

/-- `now` is what `new Date().toISOString()` gives. -/
def normalizeSignalEvent (now : String) (payload : Payload) : Option (AgentSignal Payload) :=
  if str (payload.get "agent_id") = none ∧ str (payload.get "agent") = none then none
  else
    let producedAt := (str (payload.get "produced_at")).getD now
    let bucket := (str (payload.get "bucket_ts")).getD producedAt
    some (toAgentSignal (payload.put "bucket_ts" (.text bucket)))

def normalizeDecisionEvent (now : String) (payload : Payload) : Option (DecisionItem Payload) :=
  if str (payload.get "symbol") = none ∨ str (payload.get "bucket_ts") = none then none
  else
    let producedAt := (str (payload.get "produced_at")).getD now
    let bucket := (str (payload.get "bucket_ts")).getD producedAt
    some (toDecision (payload.put "bucket_ts" (.text bucket)))

/-- What a page is served: live items are read from the frames of signals and decisions, loaded
ones from rows of the API. -/
def SignalsEvent.Served (sha256 : String → String) (jsonTime : Time → String) :
    SignalsEvent Payload Payload → Prop
  | .onSignal signal =>
      ∃ now at' r, normalizeSignalEvent now
        (eventFrame sha256 "signals" (signalEmitted at' r)).data = some signal
  | .onDecision decision =>
      ∃ now at' r figures, normalizeDecisionEvent now
        (eventFrame sha256 "decisions" (decisionEmitted at' r figures)).data = some decision
  | .loaded sigHist decHist =>
      (∀ s ∈ sigHist, ∃ r, s = toAgentSignal (signalOut jsonTime r)) ∧
        ∀ d ∈ decHist, ∃ row figures columns,
          d = toDecision (decisionOut jsonTime row figures columns)
  | .selectSymbol _ => True
  | .selectTimeframe _ => True

end LivePage

end ForexAi
