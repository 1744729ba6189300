/-
The agent worker's poll: a batch of stream entries in, one bar of each series analysed.

The entries are walked through stream by stream, and of each symbol and timeframe the entry
with the latest stamp is kept; what it replaces and what it outruns is acknowledged as it
falls.  Then the kept ones are analysed, and acknowledged whether that fails or not.

Decoding is JSON and is handed in, as are the outcomes of `process_bar`: the `n`-th call
writes a number of signals or raises.  Stamps are compared as the texts they are.  The calls
of the bus succeed; the acknowledgements are listed in the order they are sent.
-/
import ForexAi.Bus.Events
import Mathlib.Data.String.Basic

namespace ForexAi

/-- `bars_closed_topic`. -/
def barsClosedTopic (timeframe : String) : String := "bars.closed." ++ timeframe

/-- What `Event.from_json` gives: the type, and the payload where that is an object. -/
structure Envelope where
  eventType : String
  payload : Option Payload

/-- An entry of a response: its stream, its identifier and its `data` field. -/
structure StreamEntry where
  stream : String
  id : String
  data : String

/-- What `_unwrap` makes of an entry. -/
inductive Unwrapped where
  | bar (fields : List (String × String))
  | unparseable
  | raised

/-- An entry kept for its key. -/
structure SelectedBar where
  key : String × String
  entryId : String
  stream : String
  fields : List (String × String)

/-- The state of the first loop of `poll_once`. -/
structure BarSelection where
  acks : List (String × String) := []
  skippedStale : ℕ := 0
  selected : List SelectedBar := []

/-- An entry is acknowledged and counted as stale. -/
def BarSelection.pass (st : BarSelection) (stream id : String) : BarSelection :=
  { st with acks := st.acks ++ [(stream, id)], skippedStale := st.skippedStale + 1 }

/-- `AgentBatchResult`, with the acknowledgements and the calls of `process_bar` in order. -/
structure AgentBatch where
  processed : ℕ := 0
  errors : ℕ := 0
  skippedStale : ℕ := 0
  signalsWritten : ℕ := 0
  acks : List (String × String) := []
  calls : List SelectedBar := []

namespace AgentPoll

variable (fromJson : String → Option Envelope)

/-- `_unwrap`. -/
def unwrap (data : String) : Unwrapped :=
  if data = "" then .unparseable
  else
    match fromJson data with
    | none => .unparseable
    | some event =>
        if event.eventType ≠ "bar.closed" then .unparseable
        else
          match event.payload with
          -- What is no object has no `items`.
          | none => .raised
          | some payload =>
              if payload = [] then .unparseable else .bar (payload.map fun e => (e.1, e.2.str))

/-- `(payload.get("symbol", ""), payload.get("timeframe", ""))`. -/
def keyOf (fields : List (String × String)) : String × String :=
  ((fields.lookup "symbol").getD "", (fields.lookup "timeframe").getD "")

/-- `str(payload.get("ts"))`. -/
def stampOf (fields : List (String × String)) : String := (fields.lookup "ts").getD "None"

/-- `selected.get(key)`. -/
def held (selected : List SelectedBar) (key : String × String) : Option SelectedBar :=
  selected.find? fun s => decide (s.key = key)

/-- `selected[key] = …`, where the key is there. -/
def replace (selected : List SelectedBar) (new : SelectedBar) : List SelectedBar :=
  selected.map fun s => if s.key = new.key then new else s

/-- One entry of the first loop. -/
def select (st : BarSelection) (e : StreamEntry) : Option BarSelection :=
  match unwrap fromJson e.data with
  | .raised => none
  | .unparseable => some (st.pass e.stream e.id)
  | .bar fields =>
      let new : SelectedBar := ⟨keyOf fields, e.id, e.stream, fields⟩
      match held st.selected new.key with
      | none => some { st with selected := st.selected ++ [new] }
      | some previous =>
          if stampOf previous.fields ≤ stampOf fields then
            -- The entry that falls is acknowledged on the stream at hand.
            some { st.pass e.stream previous.entryId with selected := replace st.selected new }
          else some (st.pass e.stream e.id)

/-- One bar of the second loop, the `n`-th. -/
def analyse (outcome : ℕ → Option ℕ) (batch : AgentBatch) (next : SelectedBar × ℕ) : AgentBatch :=
  let batch := { batch with
    acks := batch.acks ++ [(next.1.stream, next.1.entryId)]
    calls := batch.calls ++ [next.1] }
  match outcome next.2 with
  | some written =>
      { batch with
        processed := batch.processed + 1, signalsWritten := batch.signalsWritten + written }
  | none => { batch with errors := batch.errors + 1 }

/-- The entries of a response, in the order they are walked through. -/
def entriesOf (response : List (String × List (String × String))) : List StreamEntry :=
  response.flatMap fun s => s.2.map fun e => ⟨s.1, e.1, e.2⟩

/-- `poll_once` on a response; `none` where it raises. -/
def pollOnce (outcome : ℕ → Option ℕ) (response : List (String × List (String × String))) :
    Option AgentBatch :=
  match (entriesOf response).foldlM (select fromJson) {} with
  | none => none
  | some st =>
      some (st.selected.zipIdx.foldl (analyse outcome)
        { skippedStale := st.skippedStale, acks := st.acks })

/-! ### What is read -/

/-- What `_publish_new_bars` puts into an event: the series, the start of the bar, and the
prices, the volume and the source. -/
structure BarEnvelope where
  symbol : String
  timeframe : String
  bucketStart : Time
  rest : Payload

namespace BarEnvelope

def key (bar : BarEnvelope) : String × String := (bar.symbol, bar.timeframe)

def payload (bar : BarEnvelope) : Payload :=
  ("symbol", .text bar.symbol) :: ("timeframe", .text bar.timeframe) ::
    ("ts", .text (isoformat bar.bucketStart)) :: bar.rest

/-- The payload as `_unwrap` hands it on. -/
def fields (bar : BarEnvelope) : List (String × String) := bar.payload.map fun e => (e.1, e.2.str)

@[simp] theorem keyOf_fields (bar : BarEnvelope) : keyOf bar.fields = bar.key := rfl

@[simp] theorem stampOf_fields (bar : BarEnvelope) :
    stampOf bar.fields = isoformat bar.bucketStart := rfl

end BarEnvelope

/-- The entry cannot be decoded into a bar. -/
def Undecodable (e : StreamEntry) : Prop := ∀ fields, unwrap fromJson e.data ≠ .bar fields

/-- The entry says that a bar closed, and its payload is no JSON object. -/
def Bare (e : StreamEntry) : Prop :=
  e.data ≠ "" ∧ fromJson e.data = some ⟨"bar.closed", none⟩

end AgentPoll

end ForexAi
