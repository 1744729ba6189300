/-
One connection of the live feed, and the streams it tails.

The loop of the socket asks where each newly subscribed stream ends, reads what lies past its
cursors, sends a frame for each event, and waits for the client.  Between any two of its calls
other processes add to the streams, and any call of the bus may fail.

What Python's library does is handed in: lower case, JSON, the digest of the identifiers and
how a list of texts prints.  The topics of a connection are a set; they are listed without
repetition, and nothing depends on their order.  Sending succeeds, until the client leaves.
-/
import ForexAi.Lib.Runs
import ForexAi.Lib.Streams
import ForexAi.Realtime.Frames
import Mathlib.Data.List.Sort

namespace ForexAi

/-- The fields of a stream entry. -/
abbrev EntryFields := List (String × String)

/-- What an entry decodes to.  An event gets no frame where its payload is no object, or its
type or producer no text: `_event_frame` raises. -/
inductive Decoded where
  | event (e : Event)
  | unframeable
  | poison

/-- What `json.loads` makes of a control frame, as far as it is looked at: the type if it is a
text, and the topics if they are a list, a topic that is no text as `none`. -/
inductive ControlJson where
  | object (type : Option String) (topics : Option (List (Option String)))
  | other

/-- The library the socket runs on. -/
structure FeedLibrary where
  lower : String → String
  repr : List String → String
  loads : String → Option ControlJson
  fromJson : String → Decoded
  sha256 : String → String

/-- The topics that may be subscribed, `TOPIC_STREAMS`; each has a stream of its own. -/
inductive FeedTopic where
  | alerts | signals | decisions
  deriving DecidableEq, Repr

/-- The name of a topic. -/
def FeedTopic.name : FeedTopic → String
  | alerts => "alerts"
  | signals => "signals"
  | decisions => "decisions"

/-- The topic of a name in `ALLOWED_TOPICS`. -/
def FeedTopic.ofName (name : String) : Option FeedTopic :=
  [alerts, signals, decisions].find? fun t => decide (t.name = name)

/-- `origin_allowed`; `none` where the handshake has no `Origin`. -/
def originAllowed (origin : Option String) (allowed : List String) : Bool :=
  match origin with
  | none => true
  | some o => decide (o = "" ∨ o ∈ allowed)

/-- `role_rank`. -/
def roleRank (role : String) : ℤ :=
  (List.lookup role [("viewer", 0), ("trader", 1), ("admin", 2)]).getD (-1)

/-- `check_topic_access`; every topic of `_TOPIC_MIN_ROLE` asks for a viewer. -/
def checkTopicAccess (role : String) (_topic : FeedTopic) : Bool :=
  decide (roleRank "viewer" ≤ roleRank role)

/-- What the server sends. -/
inductive ServerFrame where
  | event (frame : EventFrame)
  | error (reason : String)
  | subscribed (topics : List String)

/-- What `websocket.receive` ends with. -/
inductive ClientMessage where
  | timeout
  | text (text : String)
  | bytes
  | disconnect

/-- Where the loop is: between two waits, at a wait, or left. -/
inductive FeedPhase where
  | polling | waiting | closed
  deriving DecidableEq, Repr

/-- The streams, and one connection. -/
structure FeedState where
  streams : FeedTopic → LogStream EntryFields
  role : String
  topics : List FeedTopic := []
  since : FeedTopic → Option ℕ := fun _ => none
  phase : FeedPhase := .waiting
  sent : List ServerFrame := []

/-- What happens next: another process adds to a stream, trimming some of its oldest entries;
a call of the bus returns or fails; or the wait for the client ends. -/
inductive FeedEvent where
  | xadd (topic : FeedTopic) (trimmed : ℕ) (fields : EntryFields)
  | xrevrange (topic : FeedTopic) (ok : Bool)
  | xread (ok : Bool)
  | receive (message : ClientMessage)

/-! ### The bus -/

/-- `current_stream_id`; `"0-0"` is `0`. -/
def currentStreamId (stream : LogStream EntryFields) (ok : Bool) : ℕ :=
  if ok then stream.newest.getD 0 else 0

section

variable (lib : FeedLibrary)

/-- One entry of `decode_stream_entries`. -/
def decodeEntry (fields : EntryFields) : Decoded :=
  let raw := (fields.lookup "data").getD ""
  if raw = "" then .poison else lib.fromJson raw

/-- `decode_stream_entries`. -/
def decodeStreamEntries (entries : List (ℕ × EntryFields)) : List (ℕ × Decoded) :=
  entries.map fun e => (e.1, decodeEntry lib e.2)

/-- What `XREAD COUNT 50` answers: the streams that have new entries, with these. -/
def feedResponse (streams : FeedTopic → LogStream EntryFields) (since : FeedTopic → Option ℕ)
    (topics : List FeedTopic) : List (FeedTopic × List (ℕ × EntryFields)) :=
  (topics.map fun t => (t, (streams t).readPast ((since t).getD 0) 50)).filter
    fun answer => answer.2 ≠ []

/-- One stream of the answer, in the loop of `read_once`: its entries are decoded, and the
cursor goes to the last of them. -/
def takeAnswer
    (result : List (FeedTopic × List (ℕ × Decoded)) × (FeedTopic → Option ℕ))
    (answer : FeedTopic × List (ℕ × EntryFields)) :
    List (FeedTopic × List (ℕ × Decoded)) × (FeedTopic → Option ℕ) :=
  let decoded := decodeStreamEntries lib answer.2
  (result.1 ++ [(answer.1, decoded)],
    match decoded.getLast? with
    | some last => Function.update result.2 answer.1 (some last.1)
    | none => result.2)

/-- `read_once`. -/
def readOnce (streams : FeedTopic → LogStream EntryFields) (since : FeedTopic → Option ℕ)
    (topics : List FeedTopic) (ok : Bool) :
    List (FeedTopic × List (ℕ × Decoded)) × (FeedTopic → Option ℕ) :=
  if topics = [] then ([], since)
  else if ok then (feedResponse streams since topics).foldl (takeAnswer lib) ([], since)
  else ([], since)

/-! ### The client -/

/-- `parse_subscribe`: the topics asked for, or what is wrong. -/
def parseSubscribe (text : String) : Except String (List String) :=
  if text = "" ∨ text.utf8ByteSize > 4096 then .error "control frame too large"
  else
    match lib.loads text with
    | none => .error "malformed JSON"
    | some .other => .error "control frame must be an object"
    | some (.object type topics) =>
        if type ≠ some "subscribe" then .error "unsupported control type"
        else
          match topics.bind fun ts => ts.mapM id with
          | some topics => .ok topics
          | none => .error "topics must be a list of strings"

/-- `topics.add`. -/
def addTopic (topics : List FeedTopic) (t : FeedTopic) : List FeedTopic :=
  if t ∈ topics then topics else topics ++ [t]

/-- One name of a control frame: the topic is added, or the name refused. -/
def requestTopic (role : String) (result : List FeedTopic × List String) (name : String) :
    List FeedTopic × List String :=
  match (FeedTopic.ofName name).filter (checkTopicAccess role) with
  | some t => (addTopic result.1 t, result.2)
  | none => (result.1, result.2 ++ [name])

/-- `_handle_control`: the topics after it, and the error if there is one. -/
def handleControl (text role : String) (topics : List FeedTopic) :
    List FeedTopic × Option String :=
  match parseSubscribe lib text with
  | .error reason => (topics, some reason)
  | .ok asked =>
      let requested := asked.map lib.lower
      let (topics, refused) := requested.foldl (requestTopic role) (topics, [])
      if refused ≠ [] then
        (topics, some ("topics not permitted: " ++ lib.repr (refused.insertionSort (· ≤ ·))))
      else if requested = [] then (topics, some "subscribe requires at least one topic")
      else (topics, none)

/-! ### The loop -/

/-- The frames of a batch; `false` where one cannot be built, which ends the connection. -/
def sendEntries : List (FeedTopic × Decoded) → List EventFrame × Bool
  | [] => ([], true)
  | (_, .poison) :: rest => sendEntries rest
  | (_, .unframeable) :: _ => ([], false)
  | (t, .event e) :: rest =>
      let (frames, alive) := sendEntries rest
      (eventFrame lib.sha256 t.name e :: frames, alive)

/-- What follows the wait. -/
def FeedState.receive (s : FeedState) : ClientMessage → FeedState
  | .disconnect => { s with phase := .closed }
  | .timeout | .bytes => s
  | .text text =>
      if text = "" then s
      else
        let (topics, error) := handleControl lib text s.role s.topics
        let answer := match error with
          | some reason => .error reason
          | none => .subscribed ((topics.map FeedTopic.name).insertionSort (· ≤ ·))
        { s with topics, sent := s.sent ++ [answer] }

/-- The loop goes on to the bus, if there is a topic, and waits again if there is none. -/
def FeedState.again (s : FeedState) : FeedState :=
  if s.phase = .waiting ∧ s.topics ≠ [] then { s with phase := .polling } else s

/-- The connection asks for the end of a stream: it is subscribed, and has no cursor yet. -/
def FeedState.Asks (s : FeedState) (t : FeedTopic) : Prop :=
  s.phase = .polling ∧ t ∈ s.topics ∧ s.since t = none

/-- The connection reads: every topic has its cursor. -/
def FeedState.Reads (s : FeedState) : Prop :=
  s.phase = .polling ∧ ∀ t ∈ s.topics, s.since t ≠ none

instance (s : FeedState) (t : FeedTopic) : Decidable (s.Asks t) :=
  inferInstanceAs (Decidable (_ ∧ _))

instance (s : FeedState) : Decidable s.Reads := inferInstanceAs (Decidable (_ ∧ _))

/-- One step of `ws_stream` and its surroundings; a call that is not made returns nothing. -/
def FeedState.step (s : FeedState) : FeedEvent → FeedState
  | .xadd t trimmed fields =>
      { s with streams := Function.update s.streams t ((s.streams t).add trimmed fields) }
  | .xrevrange t ok =>
      if s.Asks t then
        { s with since := Function.update s.since t (some (currentStreamId (s.streams t) ok)) }
      else s
  | .xread ok =>
      if s.Reads then
        let (entriesByTopic, since) := readOnce lib s.streams s.since s.topics ok
        let (frames, alive) := sendEntries lib
          (entriesByTopic.flatMap fun answer => answer.2.map fun e => (answer.1, e.2))
        { s with
          since
          sent := s.sent ++ frames.map ServerFrame.event
          phase := if alive then .waiting else .closed }
      else s
  | .receive message =>
      if s.phase = .waiting then (s.receive lib message).again else s

end

/-- A connection that was just accepted. -/
def FeedState.accepted (streams : FeedTopic → LogStream EntryFields) (role : String) : FeedState :=
  { streams, role }

/-- The frames of events of a topic that were sent. -/
def FeedState.forwarded (s : FeedState) (t : FeedTopic) : List EventFrame :=
  s.sent.filterMap fun
    | .event frame => if frame.topic = t.name then some frame else none
    | _ => none

end ForexAi
