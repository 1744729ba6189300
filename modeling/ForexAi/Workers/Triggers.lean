/-
What drives the calls of `process_pair`: the triggers, and the catch-up scan.

`poll_once` walks through a batch of `signal.emitted` entries and calls `process_pair` at the
first entry of each pair; the later ones of the batch are acknowledged unprocessed, as is
every entry that names no pair.  `scan_all` calls it for every configured pair, and stops at
the first call that raises.  A turn of `run_orchestrator` polls, then goes through a lifecycle
cycle if one is due, and every `SCAN_EVERY_CYCLES`-th turn scans: what the poll and the cycle
raise is swallowed, what the scan raises ends the loop.

What a call meets outside the tables comes with the turn: the `n`-th call of a poll or of a
scan meets the `n`-th of its surroundings, under the pair it is for.  Stamps, decoding and the
acknowledgements are as in the agent worker's poll.
-/
import ForexAi.Workers.AgentPoll
import ForexAi.Workers.ProcessPair
import Mathlib.Data.String.Basic

namespace ForexAi

/-- `SCAN_EVERY_CYCLES`. -/
def scanEveryCycles : ℕ := 120

/-- `OrchBatchResult`. -/
structure OrchBatchResult where
  processed : ℕ := 0
  replayed : ℕ := 0
  errors : ℕ := 0
  statusCount : DecisionStatus → ℕ := fun _ => 0

/-- `status_count[status] += 1`, for a status that is there. -/
def OrchBatchResult.count (result : OrchBatchResult) (status : Option DecisionStatus) :
    OrchBatchResult :=
  { result with
    statusCount := fun s => result.statusCount s + if status = some s then 1 else 0 }

/-- An upper-cased character is no small letter. -/
theorem toUpper_not_small (c : Char) :
    ¬ ('a'.val ≤ c.toUpper.val ∧ c.toUpper.val ≤ 'z'.val) := by
  intro h
  by_cases hc : 'a'.val ≤ c.val ∧ c.val ≤ 'z'.val
  · have hval : c.toUpper.val = c.val + ('A'.val - 'a'.val) := by
      unfold Char.toUpper
      rw [dif_pos hc]
    rw [hval] at h
    simp only [UInt32.le_iff_toNat_le, UInt32.toNat_add, show 'a'.val.toNat = 97 from rfl,
      show 'z'.val.toNat = 122 from rfl, show ('A'.val - 'a'.val).toNat = 4294967264 from rfl]
      at h hc
    omega
  · have hval : c.toUpper = c := by
      unfold Char.toUpper
      exact dif_neg hc
    rw [hval] at h
    exact hc h

theorem toUpper_toUpper (s : String) : s.toUpper.toUpper = s.toUpper := by
  have hchar : ∀ c : Char, c.toUpper.toUpper = c.toUpper := by
    intro c
    conv_lhs => unfold Char.toUpper
    exact dif_neg (toUpper_not_small c)
  apply String.toList_injective
  simp [String.toUpper, String.toList_map, hchar]

/-- `symbol.upper()`. -/
def Symbol.ofText (text : String) : Symbol := ⟨text.toUpper, toUpper_toUpper text⟩

/-- The timeframe a text names. -/
def Timeframe.ofCode (text : String) : Option Timeframe :=
  [Timeframe.M5, .M15, .H1, .H4, .D1].find? fun tf => decide (tf.code = text)

/-- The call for a pair, as far as its texts name one; a text that is no timeframe is not among
the configured ones. -/
def PairCall.ofTexts (surroundings : PairCall) (key : String × String) : Option PairCall :=
  (Timeframe.ofCode key.2.toUpper).map fun timeframe =>
    { surroundings with symbol := Symbol.ofText key.1, timeframe }

variable [Digest]

/-- `process_pair` on the texts of a trigger. -/
def PairCall.processTexts (surroundings : PairCall) (cfg : PairConfig) (key : String × String)
    (db : Database) : Option (Option DecideReport) × Database :=
  match surroundings.ofTexts key with
  | some call => call.processPair cfg db
  -- The settings are read before the pair is looked up in them.
  | none => ((surroundings.reach .settings).map fun _ => none, db)

/-! ### The poll -/

/-- The state of the loop of `poll_once`, with the calls of `process_pair` in order. -/
structure TriggerState extends OrchBatchResult where
  db : Database
  acks : List (String × String) := []
  seen : List (String × String) := []

/-- What a poll leaves: the tables, the entries it acknowledged and its result, none where it
raised. -/
structure PollOutcome where
  db : Database
  acked : List (String × String)
  calls : List (String × String)
  result : Option OrchBatchResult

namespace TriggerPoll

variable (fromJson : String → Option Envelope)

omit [Digest] in
/-- `_unwrap`: none where it raises, and else the payload or `None`. -/
def unwrap (data : String) : Option (Option (List (String × String))) :=
  if data = "" then some none
  else
    match fromJson data with
    | none => some none
    | some event =>
        if event.eventType ≠ "signal.emitted" then some none
        else
          -- What is no object has no `items`.
          event.payload.map fun payload =>
            if payload = [] then none else some (payload.map fun e => (e.1, e.2.str))

/-- The entry is acknowledged and counted as replayed. -/
def replay (st : TriggerState) (e : StreamEntry) : TriggerState :=
  { st with acks := st.acks ++ [(e.stream, e.id)], replayed := st.replayed + 1 }

/-- What the counters make of a call that returned. -/
def countOutcome (st : TriggerState) (outcome : DecideReport) : TriggerState :=
  let result := st.toOrchBatchResult.count outcome.status
  { st with
    toOrchBatchResult :=
      { result with
        replayed := result.replayed + if outcome.created then 0 else 1
        processed := result.processed + 1 } }

/-- The `try` of the loop, at an entry of a new pair. -/
def process (cfg : PairConfig) (met : ℕ → PairCall) (st : TriggerState) (e : StreamEntry)
    (key : String × String) : TriggerState :=
  let (outcome, db) := (met st.seen.length).processTexts cfg key st.db
  let st := { st with db, seen := st.seen ++ [key] }
  match outcome with
  | some none => replay st e
  | some (some outcome) =>
      { countOutcome st outcome with acks := st.acks ++ [(e.stream, e.id)] }
  | none => { st with errors := st.errors + 1, acks := st.acks ++ [(e.stream, e.id)] }

/-- One entry; none where `_unwrap` raises. -/
def handle (cfg : PairConfig) (met : ℕ → PairCall) (st : TriggerState) (e : StreamEntry) :
    Option TriggerState :=
  (unwrap fromJson e.data).map fun payload =>
    match payload with
    | none => replay st e
    | some payload =>
        let key := AgentPoll.keyOf payload
        if key.1 = "" ∨ key.2 = "" then replay st e
        else if key ∈ st.seen then replay st e
        else process cfg met st e key

/-- The loop of `poll_once`: where it got to, and whether it got through. -/
def handleAll (cfg : PairConfig) (met : ℕ → PairCall) :
    TriggerState → List StreamEntry → TriggerState × Bool
  | st, [] => (st, true)
  | st, e :: rest =>
      match handle fromJson cfg met st e with
      | none => (st, false)
      | some st => handleAll cfg met st rest

/-- `poll_once` on a response; the entries are acknowledged after the loop. -/
def pollOnce (cfg : PairConfig) (met : ℕ → PairCall) (db : Database)
    (response : List (String × List (String × String))) : PollOutcome :=
  match handleAll fromJson cfg met { db } (AgentPoll.entriesOf response) with
  | (st, true) => ⟨st.db, st.acks, st.seen, some st.toOrchBatchResult⟩
  | (st, false) => ⟨st.db, [], st.seen, none⟩

end TriggerPoll

/-! ### The scan -/

/-- What a scan leaves: the tables, and its result where no call raised. -/
structure ScanOutcome where
  db : Database
  calls : List PairCall
  result : Option OrchBatchResult

/-- The loop of `scan_all`, from its `n`-th call on. -/
def scanPairs (cfg : PairConfig) (met : ℕ → PairCall) :
    ℕ → OrchBatchResult → Database → List (Symbol × Timeframe) → ScanOutcome
  | _, result, db, [] => ⟨db, [], some result⟩
  | n, result, db, (symbol, timeframe) :: rest =>
      let call := { met n with symbol, timeframe }
      match call.processPair cfg db with
      | (none, db) => ⟨db, [call], none⟩
      | (some outcome, db) =>
          let result :=
            match outcome.filter fun r => decide (r.action = .persist) with
            | none => result
            | some r => { result.count r.status with processed := result.processed + 1 }
          let later := scanPairs cfg met (n + 1) result db rest
          { later with calls := call :: later.calls }

/-- `for symbol in …: for timeframe in …:`. -/
def pairsOf (configured : List Symbol × List Timeframe) : List (Symbol × Timeframe) :=
  configured.1.flatMap fun symbol => configured.2.map fun timeframe => (symbol, timeframe)

/-- `scan_all`; the configuration is none where reading it raises. -/
def scanAll (cfg : PairConfig) (met : ℕ → PairCall)
    (configured : Option (List Symbol × List Timeframe)) (db : Database) : ScanOutcome :=
  match configured with
  | none => ⟨db, [], none⟩
  | some configured => scanPairs cfg met 0 {} db (pairsOf configured)

/-! ### The loop -/

/-- What a turn of the loop meets. -/
structure OrchestratorTurn where
  /-- The heartbeat and the renewal of the lock went well. -/
  renewed : Bool
  /-- What `XREADGROUP` answers; none where it raises. -/
  response : Option (List (String × List (String × String)))
  polled : ℕ → PairCall
  /-- The lifecycle cycle, if its interval has elapsed. -/
  lifecycle : Option WorkerCycle
  configured : Option (List Symbol × List Timeframe)
  scanned : ℕ → PairCall

/-- The loop of `run_orchestrator`. -/
structure OrchestratorLoop where
  db : Database
  cycle : ℕ := 0
  running : Bool := true

namespace OrchestratorLoop

variable (fromJson : String → Option Envelope) (cfg : PairConfig)

/-- The poll of a turn. -/
def poll (t : OrchestratorTurn) (db : Database) : PollOutcome :=
  match t.response with
  | none => ⟨db, [], [], none⟩
  | some response => TriggerPoll.pollOnce fromJson cfg t.polled db response

/-- The tables before the scan of a turn. -/
def beforeScan (t : OrchestratorTurn) (db : Database) : Database :=
  let db := (poll fromJson cfg t db).db
  t.lifecycle.elim db fun cy => WorkerEvent.step cfg db (.cycle cy)

/-- One turn of the loop. -/
def turn (s : OrchestratorLoop) (t : OrchestratorTurn) : OrchestratorLoop :=
  if s.running = false then s
  else if t.renewed = false then { s with running := false }
  else
    let db := beforeScan fromJson cfg t s.db
    let cycle := s.cycle + 1
    if cycle % scanEveryCycles = 0 then
      let scan := scanAll cfg t.scanned t.configured db
      { db := scan.db, cycle, running := scan.result.isSome }
    else { db, cycle, running := true }

/-! ### The calls and cycles of a turn -/

omit [Digest] in
/-- The calls of a poll that named a pair. -/
def pollCalls (met : ℕ → PairCall) (keys : List (String × String)) : List PairCall :=
  keys.zipIdx.filterMap fun k => (met k.2).ofTexts k.1

/-- What the worker does in a turn. -/
def events (s : OrchestratorLoop) (t : OrchestratorTurn) : List WorkerEvent :=
  if s.running = false ∨ t.renewed = false then []
  else
    (pollCalls t.polled (poll fromJson cfg t s.db).calls).map .pair ++
      t.lifecycle.toList.map .cycle ++
      if (s.cycle + 1) % scanEveryCycles = 0 then
        (scanAll cfg t.scanned t.configured (beforeScan fromJson cfg t s.db)).calls.map .pair
      else []

/-- What the worker does in a run of the loop. -/
def runEvents : OrchestratorLoop → List OrchestratorTurn → List WorkerEvent
  | _, [] => []
  | s, t :: rest => s.events fromJson cfg t ++ runEvents (s.turn fromJson cfg t) rest

end OrchestratorLoop

end ForexAi
