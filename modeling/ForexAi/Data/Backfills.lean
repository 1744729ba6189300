/-
Backfills on request.

An admin's request is checked and pushed as JSON onto the left end of a Redis list; once in a
cycle the ingest worker pops up to five jobs off the right end, decodes them and hands each to
`run_backfill`.  A job is gone once it is popped: what raises on the way to `run_backfill`
drops it, and a worker that dies drops all it had popped.  So a drain comes with how many pops
it got to, and with which of its jobs got to `run_backfill`.

The list is kept with its right end first.  Stamps are in UTC.
-/
import ForexAi.Bus.Stamps
import ForexAi.Decisions.Hashing
import ForexAi.Lib.Runs

namespace ForexAi

open Json (Value Distinct)

/-- `_MAX_BACKFILL_DAYS`. -/
def maxBackfillDays : ℤ := 90

/-- The most jobs one drain pops. -/
def drainLimit : ℕ := 5

/-- `BackfillRequest`; a `datetime` can be printed. -/
structure BackfillRequest where
  symbols : Option (List String)
  timeframes : Option (List String)
  start : Time
  end_ : Time
  start_ok : Representable start
  end_ok : Representable end_

/-- A job as it is queued. -/
structure BackfillJob where
  symbols : List String
  timeframes : List String
  start : Time
  end_ : Time
  start_ok : Representable start
  end_ok : Representable end_
  forward : start < end_

/-- What `run_backfill` is called with, its instruments by their symbols. -/
structure BackfillRun where
  symbols : List String
  timeframes : List String
  start : Time
  end_ : Time

namespace BackfillRequest

/-- `body or effective`: a list that is missing or empty is the configured one. -/
def orEffective (given : Option (List String)) (effective : List String) : List String :=
  match given with
  | none => effective
  | some [] => effective
  | some values => values

/-- `trigger_backfill` up to the push; none where the request is refused. -/
def accept (body : BackfillRequest) (effective : List String × List String) :
    Option BackfillJob :=
  if 64 < (body.symbols.getD []).length ∨ 8 < (body.timeframes.getD []).length then none
  else if h : body.end_ ≤ body.start then none
  else if maxBackfillDays < (body.end_ - body.start) / 86400000000 then none
  else
    some
      { symbols := orEffective body.symbols effective.1
        timeframes := orEffective body.timeframes effective.2
        start := body.start
        end_ := body.end_
        start_ok := body.start_ok
        end_ok := body.end_ok
        forward := not_le.mp h }

end BackfillRequest

namespace BackfillJob

variable {N : Type} (fmt : Json.NumberFormat N)

/-- `job` of `trigger_backfill`. -/
def fields (job : BackfillJob) : List (String × Value N) :=
  [("symbols", .arr (job.symbols.map .str)), ("timeframes", .arr (job.timeframes.map .str)),
    ("start", .str (isoformat job.start)), ("end", .str (isoformat job.end_))]

def value (job : BackfillJob) : Value N := .obj job.fields

/-- `json.dumps(job)`. -/
def text (job : BackfillJob) : String := Json.dumps fmt true job.value

/-- The symbol of the instrument that a symbol of a job stands for: `get_or_create_instrument`, on
the symbol in upper case. -/
def instrumentSymbol [PyText] (symbol : String) : String :=
  PyText.upper (PyText.strip (PyText.upper symbol))

/-- The job as the worker runs it. -/
def asked [PyText] (job : BackfillJob) : BackfillRun where
  symbols := job.symbols.map instrumentSymbol
  timeframes := job.timeframes
  start := job.start
  end_ := job.end_

end BackfillJob

/-! ### The worker -/

section

variable {N : Type}

/-- A list of texts; nobody writes anything else. -/
def Value.texts : Value N → Option (List String)
  | .arr items => items.mapM fun item =>
      match item with
      | .str s => some s
      | _ => none
  | _ => none

/-- `datetime.fromisoformat(job[key])`. -/
def Value.stamp (fields : List (String × Value N)) (key : String) : Option Time :=
  match fields.lookup key with
  | some (.str s) => fromisoformat s
  | _ => none

/-- `drain_backfills` on one job, up to and into `run_backfill`; none where it raises. -/
def BackfillRun.read [PyText] : Value N → Option BackfillRun
  | .obj fields => do
      let symbols ← Value.texts ((fields.lookup "symbols").getD (.arr []))
      let timeframes ← Value.texts ((fields.lookup "timeframes").getD (.arr []))
      let start ← Value.stamp fields "start"
      let end_ ← Value.stamp fields "end"
      if end_ ≤ start then none
      else some { symbols := symbols.map BackfillJob.instrumentSymbol, timeframes, start, end_ }
  | _ => none

variable (fmt : Json.NumberFormat N)

/-- `drain_backfill_queue`: the jobs decoded, and what is left; a text that is no JSON is
dropped and not counted. -/
def drainQueue : ℕ → List String → List (Value N) × List String
  | 0, queue => ([], queue)
  | _ + 1, [] => ([], [])
  | n + 1, raw :: rest =>
      match Json.loads fmt raw with
      | none => drainQueue (n + 1) rest
      | some job =>
          let (jobs, left) := drainQueue n rest
          (job :: jobs, left)

/-- The queue, and what `run_backfill` has been called with. -/
structure BackfillWorld where
  queue : List String := []
  runs : List BackfillRun := []

/-- What happens to the queue. -/
inductive BackfillEvent where
  | request (effective : List String × List String) (body : BackfillRequest)
  /-- A drain that gets to `pops` jobs and hands on those that are `reached`. -/
  | drain (pops : ℕ) (reached : ℕ → Bool)

namespace BackfillEvent

/-- A drain nothing disturbs. -/
def whole : BackfillEvent := .drain drainLimit fun _ => true

/-- The job a request queues. -/
def accepted : BackfillEvent → Option BackfillJob
  | .request effective body => body.accept effective
  | .drain _ _ => none

/-- Whether something disturbs a drain. -/
def disturbed : BackfillEvent → Bool
  | .request _ _ => false
  | .drain pops reached =>
      decide (pops < drainLimit) || (List.range drainLimit).any fun i => !reached i

end BackfillEvent

/-- One event. -/
def BackfillWorld.step [PyText] (w : BackfillWorld) : BackfillEvent → BackfillWorld
  | .request effective body =>
      match body.accept effective with
      | none => w
      | some job => { w with queue := w.queue ++ [job.text fmt] }
  | .drain pops reached =>
      let (jobs, queue) := drainQueue fmt (min pops drainLimit) w.queue
      let handed := (jobs.zipIdx.filter fun job => reached job.2).map Prod.fst
      { queue, runs := w.runs ++ handed.filterMap BackfillRun.read }

end

end ForexAi
