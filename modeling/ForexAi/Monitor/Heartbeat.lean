/-
Worker heartbeats.

A worker refreshes a hash under its role at each turn of its loop: first the fields, then the
time to live, in two calls of the store.  The process may die between the two, and a worker
that stops in order deletes its hash.  The API reads the hash of every role and classifies it
by the age of the last stamp against the time to live that the worker declared.

The stamps are those of the store's clock, counted in microseconds from `start`.
-/
import ForexAi.Bus.Stamps
import ForexAi.Lib.Expiring
import ForexAi.Lib.Json

namespace ForexAi

/-- `DEFAULT_HEARTBEAT_TTL_SECONDS`. -/
def defaultHeartbeatTtlSeconds : ℤ := 60

/-- `worker_heartbeat_key`. -/
def workerHeartbeatKey (role : String) : String := "worker:heartbeat:" ++ role

/-- The fields of a heartbeat. -/
structure HeartbeatHash where
  lastSeen : String
  startedAt : String
  pid : String
  ttlSeconds : String

/-- `WorkerHeartbeat`: the arguments of one process. -/
structure WorkerHeartbeat where
  role : String
  ttlArgument : ℤ
  startedAt : Time
  pid : ℤ

/-- `heartbeat_status`'s answers. -/
inductive HealthStatus where
  | up | stale | down
  deriving DecidableEq, Repr

/-- `WorkerHealth`; the age is in microseconds. -/
structure WorkerHealth where
  role : String
  status : HealthStatus
  lastSeen : Option Time
  startedAt : Option Time
  age : Option ℤ
  ttlSeconds : ℤ

/-- The heartbeats of all roles. -/
abbrev HeartbeatStore := Expiring.Store String HeartbeatHash

/-- `heartbeat_ttl_for_loop`. -/
def heartbeatTtlForLoop (loopPeriodSeconds minTtlSeconds : ℤ) : ℤ :=
  max minTtlSeconds (max 1 loopPeriodSeconds * 3)

/-- `heartbeat_status`. -/
def heartbeatStatus (age : Option ℤ) (ttlSeconds : ℤ) : HealthStatus :=
  match age with
  | none => .down
  | some age => if ttlSeconds * 1000000 < age then .stale else .up

namespace WorkerHeartbeat

/-- `self._ttl`. -/
def ttl (w : WorkerHeartbeat) : ℕ := (max 1 w.ttlArgument).toNat

/-- What `touch` writes at a moment. -/
def hash (w : WorkerHeartbeat) (now : Time) : HeartbeatHash where
  lastSeen := isoformat now
  startedAt := isoformat w.startedAt
  pid := String.ofList (Json.writeInt w.pid)
  ttlSeconds := String.ofList (Json.writeInt w.ttl)

/-- The first call of `touch`. -/
def write (start : Time) (s : HeartbeatStore) (w : WorkerHeartbeat) : HeartbeatStore :=
  s.put (workerHeartbeatKey w.role) (w.hash (start + s.now))

/-- `touch`. -/
def touch (start : Time) (s : HeartbeatStore) (w : WorkerHeartbeat) : HeartbeatStore :=
  (w.write start s).expire (workerHeartbeatKey w.role) (w.ttl * 1000000)

end WorkerHeartbeat

/-- `_parse_ts`. -/
def parseTs (raw : Option String) : Option Time :=
  match raw with
  | none => none
  | some raw => if raw = "" then none else fromisoformat raw

/-- One turn of `read_worker_health`; `fallback` is `ttl_seconds`. -/
def readWorkerHealth (s : HeartbeatStore) (now : Time) (fallback : ℤ) (role : String) :
    WorkerHealth :=
  let raw := s.get (workerHeartbeatKey role)
  let lastSeen := parseTs (raw.map HeartbeatHash.lastSeen)
  let declared :=
    match raw with
    | none => fallback
    | some hash => (Json.readInt hash.ttlSeconds.toList).getD fallback
  let effective := max 1 declared
  let age := lastSeen.map fun seen => now - seen
  { role, lastSeen, age
    status := heartbeatStatus age effective
    startedAt := parseTs (raw.map HeartbeatHash.startedAt)
    ttlSeconds := effective }

/-- What may happen to the heartbeats: a whole `touch`, one that is cut off after its first
call, `clear`, or time passing. -/
inductive HeartbeatEvent where
  | touch (w : WorkerHeartbeat)
  | cut (w : WorkerHeartbeat)
  | clear (role : String)
  | elapse (d : ℕ)

namespace HeartbeatEvent

/-- The role an event is about. -/
def role : HeartbeatEvent → Option String
  | touch w => some w.role
  | cut w => some w.role
  | clear role => some role
  | elapse _ => none

/-- The time an event takes. -/
def time : HeartbeatEvent → ℕ
  | elapse d => d
  | _ => 0

def step (start : Time) (s : HeartbeatStore) : HeartbeatEvent → HeartbeatStore
  | touch w => w.touch start s
  | cut w => w.write start s
  | clear role => s.del (workerHeartbeatKey role)
  | elapse d => s.elapse d

end HeartbeatEvent

/-- The microseconds a run takes. -/
def heartbeatElapsed (es : List HeartbeatEvent) : ℕ := (es.map HeartbeatEvent.time).sum

/-- What `read_worker_health` finds for a role at the end of a run. -/
def healthAfter (start : Time) (fallback : ℤ) (es : List HeartbeatEvent) (role : String) :
    WorkerHealth :=
  readWorkerHealth (Runs.run (HeartbeatEvent.step start) Expiring.fresh es)
    (start + heartbeatElapsed es) fallback role

end ForexAi
