/-
The loop of `run_orchestrator`.

An instance acquires the lock, and then renews it at the head of every round: poll,
lifecycle and scan run only after a renewal, the instance leaves the loop when a renewal
fails, and it releases the lock on the way out.  How long each part takes is left to the
run, and so is when an instance starts, stops or dies.
-/
import ForexAi.Workers.Lock

namespace ForexAi

/-- Where an instance is in `run_orchestrator`. -/
inductive LoopPhase where
  /-- Waiting for the lock. -/
  | starting
  /-- The lock is acquired; the loop has not begun. -/
  | granted
  /-- Asleep, or at the head of the loop; `renew_lock` is next. -/
  | looping
  /-- `poll_once`, `process_lifecycle` and `scan_all`, on the renewal made then. -/
  | processing (since : ℕ)
  /-- Out of the loop; `release_lock` is next. -/
  | leaving
  | stopped
  deriving DecidableEq, Repr

structure RuntimeWorld (ι : Type*) where
  lock : LockWorld ι
  loop : ι → LoopPhase

inductive RuntimeStep (ι : Type*) where
  | elapse (d : ℕ)
  /-- The next Redis command of the method under way. -/
  | command (i : ι) (reply : Reply)
  /-- The loop goes on. -/
  | go (i : ι)
  /-- Shutdown was requested, the window to acquire is over, or something raised. -/
  | stop (i : ι)
  /-- The process dies. -/
  | crash (i : ι)

namespace RuntimeWorld

variable {ι : Type*}

def initial : RuntimeWorld ι := ⟨LockWorld.initial, fun _ => .starting⟩

/-- The instance is in the part of the loop that writes decisions and ledger rows. -/
def Processing (w : RuntimeWorld ι) (i : ι) : Prop := ∃ since, w.loop i = .processing since

/-- Every instance is constructed with `LOCK_TTL_SECONDS`. -/
def ttl : ι → ℕ := fun _ => lockTtl lockTtlSeconds

/-- What the loop does with the result of a lock method. -/
def settle (now : ℕ) : LockResult → LoopPhase
  | .acquired true => .granted
  | .acquired false => .starting
  | .raised => .stopped
  | .renewed true => .processing now
  | .renewed false => .leaving
  | .released => .stopped

/-- The loop after the lock took a step for it: a method that has ended is acted on. -/
def heed (lock : LockWorld ι) (i : ι) (phase : LoopPhase) : LoopPhase :=
  match (lock.clients i).phase with
  | .idle (some result) => settle lock.redis.now result
  | _ => phase

variable [DecidableEq ι]

def setLoop (w : RuntimeWorld ι) (i : ι) (phase : LoopPhase) : RuntimeWorld ι :=
  { w with loop := fun j => if j = i then phase else w.loop j }

/-- A step of the lock on behalf of an instance. -/
def onLock (w : RuntimeWorld ι) (i : ι) (e : LockStep ι) : RuntimeWorld ι :=
  let lock := w.lock.step ttl e
  { w.setLoop i (heed lock i (w.loop i)) with lock }

/-- What comes after each phase. -/
def goOn (w : RuntimeWorld ι) (i : ι) : LoopPhase → RuntimeWorld ι
  | .starting => w.onLock i (.call i .acquire)
  | .granted => w.setLoop i .looping
  | .looping => w.onLock i (.call i (.guarded .renew))
  | .processing _ => w.setLoop i .looping
  | .leaving => w.onLock i (.call i (.guarded .release))
  | .stopped => w

/-- Where an instance goes that is told to stop, or whose step raised: `finally` is only
around the loop. -/
def stopFrom : LoopPhase → LoopPhase
  | .starting => .stopped
  | .granted => .stopped
  | .looping => .leaving
  | .processing _ => .leaving
  | .leaving => .leaving
  | .stopped => .stopped

def step (w : RuntimeWorld ι) : RuntimeStep ι → RuntimeWorld ι
  | .elapse d => { w with lock := w.lock.step ttl (.elapse d) }
  | .command i reply =>
      if (w.lock.clients i).phase.isIdle then w else w.onLock i (.command i reply)
  | .go i => if (w.lock.clients i).phase.isIdle then w.goOn i (w.loop i) else w
  | .stop i =>
      if (w.lock.clients i).phase.isIdle then w.setLoop i (stopFrom (w.loop i)) else w
  | .crash i =>
      { w.setLoop i .stopped with
        lock := { w.lock.proceed i (.idle none) with redis := w.lock.redis.unwatch i } }

end RuntimeWorld

end ForexAi
