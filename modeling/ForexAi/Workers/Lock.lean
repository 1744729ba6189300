/-
The advisory lock of the orchestrator.

`acquire_lock`, `renew_lock` and `release_lock` as Redis sees them, a command at a time,
for any number of instances.  A command may be answered, carried out without the answer
arriving, or fail before it is carried out; the last two raise in the client, and the
pipeline drops its watch when it is left.

An owner token is a `uuid4`, which does not repeat: tokens are numbered in the order they
are drawn.  `drawn` remembers who drew each; no code reads it.
-/
import ForexAi.Lib.Runs
import ForexAi.Lib.WatchedKey
import Mathlib.Data.Int.Notation

namespace ForexAi

/-- An owner token. -/
abbrev OwnerToken := ℕ

/-- `LOCK_TTL_SECONDS`. -/
def lockTtlSeconds : ℤ := 120

/-- `lock_ttl`, in milliseconds. -/
def lockTtl (seconds : ℤ) : ℕ := (max 1 seconds).toNat * 1000

/-- The methods that check the token first. -/
inductive Guarded where
  | renew | release
  deriving DecidableEq, Repr

inductive LockMethod where
  | acquire
  | guarded (g : Guarded)
  deriving DecidableEq, Repr

/-- What a method gave its caller. -/
inductive LockResult where
  | acquired (ok : Bool)
  | renewed (ok : Bool)
  | released
  | raised
  deriving DecidableEq, Repr

/-- The answer of a guarded method: `release_lock` has none to give. -/
def Guarded.result (ok : Bool) : Guarded → LockResult
  | .renew => .renewed ok
  | .release => .released

/-- How far an instance is in the method it runs. -/
inductive LockPhase where
  /-- No method is under way. -/
  | idle (last : Option LockResult)
  /-- The token is drawn; `SET` is next. -/
  | acquiring
  /-- `WATCH` is next. -/
  | entering (g : Guarded)
  /-- `GET` is next. -/
  | watching (g : Guarded)
  /-- The key held the token; the transaction is next. -/
  | confirmed (g : Guarded)
  /-- The key held something else; `UNWATCH` is next. -/
  | refused (g : Guarded)
  deriving DecidableEq, Repr

def LockPhase.isIdle : LockPhase → Bool
  | .idle _ => true
  | _ => false

/-- What an instance keeps: `_owner_token`, and where it is. -/
structure LockClient where
  ownerToken : Option OwnerToken := none
  phase : LockPhase := .idle none
  deriving DecidableEq

/-- How a command ends for the instance that sent it. -/
inductive Reply where
  | answered
  /-- Carried out, but the answer did not arrive. -/
  | lost
  /-- Not carried out. -/
  | failed
  deriving DecidableEq, Repr

structure LockWorld (ι : Type*) where
  redis : WatchedKey ι OwnerToken
  clients : ι → LockClient
  drawn : List ι

inductive LockStep (ι : Type*) where
  | elapse (d : ℕ)
  | call (i : ι) (m : LockMethod)
  | command (i : ι) (reply : Reply)

namespace LockWorld

variable {ι : Type*}

/-- Nothing has run yet. -/
def initial : LockWorld ι := ⟨WatchedKey.fresh, fun _ => {}, []⟩

/-- The key holds the token of the instance. -/
def Owns (w : LockWorld ι) (i : ι) : Prop :=
  ∃ lease, w.redis.held = some lease ∧ (w.clients i).ownerToken = some lease.value

variable [DecidableEq ι]

def setClient (w : LockWorld ι) (i : ι) (client : LockClient) : LockWorld ι :=
  { w with clients := fun j => if j = i then client else w.clients j }

/-- The instance goes on. -/
def proceed (w : LockWorld ι) (i : ι) (phase : LockPhase) : LockWorld ι :=
  w.setClient i { w.clients i with phase }

/-- A method is called. -/
def call (w : LockWorld ι) (i : ι) : LockMethod → LockWorld ι
  | .acquire =>
      { w.setClient i ⟨some w.drawn.length, .acquiring⟩ with drawn := w.drawn ++ [i] }
  | .guarded g =>
      (w.clients i).ownerToken.elim (w.proceed i (.idle (some (g.result false))))
        fun _ => w.proceed i (.entering g)

variable (ttl : ι → ℕ)

/-- `SET key token NX EX ttl`. -/
def sendSet (w : LockWorld ι) (i : ι) (token : OwnerToken) : LockWorld ι :=
  let (ok, redis) := w.redis.setNx token (ttl i)
  { w.proceed i (.idle (some (.acquired ok))) with redis }

/-- The next command of an instance, and what the instance does with the answer. -/
def perform (w : LockWorld ι) (i : ι) : LockPhase → LockWorld ι
  | .idle _ => w
  | .acquiring => (w.clients i).ownerToken.elim w (w.sendSet ttl i)
  | .entering g => { w.proceed i (.watching g) with redis := w.redis.startWatch i }
  | .watching g =>
      w.proceed i (if w.redis.get = (w.clients i).ownerToken then .confirmed g else .refused g)
  | .confirmed .renew =>
      let (ok, redis) := w.redis.exec i (w.redis.pexpire (ttl i))
      { w.proceed i (.idle (some (.renewed ok))) with redis }
  | .confirmed .release =>
      let (_, redis) := w.redis.exec i none
      { w.proceed i (.idle (some .released)) with redis }
  | .refused g =>
      { w.proceed i (.idle (some (g.result false))) with redis := w.redis.unwatch i }

/-- What a method gives when one of its commands raises. -/
def whenRaised : LockPhase → LockResult
  | .idle _ => .raised
  | .acquiring => .raised
  | .entering g | .watching g | .confirmed g | .refused g => g.result false

/-- A command raised: the connection goes, and the method is over. -/
def abandon (w : LockWorld ι) (i : ι) (phase : LockPhase) : LockWorld ι :=
  { w.proceed i (.idle (some (whenRaised phase))) with redis := w.redis.unwatch i }

/-- One command of an instance that has a method under way. -/
def command (w : LockWorld ι) (i : ι) (phase : LockPhase) : Reply → LockWorld ι
  | .answered => w.perform ttl i phase
  | .lost => (w.perform ttl i phase).abandon i phase
  | .failed => w.abandon i phase

def step (w : LockWorld ι) : LockStep ι → LockWorld ι
  | .elapse d => { w with redis := w.redis.elapse d }
  | .call i m => if (w.clients i).phase.isIdle then w.call i m else w
  | .command i reply =>
      if (w.clients i).phase.isIdle then w else w.command ttl i (w.clients i).phase reply

end LockWorld

end ForexAi
