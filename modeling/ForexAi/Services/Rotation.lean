/-
Rotations side by side.

`rotate_refresh` as the database sees it, a statement at a time: the row of the token shown
is read, the account is read, and at the end of the request the row is updated, its
successor inserted, and the transaction committed.  Where the row read is revoked, the live
rows of the family are updated instead, and that is committed.

The isolation is read committed.  A read sees what is committed when it runs.  An update
finds its rows when it starts and waits for those another transaction has changed; once it
has them it looks at their committed version again, and it holds them until the commit.
The update of the token shown finds its row by key alone, so a version that was revoked in
the meantime is as good as any.
-/
import ForexAi.Services.Auth

namespace ForexAi

/-- How far a request has come. -/
inductive Phase where
  /-- The token is decoded. -/
  | shown (jti : Option Uuid)
  /-- The row is read and live. -/
  | found (row : RefreshToken)
  /-- The account is read and active. -/
  | admitted (row : RefreshToken) (user : User)
  /-- The row is updated. -/
  | updated (row successor : RefreshToken) (revokedAt : Time)
  /-- Its successor is inserted. -/
  | inserted (row successor : RefreshToken) (revokedAt : Time)
  /-- The row is read and revoked. -/
  | replayed (row : RefreshToken)
  /-- The update of the family has found its rows. -/
  | scanned (row : RefreshToken) (jtis : List Uuid)
  /-- The update of the family is done. -/
  | swept (row : RefreshToken) (jtis : List Uuid) (revokedAt : Time)
  /-- The request succeeded: the token shown and its successor. -/
  | accepted (jti successor : Uuid)
  | failed (e : AuthError)

/-- The rows a request has changed and not committed. -/
def Phase.locks : Phase → List Uuid
  | .updated row _ _ => [row.jti]
  | .inserted row _ _ => [row.jti]
  | .swept _ jtis _ => jtis
  | _ => []

/-- The committed tables, the requests in the order they arrived, and the supply. -/
structure RotationWorld where
  committed : TokenTable
  users : Uuid → Option User
  requests : List Phase
  next : Uuid

namespace RotationWorld

/-- The request goes on. -/
def proceed (w : RotationWorld) (i : ℕ) (phase : Phase) : RotationWorld :=
  { w with requests := w.requests.set i phase }

/-- Another request holds one of the rows. -/
def blocked (w : RotationWorld) (i : ℕ) (jtis : List Uuid) : Bool :=
  (w.requests.eraseIdx i).any fun phase => phase.locks.any fun jti => decide (jti ∈ jtis)

/-- The rows the update of a family finds. -/
def liveOf (w : RotationWorld) (familyId : Uuid) : List Uuid :=
  (w.committed.rows.filter fun r => decide (r.familyId = familyId) && !r.isRevoked).map (·.jti)

/-- The row is committed and live. -/
def isLive (w : RotationWorld) (jti : Uuid) : Bool :=
  w.committed.rows.any fun r => decide (r.jti = jti) && !r.isRevoked

variable (settings : AuthSettings)

/-- The next statement of a request. -/
def advance (w : RotationWorld) (i : ℕ) (now : Time) : Phase → RotationWorld
  | .shown jti =>
      match jti.bind w.committed.find with
      | none => w.proceed i (.failed "Unknown refresh token")
      | some row => w.proceed i (if row.isRevoked then .replayed row else .found row)
  | .found row =>
      match w.users row.userId with
      | none => w.proceed i (.failed "Account is disabled")
      | some user =>
          w.proceed i
            (if user.isActive then .admitted row user else .failed "Account is disabled")
  | .admitted row user =>
      if w.blocked i [row.jti] then w
      else
        let successor : RefreshToken :=
          { userId := user.id, jti := w.next, familyId := row.familyId,
            expiresAt := now + seconds (settings.refreshTokenExpireDays * 86400) }
        { w.proceed i (.updated row successor now) with next := w.next + 1 }
  | .updated row successor revokedAt => w.proceed i (.inserted row successor revokedAt)
  | .inserted row successor revokedAt =>
      { w.proceed i (.accepted row.jti successor.jti) with
        committed := (w.committed.insert successor).revokeWhere
          (fun r => decide (r.jti = row.jti)) revokedAt (some successor.jti) }
  | .replayed row => w.proceed i (.scanned row (w.liveOf row.familyId))
  | .scanned row jtis =>
      if w.blocked i jtis then w else w.proceed i (.swept row (jtis.filter w.isLive) now)
  | .swept _ jtis revokedAt =>
      { w.proceed i (.failed AuthService.reuseMessage) with
        committed := w.committed.revokeWhere (fun r => decide (r.jti ∈ jtis)) revokedAt none }
  | .accepted _ _ => w
  | .failed _ => w

/-- What can happen next: a request arrives, one of them runs its next statement, or an account
changes. -/
inductive Step where
  | arrive (raw : RawToken) (now : Time)
  | run (i : ℕ) (now : Time)
  | updateUser (user : User)

def step (w : RotationWorld) : Step → RotationWorld
  | .arrive raw now =>
      let phase : Phase := match decodeToken now tokenTypeRefresh raw with
        | .ok claims => .shown claims.jti
        | .error e => .failed e
      { w with requests := w.requests ++ [phase] }
  | .run i now =>
      match w.requests[i]? with
      | none => w
      | some phase => advance settings w i now phase
  | .updateUser user => { w with users := fun id => if id = user.id then some user else w.users id }

end RotationWorld

end ForexAi
