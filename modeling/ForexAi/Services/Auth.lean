/-
Refresh tokens: issue, rotate, revoke.

A login starts a family of tokens; each rotation revokes the token it is shown and issues
the next one of the family; a revoked token that is shown again revokes the family.  The
functions work on a session, which holds the committed database beside the one the request
sees, and the request layer commits what succeeded and rolls back what raised.

Identifiers come from `uuid4`, which does not repeat: they are numbered in the order they
are drawn, and a draw is not undone by a rollback.  A signed token is its claims; nobody but
the service can sign one.
-/
import ForexAi.Lib.Runs
import ForexAi.Data.Timeframes

namespace ForexAi

/-- An identifier drawn from `uuid4`. -/
abbrev Uuid := ℕ

inductive UserRole where
  | viewer | trader | admin
  deriving DecidableEq, Repr

structure User where
  id : Uuid
  email : String
  role : UserRole
  isActive : Bool

/-- A row of `refresh_tokens`. -/
structure RefreshToken where
  userId : Uuid
  jti : Uuid
  familyId : Uuid
  expiresAt : Time
  revokedAt : Option Time := none
  replacedByJti : Option Uuid := none
  deriving DecidableEq

/-- `is_revoked`. -/
def RefreshToken.isRevoked (r : RefreshToken) : Bool := r.revokedAt.isSome

/-- `revoked_at = now`, and `replaced_by_jti` where there is a successor. -/
def RefreshToken.revoke (now : Time) (successor : Option Uuid) (r : RefreshToken) : RefreshToken :=
  { r with revokedAt := some now, replacedByJti := successor.or r.replacedByJti }

/-! ### The table -/

/-- `refresh_tokens`, in the order of issue; `jti` is unique. -/
@[ext] structure TokenTable where
  rows : List RefreshToken
  unique : (rows.map (·.jti)).Nodup

namespace TokenTable

def empty : TokenTable := ⟨[], List.nodup_nil⟩

/-- The row with an identifier: `get_refresh_row`. -/
def find (t : TokenTable) (jti : Uuid) : Option RefreshToken :=
  t.rows.find? fun r => decide (r.jti = jti)

theorem mem_of_find {t : TokenTable} {jti : Uuid} {row : RefreshToken}
    (h : t.find jti = some row) : row ∈ t.rows ∧ row.jti = jti :=
  ⟨List.mem_of_find?_eq_some h, by simpa using List.find?_some h⟩

/-- Insert a row; a duplicate `jti` is refused by the unique key. -/
def insert (t : TokenTable) (r : RefreshToken) : TokenTable :=
  if h : r.jti ∈ t.rows.map (·.jti) then t
  else
    { rows := t.rows ++ [r]
      unique := by
        rw [List.map_append]
        refine List.nodup_append.mpr ⟨t.unique, by simp, ?_⟩
        intro x hx y hy heq
        rw [List.map_singleton, List.mem_singleton] at hy
        exact h (hy ▸ heq ▸ hx) }

theorem rows_insert {t : TokenTable} {r : RefreshToken} (h : r.jti ∉ t.rows.map (·.jti)) :
    (t.insert r).rows = t.rows ++ [r] := by
  unfold insert
  rw [dif_neg h]

theorem jtis_revoke (rows : List RefreshToken) (selected : RefreshToken → Bool) (now : Time)
    (successor : Option Uuid) :
    (rows.map fun r => if selected r then r.revoke now successor else r).map (·.jti)
      = rows.map (·.jti) := by
  rw [List.map_map]
  refine List.map_congr_left fun r _ => ?_
  by_cases h : selected r = true
  · simp [h, RefreshToken.revoke]
  · simp [h]

/-- An update of every selected row. -/
def revokeWhere (t : TokenTable) (selected : RefreshToken → Bool) (now : Time)
    (successor : Option Uuid) : TokenTable where
  rows := t.rows.map fun r => if selected r then r.revoke now successor else r
  unique := jtis_revoke t.rows selected now successor ▸ t.unique

/-- What an update leaves: the same rows, each revoked or as it was. -/
theorem mem_revokeWhere {t : TokenTable} {selected : RefreshToken → Bool} {now : Time}
    {successor : Option Uuid} {r : RefreshToken} :
    r ∈ (t.revokeWhere selected now successor).rows ↔
      ∃ old ∈ t.rows, r = if selected old then old.revoke now successor else old := by
  unfold revokeWhere
  rw [List.mem_map]
  exact exists_congr fun old => and_congr_right fun _ => eq_comm

end TokenTable

/-! ### Sessions and requests -/

inductive AuditAction where
  | tokenReuseDetected | tokenRefreshed | loggedOut
  deriving DecidableEq, Repr

/-- A row of the audit log. -/
structure AuditEntry where
  action : AuditAction
  actor : String
  entityId : Uuid

structure AuthDb where
  users : Uuid → Option User
  tokens : TokenTable
  audit : List AuditEntry

/-- A request's session: what is committed, what the request sees, and the supply of
identifiers. -/
structure Session where
  committed : AuthDb
  working : AuthDb
  next : Uuid

namespace Session

/-- `session.commit()`. -/
def commit (s : Session) : Session := { s with committed := s.working }

/-- `session.rollback()`. -/
def rollback (s : Session) : Session := { s with working := s.committed }

/-- `_audit`. -/
def audit (s : Session) (action : AuditAction) (actor : String) (entityId : Uuid) : Session :=
  { s with working := { s.working with audit := s.working.audit ++ [⟨action, actor, entityId⟩] } }

/-- The tokens of the session replaced. -/
def setTokens (s : Session) (tokens : TokenTable) : Session :=
  { s with working := { s.working with tokens } }

end Session

/-- `AuthenticationError`, by its message. -/
abbrev AuthError := String

/-- What a handler gives: a value or the error it raised, and its session. -/
abbrev Handled (α : Type) := Except AuthError α × Session

/-- The database and the supply between two requests. -/
structure AuthState where
  db : AuthDb
  next : Uuid

/-- `get_db`: a session of its own for the request; commit what succeeded, roll back what
raised. -/
def request {α : Type} (st : AuthState) (handler : Session → Handled α) :
    Except AuthError α × AuthState :=
  match handler ⟨st.db, st.db, st.next⟩ with
  | (.ok a, s) => (.ok a, ⟨s.commit.committed, s.next⟩)
  | (.error e, s) => (.error e, ⟨s.rollback.committed, s.next⟩)

/-! ### Tokens as they are presented -/

/-- The claims of a signed token. -/
structure Claims where
  sub : String
  type : String
  jti : Option Uuid
  exp : ℤ

/-- What a client presents. -/
inductive RawToken where
  | malformed
  | signed (claims : Claims)

/-- `TOKEN_TYPE_REFRESH`. -/
def tokenTypeRefresh : String := "refresh"

/-- `JWT_LEEWAY_SECONDS`. -/
def jwtLeeway : Time := seconds 2

/-- `decode_token`. -/
def decodeToken (now : Time) (expectedType : String) : RawToken → Except AuthError Claims
  | .malformed => .error "Invalid token"
  | .signed claims =>
      if claims.exp * 1000000 ≤ now - jwtLeeway then .error "Token has expired"
      else if claims.type ≠ expectedType then .error "Invalid token type"
      else if claims.sub = "" then .error "Invalid token subject"
      else .ok claims

structure AuthSettings where
  accessTokenExpireMinutes : ℕ
  refreshTokenExpireDays : ℕ

/-- `TokenPair`; the access token is its role and its expiry. -/
structure TokenPair where
  accessRole : UserRole
  accessExpiresAt : Time
  refreshToken : RawToken
  refreshJti : Uuid
  refreshFamilyId : Uuid
  refreshExpiresAt : Time

namespace AuthService

variable (settings : AuthSettings)

/-- `issue_token_pair`; without a family a new one is drawn before the token's identifier. -/
def issueTokenPair (s : Session) (user : User) (familyId : Option Uuid) (now : Time) :
    TokenPair × Session :=
  let (family, next) := match familyId with
    | some family => (family, s.next)
    | none => (s.next, s.next + 1)
  let expiresAt := now + seconds (settings.refreshTokenExpireDays * 86400)
  let row : RefreshToken := { userId := user.id, jti := next, familyId := family, expiresAt }
  ({ accessRole := user.role
     accessExpiresAt := now + seconds (settings.accessTokenExpireMinutes * 60)
     refreshToken := .signed
       { sub := toString user.id, type := tokenTypeRefresh, jti := some next,
         exp := expiresAt / 1000000 }
     refreshJti := next
     refreshFamilyId := family
     refreshExpiresAt := expiresAt },
    { s.setTokens (s.working.tokens.insert row) with next := next + 1 })

/-- `revoke_family`. -/
def revokeFamily (s : Session) (familyId : Uuid) (now : Time) : Session :=
  s.setTokens (s.working.tokens.revokeWhere
    (fun r => decide (r.familyId = familyId) && !r.isRevoked) now none)

/-- The text of a reuse error. -/
def reuseMessage : AuthError := "Refresh token reuse detected; session family revoked"

/-- `rotate_refresh`. -/
def rotateRefresh (raw : RawToken) (now : Time) (s : Session) : Handled (TokenPair × User) :=
  match decodeToken now tokenTypeRefresh raw with
  | .error e => (.error e, s)
  | .ok claims =>
      match claims.jti.bind s.working.tokens.find with
      | none => (.error "Unknown refresh token", s)
      | some row =>
          if row.isRevoked then
            -- The revocation is committed before the error is raised.
            (.error reuseMessage, ((revokeFamily s row.familyId now).audit .tokenReuseDetected
              (toString row.userId) row.jti).commit)
          else
            match s.working.users row.userId with
            | none => (.error "Account is disabled", s)
            | some user =>
                if user.isActive = false then (.error "Account is disabled", s)
                else
                  let (pair, s) := issueTokenPair settings s user (some row.familyId) now
                  let s := s.setTokens (s.working.tokens.revokeWhere
                    (fun r => decide (r.jti = row.jti)) now (some pair.refreshJti))
                  (.ok (pair, user), s.audit .tokenRefreshed user.email user.id)

/-- `revoke_refresh`: whether the token was revoked now. -/
def revokeRefresh (raw : RawToken) (actor : String) (now : Time) (s : Session) : Handled Bool :=
  match decodeToken now tokenTypeRefresh raw with
  | .error _ => (.ok false, s)
  | .ok claims =>
      match claims.jti.bind s.working.tokens.find with
      | none => (.ok false, s)
      | some row =>
          if row.isRevoked then (.ok false, s)
          else
            (.ok true, (s.setTokens (s.working.tokens.revokeWhere
              (fun r => decide (r.jti = row.jti)) now none)).audit .loggedOut actor row.jti)

/-- The login route after `authenticate_user`: a pair of a new family. -/
def login (user : User) (now : Time) (s : Session) : Handled TokenPair :=
  let (pair, s) := issueTokenPair settings s user none now
  (.ok pair, s)

end AuthService

end ForexAi
