/-
The audit log beside the accounts it is about.

A request to change an account reads it, writes the log entry with what it read and what it
makes of it, and commits.  Requests run beside each other, so an account may have changed
between the two; the update that is sent then names only the columns the request has changed
against what it read.  A registration is one transaction, as are its row and its entry.

The log is kept in the order of the commits.
-/
import ForexAi.Lib.Runs
import ForexAi.Services.Users

namespace ForexAi

/-- A row of `audit_log` that is about an account's access. -/
inductive AccountAudit where
  /-- `auth.user_registered`, with `after={"role": …}` -/
  | registered (actor : String) (entityId : Uuid) (role : UserRole)
  /-- `admin.user_updated` -/
  | updated (entry : UserUpdated)

/-- The columns an account is told by. -/
def User.access (u : User) : Access := ⟨u.role, u.isActive⟩

/-- What an update makes of an account: the columns in which the two differ are sent. -/
def Access.amend (current before after : Access) : Access where
  role := if before.role = after.role then current.role else after.role
  isActive := if before.isActive = after.isActive then current.isActive else after.isActive

/-- An update of what was read is what was asked for. -/
theorem Access.amend_self (before after : Access) : before.amend before after = after := by
  unfold amend
  by_cases hrole : before.role = after.role
  · by_cases hactive : before.isActive = after.isActive
    · rw [if_pos hrole, if_pos hactive, hrole, hactive]
    · rw [if_pos hrole, if_neg hactive, hrole]
  · by_cases hactive : before.isActive = after.isActive
    · rw [if_neg hrole, if_pos hactive, hactive]
    · rw [if_neg hrole, if_neg hactive]

/-- The accounts with an update applied. -/
def UserTable.amend (t : UserTable) (entry : UserUpdated) : UserTable :=
  match t.find entry.entityId with
  | none => t
  | some user =>
      let access := user.access.amend entry.before entry.after
      t.setAccess entry.entityId access.role access.isActive

/-- The committed tables, and what each request under way is going to commit. -/
structure TrailWorld where
  users : UserTable := .empty
  log : List AccountAudit := []
  pending : ℕ → Option UserUpdated := fun _ => none

inductive TrailStep where
  /-- `register_user`, committed; the role is what the request has been promised. -/
  | register (id : Uuid) (email : String) (role : UserRole)
  /-- A `PATCH /users/{user_id}` up to its log entry. -/
  | read (i : ℕ) (r : UpdateRequest)
  | commit (i : ℕ)
  /-- The request is rolled back. -/
  | lost (i : ℕ)

namespace TrailWorld

/-- The entry `update_user` writes, if the request is let through. -/
def entryOf (users : UserTable) (r : UpdateRequest) : Option UserUpdated :=
  match r.handle ⟨users, []⟩ with
  | .ok (_, db) => db.audit.head?
  | .error _ => none

def step (w : TrailWorld) : TrailStep → TrailWorld
  | .register id email role =>
      let user : User := { id, email, role, isActive := true }
      if id ∈ w.users.rows.map (·.id) ∨ email ∈ w.users.rows.map (·.email) then w
      else { w with users := w.users.insert user, log := w.log ++ [.registered email id role] }
  | .read i r => { w with pending := fun j => if j = i then entryOf w.users r else w.pending j }
  | .commit i =>
      match w.pending i with
      | none => w
      | some entry =>
          { users := w.users.amend entry
            log := w.log ++ [.updated entry]
            pending := fun j => if j = i then none else w.pending j }
  | .lost i => { w with pending := fun j => if j = i then none else w.pending j }

theorem step_commit_none {w : TrailWorld} {i : ℕ} (h : w.pending i = none) :
    w.step (.commit i) = w := by
  simp [step, h]

theorem step_commit {w : TrailWorld} {i : ℕ} {entry : UserUpdated}
    (h : w.pending i = some entry) :
    w.step (.commit i) =
      { users := w.users.amend entry
        log := w.log ++ [.updated entry]
        pending := fun j => if j = i then none else w.pending j } := by
  simp [step, h]

end TrailWorld

/-! ### Reading the log -/

/-- What an entry of the log makes of what is known of an account. -/
def AccountAudit.replay (id : Uuid) (known : Option Access) : AccountAudit → Option Access
  | .registered _ entityId role => if entityId = id then some ⟨role, true⟩ else known
  | .updated entry =>
      if entry.entityId = id then known.map fun a => a.amend entry.before entry.after else known

@[simp] theorem AccountAudit.replay_registered (actor : String) (entityId id : Uuid)
    (role : UserRole) (known : Option Access) :
    AccountAudit.replay id known (.registered actor entityId role) =
      if entityId = id then some ⟨role, true⟩ else known := rfl

@[simp] theorem AccountAudit.replay_updated (entry : UserUpdated) (id : Uuid)
    (known : Option Access) :
    AccountAudit.replay id known (.updated entry) =
      if entry.entityId = id then known.map fun a => a.amend entry.before entry.after
      else known := rfl

/-- The access of an account, by the log alone. -/
def replayLog (log : List AccountAudit) (id : Uuid) : Option Access :=
  log.foldl (AccountAudit.replay id) none

end ForexAi
