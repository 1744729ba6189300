/-
Accounts and their administration.

The table of accounts, the role an account is created with, and `update_user`: an admin
changes the role or the active flag of an account.  A request runs in a session of its own,
which commits what succeeded and rolls back what raised, so a request that raises leaves
the accounts as they were.
-/
import ForexAi.Services.Auth
import Mathlib.Data.List.Nodup

namespace ForexAi

namespace UserRole

/-- `ROLE_RANK`. -/
def rank : UserRole → ℕ
  | viewer => 0
  | trader => 1
  | admin => 2

/-- `role_at_least`. -/
def atLeast (role required : UserRole) : Bool := decide (required.rank ≤ role.rank)

theorem atLeast_admin {role : UserRole} : role.atLeast .admin = true ↔ role = .admin := by
  cases role <;> decide

end UserRole

deriving instance DecidableEq for User

/-! ### The table -/

/-- `users`: ids and emails are unique. -/
structure UserTable where
  rows : List User
  unique_id : (rows.map (·.id)).Nodup
  unique_email : (rows.map (·.email)).Nodup

namespace UserTable

def empty : UserTable := ⟨[], List.nodup_nil, List.nodup_nil⟩

/-- `session.get(User, id)`. -/
def find (t : UserTable) (id : Uuid) : Option User := t.rows.find? fun u => decide (u.id = id)

theorem mem_of_find {t : UserTable} {id : Uuid} {u : User} (h : t.find id = some u) :
    u ∈ t.rows ∧ u.id = id :=
  ⟨List.mem_of_find?_eq_some h, by simpa using List.find?_some h⟩

theorem eq_of_id {t : UserTable} {u v : User} (hu : u ∈ t.rows) (hv : v ∈ t.rows)
    (hid : u.id = v.id) : u = v :=
  List.inj_on_of_nodup_map t.unique_id hu hv hid

theorem find_of_mem {t : UserTable} {u : User} (h : u ∈ t.rows) : t.find u.id = some u := by
  cases hfind : t.find u.id with
  | none => exact absurd (decide_eq_true rfl) (List.find?_eq_none.mp hfind u h)
  | some v =>
      obtain ⟨hv, hid⟩ := mem_of_find hfind
      rw [eq_of_id hv h hid]

/-- A column that no access touches. -/
private theorem map_setAccess {β : Type} (column : User → β) (role : UserRole) (isActive : Bool)
    (hcolumn : ∀ u : User, column { u with role, isActive } = column u) (rows : List User)
    (id : Uuid) :
    (rows.map fun u => if u.id = id then { u with role, isActive } else u).map column
      = rows.map column := by
  rw [List.map_map]
  refine List.map_congr_left fun u _ => ?_
  show column (if u.id = id then { u with role, isActive } else u) = column u
  by_cases h : u.id = id
  · rw [if_pos h]
    exact hcolumn u
  · rw [if_neg h]

/-- The role and the active flag of an account set. -/
def setAccess (t : UserTable) (id : Uuid) (role : UserRole) (isActive : Bool) : UserTable where
  rows := t.rows.map fun u => if u.id = id then { u with role, isActive } else u
  unique_id := by
    rw [map_setAccess (·.id) role isActive (fun _ => rfl)]
    exact t.unique_id
  unique_email := by
    rw [map_setAccess (·.email) role isActive (fun _ => rfl)]
    exact t.unique_email

/-- Another account is as it was. -/
theorem mem_setAccess_ne {t : UserTable} {id : Uuid} {role : UserRole} {isActive : Bool} {u : User}
    (h : u.id ≠ id) : u ∈ (t.setAccess id role isActive).rows ↔ u ∈ t.rows := by
  show u ∈ t.rows.map _ ↔ _
  rw [List.mem_map]
  constructor
  · intro ⟨v, hv, heq⟩
    by_cases hid : v.id = id
    · rw [if_pos hid] at heq
      exact absurd (by rw [← heq]; exact hid) h
    · rw [if_neg hid] at heq
      rw [← heq]
      exact hv
  · intro hu
    exact ⟨u, hu, if_neg h⟩

/-- The account itself has what was set. -/
theorem mem_setAccess_eq {t : UserTable} {u : User} (hu : u ∈ t.rows) (role : UserRole)
    (isActive : Bool) : { u with role, isActive } ∈ (t.setAccess u.id role isActive).rows :=
  List.mem_map.mpr ⟨u, hu, if_pos rfl⟩

theorem access_of_mem_setAccess {t : UserTable} {id : Uuid} {role : UserRole} {isActive : Bool}
    {u : User} (hu : u ∈ (t.setAccess id role isActive).rows) (hid : u.id = id) :
    u.role = role ∧ u.isActive = isActive := by
  obtain ⟨v, -, rfl⟩ := List.mem_map.mp hu
  by_cases hv : v.id = id
  · rw [if_pos hv]
    exact ⟨rfl, rfl⟩
  · rw [if_neg hv] at hid
    exact absurd hid hv

/-- Insert an account; a unique key refuses a duplicate. -/
def insert (t : UserTable) (u : User) : UserTable :=
  if h : u.id ∉ t.rows.map (·.id) ∧ u.email ∉ t.rows.map (·.email) then
    { rows := t.rows ++ [u]
      unique_id := by
        rw [List.map_append, List.map_singleton, ← List.concat_eq_append]
        exact t.unique_id.concat h.1
      unique_email := by
        rw [List.map_append, List.map_singleton, ← List.concat_eq_append]
        exact t.unique_email.concat h.2 }
  else t

end UserTable

/-! ### Requests -/

/-- `UserAdminUpdate`: an omitted field is untouched. -/
structure UserAdminUpdate where
  role : Option UserRole := none
  isActive : Option Bool := none

/-- What the audit log keeps of an account. -/
structure Access where
  role : UserRole
  isActive : Bool
  deriving DecidableEq

/-- An `admin.user_updated` row of the audit log. -/
structure UserUpdated where
  actor : String
  entityId : Uuid
  before : Access
  after : Access

/-- The accounts, and the log of their changes. -/
structure AccountsDb where
  users : UserTable
  audit : List UserUpdated

/-- `get_current_user` under `require_role("admin")`, for the subject of a valid token. -/
def adminUser (db : AccountsDb) (subject : Uuid) : Except String User :=
  match db.users.find subject with
  | none => .error "Unknown or disabled account"
  | some user =>
      if user.isActive = false then .error "Unknown or disabled account"
      else if user.role.atLeast .admin = false then .error "Requires role 'admin' or higher"
      else .ok user

/-- `update_user`. -/
def updateUser (db : AccountsDb) (admin : User) (userId : Uuid) (body : UserAdminUpdate) :
    Except String (User × AccountsDb) :=
  if userId = admin.id ∧ body.role.any (fun role => decide (role ≠ admin.role)) = true then
    .error "Admins cannot change their own role"
  else
    match db.users.find userId with
    | none => .error "User not found"
    | some user =>
        let role := body.role.getD user.role
        let isActive := body.isActive.getD user.isActive
        .ok ({ user with role, isActive },
          { users := db.users.setAccess userId role isActive
            audit := db.audit ++ [⟨admin.email, user.id, ⟨user.role, user.isActive⟩,
              ⟨role, isActive⟩⟩] })

/-- `PATCH /users/{user_id}`, with the subject of the caller's token. -/
structure UpdateRequest where
  subject : Uuid
  userId : Uuid
  body : UserAdminUpdate

/-- The request handled. -/
def UpdateRequest.handle (r : UpdateRequest) (db : AccountsDb) :
    Except String (User × AccountsDb) :=
  (adminUser db r.subject).bind fun admin => updateUser db admin r.userId r.body

/-- The accounts after a request: what succeeded is committed, what raised is rolled back. -/
def AccountsDb.step (db : AccountsDb) (r : UpdateRequest) : AccountsDb :=
  (r.handle db).toOption.elim db (·.2)

/-! ### What a request does -/

/-- An account that may administer. -/
def User.IsActiveAdmin (u : User) : Prop := u.role = .admin ∧ u.isActive = true

instance (u : User) : Decidable u.IsActiveAdmin := by
  unfold User.IsActiveAdmin
  infer_instance

theorem adminUser_ok {db : AccountsDb} {subject : Uuid} {admin : User}
    (h : adminUser db subject = .ok admin) :
    admin ∈ db.users.rows ∧ admin.id = subject ∧ admin.IsActiveAdmin := by
  unfold adminUser at h
  cases hfind : db.users.find subject with
  | none => simp [hfind] at h
  | some user =>
      simp only [hfind] at h
      by_cases hactive : user.isActive = false
      · simp [hactive] at h
      · by_cases hrole : user.role.atLeast .admin = false
        · simp [hactive, hrole] at h
        · rw [if_neg hactive, if_neg hrole] at h
          obtain rfl := Except.ok.inj h
          obtain ⟨hmem, hid⟩ := UserTable.mem_of_find hfind
          exact ⟨hmem, hid, UserRole.atLeast_admin.mp (by simpa using hrole),
            by simpa using hactive⟩

theorem adminUser_of_mem {db : AccountsDb} {admin : User} (hmem : admin ∈ db.users.rows)
    (hadmin : admin.IsActiveAdmin) : adminUser db admin.id = .ok admin := by
  unfold adminUser
  rw [UserTable.find_of_mem hmem]
  show (if admin.isActive = false then _ else _) = _
  rw [if_neg (by simp [hadmin.2]), if_neg (by simp [hadmin.1, UserRole.atLeast_admin])]

/-- **What a request does**: it raises and nothing changes, or an active admin sets the role and
the flag of an account, and not another role of its own. -/
theorem AccountsDb.step_cases (db : AccountsDb) (r : UpdateRequest) :
    db.step r = db ∨ ∃ admin ∈ db.users.rows, ∃ user ∈ db.users.rows,
      admin.id = r.subject ∧ admin.IsActiveAdmin ∧ user.id = r.userId ∧
      (r.userId = r.subject → ∀ role, r.body.role = some role → role = .admin) ∧
      (db.step r).users = db.users.setAccess r.userId (r.body.role.getD user.role)
        (r.body.isActive.getD user.isActive) := by
  unfold AccountsDb.step UpdateRequest.handle
  cases hadmin : adminUser db r.subject with
  | error e => exact Or.inl rfl
  | ok admin =>
      obtain ⟨hmem, hid, hactive⟩ := adminUser_ok hadmin
      simp only [Except.bind]
      unfold updateUser
      by_cases hown : r.userId = admin.id ∧
          r.body.role.any (fun role => decide (role ≠ admin.role)) = true
      · rw [if_pos hown]
        exact Or.inl rfl
      · rw [if_neg hown]
        cases hfind : db.users.find r.userId with
        | none => exact Or.inl rfl
        | some user =>
            obtain ⟨huser, huserId⟩ := UserTable.mem_of_find hfind
            refine Or.inr ⟨admin, hmem, user, huser, hid, hactive, huserId, ?_, rfl⟩
            intro hself role hrole
            by_contra hne
            refine hown ⟨hself.trans hid.symm, ?_⟩
            rw [hrole, Option.any_some, hactive.1]
            exact decide_eq_true hne

end ForexAi
