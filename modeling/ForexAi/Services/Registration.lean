/-
Registrations side by side.

`register_user` as the database sees it, a statement at a time: the email is looked up, the
accounts are counted, the account is inserted, and at the end of the request the transaction
is committed.  The isolation is read committed: a read sees what is committed when it runs.
An insert waits for another transaction that has inserted the same email, and is refused
once that email is committed.

A request is named by its place in the order of arrival, and so is the account it creates.
-/
import ForexAi.Services.Users
import ForexAi.Lib.Runs

namespace ForexAi

/-- The role of a new account: an override, or `admin` where the count found none. -/
def registeredRole (roleOverride : Option UserRole) (totalUsers : ℕ) : UserRole :=
  roleOverride.getD (if totalUsers = 0 then .admin else .viewer)

/-- How far a registration has come. -/
inductive RegisterPhase where
  | received
  /-- No committed account has the email. -/
  | unused
  /-- The accounts are counted. -/
  | counted (role : UserRole)
  /-- The account is inserted and not committed. -/
  | inserted (role : UserRole)
  | registered (role : UserRole)
  | failed (e : String)
  deriving DecidableEq

/-- The role the account gets if the request goes on. -/
def RegisterPhase.promised : RegisterPhase → Option UserRole
  | .counted role => some role
  | .inserted role => some role
  | _ => none

/-- A request without an override; the email is stripped and in lower case. -/
structure RegisterRequest where
  email : String
  phase : RegisterPhase

/-- An `auth.user_registered` row of the audit log. -/
structure UserRegistered where
  actor : String
  entityId : Uuid
  role : UserRole

/-- The committed tables, and the requests in the order they arrived. -/
structure RegistrationWorld where
  users : UserTable
  audit : List UserRegistered
  requests : List RegisterRequest

namespace RegistrationWorld

/-- Nobody has registered. -/
def start : RegistrationWorld := ⟨.empty, [], []⟩

/-- The request goes on. -/
def proceed (w : RegistrationWorld) (i : ℕ) (phase : RegisterPhase) : RegistrationWorld :=
  { w with requests := w.requests.modify i fun r => { r with phase } }

/-- A committed account has the email. -/
def taken (w : RegistrationWorld) (email : String) : Bool :=
  w.users.rows.any fun u => decide (u.email = email)

/-- Another request has inserted the email and not committed it. -/
def blocked (w : RegistrationWorld) (i : ℕ) (email : String) : Bool :=
  (w.requests.eraseIdx i).any fun r =>
    decide (r.email = email) && match r.phase with
      | .inserted _ => true
      | _ => false

/-- The next statement of a request. -/
def advance (w : RegistrationWorld) (i : ℕ) (email : String) : RegisterPhase → RegistrationWorld
  | .received =>
      w.proceed i (if w.taken email then .failed "Email already registered" else .unused)
  | .unused => w.proceed i (.counted (registeredRole none w.users.rows.length))
  | .counted role =>
      if w.blocked i email then w
      else w.proceed i (if w.taken email then .failed "IntegrityError" else .inserted role)
  | .inserted role =>
      { w.proceed i (.registered role) with
        users := w.users.insert { id := i, email, role, isActive := true }
        audit := w.audit ++ [{ actor := email, entityId := i, role }] }
  | .registered _ => w
  | .failed _ => w

/-- What can happen next: a request arrives, one of them runs its next statement, or its
connection is lost and its transaction rolled back. -/
inductive Step where
  | arrive (email : String)
  | run (i : ℕ)
  | lost (i : ℕ)

/-- The email of an arrival. -/
def Step.email : Step → Option String
  | .arrive email => some email
  | _ => none

def step (w : RegistrationWorld) : Step → RegistrationWorld
  | .arrive email => { w with requests := w.requests ++ [⟨email, .received⟩] }
  | .run i =>
      match w.requests[i]? with
      | none => w
      | some r => w.advance i r.email r.phase
  | .lost i =>
      match w.requests[i]? with
      | none => w
      | some r =>
          match r.phase with
          | .registered _ => w
          | _ => w.proceed i (.failed "rolled back")

/-! ### What a step leaves of the requests -/

theorem getElem?_proceed (w : RegistrationWorld) (i : ℕ) (phase : RegisterPhase) (j : ℕ) :
    (w.proceed i phase).requests[j]?
      = (w.requests[j]?).map fun r => if i = j then { r with phase } else r := by
  show (w.requests.modify i fun r => { r with phase })[j]? = _
  rw [List.getElem?_modify]
  by_cases h : i = j
  · simp [h]
  · simp [h]

theorem proceed_self {w : RegistrationWorld} {i : ℕ} {r : RegisterRequest}
    (h : w.requests[i]? = some r) (phase : RegisterPhase) :
    (w.proceed i phase).requests[i]? = some { r with phase } := by
  rw [getElem?_proceed, h, Option.map_some, if_pos rfl]

theorem proceed_other (w : RegistrationWorld) {i j : ℕ} (h : j ≠ i) (phase : RegisterPhase) :
    (w.proceed i phase).requests[j]? = w.requests[j]? := by
  have hne : ¬ i = j := fun heq => h heq.symm
  simp only [getElem?_proceed, if_neg hne, Option.map_id_fun', id]

theorem emails_proceed (w : RegistrationWorld) (i : ℕ) (phase : RegisterPhase) :
    (w.proceed i phase).requests.map (·.email) = w.requests.map (·.email) := by
  refine List.ext_getElem? fun j => ?_
  rw [List.getElem?_map, List.getElem?_map, getElem?_proceed, Option.map_map]
  refine congrArg (fun f => Option.map f w.requests[j]?) (funext fun r => ?_)
  show (if i = j then { r with phase } else r).email = r.email
  by_cases h : i = j
  · rw [if_pos h]
  · rw [if_neg h]

theorem step_run {w : RegistrationWorld} {i : ℕ} {r : RegisterRequest}
    (h : w.requests[i]? = some r) : w.step (.run i) = w.advance i r.email r.phase := by
  simp only [step, h]

/-- **What a step does.**  Nothing; an arrival; a request that goes on with the role it was
promised or without one; a count; or a commit. -/
theorem step_cases (w : RegistrationWorld) (e : Step) :
    (w.step e = w ∧ e.email = none) ∨
      (∃ email, e = .arrive email ∧
        w.step e = { w with requests := w.requests ++ [⟨email, .received⟩] }) ∨
      ∃ i r, w.requests[i]? = some r ∧ e.email = none ∧
        ((∃ phase, (∀ role, phase.promised = some role → r.phase.promised = some role) ∧
            w.step e = w.proceed i phase) ∨
          (e = .run i ∧ r.phase = .unused ∧
            w.step e = w.proceed i (.counted (registeredRole none w.users.rows.length))) ∨
          ∃ role, r.phase = .inserted role ∧
            w.step e =
              { w.proceed i (.registered role) with
                users := w.users.insert ⟨i, r.email, role, true⟩
                audit := w.audit ++ [⟨r.email, i, role⟩] }) := by
  cases e with
  | arrive email => exact Or.inr (Or.inl ⟨email, rfl, rfl⟩)
  | run i =>
      cases hi : w.requests[i]? with
      | none => exact Or.inl ⟨by simp only [step, hi], rfl⟩
      | some r =>
          rw [step_run hi]
          cases hphase : r.phase with
          | received =>
              refine Or.inr (Or.inr ⟨i, r, hi, rfl, Or.inl ⟨_, fun role hrole => ?_, rfl⟩⟩)
              by_cases htaken : w.taken r.email = true
              · simp [htaken, RegisterPhase.promised] at hrole
              · simp [htaken, RegisterPhase.promised] at hrole
          | unused => exact Or.inr (Or.inr ⟨i, r, hi, rfl, Or.inr (Or.inl ⟨rfl, hphase, rfl⟩)⟩)
          | counted role =>
              by_cases hblocked : w.blocked i r.email = true
              · exact Or.inl ⟨if_pos hblocked, rfl⟩
              · refine Or.inr (Or.inr ⟨i, r, hi, rfl, Or.inl ⟨_, ?_, if_neg hblocked⟩⟩)
                intro role' hrole
                by_cases htaken : w.taken r.email = true
                · simp [htaken, RegisterPhase.promised] at hrole
                · simpa [htaken, hphase, RegisterPhase.promised] using hrole
          | inserted role =>
              exact Or.inr (Or.inr ⟨i, r, hi, rfl, Or.inr (Or.inr ⟨role, hphase, rfl⟩)⟩)
          | registered role => exact Or.inl ⟨rfl, rfl⟩
          | failed e => exact Or.inl ⟨rfl, rfl⟩
  | lost i =>
      cases hi : w.requests[i]? with
      | none => exact Or.inl ⟨by simp only [step, hi], rfl⟩
      | some r =>
          by_cases hdone : ∃ role, r.phase = .registered role
          · obtain ⟨role, hphase⟩ := hdone
            exact Or.inl ⟨by simp only [step, hi, hphase], rfl⟩
          · have hlost : w.step (.lost i) = w.proceed i (.failed "rolled back") := by
              cases hphase : r.phase with
              | registered role => exact absurd ⟨role, hphase⟩ hdone
              | _ => simp only [step, hi, hphase]
            refine Or.inr (Or.inr ⟨i, r, hi, rfl, Or.inl ⟨_, fun role hrole => ?_, hlost⟩⟩)
            exact absurd hrole (by simp [RegisterPhase.promised])

/-- The emails are those of the arrivals. -/
theorem emails_run (w : RegistrationWorld) (es : List Step) :
    (Runs.run step w es).requests.map (·.email)
      = w.requests.map (·.email) ++ es.filterMap Step.email := by
  induction es generalizing w with
  | nil => simp
  | cons e rest ih =>
      have hstep : (w.step e).requests.map (·.email)
          = w.requests.map (·.email) ++ e.email.toList := by
        rcases w.step_cases e with ⟨hsame, hnone⟩ | ⟨email, rfl, harrive⟩ | ⟨i, r, -, hnone, hcases⟩
        · rw [hsame, hnone, Option.toList_none, List.append_nil]
        · rw [harrive]
          simp [Step.email]
        · rw [hnone, Option.toList_none, List.append_nil]
          rcases hcases with ⟨phase, -, hproceed⟩ | ⟨-, -, hcount⟩ | ⟨role, -, hcommit⟩
          · rw [hproceed, emails_proceed]
          · rw [hcount, emails_proceed]
          · rw [hcommit]
            exact w.emails_proceed i _
      rw [Runs.run_cons, ih, hstep, List.append_assoc]
      cases hemail : e.email with
      | none => simp [hemail]
      | some email => simp [hemail]

end RegistrationWorld

end ForexAi
