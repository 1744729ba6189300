/-
An active admin remains.

Whoever changes an account is an active admin, and stays one unless the account is its own.
Its own role it cannot change; its own flag it can clear.  So the one request after which
there is no active admin is that of the last one switching itself off (`LocksOut`), and a
run keeps an active admin exactly when it has no such request.
-/
import ForexAi.Services.Users

namespace ForexAi

namespace AccountsDb

/-- Some account may administer. -/
def HasAdmin (db : AccountsDb) : Prop := ∃ u ∈ db.users.rows, u.IsActiveAdmin

/-- The request is made by an account that is an active admin. -/
def MadeByAdmin (db : AccountsDb) (r : UpdateRequest) : Prop :=
  ∃ u ∈ db.users.rows, u.id = r.subject ∧ u.IsActiveAdmin

/-- The only active admin switches itself off. -/
def LocksOut (db : AccountsDb) (r : UpdateRequest) : Prop :=
  r.userId = r.subject ∧ r.body.isActive = some false ∧
    (∀ role, r.body.role = some role → role = .admin) ∧
    ∀ u ∈ db.users.rows, u.IsActiveAdmin → u.id = r.subject

/-- A request by an account on another one leaves the first as it was. -/
theorem hasAdmin_other {db : AccountsDb} {r : UpdateRequest} {admin : User}
    (hmem : admin ∈ db.users.rows) (hadmin : admin.IsActiveAdmin) (hne : admin.id ≠ r.userId) :
    (db.step r).HasAdmin := by
  rcases step_cases db r with hsame | ⟨_, _, user, _, _, _, _, _, husers⟩
  · rw [hsame]
    exact ⟨admin, hmem, hadmin⟩
  · refine ⟨admin, ?_, hadmin⟩
    rw [husers]
    exact (UserTable.mem_setAccess_ne hne).mpr hmem

/-- An admin that locks itself out was the last one. -/
theorem not_hasAdmin_of_locksOut {db : AccountsDb} {r : UpdateRequest} (h : db.HasAdmin)
    (hlocks : db.LocksOut r) : ¬ (db.step r).HasAdmin := by
  obtain ⟨hself, hoff, hrole, honly⟩ := hlocks
  obtain ⟨admin, hmem, hadmin⟩ := h
  have hid : admin.id = r.subject := honly admin hmem hadmin
  have hstep : (db.step r).users
      = db.users.setAccess r.userId (r.body.role.getD admin.role) false := by
    have hcaller : adminUser db r.subject = .ok admin := hid ▸ adminUser_of_mem hmem hadmin
    have hfind : db.users.find r.userId = some admin := by
      rw [hself, ← hid]
      exact UserTable.find_of_mem hmem
    have hown : ¬ (r.userId = admin.id ∧
        r.body.role.any (fun role => decide (role ≠ admin.role)) = true) := by
      intro ⟨_, hany⟩
      cases hbody : r.body.role with
      | none => simp [hbody] at hany
      | some role => simp [hbody, hrole role hbody, hadmin.1] at hany
    unfold step UpdateRequest.handle
    rw [hcaller]
    simp only [Except.bind]
    unfold updateUser
    rw [if_neg hown, hfind, hoff]
    rfl
  intro ⟨u, hu, huadmin⟩
  rw [hstep] at hu
  by_cases huid : u.id = r.userId
  · have hactive := (UserTable.access_of_mem_setAccess hu huid).2
    rw [huadmin.2] at hactive
    exact absurd hactive (by simp)
  · have hold := (UserTable.mem_setAccess_ne huid).mp hu
    exact huid ((honly u hold huadmin).trans hself.symm)

/-- **One request**: an active admin remains unless the last one locks itself out. -/
theorem hasAdmin_step_iff {db : AccountsDb} (h : db.HasAdmin) (r : UpdateRequest) :
    (db.step r).HasAdmin ↔ ¬ db.LocksOut r := by
  refine ⟨fun hnext hlocks => not_hasAdmin_of_locksOut h hlocks hnext, fun hsafe => ?_⟩
  rcases step_cases db r with hsame | ⟨admin, hmem, user, huser, hid, hadmin, huserId,
    hrole, husers⟩
  · rw [hsame]
    exact h
  · by_cases hself : r.userId = r.subject
    · have hsame : user = admin := UserTable.eq_of_id huser hmem (by rw [huserId, hself, hid])
      by_cases hoff : r.body.isActive = some false
      · -- It is not the last one: another active admin is left.
        have hother : ∃ u ∈ db.users.rows, u.IsActiveAdmin ∧ u.id ≠ r.subject := by
          by_contra hnone
          refine hsafe ⟨hself, hoff, hrole hself, fun u hu huadmin => ?_⟩
          by_contra hne
          exact hnone ⟨u, hu, huadmin, hne⟩
        obtain ⟨u, hu, huadmin, hne⟩ := hother
        exact hasAdmin_other hu huadmin (by rw [hself]; exact hne)
      · have hset := UserTable.mem_setAccess_eq huser (r.body.role.getD user.role)
          (r.body.isActive.getD user.isActive)
        rw [huserId, ← husers] at hset
        refine ⟨_, hset, ?_, ?_⟩
        · show r.body.role.getD user.role = .admin
          cases hbody : r.body.role with
          | none => exact hsame ▸ hadmin.1
          | some role => exact hrole hself role hbody
        · show r.body.isActive.getD user.isActive = true
          cases hbody : r.body.isActive with
          | none => exact hsame ▸ hadmin.2
          | some flag =>
              rw [hbody] at hoff
              simpa using hoff
    · exact hasAdmin_other hmem hadmin (by rw [hid]; exact fun heq => hself heq.symm)

/-- **An active admin remains in every state of a run exactly when no request of the run is that
of the last one switching itself off.** -/
theorem admin_remains_iff (db : AccountsDb) (h : db.HasAdmin) (rs : List UpdateRequest) :
    (∀ front back, rs = front ++ back → (Runs.run step db front).HasAdmin) ↔
      Runs.Along step (fun db r => ¬ db.LocksOut r) db rs := by
  constructor
  · intro hall
    refine Runs.along_iff_split.mpr fun front r back hsplit => ?_
    have hbefore := hall front (r :: back) hsplit
    have hafter := hall (front ++ [r]) back (by rw [hsplit, List.append_assoc]; rfl)
    rw [Runs.run_append] at hafter
    exact (hasAdmin_step_iff hbefore r).mp hafter
  · intro hsafe front back hsplit
    rw [hsplit] at hsafe
    exact Runs.invariant (I := HasAdmin) (fun db r hdb hr => (hasAdmin_step_iff hdb r).mpr hr) h
      (Runs.along_append.mp hsafe).1

end AccountsDb

/-- An admin. -/
def firstAdmin : User := ⟨1, "admin@example.com", .admin, true⟩

/-- The admin is the only account. -/
def oneAdmin : AccountsDb where
  users := UserTable.empty.insert firstAdmin
  audit := []

/-- The admin switches itself off. -/
def switchOff : UpdateRequest where
  subject := 1
  userId := 1
  body := { isActive := some false }

theorem oneAdmin_rows : oneAdmin.users.rows = [firstAdmin] := by decide

theorem oneAdmin_hasAdmin : oneAdmin.HasAdmin :=
  ⟨firstAdmin, by rw [oneAdmin_rows]; exact List.mem_cons_self, by decide⟩

/-- The admin asks to be a viewer, and is refused. -/
def stepDown : UpdateRequest where
  subject := 1
  userId := 1
  body := { role := some .viewer }

/-- After that request there is still an admin. -/
theorem oneAdmin_remains : (Runs.run AccountsDb.step oneAdmin [stepDown]).HasAdmin := by
  refine (AccountsDb.admin_remains_iff oneAdmin oneAdmin_hasAdmin [stepDown]).mpr ⟨?_, trivial⟩
    [stepDown] [] rfl
  intro hlocks
  exact absurd hlocks.2.1 (by decide)

/-- The only admin switches itself off, and nobody is left. -/
theorem locked_out : ¬ ∀ (db : AccountsDb) (rs : List UpdateRequest), db.HasAdmin →
    Runs.Along AccountsDb.step AccountsDb.MadeByAdmin db rs →
      (Runs.run AccountsDb.step db rs).HasAdmin := by
  intro h
  have hmade : Runs.Along AccountsDb.step AccountsDb.MadeByAdmin oneAdmin [switchOff] :=
    ⟨⟨firstAdmin, by rw [oneAdmin_rows]; exact List.mem_cons_self, rfl, by decide⟩, trivial⟩
  obtain ⟨u, hu, hrole, hactive⟩ := h oneAdmin [switchOff] oneAdmin_hasAdmin hmade
  have hrows : (Runs.run AccountsDb.step oneAdmin [switchOff]).users.rows
      = [{ firstAdmin with isActive := false }] := by decide
  rw [hrows] at hu
  rw [List.mem_singleton.mp hu] at hactive
  exact absurd hactive (by decide)

end ForexAi
