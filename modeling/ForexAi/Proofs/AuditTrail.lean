/-
The audit log tells who may do what.

Replaying the differences of its entries gives the access of every account, in whatever way
the requests run into one another (`replay_step`): an update sends only the columns it has
changed against what it read, and the entry names both.  Its `before` is what was read, at a
moment when its actor was an active admin (`Grounded`).
-/
import ForexAi.Services.AuditTrail

namespace ForexAi

/-! ### The table, account by account -/

namespace UserTable

theorem find_insert {t : UserTable} {u : User} (hid : u.id ∉ t.rows.map (·.id))
    (hemail : u.email ∉ t.rows.map (·.email)) (id : Uuid) :
    (t.insert u).find id = if u.id = id then some u else t.find id := by
  unfold insert find
  rw [dif_pos ⟨hid, hemail⟩]
  simp only
  rw [List.find?_append]
  by_cases hsame : u.id = id
  · have hnone : t.rows.find? (fun v => decide (v.id = id)) = none := by
      refine List.find?_eq_none.mpr fun v hv hsome => hid ?_
      rw [hsame, ← of_decide_eq_true hsome]
      exact List.mem_map_of_mem hv
    rw [hnone, if_pos hsame]
    simp [hsame]
  · rw [if_neg hsame]
    simp [hsame]

theorem find_setAccess (t : UserTable) (id : Uuid) (role : UserRole) (isActive : Bool)
    (other : Uuid) :
    (t.setAccess id role isActive).find other =
      (t.find other).map fun u => if u.id = id then { u with role, isActive } else u := by
  have hkey : ((fun v : User => decide (v.id = other)) ∘
      fun u : User => if u.id = id then { u with role, isActive } else u) =
      fun u => decide (u.id = other) := by
    funext u
    show decide ((if u.id = id then { u with role, isActive } else u).id = other) = _
    split <;> rfl
  unfold setAccess find
  simp only
  rw [List.find?_map, hkey]

/-- An update changes the account it is about, by its difference. -/
theorem access_amend (t : UserTable) (entry : UserUpdated) (id : Uuid) :
    ((t.amend entry).find id).map User.access =
      AccountAudit.replay id ((t.find id).map User.access) (.updated entry) := by
  rw [AccountAudit.replay_updated]
  unfold amend
  by_cases hsame : entry.entityId = id
  · rw [if_pos hsame, hsame]
    cases hfind : t.find id with
    | none => simp [hfind]
    | some user =>
        have hid := (mem_of_find hfind).2
        simp only
        rw [find_setAccess, hfind]
        simp [hid, User.access]
  · rw [if_neg hsame]
    cases hfind : t.find entry.entityId with
    | none => rfl
    | some user =>
        simp only
        rw [find_setAccess, Option.map_map]
        cases hother : t.find id with
        | none => rfl
        | some v =>
            have hid := (mem_of_find hother).2
            have hne : v.id ≠ entry.entityId := by
              rw [hid]
              exact Ne.symm hsame
            simp [hne]

end UserTable

namespace TrailWorld

/-! ### What the log tells

An entry names the columns it changes, before and after.  Replaying the entries of an account
in the order they were committed therefore follows the table, also where an entry was written
on an older reading than the row it met.
-/

/-- The log and the table agree on an account. -/
def Told (w : TrailWorld) : Prop :=
  ∀ id, replayLog w.log id = (w.users.find id).map User.access

theorem replayLog_concat (log : List AccountAudit) (entry : AccountAudit) (id : Uuid) :
    replayLog (log ++ [entry]) id = AccountAudit.replay id (replayLog log id) entry := by
  unfold replayLog
  rw [List.foldl_append]
  rfl

/-- **A step keeps the log and the table in agreement.** -/
theorem replay_step {w : TrailWorld} (h : w.Told) (e : TrailStep) : (w.step e).Told := by
  cases e with
  | register id email role =>
      unfold step
      simp only
      split
      · exact h
      · rename_i hfresh
        obtain ⟨hid, hemail⟩ := not_or.mp hfresh
        intro other
        show replayLog (w.log ++ [.registered email id role]) other = _
        rw [replayLog_concat, h other]
        have hfind := UserTable.find_insert
          (u := { id := id, email := email, role := role, isActive := true }) hid hemail other
        rw [show ((w.users.insert { id, email, role, isActive := true }).find other) = _ from hfind]
        rw [AccountAudit.replay_registered]
        split <;> rfl
  | read i r => exact h
  | commit i =>
      cases hentry : w.pending i with
      | none =>
          rw [step_commit_none hentry]
          exact h
      | some entry =>
          rw [step_commit hentry]
          intro id
          show replayLog (w.log ++ [.updated entry]) id = _
          rw [replayLog_concat, h id, UserTable.access_amend]
  | lost i => exact h

theorem told_start : Told {} := fun _ => rfl

theorem told_run (es : List TrailStep) : (Runs.run step {} es).Told :=
  Runs.invariant (I := Told) (P := fun _ _ => True) (fun _ e h _ => replay_step h e) told_start
    (Runs.along_of_forall fun _ _ => trivial)

/-! ### Where an entry comes from

What a request carries was read before, at a moment of the run when its actor was an active
admin.  That it is out of date by the time it is written does not make it untrue of that
moment.
-/

/-- The entry says what a request of an active admin read, and what it asked for. -/
def ReadAt (w : TrailWorld) (entry : UserUpdated) : Prop :=
  ∃ admin ∈ w.users.rows, admin.IsActiveAdmin ∧ entry.actor = admin.email ∧
    ∃ user ∈ w.users.rows, user.id = entry.entityId ∧ entry.before = user.access ∧
      (user.id = admin.id → entry.after.role = admin.role)

theorem readAt_entryOf {w : TrailWorld} {r : UpdateRequest} {entry : UserUpdated}
    (h : entryOf w.users r = some entry) : w.ReadAt entry := by
  unfold entryOf UpdateRequest.handle at h
  cases hadmin : adminUser ⟨w.users, []⟩ r.subject with
  | error e => simp [hadmin, Except.bind] at h
  | ok admin =>
      obtain ⟨hmem, hid, hactive⟩ := adminUser_ok hadmin
      rw [hadmin] at h
      simp only [Except.bind] at h
      unfold updateUser at h
      by_cases hown : r.userId = admin.id ∧
          r.body.role.any (fun role => decide (role ≠ admin.role)) = true
      · rw [if_pos hown] at h
        exact absurd h (by simp)
      · rw [if_neg hown] at h
        cases hfind : w.users.find r.userId with
        | none => simp [hfind] at h
        | some user =>
            obtain ⟨huser, huserId⟩ := UserTable.mem_of_find hfind
            simp only [hfind, List.nil_append, List.head?_cons, Option.some.injEq] at h
            subst h
            refine ⟨admin, hmem, hactive, rfl, user, huser, rfl, rfl, fun hself => ?_⟩
            have hsame : user = admin := UserTable.eq_of_id huser hmem hself
            have hany : r.body.role.any (fun role => decide (role ≠ admin.role)) ≠ true :=
              fun hany => hown ⟨huserId.symm.trans hself, hany⟩
            show r.body.role.getD user.role = admin.role
            cases hrole : r.body.role with
            | none => rw [Option.getD_none, hsame]
            | some role =>
                rw [Option.getD_some]
                rw [hrole, Option.any_some] at hany
                by_contra hne
                exact hany (decide_eq_true hne)

/-- Every entry about a change, written or about to be, was read at some moment of the run. -/
def Grounded (es : List TrailStep) (w : TrailWorld) : Prop :=
  ∀ entry, (.updated entry ∈ w.log ∨ ∃ i, w.pending i = some entry) →
    ∃ before after, es = before ++ after ∧ (Runs.run step {} before).ReadAt entry

theorem grounded_run (es : List TrailStep) : Grounded es (Runs.run step {} es) := by
  induction es using List.reverseRecOn with
  | nil =>
      intro entry h
      rcases h with h | ⟨i, h⟩
      · exact absurd h (by simp [Runs.run])
      · exact absurd h (by simp [Runs.run])
  | append_singleton es e ih =>
      rw [Runs.run_append]
      have hold : ∀ entry, (.updated entry ∈ (Runs.run step {} es).log ∨
          ∃ i, (Runs.run step {} es).pending i = some entry) →
          ∃ before after, es ++ [e] = before ++ after ∧
            (Runs.run step {} before).ReadAt entry := by
        intro entry h
        obtain ⟨before, after, hsplit, hread⟩ := ih entry h
        exact ⟨before, after ++ [e], by rw [hsplit, List.append_assoc], hread⟩
      intro entry h
      change .updated entry ∈ ((Runs.run step {} es).step e).log ∨
        ∃ i, ((Runs.run step {} es).step e).pending i = some entry at h
      cases e with
      | register id email role =>
          refine hold entry ?_
          unfold step at h
          simp only at h
          split at h
          · exact h
          · rcases h with hlog | hpending
            · rcases List.mem_append.mp hlog with hin | hnew
              · exact Or.inl hin
              · exact absurd (List.mem_singleton.mp hnew) (by simp)
            · exact Or.inr hpending
      | read i r =>
          rcases h with hlog | ⟨j, hpending⟩
          · exact hold entry (Or.inl hlog)
          · change (if j = i then entryOf _ r else _) = some entry at hpending
            split at hpending
            · exact ⟨es, [.read i r], rfl, readAt_entryOf hpending⟩
            · exact hold entry (Or.inr ⟨j, hpending⟩)
      | commit i =>
          refine hold entry ?_
          cases hentry : (Runs.run step {} es).pending i with
          | none =>
              rw [step_commit_none hentry] at h
              exact h
          | some committed =>
              rw [step_commit hentry] at h
              rcases h with hlog | ⟨j, hpending⟩
              · rcases List.mem_append.mp hlog with hin | hnew
                · exact Or.inl hin
                · have hsame : entry = committed :=
                    AccountAudit.updated.inj (List.mem_singleton.mp hnew)
                  exact Or.inr ⟨i, hsame ▸ hentry⟩
              · change (if j = i then none else _) = some entry at hpending
                split at hpending
                · exact absurd hpending (by simp)
                · exact Or.inr ⟨j, hpending⟩
      | lost i =>
          refine hold entry ?_
          rcases h with hlog | ⟨j, hpending⟩
          · exact Or.inl hlog
          · change (if j = i then none else _) = some entry at hpending
            split at hpending
            · exact absurd hpending (by simp)
            · exact Or.inr ⟨j, hpending⟩

/-! ### A request that runs alone -/

/-- What a request is let through with, and what it does to the accounts. -/
theorem entryOf_cases (users : UserTable) (r : UpdateRequest) :
    (entryOf users r = none ∧ AccountsDb.step ⟨users, []⟩ r = ⟨users, []⟩) ∨
      ∃ entry, entryOf users r = some entry ∧
        AccountsDb.step ⟨users, []⟩ r = ⟨users.amend entry, [entry]⟩ := by
  unfold entryOf AccountsDb.step UpdateRequest.handle
  cases adminUser ⟨users, []⟩ r.subject with
  | error e => exact Or.inl ⟨rfl, rfl⟩
  | ok admin =>
      simp only [Except.bind]
      unfold updateUser
      by_cases hown : r.userId = admin.id ∧
          r.body.role.any (fun role => decide (role ≠ admin.role)) = true
      · rw [if_pos hown]
        exact Or.inl ⟨rfl, rfl⟩
      · rw [if_neg hown]
        cases hfind : users.find r.userId with
        | none => exact Or.inl ⟨rfl, rfl⟩
        | some user =>
            refine Or.inr ⟨_, rfl, ?_⟩
            have hid := (UserTable.mem_of_find hfind).2
            have hamend : users.amend
                { actor := admin.email, entityId := user.id,
                  before := ⟨user.role, user.isActive⟩,
                  after := ⟨r.body.role.getD user.role, r.body.isActive.getD user.isActive⟩ } =
                users.setAccess r.userId (r.body.role.getD user.role)
                  (r.body.isActive.getD user.isActive) := by
              unfold UserTable.amend
              simp only [hid, hfind]
              rw [show user.access = ⟨user.role, user.isActive⟩ from rfl, Access.amend_self]
            rw [hamend]
            rfl

/-- A request that nothing comes in between of does what it does by itself, and logs it. -/
theorem step_alone (w : TrailWorld) (i : ℕ) (r : UpdateRequest) :
    ((w.step (.read i r)).step (.commit i)).users = (AccountsDb.step ⟨w.users, []⟩ r).users ∧
      ((w.step (.read i r)).step (.commit i)).log =
        w.log ++ (AccountsDb.step ⟨w.users, []⟩ r).audit.map .updated := by
  have hpending : (w.step (.read i r)).pending i = entryOf w.users r := if_pos rfl
  rcases entryOf_cases w.users r with ⟨hnone, hstep⟩ | ⟨entry, hentry, hstep⟩
  · rw [step_commit_none (hpending.trans hnone), hstep]
    exact ⟨rfl, (List.append_nil _).symm⟩
  · rw [step_commit (hpending.trans hentry), hstep]
    exact ⟨rfl, rfl⟩

/-- **The audit log tells the access of every account**, however the requests run into one
another: it is what replaying the differences of the entries gives.  Each entry says what was
read at some moment of the run by a request of someone who was an active admin then; and a
request that runs alone logs exactly what it does. -/
theorem audit_reconstructs (es : List TrailStep) :
    (∀ id, replayLog (Runs.run step {} es).log id =
        ((Runs.run step {} es).users.find id).map User.access) ∧
      Grounded es (Runs.run step {} es) ∧
      ∀ i r, ((Runs.run step {} (es ++ [.read i r, .commit i])).users =
          (AccountsDb.step ⟨(Runs.run step {} es).users, []⟩ r).users ∧
        (Runs.run step {} (es ++ [.read i r, .commit i])).log =
          (Runs.run step {} es).log ++
            (AccountsDb.step ⟨(Runs.run step {} es).users, []⟩ r).audit.map .updated) := by
  refine ⟨told_run es, grounded_run es, fun i r => ?_⟩
  rw [Runs.run_append]
  exact step_alone _ i r

end TrailWorld

end ForexAi
