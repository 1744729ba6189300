/-
The bootstrap admin.

A request is promised the admin role when its count finds no account, and gets it when it
commits.  Between the two others may count as well, and find none either.  `CountsAlone`
rules that out: no request counts an empty table while one that did so is still under way.

In a run that keeps to it the promise is unique, and the table is empty until it is kept
(`BootstrapInv`).  At the first count that does not, two requests are promised the role;
both can go on and commit (`both_commit`).
-/
import ForexAi.Services.Registration

namespace ForexAi

/-- Two accounts with the admin role are one. -/
def UserTable.AtMostOneAdmin (t : UserTable) : Prop :=
  ∀ u ∈ t.rows, ∀ v ∈ t.rows, u.role = .admin → v.role = .admin → u = v

/-- What an insert leaves. -/
theorem UserTable.mem_insert {t : UserTable} {u v : User} (h : v ∈ (t.insert u).rows) :
    v ∈ t.rows ∨ v = u := by
  unfold UserTable.insert at h
  split at h
  · rcases List.mem_append.mp h with hv | hv
    · exact Or.inl hv
    · exact Or.inr (List.mem_singleton.mp hv)
  · exact Or.inl h

theorem UserTable.rows_insert {t : UserTable} {u : User} (hid : u.id ∉ t.rows.map (·.id))
    (hemail : u.email ∉ t.rows.map (·.email)) : (t.insert u).rows = t.rows ++ [u] := by
  unfold UserTable.insert
  rw [dif_pos ⟨hid, hemail⟩]

/-- After an insert there are accounts. -/
theorem UserTable.insert_ne_nil (t : UserTable) (u : User) : (t.insert u).rows ≠ [] := by
  unfold UserTable.insert
  split
  · simp
  · rename_i htaken
    intro hnil
    have hnil' : t.rows = [] := hnil
    exact htaken (by simp [hnil'])

namespace RegistrationWorld

/-- The step is not a count of an empty table beside a request that is promised the admin role. -/
def CountsAlone (w : RegistrationWorld) : Step → Prop
  | .run i => (∃ r, w.requests[i]? = some r ∧ r.phase = .unused) → w.users.rows = [] →
      ∀ r ∈ w.requests, r.phase.promised ≠ some .admin
  | _ => True

instance (w : RegistrationWorld) : ∀ e, Decidable (w.CountsAlone e)
  | .run i =>
      inferInstanceAs (Decidable ((∃ r ∈ w.requests[i]?, r.phase = .unused) → w.users.rows = [] →
        ∀ r ∈ w.requests, r.phase.promised ≠ some .admin))
  | .arrive _ => inferInstanceAs (Decidable True)
  | .lost _ => inferInstanceAs (Decidable True)

/-! ### Alone

The count and the commit of a request are two moments.  A promise is made at the first and
kept at the second, and in between no other is made.
-/

/-- What a run of lone counts keeps. -/
structure BootstrapInv (w : RegistrationWorld) : Prop where
  /-- One request at most is promised the admin role. -/
  first : ∀ (i j : ℕ) (r q : RegisterRequest), w.requests[i]? = some r → w.requests[j]? = some q →
    r.phase.promised = some .admin → q.phase.promised = some .admin → i = j
  /-- Until the promise is kept there are no accounts. -/
  empty : ∀ r ∈ w.requests, r.phase.promised = some .admin → w.users.rows = []
  /-- Another role is promised when there are some. -/
  later : ∀ r ∈ w.requests, ∀ role, r.phase.promised = some role → role ≠ .admin →
    w.users.rows ≠ []
  admins : w.users.AtMostOneAdmin

theorem bootstrapInv_start : start.BootstrapInv where
  first := fun i j r q hr => absurd hr (by simp [start])
  empty := fun r hr => absurd hr (by simp [start])
  later := fun r hr => absurd hr (by simp [start])
  admins := fun u hu => absurd hu (by simp [start, UserTable.empty])

/-- A request of the world after one went on: that one, or another as it was. -/
theorem mem_proceed {w : RegistrationWorld} {i : ℕ} {phase : RegisterPhase} {q : RegisterRequest}
    (h : q ∈ (w.proceed i phase).requests) : q.phase = phase ∨ q ∈ w.requests := by
  obtain ⟨j, hj⟩ := List.mem_iff_getElem?.mp h
  rw [getElem?_proceed] at hj
  obtain ⟨r, hr, rfl⟩ := Option.map_eq_some_iff.mp hj
  by_cases hij : i = j
  · rw [if_pos hij]
    exact Or.inl rfl
  · rw [if_neg hij]
    exact Or.inr (List.mem_of_getElem? hr)

/-- A promise is found where it was, unless it is a new one. -/
theorem promised_proceed {w : RegistrationWorld} {i : ℕ} {phase : RegisterPhase} {j : ℕ}
    {q : RegisterRequest} (h : (w.proceed i phase).requests[j]? = some q) :
    (j = i ∧ q.phase = phase) ∨ (j ≠ i ∧ w.requests[j]? = some q) := by
  rw [getElem?_proceed] at h
  obtain ⟨r, hr, rfl⟩ := Option.map_eq_some_iff.mp h
  by_cases hij : i = j
  · rw [if_pos hij]
    exact Or.inl ⟨hij.symm, rfl⟩
  · rw [if_neg hij]
    exact Or.inr ⟨fun h => hij h.symm, hr⟩

/-- Where no promise is new the invariant stays. -/
theorem bootstrapInv_of_kept {w w' : RegistrationWorld} (h : w.BootstrapInv)
    (husers : w'.users = w.users)
    (hkept : ∀ (j : ℕ) (q : RegisterRequest) (role : UserRole), w'.requests[j]? = some q →
      q.phase.promised = some role →
      ∃ q', w.requests[j]? = some q' ∧ q'.phase.promised = some role) :
    w'.BootstrapInv := by
  constructor
  · intro j k q p hq hp hqAdmin hpAdmin
    obtain ⟨q', hq', hqAdmin'⟩ := hkept j q .admin hq hqAdmin
    obtain ⟨p', hp', hpAdmin'⟩ := hkept k p .admin hp hpAdmin
    exact h.first j k q' p' hq' hp' hqAdmin' hpAdmin'
  · intro q hq hqAdmin
    obtain ⟨j, hj⟩ := List.mem_iff_getElem?.mp hq
    obtain ⟨q', hq', hqAdmin'⟩ := hkept j q .admin hj hqAdmin
    rw [husers]
    exact h.empty q' (List.mem_of_getElem? hq') hqAdmin'
  · intro q hq role hrole hne
    obtain ⟨j, hj⟩ := List.mem_iff_getElem?.mp hq
    obtain ⟨q', hq', hrole'⟩ := hkept j q role hj hrole
    rw [husers]
    exact h.later q' (List.mem_of_getElem? hq') role hrole' hne
  · rw [husers]
    exact h.admins

/-- A request goes on with the role it was promised, or without one. -/
theorem bootstrapInv_proceed {w : RegistrationWorld} (h : w.BootstrapInv) {i : ℕ}
    {r : RegisterRequest} (hi : w.requests[i]? = some r) {phase : RegisterPhase}
    (hkeep : ∀ role, phase.promised = some role → r.phase.promised = some role) :
    (w.proceed i phase).BootstrapInv := by
  refine bootstrapInv_of_kept h rfl fun j q role hq hrole => ?_
  rcases promised_proceed hq with ⟨rfl, hphase⟩ | ⟨-, hsame⟩
  · exact ⟨r, hi, hkeep role (hphase ▸ hrole)⟩
  · exact ⟨q, hsame, hrole⟩

theorem bootstrapInv_arrive {w : RegistrationWorld} (h : w.BootstrapInv) (email : String) :
    BootstrapInv { w with requests := w.requests ++ [⟨email, .received⟩] } := by
  refine bootstrapInv_of_kept h rfl fun j q role hq hrole => ?_
  have hq' : (w.requests ++ [⟨email, .received⟩])[j]? = some q := hq
  by_cases hj : j < w.requests.length
  · rw [List.getElem?_append_left hj] at hq'
    exact ⟨q, hq', hrole⟩
  · rw [List.getElem?_append_right (Nat.le_of_not_lt hj)] at hq'
    rw [List.mem_singleton.mp (List.mem_of_getElem? hq')] at hrole
    exact absurd hrole (by simp [RegisterPhase.promised])

theorem bootstrapInv_count {w : RegistrationWorld} (h : w.BootstrapInv) {i : ℕ}
    (halone : w.users.rows = [] → ∀ r ∈ w.requests, r.phase.promised ≠ some .admin) :
    (w.proceed i (.counted (registeredRole none w.users.rows.length))).BootstrapInv := by
  have hrole : registeredRole none w.users.rows.length
      = if w.users.rows = [] then .admin else .viewer := by
    unfold registeredRole
    simp [List.length_eq_zero_iff]
  by_cases hempty : w.users.rows = []
  · have hnone := halone hempty
    rw [hrole, if_pos hempty]
    constructor
    · intro j k q p hq hp hqAdmin hpAdmin
      rcases promised_proceed hq with ⟨rfl, -⟩ | ⟨-, hq⟩
      · rcases promised_proceed hp with ⟨rfl, -⟩ | ⟨-, hp⟩
        · rfl
        · exact absurd hpAdmin (hnone p (List.mem_of_getElem? hp))
      · exact absurd hqAdmin (hnone q (List.mem_of_getElem? hq))
    · intro q _ _
      exact hempty
    · intro q hq role hq' hne
      rcases mem_proceed hq with hphase | hq
      · rw [hphase] at hq'
        exact absurd (Option.some.inj hq').symm hne
      · exact h.later q hq role hq' hne
    · exact h.admins
  · rw [hrole, if_neg hempty]
    have hold (q : RegisterRequest) (hq : q ∈ (w.proceed i (.counted .viewer)).requests)
        (hadmin : q.phase.promised = some .admin) : q ∈ w.requests := by
      rcases mem_proceed hq with hphase | hq
      · rw [hphase] at hadmin
        exact absurd (Option.some.inj hadmin) (by decide)
      · exact hq
    constructor
    · intro j k q p hq _ hqAdmin _
      have hq' := hold q (List.mem_of_getElem? hq) hqAdmin
      exact absurd (h.empty q hq' hqAdmin) hempty
    · intro q hq hqAdmin
      exact h.empty q (hold q hq hqAdmin) hqAdmin
    · intro _ _ _ _ _
      exact hempty
    · exact h.admins

theorem bootstrapInv_commit {w : RegistrationWorld} (h : w.BootstrapInv) {i : ℕ}
    {r : RegisterRequest} (hi : w.requests[i]? = some r) {role : UserRole}
    (hphase : r.phase = .inserted role) :
    BootstrapInv
      { w.proceed i (.registered role) with
        users := w.users.insert ⟨i, r.email, role, true⟩
        audit := w.audit ++ [⟨r.email, i, role⟩] } := by
  have hpromised : r.phase.promised = some role := by rw [hphase]; rfl
  -- A promise that is left is another request's, and then not of the admin role.
  have hleft (q : RegisterRequest) (hq : q ∈ (w.proceed i (.registered role)).requests)
      (hadmin : q.phase.promised = some .admin) : False := by
    obtain ⟨j, hj⟩ := List.mem_iff_getElem?.mp hq
    rcases promised_proceed hj with ⟨rfl, hdone⟩ | ⟨hne, hj⟩
    · rw [hdone] at hadmin
      exact absurd hadmin (by simp [RegisterPhase.promised])
    · by_cases hrole : role = .admin
      · exact hne (h.first j i q r hj hi hadmin (hrole ▸ hpromised))
      · exact h.later r (List.mem_of_getElem? hi) role hpromised hrole
          (h.empty q (List.mem_of_getElem? hj) hadmin)
  constructor
  · intro j k q p hq _ hqAdmin _
    exact (hleft q (List.mem_of_getElem? hq) hqAdmin).elim
  · intro q hq hqAdmin
    exact (hleft q hq hqAdmin).elim
  · intro _ _ _ _ _
    exact w.users.insert_ne_nil _
  · intro u hu v hv hurole hvrole
    by_cases hrole : role = .admin
    · have hempty := h.empty r (List.mem_of_getElem? hi) (hrole ▸ hpromised)
      have hnew (x : User) (hx : x ∈ (w.users.insert ⟨i, r.email, role, true⟩).rows) :
          x = ⟨i, r.email, role, true⟩ := by
        rcases UserTable.mem_insert hx with hx | hx
        · rw [hempty] at hx
          exact absurd hx (by simp)
        · exact hx
      exact (hnew u hu).trans (hnew v hv).symm
    · have hold (x : User) (hx : x ∈ (w.users.insert ⟨i, r.email, role, true⟩).rows)
          (hxrole : x.role = .admin) : x ∈ w.users.rows := by
        rcases UserTable.mem_insert hx with hx | hx
        · exact hx
        · rw [hx] at hxrole
          exact absurd hxrole hrole
      exact h.admins u (hold u hu hurole) v (hold v hv hvrole) hurole hvrole

/-- **Every step that counts alone keeps the invariant.** -/
theorem bootstrapInv_step {w : RegistrationWorld} (h : w.BootstrapInv) {e : Step}
    (halone : w.CountsAlone e) : (w.step e).BootstrapInv := by
  rcases w.step_cases e with ⟨hsame, -⟩ | ⟨email, -, harrive⟩ | ⟨i, r, hi, -, hcases⟩
  · rw [hsame]
    exact h
  · rw [harrive]
    exact bootstrapInv_arrive h email
  · rcases hcases with ⟨phase, hkeep, hproceed⟩ | ⟨rfl, hphase, hcount⟩ | ⟨role, hphase, hcommit⟩
    · rw [hproceed]
      exact bootstrapInv_proceed h hi hkeep
    · rw [hcount]
      exact bootstrapInv_count h (halone ⟨r, hi, hphase⟩)
    · rw [hcommit]
      exact bootstrapInv_commit h hi hphase

/-! ### Not alone

A request that was promised a role can be run to its end whatever the others have done, if its
email is its own.  Two of them end with two admins.
-/

/-- With distinct emails two requests with one email are one. -/
theorem index_of_email {w : RegistrationWorld} (hdistinct : (w.requests.map (·.email)).Nodup)
    {i j : ℕ} {r q : RegisterRequest} (hi : w.requests[i]? = some r)
    (hj : w.requests[j]? = some q) (hemail : r.email = q.email) : i = j := by
  have hi' : (w.requests.map (·.email))[i]? = some r.email := by rw [List.getElem?_map, hi]; rfl
  have hj' : (w.requests.map (·.email))[j]? = some q.email := by rw [List.getElem?_map, hj]; rfl
  obtain ⟨hlt, -⟩ := List.getElem?_eq_some_iff.mp hi'
  exact (List.getElem?_inj hlt hdistinct).mp (by rw [hi', hj', hemail])

theorem not_blocked {w : RegistrationWorld} (hdistinct : (w.requests.map (·.email)).Nodup) {i : ℕ}
    {r : RegisterRequest} (hi : w.requests[i]? = some r) : w.blocked i r.email = false := by
  unfold blocked
  refine List.any_eq_false.mpr fun q hq => ?_
  obtain ⟨j, hne, hj⟩ := List.mem_eraseIdx_iff_getElem?.mp hq
  have hother : q.email ≠ r.email := fun hemail => hne (index_of_email hdistinct hj hi hemail)
  simp [hother]

/-- An account whose id and email are new is inserted, and then committed. -/
theorem commits_inserted {w : RegistrationWorld} {j : ℕ} {q : RegisterRequest}
    (hj : w.requests[j]? = some q) {role : UserRole} (hphase : q.phase = .inserted role)
    (hid : j ∉ w.users.rows.map (·.id)) (hemail : q.email ∉ w.users.rows.map (·.email)) :
    (w.step (.run j)).users.rows = w.users.rows ++ [⟨j, q.email, role, true⟩] ∧
      (w.step (.run j)).requests = (w.proceed j (.registered role)).requests := by
  rw [step_run hj, hphase]
  exact ⟨UserTable.rows_insert hid hemail, rfl⟩

/-- **A request that is promised a role can go on and commit**, whatever the others do later. -/
theorem commits {w : RegistrationWorld} (hdistinct : (w.requests.map (·.email)).Nodup) {j : ℕ}
    {q : RegisterRequest} (hj : w.requests[j]? = some q) {role : UserRole}
    (hrole : q.phase.promised = some role) (hid : j ∉ w.users.rows.map (·.id))
    (hemail : q.email ∉ w.users.rows.map (·.email)) :
    ∃ more : List Step, (∀ e ∈ more, e.email = none) ∧
      (Runs.run step w more).users.rows = w.users.rows ++ [⟨j, q.email, role, true⟩] ∧
      (Runs.run step w more).requests.map (·.email) = w.requests.map (·.email) ∧
      ∀ k, k ≠ j → (Runs.run step w more).requests[k]? = w.requests[k]? := by
  cases hphase : q.phase with
  | inserted role' =>
      rw [hphase] at hrole
      obtain rfl : role' = role := Option.some.inj hrole
      obtain ⟨hrows, hrequests⟩ := commits_inserted hj hphase hid hemail
      refine ⟨[.run j], by simp [Step.email], hrows, ?_, fun k hne => ?_⟩
      · show (w.step (.run j)).requests.map _ = _
        rw [hrequests]
        exact w.emails_proceed j _
      · show (w.step (.run j)).requests[k]? = _
        rw [hrequests]
        exact w.proceed_other hne _
  | counted role' =>
      rw [hphase] at hrole
      obtain rfl : role' = role := Option.some.inj hrole
      have hfree : w.taken q.email = false := by
        refine List.any_eq_false.mpr fun u hu htaken => hemail ?_
        exact List.mem_map.mpr ⟨u, hu, of_decide_eq_true htaken⟩
      have hinsert : w.step (.run j) = w.proceed j (.inserted role') := by
        rw [step_run hj, hphase]
        simp only [advance, not_blocked hdistinct hj, hfree]
        rfl
      obtain ⟨hrows, hrequests⟩ :=
        commits_inserted (proceed_self hj (.inserted role')) rfl hid hemail
      rw [← hinsert] at hrows hrequests
      refine ⟨[.run j, .run j], by simp [Step.email], ?_, ?_, fun k hne => ?_⟩
      · show ((w.step (.run j)).step (.run j)).users.rows = _
        rw [hrows, hinsert]
        rfl
      · show ((w.step (.run j)).step (.run j)).requests.map _ = _
        rw [hrequests, hinsert, emails_proceed, emails_proceed]
      · show ((w.step (.run j)).step (.run j)).requests[k]? = _
        rw [hrequests, hinsert, proceed_other _ hne, proceed_other _ hne]
  | received => simp [hphase, RegisterPhase.promised] at hrole
  | unused => simp [hphase, RegisterPhase.promised] at hrole
  | registered role' => simp [hphase, RegisterPhase.promised] at hrole
  | failed e => simp [hphase, RegisterPhase.promised] at hrole

/-- After a count that is not alone two requests can go on and commit, both as admins. -/
theorem both_commit {w : RegistrationWorld} (hdistinct : (w.requests.map (·.email)).Nodup)
    {e : Step} (hcount : ¬ w.CountsAlone e) :
    ∃ more : List Step, (∀ e ∈ more, e.email = none) ∧
      ¬ (Runs.run step (w.step e) more).users.AtMostOneAdmin := by
  cases e with
  | arrive email => exact absurd trivial hcount
  | lost i => exact absurd trivial hcount
  | run i =>
      unfold CountsAlone at hcount
      push Not at hcount
      obtain ⟨⟨r, hi, hphase⟩, hempty, q, hq, hadmin⟩ := hcount
      obtain ⟨j, hj⟩ := List.mem_iff_getElem?.mp hq
      have hne : j ≠ i := by
        intro hji
        rw [hji, hi] at hj
        rw [← Option.some.inj hj, hphase] at hadmin
        exact absurd hadmin (by simp [RegisterPhase.promised])
      have hcounted : w.step (.run i) = w.proceed i (.counted .admin) := by
        rw [step_run hi, hphase]
        show w.proceed i (.counted (registeredRole none w.users.rows.length)) = _
        rw [hempty]
        rfl
      rw [hcounted]
      have hdistinct₁ : ((w.proceed i (.counted .admin)).requests.map (·.email)).Nodup := by
        rw [emails_proceed]
        exact hdistinct
      have hj₁ : (w.proceed i (.counted .admin)).requests[j]? = some q :=
        (w.proceed_other hne _).trans hj
      have hrows₁ : (w.proceed i (.counted .admin)).users.rows = [] := hempty
      obtain ⟨first, hfirst, hrows₂, hemails₂, hothers₂⟩ := commits hdistinct₁ hj₁ hadmin
        (by simp [hrows₁]) (by simp [hrows₁])
      rw [hrows₁, List.nil_append] at hrows₂
      set w₂ := Runs.run step (w.proceed i (.counted .admin)) first with hw₂
      have hi₂ := (hothers₂ i hne.symm).trans (proceed_self hi (.counted .admin))
      have hemail : r.email ≠ q.email := fun heq => hne (index_of_email hdistinct hj hi heq.symm)
      obtain ⟨second, hsecond, hrows₃, -, -⟩ := commits (by rw [hemails₂]; exact hdistinct₁) hi₂ rfl
        (by simp [hrows₂, hne.symm]) (by simp [hrows₂, hemail])
      refine ⟨first ++ second, ?_, ?_⟩
      · intro e he
        rcases List.mem_append.mp he with he | he
        · exact hfirst e he
        · exact hsecond e he
      · rw [Runs.run_append, ← hw₂]
        intro hone
        rw [UserTable.AtMostOneAdmin, hrows₃, hrows₂] at hone
        have hsame := hone ⟨j, q.email, .admin, true⟩ (by simp) ⟨i, r.email, .admin, true⟩ (by simp)
          rfl rfl
        exact hne (congrArg User.id hsame)

/-- **The bootstrap admin is unique in every run in which no request counts an empty table beside
one that is already promised the role.**  After any count that breaks this, and distinct
emails, the requests under way can go on to two committed admins. -/
theorem bootstrap_unique (es : List Step) :
    (Runs.Along step CountsAlone start es → (Runs.run step start es).users.AtMostOneAdmin) ∧
      ∀ e : Step, ((es ++ [e]).filterMap Step.email).Nodup →
        ¬ (Runs.run step start es).CountsAlone e →
          ∃ more : List Step, (∀ e ∈ more, e.email = none) ∧
            ¬ (Runs.run step start (es ++ e :: more)).users.AtMostOneAdmin := by
  refine ⟨fun halone => ?_, fun e hemails hcount => ?_⟩
  · exact (Runs.invariant (I := BootstrapInv) (fun _ _ h he => bootstrapInv_step h he)
      bootstrapInv_start halone).admins
  · have hdistinct : ((Runs.run step start es).requests.map (·.email)).Nodup := by
      rw [emails_run]
      rw [List.filterMap_append] at hemails
      exact (List.nodup_append.mp hemails).1
    obtain ⟨more, hmore, htwo⟩ := both_commit hdistinct hcount
    refine ⟨more, hmore, ?_⟩
    rw [Runs.run_append]
    exact htwo

/-- Two registrations under way together, of which the second counts when the first has
committed. -/
def oneCountsLate : List Step :=
  [.arrive "a@example.com", .arrive "b@example.com", .run 0, .run 1, .run 0, .run 0, .run 0, .run 1,
    .run 1, .run 1]

/-- They make one admin; where the second counts at once, they can go on to two. -/
theorem late_count_unique : (Runs.run step start oneCountsLate).users.AtMostOneAdmin ∧
    ∃ more : List Step, (∀ e ∈ more, e.email = none) ∧ ¬ (Runs.run step start
      ([.arrive "a@example.com", .arrive "b@example.com", .run 0, .run 1, .run 0] ++
        .run 1 :: more)).users.AtMostOneAdmin :=
  ⟨(bootstrap_unique oneCountsLate).1 (by decide),
    (bootstrap_unique [.arrive "a@example.com", .arrive "b@example.com", .run 0, .run 1, .run 0]).2
      (.run 1) (by decide) (by decide)⟩

/-- Two registrations, statement by statement in turn. -/
def inTurn : List Step :=
  [.arrive "a@example.com", .arrive "b@example.com", .run 0, .run 1, .run 0, .run 1, .run 0, .run 1,
    .run 0, .run 1]

/-- Both count before either commits, and both become admins. -/
theorem two_admins : ¬ ∀ es : List Step, (es.filterMap Step.email).Nodup →
    (Runs.run step start es).users.AtMostOneAdmin := by
  intro h
  have hone := h inTurn (by decide)
  have hrows : (Runs.run step start inTurn).users.rows
      = [⟨0, "a@example.com", .admin, true⟩, ⟨1, "b@example.com", .admin, true⟩] := by decide
  rw [UserTable.AtMostOneAdmin, hrows] at hone
  have hsame := hone _ List.mem_cons_self _ (List.mem_cons_of_mem _ List.mem_cons_self) rfl rfl
  exact absurd (congrArg User.id hsame) (by decide)

end RegistrationWorld

end ForexAi
