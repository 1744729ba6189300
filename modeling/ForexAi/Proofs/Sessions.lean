/-
Refresh tokens, one request at a time.

Of a family only the token issued last can be live (`LastOnly`): a rotation revokes the one
live token of the family in the transaction that issues the next, and a login starts a
family nobody has seen.  So a revoked token that is shown again is an old one, and showing
it revokes what is live.  The revocation outlives the error it raises, because it is
committed first; and a family without a live token never gets one again.
-/
import Mathlib.Logic.Function.Basic
import ForexAi.Services.Auth

namespace ForexAi

namespace TokenTable

/-- Of two tokens of one family the earlier is revoked. -/
def LastOnly (t : TokenTable) : Prop :=
  t.rows.Pairwise fun earlier later =>
    earlier.familyId = later.familyId → earlier.isRevoked = true

/-- No token of the family is live. -/
def FamilyRevoked (t : TokenTable) (familyId : Uuid) : Prop :=
  ∀ r ∈ t.rows, r.familyId = familyId → r.isRevoked = true

variable {t : TokenTable}

/-- Beside a live token every token of its family is revoked. -/
theorem LastOnly.others_revoked (h : t.LastOnly) {row other : RefreshToken} (hrow : row ∈ t.rows)
    (hlive : row.isRevoked = false) (hother : other ∈ t.rows)
    (hfamily : other.familyId = row.familyId) (hne : other ≠ row) : other.isRevoked = true := by
  have hsymm : t.rows.Pairwise fun a b =>
      a.familyId = b.familyId → a.isRevoked = true ∨ b.isRevoked = true :=
    h.imp fun hab heq => Or.inl (hab heq)
  have : Std.Symm fun a b : RefreshToken =>
      a.familyId = b.familyId → a.isRevoked = true ∨ b.isRevoked = true :=
    ⟨fun a b hab heq => (hab heq.symm).symm⟩
  rcases hsymm.forall hother hrow hne hfamily with hother | hrow
  · exact hother
  · exact absurd (hlive.symm.trans hrow) (by simp)

/-- An update leaves a row its family and its identifier, and revoked if it was. -/
theorem familyId_update (selected : RefreshToken → Bool) (now : Time) (successor : Option Uuid)
    (r : RefreshToken) :
    (if selected r then r.revoke now successor else r).familyId = r.familyId ∧
      (r.isRevoked = true → (if selected r then r.revoke now successor else r).isRevoked = true) ∧
      (if selected r then r.revoke now successor else r).jti = r.jti := by
  by_cases h : selected r = true
  · rw [if_pos h]
    exact ⟨rfl, fun _ => rfl, rfl⟩
  · rw [if_neg h]
    exact ⟨rfl, fun h => h, rfl⟩

theorem LastOnly.revokeWhere (h : t.LastOnly) (selected : RefreshToken → Bool) (now : Time)
    (successor : Option Uuid) : (t.revokeWhere selected now successor).LastOnly := by
  unfold LastOnly TokenTable.revokeWhere
  refine List.pairwise_map.mpr (h.imp fun {a b} hab => ?_)
  obtain ⟨hfamilyA, hkeeps, -⟩ := familyId_update selected now successor a
  obtain ⟨hfamilyB, -⟩ := familyId_update selected now successor b
  rw [hfamilyA, hfamilyB]
  exact fun heq => hkeeps (hab heq)

theorem FamilyRevoked.revokeWhere {familyId : Uuid} (h : t.FamilyRevoked familyId)
    (selected : RefreshToken → Bool) (now : Time) (successor : Option Uuid) :
    (t.revokeWhere selected now successor).FamilyRevoked familyId := by
  intro r hr hfamily
  obtain ⟨old, hold, rfl⟩ := mem_revokeWhere.mp hr
  obtain ⟨hsame, hkeeps, -⟩ := familyId_update selected now successor old
  exact hkeeps (h old hold (hsame ▸ hfamily))

/-- A new row keeps the order when every token of its family is revoked. -/
theorem LastOnly.insert (h : t.LastOnly) {r : RefreshToken} (hfamily : t.FamilyRevoked r.familyId) :
    (t.insert r).LastOnly := by
  by_cases hdup : r.jti ∈ t.rows.map (·.jti)
  · unfold TokenTable.insert
    rwa [dif_pos hdup]
  · unfold LastOnly
    rw [rows_insert hdup]
    refine List.pairwise_append.mpr ⟨h, List.pairwise_singleton _ _, fun a ha b hb hab => ?_⟩
    rw [List.mem_singleton.mp hb] at hab
    exact hfamily a ha hab

theorem FamilyRevoked.insert {familyId : Uuid} (h : t.FamilyRevoked familyId) {r : RefreshToken}
    (hother : r.familyId ≠ familyId) : (t.insert r).FamilyRevoked familyId := by
  by_cases hdup : r.jti ∈ t.rows.map (·.jti)
  · unfold TokenTable.insert
    rwa [dif_pos hdup]
  · intro x hx hfamily
    rw [rows_insert hdup] at hx
    rcases List.mem_append.mp hx with hx | hx
    · exact h x hx hfamily
    · rw [List.mem_singleton.mp hx] at hfamily
      exact absurd hfamily hother

theorem mem_insert {r x : RefreshToken} (h : x ∈ (t.insert r).rows) : x ∈ t.rows ∨ x = r := by
  by_cases hdup : r.jti ∈ t.rows.map (·.jti)
  · unfold TokenTable.insert at h
    rw [dif_pos hdup] at h
    exact Or.inl h
  · rw [rows_insert hdup] at h
    exact (List.mem_append.mp h).imp id List.mem_singleton.mp

/-- Revoking a live token leaves no live token in its family. -/
theorem LastOnly.revoked_family (h : t.LastOnly) {row : RefreshToken} (hrow : row ∈ t.rows)
    (hlive : row.isRevoked = false) (now : Time) (successor : Option Uuid) :
    (t.revokeWhere (fun r => decide (r.jti = row.jti)) now successor).FamilyRevoked
      row.familyId := by
  intro r hr hfamily
  obtain ⟨old, hold, rfl⟩ := mem_revokeWhere.mp hr
  by_cases hjti : old.jti = row.jti
  · rw [if_pos (decide_eq_true hjti)]
    rfl
  · rw [if_neg (by simpa using hjti)] at hfamily ⊢
    exact h.others_revoked hrow hlive hold hfamily fun heq => hjti (heq ▸ rfl)

/-- An insert beside an update of other rows: the two commute. -/
theorem insert_revokeWhere {r : RefreshToken} {selected : RefreshToken → Bool} {now : Time}
    {successor : Option Uuid} (hnot : selected r = false) :
    (t.insert r).revokeWhere selected now successor
      = (t.revokeWhere selected now successor).insert r := by
  have hids : (t.revokeWhere selected now successor).rows.map (·.jti) = t.rows.map (·.jti) :=
    jtis_revoke t.rows selected now successor
  by_cases hdup : r.jti ∈ t.rows.map (·.jti)
  · unfold TokenTable.insert
    rw [dif_pos hdup, dif_pos (hids ▸ hdup)]
  · refine TokenTable.ext ?_
    rw [rows_insert (hids ▸ hdup)]
    show (t.insert r).rows.map _ = t.rows.map _ ++ [r]
    rw [rows_insert hdup, List.map_append, List.map_singleton, hnot]
    rfl

/-- Revoking the live tokens of a family leaves the rows of the others. -/
theorem mem_revoke_family {familyId : Uuid} {now : Time} {r : RefreshToken}
    (hother : r.familyId ≠ familyId) :
    r ∈ (t.revokeWhere (fun r => decide (r.familyId = familyId) && !r.isRevoked) now none).rows ↔
      r ∈ t.rows := by
  rw [mem_revokeWhere]
  refine ⟨?_, fun h => ⟨r, h, by simp [hother]⟩⟩
  rintro ⟨old, hold, rfl⟩
  obtain ⟨hsame, -⟩ := familyId_update
    (fun r => decide (r.familyId = familyId) && !r.isRevoked) now none old
  rw [hsame] at hother
  simpa [hother] using hold

theorem revoke_family_all {familyId : Uuid} {now : Time} :
    (t.revokeWhere (fun r => decide (r.familyId = familyId) && !r.isRevoked) now
      none).FamilyRevoked familyId := by
  intro r hr hfamily
  obtain ⟨old, hold, rfl⟩ := mem_revokeWhere.mp hr
  by_cases hsel : (decide (old.familyId = familyId) && !old.isRevoked) = true
  · rw [if_pos hsel]
    rfl
  · rw [if_neg hsel] at hfamily ⊢
    simpa [hfamily] using hsel

end TokenTable

/-! ### Requests

A request runs in one transaction and either commits or raises, with one exception: a reuse is
committed and raises all the same.
-/

namespace AuthService

variable (settings : AuthSettings)

/-- One request, or a change to an account. -/
inductive AuthOp where
  | updateUser (user : User)
  | login (userId : Uuid) (now : Time)
  | rotate (raw : RawToken) (now : Time)
  | logout (raw : RawToken) (actor : String) (now : Time)

/-- The refresh route. -/
def refresh (st : AuthState) (raw : RawToken) (now : Time) :
    Except AuthError (TokenPair × User) × AuthState :=
  request st (rotateRefresh settings raw now)

/-- One step between two committed states. -/
def step (st : AuthState) : AuthOp → AuthState
  | .updateUser user =>
      { st with db := { st.db with users := Function.update st.db.users user.id (some user) } }
  | .login userId now =>
      match st.db.users userId with
      | none => st
      | some user => (request st (login settings user now)).2
  | .rotate raw now => (refresh settings st raw now).2
  | .logout raw actor now => (request st (revokeRefresh raw actor now)).2

/-- A service nobody logged in to. -/
def fresh (users : Uuid → Option User) : AuthState := ⟨⟨users, .empty, []⟩, 0⟩

/-- The token shown is decoded and has a row. -/
def Shows (st : AuthState) (raw : RawToken) (now : Time) (row : RefreshToken) : Prop :=
  ∃ claims, decodeToken now tokenTypeRefresh raw = .ok claims ∧
    claims.jti.bind st.db.tokens.find = some row

theorem Shows.mem {st : AuthState} {raw : RawToken} {now : Time} {row : RefreshToken}
    (h : Shows st raw now row) : row ∈ st.db.tokens.rows := by
  obtain ⟨claims, -, hfind⟩ := h
  obtain ⟨jti, -, hfind⟩ := Option.bind_eq_some_iff.mp hfind
  exact (TokenTable.mem_of_find hfind).1

theorem Shows.unique {st : AuthState} {raw : RawToken} {now : Time} {row row' : RefreshToken}
    (h : Shows st raw now row) (h' : Shows st raw now row') : row = row' := by
  obtain ⟨claims, hdecode, hfind⟩ := h
  obtain ⟨claims', hdecode', hfind'⟩ := h'
  obtain rfl := Except.ok.inj (hdecode.symm.trans hdecode')
  exact Option.some.inj (hfind.symm.trans hfind')

/-- What the refresh route does. -/
inductive RefreshEffect (st : AuthState) (raw : RawToken) (now : Time) :
    Except AuthError (TokenPair × User) × AuthState → Prop where
  /-- Refused without a trace; the token shown, if any, is live. -/
  | refused (e : AuthError) (hlive : ∀ row, Shows st raw now row → row.isRevoked = false) :
      RefreshEffect st raw now (.error e, st)
  /-- A revoked token: the family is revoked, durably, and the request fails. -/
  | reuse (row : RefreshToken) (hshows : Shows st raw now row) (hrevoked : row.isRevoked = true)
      (st' : AuthState)
      (htokens : st'.db.tokens = st.db.tokens.revokeWhere
        (fun r => decide (r.familyId = row.familyId) && !r.isRevoked) now none)
      (hnext : st'.next = st.next) :
      RefreshEffect st raw now (.error reuseMessage, st')
  /-- A live token: it is revoked and the next one of its family is issued. -/
  | rotated (row successor : RefreshToken) (hshows : Shows st raw now row)
      (hlive : row.isRevoked = false) (pair : TokenPair) (user : User) (st' : AuthState)
      (hjti : successor.jti = st.next) (hfamily : successor.familyId = row.familyId)
      (hnew : successor.isRevoked = false)
      (hpair : pair.refreshJti = successor.jti ∧ pair.refreshFamilyId = successor.familyId)
      (htokens : st'.db.tokens = (st.db.tokens.insert successor).revokeWhere
        (fun r => decide (r.jti = row.jti)) now (some successor.jti))
      (hnext : st'.next = st.next + 1) :
      RefreshEffect st raw now (.ok (pair, user), st')

/-- **The effect of the refresh route.** -/
theorem refresh_effect (st : AuthState) (raw : RawToken) (now : Time) :
    RefreshEffect st raw now (refresh settings st raw now) := by
  unfold refresh request rotateRefresh
  cases hdecode : decodeToken now tokenTypeRefresh raw with
  | error e =>
      refine .refused e ?_
      rintro row ⟨claims, hok, -⟩
      exact absurd (hdecode.symm.trans hok) (by simp)
  | ok claims =>
      cases hfind : claims.jti.bind st.db.tokens.find with
      | none =>
          simp only [hfind]
          refine .refused _ ?_
          rintro row ⟨claims', hok, hrow⟩
          obtain rfl := Except.ok.inj (hdecode.symm.trans hok)
          exact absurd (hfind.symm.trans hrow) (by simp)
      | some row =>
          have hshows : Shows st raw now row := ⟨claims, hdecode, hfind⟩
          simp only [hfind]
          by_cases hrevoked : row.isRevoked = true
          · simp only [if_pos hrevoked]
            exact .reuse row hshows hrevoked _ rfl rfl
          · simp only [if_neg hrevoked]
            have hlive : row.isRevoked = false := by simpa using hrevoked
            have honly : ∀ row', Shows st raw now row' → row'.isRevoked = false :=
              fun row' h => hshows.unique h ▸ hlive
            cases huser : st.db.users row.userId with
            | none => exact .refused _ honly
            | some user =>
                by_cases hactive : user.isActive = false
                · simp only [if_pos hactive]
                  exact .refused _ honly
                · simp only [if_neg hactive]
                  exact .rotated row
                    { userId := user.id, jti := st.next, familyId := row.familyId,
                      expiresAt := now + seconds (settings.refreshTokenExpireDays * 86400) }
                    hshows hlive _ _ _ rfl rfl rfl ⟨rfl, rfl⟩ rfl rfl

/-- What a logout does. -/
inductive LogoutEffect (st : AuthState) : AuthState → Prop where
  | nothing : LogoutEffect st st
  | revoked (selected : RefreshToken → Bool) (now : Time) (st' : AuthState)
      (htokens : st'.db.tokens = st.db.tokens.revokeWhere selected now none)
      (hnext : st'.next = st.next) : LogoutEffect st st'

theorem logout_effect (st : AuthState) (raw : RawToken) (actor : String) (now : Time) :
    LogoutEffect st (step settings st (.logout raw actor now)) := by
  simp only [step]
  unfold request revokeRefresh
  cases hdecode : decodeToken now tokenTypeRefresh raw with
  | error e => exact .nothing
  | ok claims =>
      cases hfind : claims.jti.bind st.db.tokens.find with
      | none => simp only [hfind]; exact .nothing
      | some row =>
          simp only [hfind]
          by_cases hrevoked : row.isRevoked = true
          · simp only [if_pos hrevoked]
            exact .nothing
          · simp only [if_neg hrevoked]
            exact .revoked _ _ _ rfl rfl

/-- What a login does: nothing, or the first token of a family just drawn is issued. -/
theorem login_effect (st : AuthState) (userId : Uuid) (now : Time) :
    step settings st (.login userId now) = st ∨
      ∃ r : RefreshToken, r.familyId = st.next ∧ r.jti = st.next + 1 ∧
        (step settings st (.login userId now)).next = st.next + 2 ∧
        (step settings st (.login userId now)).db.tokens = st.db.tokens.insert r := by
  simp only [step]
  cases huser : st.db.users userId with
  | none => exact Or.inl rfl
  | some user => exact Or.inr ⟨_, rfl, rfl, rfl, rfl⟩

/-! ### What holds of every committed state

Between requests the table is in order: identifiers were drawn, no two rows share one, and of
a family only the last row may be live.
-/

/-- The family and the identifier of every row were drawn. -/
def Drawn (t : TokenTable) (bound : ℕ) : Prop :=
  ∀ r ∈ t.rows, r.familyId < bound ∧ r.jti < bound

theorem Drawn.mono {t : TokenTable} {bound bound' : ℕ} (h : Drawn t bound) (hle : bound ≤ bound') :
    Drawn t bound' :=
  fun r hr => ⟨(h r hr).1.trans_le hle, (h r hr).2.trans_le hle⟩

theorem Drawn.revokeWhere {t : TokenTable} {bound : ℕ} (h : Drawn t bound)
    (selected : RefreshToken → Bool) (now : Time) (successor : Option Uuid) :
    Drawn (t.revokeWhere selected now successor) bound := by
  intro r hr
  obtain ⟨old, hold, rfl⟩ := TokenTable.mem_revokeWhere.mp hr
  obtain ⟨hfamily, -, hjti⟩ := TokenTable.familyId_update selected now successor old
  rw [hfamily, hjti]
  exact h old hold

theorem Drawn.insert {t : TokenTable} {bound : ℕ} (h : Drawn t bound) {new : RefreshToken}
    (hnew : new.familyId < bound ∧ new.jti < bound) : Drawn (t.insert new) bound := by
  intro r hr
  rcases TokenTable.mem_insert hr with hr | rfl
  · exact h r hr
  · exact hnew

theorem Drawn.jti_new {t : TokenTable} {bound : ℕ} (h : Drawn t bound) {jti : ℕ}
    (hjti : bound ≤ jti) : jti ∉ t.rows.map (·.jti) := by
  intro hmem
  obtain ⟨r, hr, rfl⟩ := List.mem_map.mp hmem
  exact absurd (h r hr).2 (not_lt.mpr hjti)

/-- What holds of every committed state. -/
structure Sound (st : AuthState) : Prop where
  lastOnly : st.db.tokens.LastOnly
  drawn : Drawn st.db.tokens st.next

theorem sound_fresh (users : Uuid → Option User) : Sound (fresh users) :=
  ⟨List.Pairwise.nil, fun r hr => absurd hr (by simp [fresh, TokenTable.empty])⟩

theorem Sound.revoked {st st' : AuthState} (h : Sound st) {selected : RefreshToken → Bool}
    {now : Time} {successor : Option Uuid}
    (htokens : st'.db.tokens = st.db.tokens.revokeWhere selected now successor)
    (hnext : st'.next = st.next) : Sound st' := by
  refine ⟨?_, ?_⟩
  · rw [htokens]
    exact h.lastOnly.revokeWhere _ _ _
  · rw [htokens, hnext]
    exact h.drawn.revokeWhere _ _ _

/-- The rows after a rotation: the token shown is revoked, its successor comes last. -/
theorem rotated_tokens {st : AuthState} (h : Sound st) {row successor : RefreshToken} {now : Time}
    (hrow : row ∈ st.db.tokens.rows) (hjti : successor.jti = st.next) :
    (st.db.tokens.insert successor).revokeWhere (fun r => decide (r.jti = row.jti)) now
        (some successor.jti)
      = (st.db.tokens.revokeWhere (fun r => decide (r.jti = row.jti)) now
        (some successor.jti)).insert successor := by
  refine TokenTable.insert_revokeWhere (decide_eq_false ?_)
  rw [hjti]
  exact (h.drawn row hrow).2.ne'

/-- **One step keeps a committed state sound.** -/
theorem sound_step {st : AuthState} (h : Sound st) (op : AuthOp) : Sound (step settings st op) := by
  cases op with
  | updateUser user => exact ⟨h.lastOnly, h.drawn⟩
  | login userId now =>
      rcases login_effect settings st userId now with hsame | ⟨r, hfamily, hjti, hnext, htokens⟩
      · rw [hsame]
        exact h
      · have hnew : r.familyId < st.next + 2 ∧ r.jti < st.next + 2 := by
          rw [hfamily, hjti]
          exact ⟨Nat.lt_add_of_pos_right (by decide), Nat.lt_succ_self _⟩
        refine ⟨?_, ?_⟩
        · rw [htokens]
          refine h.lastOnly.insert fun x hx heq => ?_
          exact absurd (heq.trans hfamily) (h.drawn x hx).1.ne
        · rw [htokens, hnext]
          exact (h.drawn.mono (Nat.le_add_right _ 2)).insert hnew
  | rotate raw now =>
      have heffect := refresh_effect settings st raw now
      simp only [step]
      generalize refresh settings st raw now = result at heffect ⊢
      cases heffect with
      | refused e hlive => exact h
      | reuse row hshows hrevoked st' htokens hnext => exact h.revoked htokens hnext
      | rotated row successor hshows hlive pair user st' hjti hfamily hlast hpair htokens hnext =>
          have hrow := hshows.mem
          have hnew : successor.familyId < st.next + 1 ∧ successor.jti < st.next + 1 := by
            rw [hfamily, hjti]
            exact ⟨Nat.lt_succ_of_lt (h.drawn row hrow).1, Nat.lt_succ_self _⟩
          refine ⟨?_, ?_⟩
          · rw [htokens, rotated_tokens h hrow hjti]
            refine (h.lastOnly.revokeWhere _ _ _).insert ?_
            rw [hfamily]
            exact h.lastOnly.revoked_family hrow hlive _ _
          · rw [htokens, hnext]
            exact ((h.drawn.mono (Nat.le_succ _)).insert hnew).revokeWhere _ _ _
  | logout raw actor now =>
      have heffect := logout_effect settings st raw actor now
      generalize step settings st (.logout raw actor now) = result at heffect ⊢
      cases heffect with
      | nothing => exact h
      | revoked selected now st' htokens hnext => exact h.revoked htokens hnext

theorem sound_run {st : AuthState} (h : Sound st) (ops : List AuthOp) :
    Sound (Runs.run (step settings) st ops) :=
  Runs.invariant (I := Sound) (P := fun _ _ => True) (fun _ op hs _ => sound_step settings hs op) h
    (Runs.along_of_forall fun _ _ => trivial)

/-! ### A revoked family

A family gets a new row only by rotating a live token of it.  So one that has none never has
one again.
-/

/-- A family that was drawn and has no live token. -/
structure Dead (st : AuthState) (familyId : Uuid) : Prop where
  drawn : familyId < st.next
  revoked : st.db.tokens.FamilyRevoked familyId

/-- **A dead family stays dead.** -/
theorem dead_step {st : AuthState} {familyId : Uuid} (h : Dead st familyId) (op : AuthOp) :
    Dead (step settings st op) familyId := by
  cases op with
  | updateUser user => exact ⟨h.drawn, h.revoked⟩
  | login userId now =>
      rcases login_effect settings st userId now with hsame | ⟨r, hfamily, -, hnext, htokens⟩
      · rw [hsame]
        exact h
      · refine ⟨?_, ?_⟩
        · rw [hnext]
          exact h.drawn.trans (Nat.lt_add_of_pos_right (by decide))
        · rw [htokens]
          exact h.revoked.insert (hfamily ▸ h.drawn.ne')
  | rotate raw now =>
      have heffect := refresh_effect settings st raw now
      simp only [step]
      generalize refresh settings st raw now = result at heffect ⊢
      cases heffect with
      | refused e hlive => exact h
      | reuse row hshows hrevoked st' htokens hnext =>
          refine ⟨hnext ▸ h.drawn, ?_⟩
          rw [htokens]
          exact h.revoked.revokeWhere _ _ _
      | rotated row successor hshows hlive pair user st' hjti hfamily hlast hpair htokens hnext =>
          -- The token shown is live, so it is of another family, and so is its successor.
          have hother : successor.familyId ≠ familyId := by
            intro heq
            have hrevoked := h.revoked row hshows.mem (hfamily ▸ heq)
            exact absurd (hlive.symm.trans hrevoked) (by simp)
          refine ⟨hnext ▸ Nat.lt_succ_of_lt h.drawn, ?_⟩
          rw [htokens]
          exact (h.revoked.insert hother).revokeWhere _ _ _
  | logout raw actor now =>
      have heffect := logout_effect settings st raw actor now
      generalize step settings st (.logout raw actor now) = result at heffect ⊢
      cases heffect with
      | nothing => exact h
      | revoked selected now st' htokens hnext =>
          refine ⟨hnext ▸ h.drawn, ?_⟩
          rw [htokens]
          exact h.revoked.revokeWhere _ _ _

theorem dead_run {st : AuthState} {familyId : Uuid} (h : Dead st familyId) (ops : List AuthOp) :
    Dead (Runs.run (step settings) st ops) familyId :=
  Runs.invariant (I := fun st => Dead st familyId) (P := fun _ _ => True)
    (fun _ op hs _ => dead_step settings hs op) h
    (Runs.along_of_forall fun _ _ => trivial)

/-- What a rotation issues is the last row, and live. -/
theorem rotated_last {st after : AuthState} (h : Sound st) {raw : RawToken} {now : Time}
    {pair : TokenPair} {user : User}
    (hrotated : refresh settings st raw now = (.ok (pair, user), after)) :
    ∃ earlier row, after.db.tokens.rows = earlier ++ [row] ∧ row.jti = pair.refreshJti ∧
      row.familyId = pair.refreshFamilyId ∧ row.isRevoked = false := by
  have heffect := refresh_effect settings st raw now
  rw [hrotated] at heffect
  cases heffect with
  | rotated row successor hshows hlive _ _ _ hjti hfamily hlast hpair htokens hnext =>
      have hnew := (h.drawn.revokeWhere (fun r => decide (r.jti = row.jti)) now
        (some successor.jti)).jti_new hjti.ge
      refine ⟨(st.db.tokens.revokeWhere (fun r => decide (r.jti = row.jti)) now
        (some successor.jti)).rows, successor, ?_, hpair.1.symm, hpair.2.symm, hlast⟩
      rw [htokens, rotated_tokens h hshows.mem hjti, TokenTable.rows_insert hnew]

/-- **Reuse is detected.**  In every committed state the live token of a family, if there is one,
is the last one issued in it, and a rotation issues the last row.  Showing a revoked token that
is not expired fails and leaves its whole family revoked and the rows of every other family as
they were; and from then on no token of that family is accepted. -/
theorem reuse_detected (users : Uuid → Option User) (ops : List AuthOp) :
    (Runs.run (step settings) (fresh users) ops).db.tokens.LastOnly ∧
    (∀ (raw : RawToken) (now : Time) (pair : TokenPair) (user : User) (after : AuthState),
      refresh settings (Runs.run (step settings) (fresh users) ops) raw now
          = (.ok (pair, user), after) →
        ∃ earlier row, after.db.tokens.rows = earlier ++ [row] ∧ row.jti = pair.refreshJti ∧
          row.familyId = pair.refreshFamilyId ∧ row.isRevoked = false) ∧
    ∀ (raw : RawToken) (now : Time) (row : RefreshToken),
      Shows (Runs.run (step settings) (fresh users) ops) raw now row → row.isRevoked = true →
      ∃ after, refresh settings (Runs.run (step settings) (fresh users) ops) raw now
          = (.error reuseMessage, after) ∧
        after.db.tokens.FamilyRevoked row.familyId ∧
        (∀ r : RefreshToken, r.familyId ≠ row.familyId →
          (r ∈ after.db.tokens.rows ↔
            r ∈ (Runs.run (step settings) (fresh users) ops).db.tokens.rows)) ∧
        ∀ (later : List AuthOp) (raw' : RawToken) (now' : Time) (row' : RefreshToken),
          Shows (Runs.run (step settings) after later) raw' now' row' →
          row'.familyId = row.familyId →
          ∃ e, (refresh settings (Runs.run (step settings) after later) raw' now').1
            = .error e := by
  have hsound := sound_run settings (sound_fresh users) ops
  set st := Runs.run (step settings) (fresh users) ops with hst
  refine ⟨hsound.lastOnly, fun _ _ _ _ _ => rotated_last settings hsound,
    fun raw now row hshows hrevoked => ?_⟩
  have heffect := refresh_effect settings st raw now
  generalize refresh settings st raw now = result at heffect ⊢
  cases heffect with
  | refused e hlive => exact absurd ((hlive row hshows).symm.trans hrevoked) (by simp)
  | rotated row' successor hshows' hlive =>
      obtain rfl := hshows.unique hshows'
      exact absurd (hlive.symm.trans hrevoked) (by simp)
  | reuse row' hshows' hrevoked' after htokens hnext =>
      obtain rfl := hshows.unique hshows'
      have hall : after.db.tokens.FamilyRevoked row.familyId := by
        rw [htokens]
        exact TokenTable.revoke_family_all
      have hdead : Dead after row.familyId := ⟨hnext ▸ (hsound.drawn row hshows.mem).1, hall⟩
      refine ⟨after, rfl, hall, fun r hother => ?_, fun later raw' now' row' hlater hfamily => ?_⟩
      · rw [htokens]
        exact TokenTable.mem_revoke_family hother
      · have hstill := (dead_run settings hdead later).revoked row' hlater.mem hfamily
        have heffect := refresh_effect settings (Runs.run (step settings) after later) raw' now'
        generalize refresh settings (Runs.run (step settings) after later) raw' now' = result
          at heffect ⊢
        cases heffect with
        | refused e hlive => exact ⟨e, rfl⟩
        | reuse row'' => exact ⟨reuseMessage, rfl⟩
        | rotated row'' successor hshows'' hlive =>
            obtain rfl := hlater.unique hshows''
            exact absurd (hlive.symm.trans hstill) (by simp)

/-- A trader. -/
def traders (id : Uuid) : Option User :=
  if id = 7 then some { id := 7, email := "trader@example.com", role := .trader, isActive := true }
  else none

/-- Fifteen minutes and a day. -/
def shortSettings : AuthSettings where
  accessTokenExpireMinutes := 15
  refreshTokenExpireDays := 1

/-- The token of a family's place, as its client holds it. -/
def heldToken (jti : Uuid) : RawToken :=
  .signed { sub := "7", type := tokenTypeRefresh, jti := some jti, exp := 86400 }

/-- A login, two rotations of its token, and another login. -/
def chain : List AuthOp :=
  [.login 7 0, .rotate (heldToken 1) 0, .rotate (heldToken 2) 0, .login 7 0]

/-- The token in the middle of the chain is shown again: its family is revoked, and the newest
token of the family is not accepted any more. -/
theorem reuse_detected_chain :
    ∃ after, refresh shortSettings (Runs.run (step shortSettings) (fresh traders) chain)
        (heldToken 2) 0 = (.error reuseMessage, after) ∧
      after.db.tokens.FamilyRevoked 0 ∧
      ∃ e, (refresh shortSettings after (heldToken 3) 0).1 = .error e := by
  obtain ⟨after, hreuse, hrevoked, -, hnever⟩ :=
    (reuse_detected shortSettings traders chain).2.2 (heldToken 2) 0
      { userId := 7, jti := 2, familyId := 0, expiresAt := seconds 86400, revokedAt := some 0,
        replacedByJti := some 3 } ⟨_, rfl, by decide⟩ rfl
  refine ⟨after, hreuse, hrevoked, ?_⟩
  have hafter : after = (refresh shortSettings
      (Runs.run (step shortSettings) (fresh traders) chain) (heldToken 2) 0).2 :=
    (congrArg Prod.snd hreuse).symm
  subst hafter
  exact hnever [] (heldToken 3) 0
    { userId := 7, jti := 3, familyId := 0, expiresAt := seconds 86400, revokedAt := some 0 }
    ⟨_, rfl, by decide⟩ rfl

end AuthService

end ForexAi
