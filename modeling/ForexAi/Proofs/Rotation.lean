/-
When concurrent rotations keep one live token.

The invariant ties what a request has read to what is committed.  A rotation that has
updated its row holds it, and as long as the row was live then it is live until the commit,
because nobody else can change it (`Phase.Ok`, `Tied.apart`).  So its commit takes one live
token of the family away and puts one there.

What can go wrong is before that: between the read and the update another request may have
rotated the same token.  The update does not ask.  `rotation_safe` says that nothing else
goes wrong.
-/
import ForexAi.Services.Rotation
import ForexAi.Proofs.Sessions

namespace ForexAi

/-- A family has at most one live token. -/
def TokenTable.AtMostOne (t : TokenTable) : Prop :=
  ∀ r ∈ t.rows, ∀ s ∈ t.rows, r.familyId = s.familyId →
    r.isRevoked = false → s.isRevoked = false → r = s

/-! ### What holds of a request

A request carries what it has read: first a row, then an update of it that is not committed.
What it has read may be out of date; what it has updated it holds, and nobody else can change
that row until it is done.
-/

/-- The row a request has read is still there. -/
def TokenTable.Known (t : TokenTable) (row : RefreshToken) : Prop :=
  ∃ r ∈ t.rows, r.jti = row.jti ∧ r.familyId = row.familyId

/-- The row a request has updated is there and its committed version is live. -/
structure TokenTable.Held (t : TokenTable) (row successor : RefreshToken) : Prop where
  known : t.Known row
  live : ∀ r ∈ t.rows, r.jti = row.jti → r.isRevoked = false
  family : successor.familyId = row.familyId
  fresh : successor.isRevoked = false

/-- What holds of a request, by how far it has come. -/
def Phase.Ok (t : TokenTable) : Phase → Prop
  | .found row => t.Known row
  | .admitted row _ => t.Known row
  | .updated row successor _ => t.Held row successor
  | .inserted row successor _ => t.Held row successor
  | .accepted jti _ => ∃ r ∈ t.rows, r.jti = jti ∧ r.isRevoked = true
  | _ => True

namespace TokenTable

variable {t : TokenTable} {row successor : RefreshToken}

theorem subset_insert (t : TokenTable) (new : RefreshToken) :
    ∀ r ∈ t.rows, r ∈ (t.insert new).rows := by
  intro r hr
  by_cases hdup : new.jti ∈ t.rows.map (·.jti)
  · unfold TokenTable.insert
    rwa [dif_pos hdup]
  · rw [rows_insert hdup]
    exact List.mem_append_left _ hr

theorem update_unselected {selected : RefreshToken → Bool} {now : Time} {next : Option Uuid}
    {r : RefreshToken} (h : selected r = false) :
    (if selected r then r.revoke now next else r) = r :=
  if_neg (by simp [h])

theorem Known.insert (h : t.Known row) (new : RefreshToken) : (t.insert new).Known row := by
  obtain ⟨r, hr, hrow⟩ := h
  exact ⟨r, t.subset_insert new r hr, hrow⟩

theorem Known.revokeWhere (h : t.Known row) (selected : RefreshToken → Bool) (now : Time)
    (next : Option Uuid) : (t.revokeWhere selected now next).Known row := by
  obtain ⟨r, hr, hjti, hfamily⟩ := h
  obtain ⟨hsame, -, hkey⟩ := familyId_update selected now next r
  exact ⟨_, mem_revokeWhere.mpr ⟨r, hr, rfl⟩, hkey.trans hjti, hsame.trans hfamily⟩

theorem Held.insert (h : t.Held row successor) {new : RefreshToken}
    (hnew : new.isRevoked = false) : (t.insert new).Held row successor := by
  refine ⟨h.known.insert new, fun r hr hjti => ?_, h.family, h.fresh⟩
  rcases mem_insert hr with hr | rfl
  · exact h.live r hr hjti
  · exact hnew

theorem Held.revokeWhere (h : t.Held row successor) {selected : RefreshToken → Bool}
    (hother : ∀ r : RefreshToken, r.jti = row.jti → selected r = false) (now : Time)
    (next : Option Uuid) : (t.revokeWhere selected now next).Held row successor := by
  refine ⟨h.known.revokeWhere _ _ _, fun r hr hjti => ?_, h.family, h.fresh⟩
  obtain ⟨old, hold, rfl⟩ := mem_revokeWhere.mp hr
  rw [(familyId_update selected now next old).2.2] at hjti
  rw [update_unselected (hother old hjti)]
  exact h.live old hold hjti

end TokenTable

namespace Phase

variable {t : TokenTable} {phase : Phase}

theorem Ok.insert (h : phase.Ok t) {new : RefreshToken} (hnew : new.isRevoked = false) :
    phase.Ok (t.insert new) := by
  cases phase with
  | found row => exact TokenTable.Known.insert h new
  | admitted row user => exact TokenTable.Known.insert h new
  | updated row successor revokedAt => exact TokenTable.Held.insert h hnew
  | inserted row successor revokedAt => exact TokenTable.Held.insert h hnew
  | accepted jti successor =>
      obtain ⟨r, hr, hrow⟩ := h
      exact ⟨r, t.subset_insert new r hr, hrow⟩
  | _ => trivial

theorem Ok.revokeWhere (h : phase.Ok t) {selected : RefreshToken → Bool}
    (hother : ∀ r : RefreshToken, r.jti ∈ phase.locks → selected r = false) (now : Time)
    (next : Option Uuid) : phase.Ok (t.revokeWhere selected now next) := by
  cases phase with
  | found row => exact TokenTable.Known.revokeWhere h _ _ _
  | admitted row user => exact TokenTable.Known.revokeWhere h _ _ _
  | updated row successor revokedAt =>
      exact TokenTable.Held.revokeWhere h (fun r hr => hother r (List.mem_singleton.mpr hr)) _ _
  | inserted row successor revokedAt =>
      exact TokenTable.Held.revokeWhere h (fun r hr => hother r (List.mem_singleton.mpr hr)) _ _
  | accepted jti successor =>
      obtain ⟨r, hr, hjti, hrevoked⟩ := h
      obtain ⟨-, hkeeps, hkey⟩ := TokenTable.familyId_update selected now next r
      exact ⟨_, TokenTable.mem_revokeWhere.mpr ⟨r, hr, rfl⟩, hkey.trans hjti, hkeeps hrevoked⟩
  | _ => trivial

end Phase

/-- What is live after an update was there before it, and not selected. -/
theorem TokenTable.live_of_revokeWhere {t : TokenTable} {selected : RefreshToken → Bool}
    {now : Time} {next : Option Uuid} {r : RefreshToken}
    (hr : r ∈ (t.revokeWhere selected now next).rows) (hlive : r.isRevoked = false) :
    r ∈ t.rows ∧ selected r = false := by
  obtain ⟨old, hold, rfl⟩ := mem_revokeWhere.mp hr
  have hsel : selected old = false := by
    by_contra hsel
    rw [if_pos (by simpa using hsel)] at hlive
    exact absurd hlive (by simp [RefreshToken.revoke, RefreshToken.isRevoked])
  rw [update_unselected hsel]
  exact ⟨hold, hsel⟩

namespace TokenTable.AtMostOne

variable {t : TokenTable}

theorem revokeWhere (h : t.AtMostOne) (selected : RefreshToken → Bool) (now : Time)
    (next : Option Uuid) : (t.revokeWhere selected now next).AtMostOne := by
  intro r hr s hs hfamily hliveR hliveS
  obtain ⟨hr, -⟩ := live_of_revokeWhere hr hliveR
  obtain ⟨hs, -⟩ := live_of_revokeWhere hs hliveS
  exact h r hr s hs hfamily hliveR hliveS

/-- **A rotation of a live token keeps one.** -/
theorem rotate (h : t.AtMostOne) {row successor : RefreshToken} (hheld : t.Held row successor)
    (now : Time) :
    ((t.insert successor).revokeWhere (fun r => decide (r.jti = row.jti)) now
      (some successor.jti)).AtMostOne := by
  -- What was live in the family beside the token shown is the token shown.
  have honly : ∀ r ∈ t.rows, r.isRevoked = false → r.familyId = successor.familyId →
      r.jti = row.jti := by
    intro r hr hlive hfamily
    obtain ⟨known, hknown, hjti, hfamilyK⟩ := hheld.known
    have heq := h r hr known hknown (hfamily.trans (hheld.family.trans hfamilyK.symm)) hlive
      (hheld.live known hknown hjti)
    rw [heq, hjti]
  intro r hr s hs hfamily hliveR hliveS
  obtain ⟨hr, hotherR⟩ := live_of_revokeWhere hr hliveR
  obtain ⟨hs, hotherS⟩ := live_of_revokeWhere hs hliveS
  have hnotR : r.jti ≠ row.jti := of_decide_eq_false hotherR
  have hnotS : s.jti ≠ row.jti := of_decide_eq_false hotherS
  rcases mem_insert hr with holdR | hnewR
  · rcases mem_insert hs with holdS | hnewS
    · exact h r holdR s holdS hfamily hliveR hliveS
    · exact absurd (honly r holdR hliveR (hfamily.trans (hnewS ▸ rfl))) hnotR
  · rcases mem_insert hs with holdS | hnewS
    · exact absurd (honly s holdS hliveS (hfamily.symm.trans (hnewR ▸ rfl))) hnotS
    · exact hnewR.trans hnewS.symm

end TokenTable.AtMostOne

/-! ### What holds of all of them

Two requests never hold one row, so what one of them commits can be judged by the row it holds
and the tables alone.  That a request goes on is a change at one place of a list, and the
others have to show only that the tables left them what they rely on.
-/

namespace RotationWorld

/-- No token was rotated twice. -/
def NoTwins (w : RotationWorld) : Prop :=
  ∀ (i j : ℕ) (jti s s' : Uuid), w.requests[i]? = some (Phase.accepted jti s) →
    w.requests[j]? = some (Phase.accepted jti s') → i = j

/-- At most one live token a family, and at most one accepted successor a token. -/
structure Safe (w : RotationWorld) : Prop where
  atMostOne : w.committed.AtMostOne
  noTwins : w.NoTwins

/-- The invariant. -/
structure Tied (w : RotationWorld) : Prop where
  atMostOne : w.committed.AtMostOne
  ok : ∀ (i : ℕ) (phase : Phase), w.requests[i]? = some phase → phase.Ok w.committed
  /-- A row is held by one request at most. -/
  apart : ∀ (i j : ℕ) (phase phase' : Phase), i ≠ j → w.requests[i]? = some phase →
    w.requests[j]? = some phase' → ∀ jti ∈ phase.locks, jti ∉ phase'.locks
  noTwins : w.NoTwins

variable {w : RotationWorld}

theorem get_proceed {i : ℕ} {phase : Phase} {j : ℕ} {found : Phase}
    (h : (w.requests.set i phase)[j]? = some found) :
    (j = i ∧ found = phase) ∨ (j ≠ i ∧ w.requests[j]? = some found) := by
  by_cases hj : j = i
  · subst hj
    rw [List.getElem?_set_self'] at h
    obtain ⟨old, -, hfound⟩ := Option.map_eq_some_iff.mp h
    exact Or.inl ⟨rfl, hfound.symm⟩
  · rw [List.getElem?_set_ne (Ne.symm hj)] at h
    exact Or.inr ⟨hj, h⟩

/-- A request goes on and the tables may change under the others: what has to be shown. -/
theorem Tied.proceed (h : Tied w) {i : ℕ} {phase : Phase} {w' : RotationWorld}
    (hrequests : w'.requests = w.requests.set i phase)
    (hone : w'.committed.AtMostOne) (hok : phase.Ok w'.committed)
    (hothers : ∀ (j : ℕ) (other : Phase), j ≠ i → w.requests[j]? = some other →
      other.Ok w'.committed)
    (hlocks : ∀ (j : ℕ) (other : Phase), j ≠ i → w.requests[j]? = some other →
      ∀ jti ∈ phase.locks, jti ∉ other.locks)
    (htwin : ∀ jti s, phase = .accepted jti s → ∀ (j : ℕ) (s' : Uuid), j ≠ i →
      w.requests[j]? ≠ some (Phase.accepted jti s')) :
    Tied w' := by
  refine ⟨hone, fun j found hj => ?_, fun j k found found' hjk hj hk => ?_,
    fun j k jti s s' hj hk => ?_⟩
  · rw [hrequests] at hj
    rcases get_proceed hj with ⟨-, rfl⟩ | ⟨hne, hj⟩
    · exact hok
    · exact hothers j found hne hj
  · rw [hrequests] at hj hk
    rcases get_proceed hj with ⟨rfl, rfl⟩ | ⟨hneJ, holdJ⟩
    · rcases get_proceed hk with ⟨rfl, -⟩ | ⟨hneK, holdK⟩
      · exact absurd rfl hjk
      · exact hlocks k found' hneK holdK
    · rcases get_proceed hk with ⟨rfl, rfl⟩ | ⟨hneK, holdK⟩
      · exact fun jti hmem hmem' => hlocks j found hneJ holdJ jti hmem' hmem
      · exact h.apart j k found found' hjk holdJ holdK
  · rw [hrequests] at hj hk
    rcases get_proceed hj with ⟨rfl, hphase⟩ | ⟨hneJ, holdJ⟩
    · rcases get_proceed hk with ⟨rfl, -⟩ | ⟨hneK, holdK⟩
      · rfl
      · exact absurd holdK (htwin jti s hphase.symm k s' hneK)
    · rcases get_proceed hk with ⟨rfl, hphase⟩ | ⟨hneK, holdK⟩
      · exact absurd holdJ (htwin jti s' hphase.symm j s hneJ)
      · exact h.noTwins j k jti s s' holdJ holdK

theorem Tied.proceed_quietly (h : Tied w) {i : ℕ} {phase : Phase} {w' : RotationWorld}
    (hrequests : w'.requests = w.requests.set i phase) (hcommitted : w'.committed = w.committed)
    (hok : phase.Ok w.committed)
    (hlocks : ∀ (j : ℕ) (other : Phase), j ≠ i → w.requests[j]? = some other →
      ∀ jti ∈ phase.locks, jti ∉ other.locks)
    (hnew : ∀ jti s, phase ≠ .accepted jti s) : Tied w' := by
  refine h.proceed hrequests (hcommitted ▸ h.atMostOne) (hcommitted ▸ hok) ?_ hlocks ?_
  · exact fun j other _ hj => hcommitted ▸ h.ok j other hj
  · exact fun jti s heq => absurd heq (hnew jti s)

theorem not_blocked {i : ℕ} {jtis : List Uuid} (h : w.blocked i jtis = false) {j : ℕ}
    {other : Phase} (hj : j ≠ i) (hother : w.requests[j]? = some other) :
    ∀ jti ∈ jtis, jti ∉ other.locks := by
  intro jti hmem hlock
  unfold blocked at h
  have hin : other ∈ w.requests.eraseIdx i := List.mem_eraseIdx_iff_getElem?.mpr ⟨j, hj, hother⟩
  have hfree := List.any_eq_false.mp h other hin
  exact hfree (List.any_eq_true.mpr ⟨jti, hlock, decide_eq_true hmem⟩)

/-! ### The commits -/

/-- **The commit of a rotation.** -/
theorem Tied.commit_rotation (h : Tied w) {i : ℕ} {row successor : RefreshToken} {revokedAt : Time}
    (hi : w.requests[i]? = some (.inserted row successor revokedAt)) {w' : RotationWorld}
    (hrequests : w'.requests = w.requests.set i (.accepted row.jti successor.jti))
    (hcommitted : w'.committed = (w.committed.insert successor).revokeWhere
      (fun r => decide (r.jti = row.jti)) revokedAt (some successor.jti)) : Tied w' := by
  have hheld : w.committed.Held row successor := h.ok i _ hi
  obtain ⟨known, hknown, hjti, -⟩ := hheld.known
  refine h.proceed hrequests ?_ ?_ ?_ ?_ ?_
  · rw [hcommitted]
    exact h.atMostOne.rotate hheld revokedAt
  · -- The row shown is revoked now.
    rw [hcommitted]
    refine ⟨_, TokenTable.mem_revokeWhere.mpr
      ⟨known, w.committed.subset_insert successor known hknown, rfl⟩, ?_, ?_⟩
    · exact (TokenTable.familyId_update (fun r => decide (r.jti = row.jti)) revokedAt
        (some successor.jti) known).2.2.trans hjti
    · rw [if_pos (decide_eq_true hjti)]
      rfl
  · intro j other hne hj
    rw [hcommitted]
    refine ((h.ok j other hj).insert hheld.fresh).revokeWhere (fun r hr => ?_) _ _
    refine decide_eq_false fun hsame => ?_
    exact h.apart i j _ other (Ne.symm hne) hi hj row.jti (List.mem_singleton.mpr rfl)
      (hsame ▸ hr)
  · exact fun j other _ _ jti hmem => absurd hmem (by simp [Phase.locks])
  · intro jti s heq j s' hne hj
    -- Whoever was accepted with this token left it revoked, but it is live.
    obtain ⟨hjtiEq, -⟩ := Phase.accepted.inj heq
    obtain ⟨r, hr, hrjti, hrevoked⟩ := h.ok j _ hj
    have hlive := hheld.live r hr (hrjti.trans hjtiEq.symm)
    exact absurd (hlive.symm.trans hrevoked) (by simp)

/-- **The commit of a revocation.** -/
theorem Tied.commit_sweep (h : Tied w) {i : ℕ} {row : RefreshToken} {jtis : List Uuid}
    {revokedAt : Time} (hi : w.requests[i]? = some (.swept row jtis revokedAt))
    {w' : RotationWorld} {e : AuthError} (hrequests : w'.requests = w.requests.set i (.failed e))
    (hcommitted : w'.committed =
      w.committed.revokeWhere (fun r => decide (r.jti ∈ jtis)) revokedAt none) : Tied w' := by
  refine h.proceed hrequests ?_ trivial ?_ ?_ ?_
  · rw [hcommitted]
    exact h.atMostOne.revokeWhere _ _ _
  · intro j other hne hj
    rw [hcommitted]
    refine (h.ok j other hj).revokeWhere (fun r hr => decide_eq_false fun hmem => ?_) _ _
    exact h.apart i j _ other (Ne.symm hne) hi hj r.jti hmem hr
  · exact fun j other _ _ jti hmem => absurd hmem (by simp [Phase.locks])
  · exact fun jti s heq => absurd heq (by simp)

/-! ### Steps and runs -/

variable (settings : AuthSettings)

/-- A token that is revoked by a rotation is live when its row is updated: nobody revoked it since
the request read it. -/
def Unraced (w : RotationWorld) : Step → Prop
  | .run i _ => ∀ row user, w.requests[i]? = some (Phase.admitted row user) →
      w.blocked i [row.jti] = false →
      ∀ r ∈ w.committed.rows, r.jti = row.jti → r.isRevoked = false
  | _ => True

/-- The row a request is about to update. -/
def Phase.about : Phase → Option RefreshToken
  | .admitted row _ => some row
  | _ => none

instance (w : RotationWorld) : ∀ s, Decidable (Unraced w s)
  | .run i _ =>
      decidable_of_iff (∀ phase ∈ w.requests[i]?, ∀ row ∈ Phase.about phase,
        w.blocked i [row.jti] = false →
          ∀ r ∈ w.committed.rows, r.jti = row.jti → r.isRevoked = false) (by
        refine ⟨fun h row user hphase => h _ hphase row rfl, fun h phase hphase row hrow => ?_⟩
        cases phase with
        | admitted row' user => exact Option.some.inj hrow ▸ h row' user hphase
        | _ => exact absurd hrow (by simp [Phase.about]))
  | .arrive _ _ => inferInstanceAs (Decidable True)
  | .updateUser _ => inferInstanceAs (Decidable True)

/-- **One statement keeps the invariant**, unless a rotation updates a row that was revoked since
it was read. -/
theorem Tied.advance (h : Tied w) {i : ℕ} {now : Time} {phase : Phase}
    (hi : w.requests[i]? = some phase) (hunraced : Unraced w (.run i now)) :
    Tied (advance settings w i now phase) := by
  have hok := h.ok i phase hi
  have hquiet : ∀ (p : Phase), p.locks = [] → ∀ (j : ℕ) (other : Phase), j ≠ i →
      w.requests[j]? = some other → ∀ jti ∈ p.locks, jti ∉ other.locks :=
    fun p hp j other _ _ jti hmem => absurd (hp ▸ hmem) (by simp)
  cases phase with
  | shown jti =>
      simp only [RotationWorld.advance]
      cases hfind : jti.bind w.committed.find with
      | none => exact h.proceed_quietly rfl rfl trivial (hquiet _ rfl) (by simp)
      | some row =>
          obtain ⟨id, -, hrow⟩ := Option.bind_eq_some_iff.mp hfind
          by_cases hrevoked : row.isRevoked = true
          · simp only [if_pos hrevoked]
            exact h.proceed_quietly rfl rfl trivial (hquiet _ rfl) (by simp)
          · simp only [if_neg hrevoked]
            refine h.proceed_quietly rfl rfl ?_ (hquiet _ rfl) (by simp)
            exact ⟨row, (TokenTable.mem_of_find hrow).1, rfl, rfl⟩
  | found row =>
      simp only [RotationWorld.advance]
      cases huser : w.users row.userId with
      | none => exact h.proceed_quietly rfl rfl trivial (hquiet _ rfl) (by simp)
      | some user =>
          by_cases hactive : user.isActive = true
          · simp only [if_pos hactive]
            exact h.proceed_quietly rfl rfl hok (hquiet _ rfl) (by simp)
          · simp only [if_neg hactive]
            exact h.proceed_quietly rfl rfl trivial (hquiet _ rfl) (by simp)
  | admitted row user =>
      simp only [RotationWorld.advance]
      by_cases hblocked : w.blocked i [row.jti] = true
      · rw [if_pos hblocked]
        exact h
      · rw [if_neg hblocked]
        have hfree : w.blocked i [row.jti] = false := by simpa using hblocked
        refine h.proceed_quietly rfl rfl ⟨hok, hunraced row user hi hfree, rfl, rfl⟩ ?_ (by simp)
        exact fun j other hne hj => not_blocked hfree hne hj
  | updated row successor revokedAt =>
      refine h.proceed_quietly rfl rfl hok ?_ (by simp)
      exact fun j other hne hj =>
        h.apart i j (.updated row successor revokedAt) other (Ne.symm hne) hi hj
  | inserted row successor revokedAt => exact h.commit_rotation hi rfl rfl
  | replayed row => exact h.proceed_quietly rfl rfl trivial (hquiet _ rfl) (by simp)
  | scanned row jtis =>
      simp only [RotationWorld.advance]
      by_cases hblocked : w.blocked i jtis = true
      · rw [if_pos hblocked]
        exact h
      · rw [if_neg hblocked]
        refine h.proceed_quietly rfl rfl trivial (fun j other hne hj jti hmem => ?_) (by simp)
        exact not_blocked (by simpa using hblocked) hne hj jti (List.mem_filter.mp hmem).1
  | swept row jtis revokedAt => exact h.commit_sweep hi rfl rfl
  | accepted jti successor => exact h
  | failed e => exact h

/-- A request that arrives has read and changed nothing. -/
theorem Tied.arrive (h : Tied w) {phase : Phase} (hok : phase.Ok w.committed)
    (hlocks : phase.locks = []) (hnew : ∀ jti s, phase ≠ .accepted jti s) :
    Tied { w with requests := w.requests ++ [phase] } := by
  have hget : ∀ (j : ℕ) (other : Phase), (w.requests ++ [phase])[j]? = some other →
      w.requests[j]? = some other ∨ other = phase := by
    intro j other hj
    rcases Nat.lt_or_ge j w.requests.length with hlt | hge
    · exact Or.inl (by rwa [List.getElem?_append_left hlt] at hj)
    · rw [List.getElem?_append_right hge] at hj
      exact Or.inr (List.mem_singleton.mp (List.mem_of_getElem? hj))
  refine ⟨h.atMostOne, fun j other hj => ?_, fun j k other other' hjk hj hk jti hmem => ?_,
    fun j k jti s s' hj hk => ?_⟩
  · rcases hget j other hj with hold | rfl
    · exact h.ok j other hold
    · exact hok
  · rcases hget j other hj with holdJ | rfl
    · rcases hget k other' hk with holdK | rfl
      · exact h.apart j k other other' hjk holdJ holdK jti hmem
      · rw [hlocks]
        simp
    · rw [hlocks] at hmem
      exact absurd hmem (by simp)
  · rcases hget j _ hj with holdJ | heq
    · rcases hget k _ hk with holdK | heq
      · exact h.noTwins j k jti s s' holdJ holdK
      · exact absurd heq.symm (hnew jti s')
    · exact absurd heq.symm (hnew jti s)

/-- **One step keeps the invariant.** -/
theorem Tied.step (h : Tied w) (s : Step) (hunraced : Unraced w s) : Tied (step settings w s) := by
  cases s with
  | arrive raw now =>
      simp only [RotationWorld.step]
      cases decodeToken now tokenTypeRefresh raw with
      | ok claims => exact h.arrive trivial rfl (by simp)
      | error e => exact h.arrive trivial rfl (by simp)
  | run i now =>
      simp only [RotationWorld.step]
      cases hi : w.requests[i]? with
      | none => exact h
      | some phase => exact h.advance settings hi hunraced
  | updateUser user => exact ⟨h.atMostOne, h.ok, h.apart, h.noTwins⟩

/-- **When concurrent rotations are safe.**  Start from any tables with at most one live token a
family and no request under way.  In every run in which each rotation updates the row of the
token shown while that row is still live, every state reached has at most one live token a
family, and no token has two accepted successors. -/
theorem rotation_safe (w : RotationWorld) (steps : List Step) :
    w.committed.AtMostOne → w.requests = [] →
      Runs.Along (step settings) Unraced w steps → (Runs.run (step settings) w steps).Safe := by
  intro hone hnone halong
  have hstart : Tied w := by
    refine ⟨hone, ?_, ?_, ?_⟩
    · intro i phase hi
      exact absurd hi (by simp [hnone])
    · intro i j phase phase' _ hi
      exact absurd hi (by simp [hnone])
    · intro i j jti s s' hi
      exact absurd hi (by simp [hnone])
  have hend := Runs.invariant (I := Tied) (fun _ s h hunraced => h.step settings s hunraced)
    hstart halong
  exact ⟨hend.atMostOne, hend.noTwins⟩

/-! ### Two requests with one token

The update is conditional on the identifier and not on the row being live.  A second request
that read the row in time waits for the first one's commit, and then updates the row again and
adds a second successor.
-/

/-- An account with one live token. -/
def oneLogin : RotationWorld where
  committed := TokenTable.empty.insert
    { userId := 7, jti := 1, familyId := 0, expiresAt := seconds 86400 }
  users := fun _ => some
    { id := 7, email := "trader@example.com", role := .trader, isActive := true }
  requests := []
  next := 2

/-- The token of the account, as its client holds it. -/
def loginToken : RawToken :=
  .signed { sub := "7", type := tokenTypeRefresh, jti := some 1, exp := 86400 }

def oneDay : AuthSettings where
  accessTokenExpireMinutes := 15
  refreshTokenExpireDays := 1

theorem oneLogin_rows : oneLogin.committed.rows =
    [{ userId := 7, jti := 1, familyId := 0, expiresAt := seconds 86400 }] := rfl

theorem oneLogin_atMostOne : oneLogin.committed.AtMostOne := by
  intro r hr s hs _ _ _
  rw [oneLogin_rows] at hr hs
  rw [List.mem_singleton.mp hr, List.mem_singleton.mp hs]

/-- The account with a second login. -/
def twoLogins : RotationWorld :=
  { oneLogin with
    committed := oneLogin.committed.insert
      { userId := 7, jti := 3, familyId := 2, expiresAt := seconds 86400 }
    next := 4 }

theorem twoLogins_atMostOne : twoLogins.committed.AtMostOne := by
  have hrows : twoLogins.committed.rows =
      [{ userId := 7, jti := 1, familyId := 0, expiresAt := seconds 86400 },
        { userId := 7, jti := 3, familyId := 2, expiresAt := seconds 86400 }] := rfl
  unfold TokenTable.AtMostOne
  rw [hrows]
  decide

/-- Both tokens are shown, the first one twice.  The rotations go on in turn; the second showing of
the first token reads its row when the first rotation is committed, before the other is. -/
def oneReadLate : List Step :=
  [.arrive loginToken 0,
    .arrive (.signed { sub := "7", type := tokenTypeRefresh, jti := some 3, exp := 86400 }) 0,
    .arrive loginToken 0, .run 0 0, .run 1 0, .run 0 0, .run 1 0, .run 0 0, .run 1 0, .run 0 0,
    .run 1 0, .run 0 0, .run 2 0, .run 2 0, .run 1 0, .run 2 0, .run 2 0]

/-- That is safe: the token shown twice has one successor, and its family is revoked. -/
theorem one_rotation_safe : (Runs.run (step oneDay) twoLogins oneReadLate).Safe :=
  rotation_safe oneDay twoLogins oneReadLate twoLogins_atMostOne rfl (by decide)

/-- Two requests that both read the row before either updates it. -/
def bothRead : List Step :=
  [.arrive loginToken 0, .arrive loginToken 0, .run 0 0, .run 1 0, .run 0 0, .run 1 0,
    .run 0 0, .run 0 0, .run 0 0, .run 1 0, .run 1 0, .run 1 0]

/-- Both rotations are accepted. -/
theorem both_rotations_accepted :
    ¬ ∀ (settings : AuthSettings) (w : RotationWorld) (steps : List Step),
      w.committed.AtMostOne → w.requests = [] → (Runs.run (step settings) w steps).Safe := by
  intro h
  have htwins := (h oneDay oneLogin bothRead oneLogin_atMostOne rfl).noTwins 0 1 1 2 3 rfl rfl
  exact absurd htwins (by decide)

end RotationWorld

end ForexAi
