/-
The lock is token-guarded.

A guarded method acts on the key two commands after it looked, and anything may happen in
between: the lease may expire, another instance may acquire.  What carries the argument is
`ClientOk.clean`: an instance that has confirmed its token and whose watch is still clean
does own the key, because a clean watch has missed nothing (`WatchedKey.Told`).  A
transaction that runs finds the watch clean, so it acts on its own lease.

A step of one instance is `Local` to it: the clients of the others are as they were, and
their watches tell them of everything the step did to the key.
-/
import ForexAi.Workers.Lock

namespace ForexAi

namespace LockWorld

variable {ι : Type*}

/-- What an instance may rely on at any moment. -/
structure ClientOk (w : LockWorld ι) (i : ι) : Prop where
  /-- Its token is one that it drew. -/
  drew : ∀ token, (w.clients i).ownerToken = some token → w.drawn[token]? = some i
  /-- A method under way has a token. -/
  armed : (w.clients i).ownerToken = none → (w.clients i).phase.isIdle
  /-- Between `WATCH` and the transaction the key is watched. -/
  watches : ∀ g, (w.clients i).phase = .watching g ∨ (w.clients i).phase = .confirmed g →
    w.redis.watch i ≠ none
  /-- A confirmed token under a clean watch is still the one the key holds. -/
  clean : ∀ g, (w.clients i).phase = .confirmed g → w.redis.watch i = some false → w.Owns i

/-- The invariant of the lock. -/
structure LockInv (w : LockWorld ι) : Prop where
  clients : ∀ i, w.ClientOk i
  /-- What the key holds was drawn by somebody. -/
  held : ∀ lease, w.redis.held = some lease → lease.value < w.drawn.length

/-- A step that is the instance's own business. -/
structure Local (i : ι) (w w' : LockWorld ι) : Prop where
  others : ∀ j, j ≠ i → w'.clients j = w.clients j
  told : ∀ j, j ≠ i → WatchedKey.Told j w.redis w'.redis
  drawn : w.drawn <+: w'.drawn

theorem drawn_of_prefix {drawn drawn' : List ι} (h : drawn <+: drawn') {token : OwnerToken}
    {i : ι} (hi : drawn[token]? = some i) : drawn'[token]? = some i := by
  obtain ⟨more, rfl⟩ := h
  obtain ⟨hlt, -⟩ := List.getElem?_eq_some_iff.mp hi
  rw [List.getElem?_append_left hlt]
  exact hi

namespace Local

variable {i : ι} {w w' w'' : LockWorld ι}

theorem refl : Local i w w :=
  ⟨fun _ _ => rfl, fun _ _ => WatchedKey.Told.refl, List.prefix_rfl⟩

theorem trans (h : Local i w w') (h' : Local i w' w'') : Local i w w'' where
  others j hj := (h'.others j hj).trans (h.others j hj)
  told j hj := (h.told j hj).trans (h'.told j hj)
  drawn := h.drawn.trans h'.drawn

/-- **What another instance relies on survives.** -/
theorem clientOk {j : ι} (h : Local i w w') (hj : j ≠ i) (hok : w.ClientOk j) :
    w'.ClientOk j := by
  have hsame := h.others j hj
  refine ⟨?_, ?_, ?_, ?_⟩
  · intro token htoken
    rw [hsame] at htoken
    exact drawn_of_prefix h.drawn (hok.drew token htoken)
  · rw [hsame]
    exact hok.armed
  · intro g hphase
    rw [hsame] at hphase
    exact (h.told j hj).keeps (hok.watches g hphase)
  · intro g hphase hclean
    rw [hsame] at hphase
    obtain ⟨hbefore, hheld⟩ := (h.told j hj).clean hclean
    obtain ⟨lease, hlease, htoken⟩ := hok.clean g hphase hbefore
    exact ⟨lease, hheld.trans hlease, by rw [hsame]; exact htoken⟩

end Local

section Steps

variable [DecidableEq ι] {ttl : ι → ℕ} {i : ι} {w : LockWorld ι}

@[simp] theorem client_setClient (client : LockClient) :
    (w.setClient i client).clients i = client :=
  if_pos rfl

theorem ownerToken_proceed (phase : LockPhase) :
    ((w.proceed i phase).clients i).ownerToken = (w.clients i).ownerToken := by
  rw [proceed, client_setClient]

/-! ### A step is the instance's own business

Commands of one instance change its own client and the key, and every watch on the key is told
of a change.  Nothing of an instance depends on more than that, so none of the others has to
be looked at again.
-/

/-- The instance writes its client and does something to the key that the others are told. -/
theorem Local.of_told {client : LockClient} {redis : WatchedKey ι OwnerToken}
    (htold : ∀ j, j ≠ i → WatchedKey.Told j w.redis redis) :
    Local i w { w.setClient i client with redis } :=
  ⟨fun _ hj => if_neg hj, htold, List.prefix_rfl⟩

theorem Local.setClient (client : LockClient) : Local i w (w.setClient i client) :=
  Local.of_told fun _ _ => WatchedKey.Told.refl

theorem local_call (m : LockMethod) : Local i w (w.call i m) := by
  cases m with
  | acquire => exact ⟨fun _ hj => if_neg hj, fun _ _ => .refl, List.prefix_append _ _⟩
  | guarded g =>
      show Local i w ((w.clients i).ownerToken.elim _ _)
      cases (w.clients i).ownerToken with
      | none => exact Local.setClient _
      | some token => exact Local.setClient _

theorem local_perform (phase : LockPhase) : Local i w (w.perform ttl i phase) := by
  cases phase with
  | idle last => exact Local.refl
  | acquiring =>
      show Local i w ((w.clients i).ownerToken.elim w (w.sendSet ttl i))
      cases (w.clients i).ownerToken with
      | none => exact Local.refl
      | some token => exact Local.of_told fun _ _ => .setNx _ _
  | entering g => exact Local.of_told fun _ hj => .startWatch hj
  | watching g => exact Local.setClient _
  | confirmed g => cases g <;> exact Local.of_told fun _ hj => .exec hj _
  | refused g => exact Local.of_told fun _ hj => .unwatch hj

theorem local_abandon (phase : LockPhase) : Local i w (w.abandon i phase) :=
  Local.of_told fun _ hj => .unwatch hj

theorem local_command (phase : LockPhase) (reply : Reply) :
    Local i w (w.command ttl i phase reply) := by
  cases reply with
  | answered => exact local_perform phase
  | lost => exact (local_perform phase).trans (local_abandon phase)
  | failed => exact local_abandon phase

/-! ### What a step does to the key

There are four moves: the key is left alone, acquired where there was none, extended or
deleted by a transaction that ran.  The last two act on the instance's own lease, which is the
guard.
-/

theorem held_call (m : LockMethod) : (w.call i m).redis.held = w.redis.held := by
  cases m with
  | acquire => rfl
  | guarded g =>
      show ((w.clients i).ownerToken.elim _ _ : LockWorld ι).redis.held = _
      cases (w.clients i).ownerToken <;> rfl

/-- What a command of an instance leaves in the key. -/
inductive KeyMove (ttl : ι → ℕ) (w : LockWorld ι) (i : ι) : Option (Lease OwnerToken) → Prop where
  | kept : KeyMove ttl w i w.redis.held
  | set {token : OwnerToken} (hphase : (w.clients i).phase = .acquiring)
      (hfree : w.redis.held = none) (htoken : (w.clients i).ownerToken = some token) :
      KeyMove ttl w i (some ⟨token, w.redis.now + ttl i⟩)
  | extended (hphase : (w.clients i).phase = .confirmed .renew) (howns : w.Owns i) :
      KeyMove ttl w i (w.redis.pexpire (ttl i))
  | deleted (hphase : (w.clients i).phase = .confirmed .release) (howns : w.Owns i) :
      KeyMove ttl w i none

omit [DecidableEq ι] in
/-- A transaction that runs acts on the instance's own lease. -/
theorem owns_of_exec {g : Guarded} (hok : w.ClientOk i)
    (hphase : (w.clients i).phase = .confirmed g) (hrun : w.redis.watch i ≠ some true) :
    w.Owns i := by
  have hwatch := hok.watches g (Or.inr hphase)
  refine hok.clean g hphase ?_
  cases h : w.redis.watch i with
  | none => exact absurd h hwatch
  | some touched =>
      cases touched with
      | false => rfl
      | true => exact absurd h hrun

theorem keyMove_perform (hok : w.ClientOk i) :
    KeyMove ttl w i (w.perform ttl i (w.clients i).phase).redis.held := by
  cases hphase : (w.clients i).phase with
  | idle last => exact .kept
  | acquiring =>
      show KeyMove ttl w i ((w.clients i).ownerToken.elim w (w.sendSet ttl i)).redis.held
      cases htoken : (w.clients i).ownerToken with
      | none => exact .kept
      | some token =>
          show KeyMove ttl w i (w.redis.setNx token (ttl i)).2.held
          rcases w.redis.setNx_spec token (ttl i) with ⟨-, hfree, hheld⟩ | ⟨-, hsame⟩
          · rw [hheld]
            exact .set hphase hfree htoken
          · rw [hsame]
            exact .kept
  | entering g => exact .kept
  | watching g => exact .kept
  | confirmed g =>
      cases g with
      | renew =>
          show KeyMove ttl w i (w.redis.exec i (w.redis.pexpire (ttl i))).2.held
          rcases w.redis.exec_spec i (w.redis.pexpire (ttl i)) with ⟨-, hrun, hheld⟩ | ⟨-, hheld⟩
          · rw [hheld]
            exact .extended hphase (owns_of_exec hok hphase hrun)
          · rw [hheld]
            exact .kept
      | release =>
          show KeyMove ttl w i (w.redis.exec i none).2.held
          rcases w.redis.exec_spec i none with ⟨-, hrun, hheld⟩ | ⟨-, hheld⟩
          · rw [hheld]
            exact .deleted hphase (owns_of_exec hok hphase hrun)
          · rw [hheld]
            exact .kept
  | refused g => exact .kept

theorem keyMove_command (hok : w.ClientOk i) (reply : Reply) :
    KeyMove ttl w i (w.command ttl i (w.clients i).phase reply).redis.held := by
  cases reply with
  | answered => exact keyMove_perform hok
  | lost => exact keyMove_perform hok
  | failed => exact .kept

theorem ownerToken_perform (phase : LockPhase) :
    ((w.perform ttl i phase).clients i).ownerToken = (w.clients i).ownerToken := by
  cases phase with
  | idle last => rfl
  | acquiring =>
      show (((w.clients i).ownerToken.elim w (w.sendSet ttl i)).clients i).ownerToken = _
      cases htoken : (w.clients i).ownerToken with
      | none => exact htoken
      | some token => exact (ownerToken_proceed _).trans htoken
  | entering g => exact ownerToken_proceed _
  | watching g => exact ownerToken_proceed _
  | confirmed g => cases g <;> exact ownerToken_proceed _
  | refused g => exact ownerToken_proceed _

theorem ownerToken_command (phase : LockPhase) (reply : Reply) :
    ((w.command ttl i phase reply).clients i).ownerToken = (w.clients i).ownerToken := by
  cases reply with
  | answered => exact ownerToken_perform phase
  | lost => exact (ownerToken_proceed _).trans (ownerToken_perform phase)
  | failed => exact ownerToken_proceed _

theorem now_perform (phase : LockPhase) : (w.perform ttl i phase).redis.now = w.redis.now := by
  cases phase with
  | idle last => rfl
  | acquiring =>
      show ((w.clients i).ownerToken.elim w (w.sendSet ttl i)).redis.now = _
      cases (w.clients i).ownerToken with
      | none => rfl
      | some token => exact WatchedKey.now_setNx _ _ _
  | entering g => rfl
  | watching g => rfl
  | confirmed g => cases g <;> exact WatchedKey.now_exec _ _ _
  | refused g => rfl

theorem now_command (phase : LockPhase) (reply : Reply) :
    (w.command ttl i phase reply).redis.now = w.redis.now := by
  cases reply with
  | answered => exact now_perform phase
  | lost => exact now_perform phase
  | failed => rfl

/-! ### What a method answers

A method ends in one of a few commands, and a result stands for what that command did.
-/

/-- The command ends the method, with this result. -/
def Returns (w w' : LockWorld ι) (i : ι) (result : LockResult) : Prop :=
  (w.clients i).phase.isIdle = false ∧ (w'.clients i).phase = .idle (some result)

theorem whenRaised_ne (phase : LockPhase) :
    whenRaised phase ≠ .renewed true ∧ whenRaised phase ≠ .acquired true := by
  cases phase with
  | idle last => simp [whenRaised]
  | acquiring => simp [whenRaised]
  | entering g => cases g <;> simp [whenRaised, Guarded.result]
  | watching g => cases g <;> simp [whenRaised, Guarded.result]
  | confirmed g => cases g <;> simp [whenRaised, Guarded.result]
  | refused g => cases g <;> simp [whenRaised, Guarded.result]

theorem perform_returns {result : LockResult}
    (h : Returns w (w.perform ttl i (w.clients i).phase) i result) :
    ((w.clients i).phase = .acquiring ∧ ∃ token, (w.clients i).ownerToken = some token ∧
        result = .acquired (w.redis.setNx token (ttl i)).1) ∨
      ((w.clients i).phase = .confirmed .renew ∧
        result = .renewed (w.redis.exec i (w.redis.pexpire (ttl i))).1) ∨
      ((w.clients i).phase = .confirmed .release ∧ result = .released) ∨
      ∃ g : Guarded, result = g.result false := by
  obtain ⟨hbusy, hafter⟩ := h
  cases hphase : (w.clients i).phase with
  | idle last => simp [hphase, LockPhase.isIdle] at hbusy
  | acquiring =>
      rw [hphase] at hafter
      have hsent : (((w.clients i).ownerToken.elim w (w.sendSet ttl i)).clients i).phase
          = .idle (some result) := hafter
      cases htoken : (w.clients i).ownerToken with
      | none =>
          rw [htoken] at hsent
          have hsame : (w.clients i).phase = .idle (some result) := hsent
          simp [hsame, LockPhase.isIdle] at hbusy
      | some token =>
          rw [htoken] at hsent
          have hresult : .acquired (w.redis.setNx token (ttl i)).1 = result := by
            simpa [sendSet, proceed, setClient] using hsent
          exact Or.inl ⟨rfl, token, rfl, hresult.symm⟩
  | entering g => simp [hphase, perform, proceed, setClient] at hafter
  | watching g =>
      rw [hphase] at hafter
      by_cases hget : w.redis.get = (w.clients i).ownerToken
      · simp [perform, proceed, setClient, hget] at hafter
      · simp [perform, proceed, setClient, hget] at hafter
  | confirmed g =>
      rw [hphase] at hafter
      cases g with
      | renew =>
          have hresult : .renewed (w.redis.exec i (w.redis.pexpire (ttl i))).1 = result := by
            simpa [perform, proceed, setClient] using hafter
          exact Or.inr (Or.inl ⟨rfl, hresult.symm⟩)
      | release =>
          have hresult : .released = result := by simpa [perform, proceed, setClient] using hafter
          exact Or.inr (Or.inr (Or.inl ⟨rfl, hresult.symm⟩))
  | refused g =>
      rw [hphase] at hafter
      have hresult : g.result false = result := by simpa [perform, proceed, setClient] using hafter
      exact Or.inr (Or.inr (Or.inr ⟨g, hresult.symm⟩))

theorem result_false_ne (g : Guarded) :
    LockResult.renewed true ≠ g.result false ∧ LockResult.acquired true ≠ g.result false := by
  cases g <;> simp [Guarded.result]

theorem returns_answered {reply : Reply} {result : LockResult}
    (hgranted : result = .renewed true ∨ result = .acquired true)
    (h : Returns w (w.command ttl i (w.clients i).phase reply) i result) : reply = .answered := by
  have hraised : ∀ v : LockWorld ι,
      ((v.abandon i (w.clients i).phase).clients i).phase ≠ .idle (some result) := by
    intro v habandoned
    have hresult : whenRaised (w.clients i).phase = result := by
      simpa [abandon, proceed, setClient] using habandoned
    rcases hgranted with rfl | rfl
    · exact (whenRaised_ne _).1 hresult
    · exact (whenRaised_ne _).2 hresult
  cases reply with
  | answered => rfl
  | lost => exact absurd h.2 (hraised _)
  | failed => exact absurd h.2 (hraised _)

/-- **`renew_lock` answers `True` only where its transaction ran.** -/
theorem command_renewed {reply : Reply} (hok : w.ClientOk i)
    (h : Returns w (w.command ttl i (w.clients i).phase reply) i (.renewed true)) :
    w.Owns i ∧
      (w.command ttl i (w.clients i).phase reply).redis.held = w.redis.pexpire (ttl i) := by
  obtain rfl := returns_answered (Or.inl rfl) h
  rcases perform_returns h with ⟨-, token, -, hresult⟩ | ⟨hphase, hresult⟩ | ⟨-, hresult⟩ | ⟨g, hg⟩
  · exact absurd hresult (by simp)
  · show w.Owns i ∧ (w.perform ttl i (w.clients i).phase).redis.held = _
    rw [hphase]
    rcases w.redis.exec_spec i (w.redis.pexpire (ttl i)) with ⟨-, hrun, hheld⟩ | ⟨hdropped, -⟩
    · exact ⟨owns_of_exec hok hphase hrun, hheld⟩
    · rw [hdropped] at hresult
      exact absurd hresult (by simp)
  · exact absurd hresult (by simp)
  · exact absurd hg (result_false_ne g).1

/-- **`acquire_lock` succeeds only where no key existed.** -/
theorem command_acquired {reply : Reply}
    (h : Returns w (w.command ttl i (w.clients i).phase reply) i (.acquired true)) :
    w.redis.held = none ∧ ∃ token, (w.clients i).ownerToken = some token ∧
      (w.command ttl i (w.clients i).phase reply).redis.held
        = some ⟨token, w.redis.now + ttl i⟩ := by
  obtain rfl := returns_answered (Or.inr rfl) h
  rcases perform_returns h with ⟨hphase, token, htoken, hresult⟩ | ⟨-, hresult⟩ | ⟨-, hresult⟩ |
    ⟨g, hg⟩
  · rcases w.redis.setNx_spec token (ttl i) with ⟨-, hfree, hheld⟩ | ⟨hrefused, -⟩
    · refine ⟨hfree, token, htoken, ?_⟩
      show (w.perform ttl i (w.clients i).phase).redis.held = _
      rw [hphase]
      show ((w.clients i).ownerToken.elim w (w.sendSet ttl i)).redis.held = _
      rw [htoken]
      exact hheld
    · rw [hrefused] at hresult
      exact absurd hresult (by simp)
  · exact absurd hresult (by simp)
  · exact absurd hresult (by simp)
  · exact absurd hg (result_false_ne g).2

/-- What a call answers at once is a refusal. -/
theorem call_result (m : LockMethod) (result : LockResult)
    (hresult : ∀ g : Guarded, result ≠ g.result false) :
    ((w.call i m).clients i).phase ≠ .idle (some result) := by
  cases m with
  | acquire => simp [call, setClient]
  | guarded g =>
      show (((w.clients i).ownerToken.elim _ _ : LockWorld ι).clients i).phase ≠ _
      cases (w.clients i).ownerToken with
      | none => simpa [proceed, setClient] using (hresult g).symm
      | some token => simp [proceed, setClient]

/-! ### The invariant

It speaks of one instance at a time: a token it holds was drawn by it, and a confirmed token
with a clean watch is the one in the key.
-/

omit [DecidableEq ι] in
/-- What an instance that keeps its token has to show for its new phase. -/
theorem clientOk_of {w' : LockWorld ι} {phase : LockPhase} (hok : w.ClientOk i)
    (hclient : w'.clients i = ⟨(w.clients i).ownerToken, phase⟩) (hdrawn : w'.drawn = w.drawn)
    (harmed : (w.clients i).ownerToken = none → phase.isIdle)
    (hwatches : ∀ g, phase = .watching g ∨ phase = .confirmed g → w'.redis.watch i ≠ none)
    (hclean : ∀ g, phase = .confirmed g → w'.redis.watch i = some false → w'.Owns i) :
    w'.ClientOk i where
  drew token htoken := by
    rw [hclient] at htoken
    rw [hdrawn]
    exact hok.drew token htoken
  armed := by
    rw [hclient]
    exact harmed
  watches := by
    rw [hclient]
    exact hwatches
  clean := by
    rw [hclient]
    exact hclean

omit [DecidableEq ι] in
theorem clientOk_idle {w' : LockWorld ι} {last : Option LockResult} (hok : w.ClientOk i)
    (hclient : w'.clients i = ⟨(w.clients i).ownerToken, .idle last⟩)
    (hdrawn : w'.drawn = w.drawn) : w'.ClientOk i := by
  refine clientOk_of hok hclient hdrawn (fun _ => rfl) ?_ ?_
  · simp
  · simp

omit [DecidableEq ι] in
theorem armed_of_busy (hok : w.ClientOk i) (hbusy : (w.clients i).phase.isIdle = false) :
    (w.clients i).ownerToken ≠ none := by
  intro hnone
  have hidle := hok.armed hnone
  rw [hbusy] at hidle
  exact absurd hidle (by simp)

theorem clientOk_call (m : LockMethod) (hok : w.ClientOk i) : (w.call i m).ClientOk i := by
  cases m with
  | acquire =>
      have hclient : (w.call i .acquire).clients i = ⟨some w.drawn.length, .acquiring⟩ := if_pos rfl
      refine ⟨?_, ?_, ?_, ?_⟩
      · intro token htoken
        rw [hclient] at htoken
        obtain rfl := Option.some.inj htoken
        show (w.drawn ++ [i])[w.drawn.length]? = some i
        exact List.getElem?_concat_length
      · rw [hclient]
        simp
      · rw [hclient]
        simp
      · rw [hclient]
        simp
  | guarded g =>
      show ClientOk ((w.clients i).ownerToken.elim _ _) i
      cases htoken : (w.clients i).ownerToken with
      | none => exact clientOk_idle hok (client_setClient _) rfl
      | some token =>
          refine clientOk_of hok (client_setClient _) rfl ?_ ?_ ?_
          · simp [htoken]
          · simp
          · simp

theorem clientOk_perform (hok : w.ClientOk i) (hbusy : (w.clients i).phase.isIdle = false) :
    (w.perform ttl i (w.clients i).phase).ClientOk i := by
  have harmed := armed_of_busy hok hbusy
  cases hphase : (w.clients i).phase with
  | idle last => simp [hphase, LockPhase.isIdle] at hbusy
  | acquiring =>
      show ClientOk ((w.clients i).ownerToken.elim w (w.sendSet ttl i)) i
      cases htoken : (w.clients i).ownerToken with
      | none => exact absurd htoken harmed
      | some token => exact clientOk_idle hok (client_setClient _) rfl
  | entering g =>
      refine clientOk_of hok (client_setClient _) rfl (fun hnone => absurd hnone harmed) ?_ ?_
      · intro g' _ hwatch
        have hsome : (if i = i then some false else w.redis.watch i) = none := hwatch
        simp at hsome
      · simp
  | watching g =>
      have hwatches := hok.watches g (Or.inl hphase)
      refine clientOk_of hok (client_setClient _) rfl (fun hnone => absurd hnone harmed)
        (fun _ _ => hwatches) ?_
      intro g' hconfirmed _
      by_cases hget : w.redis.get = (w.clients i).ownerToken
      · -- the key answered with the token, so it holds a lease under it
        obtain ⟨token, htoken⟩ := Option.ne_none_iff_exists'.mp harmed
        rw [htoken] at hget
        obtain ⟨lease, hheld, hvalue⟩ := Option.map_eq_some_iff.mp hget
        refine ⟨lease, hheld, ?_⟩
        rw [hvalue, ← htoken]
        exact ownerToken_proceed _
      · rw [if_neg hget] at hconfirmed
        exact absurd hconfirmed (by simp)
  | confirmed g =>
      cases g with
      | renew => exact clientOk_idle hok (client_setClient _) rfl
      | release => exact clientOk_idle hok (client_setClient _) rfl
  | refused g => exact clientOk_idle hok (client_setClient _) rfl

theorem clientOk_command (hok : w.ClientOk i) (hbusy : (w.clients i).phase.isIdle = false)
    (reply : Reply) :
    (w.command ttl i (w.clients i).phase reply).ClientOk i := by
  cases reply with
  | answered => exact clientOk_perform hok hbusy
  | lost => exact clientOk_idle (clientOk_perform hok hbusy) (client_setClient _) rfl
  | failed => exact clientOk_idle hok (client_setClient _) rfl

omit [DecidableEq ι] in
theorem held_of_keyMove {held : Option (Lease OwnerToken)} {drawn : List ι} (hinv : w.LockInv)
    (hmove : KeyMove ttl w i held) (hdrawn : w.drawn <+: drawn) (lease : Lease OwnerToken)
    (hlease : held = some lease) : lease.value < drawn.length := by
  refine Nat.lt_of_lt_of_le ?_ hdrawn.length_le
  cases hmove with
  | kept => exact hinv.held lease hlease
  | set hphase hfree htoken =>
      obtain rfl := Option.some.inj hlease
      exact (List.getElem?_eq_some_iff.mp ((hinv.clients i).drew _ htoken)).1
  | extended hphase howns =>
      obtain ⟨old, hheld, hsame⟩ := Option.map_eq_some_iff.mp hlease
      rw [← hsame]
      exact hinv.held old hheld
  | deleted hphase howns => exact absurd hlease (by simp)

/-- A step of one instance keeps the invariant if it keeps it for that instance. -/
theorem lockInv_local {w' : LockWorld ι} (hinv : w.LockInv) (hlocal : Local i w w')
    (hself : w'.ClientOk i)
    (hheld : ∀ lease, w'.redis.held = some lease → lease.value < w'.drawn.length) :
    w'.LockInv where
  clients j := by
    by_cases hj : j = i
    · rw [hj]
      exact hself
    · exact hlocal.clientOk hj (hinv.clients j)
  held := hheld

omit [DecidableEq ι] in
theorem lockInv_elapse (d : ℕ) (hinv : w.LockInv) :
    LockInv { w with redis := w.redis.elapse d } := by
  have htold (j : ι) : WatchedKey.Told j w.redis (w.redis.elapse d) := .elapse d
  refine ⟨fun j => ⟨(hinv.clients j).drew, (hinv.clients j).armed, ?_, ?_⟩, ?_⟩
  · intro g hphase
    exact (htold j).keeps ((hinv.clients j).watches g hphase)
  · intro g hphase hclean
    obtain ⟨hbefore, hheld⟩ := (htold j).clean hclean
    obtain ⟨lease, hlease, htoken⟩ := (hinv.clients j).clean g hphase hbefore
    exact ⟨lease, hheld.trans hlease, htoken⟩
  · intro lease hlease
    have hfilter : (w.redis.elapse d).held = some lease := hlease
    rw [WatchedKey.held_elapse] at hfilter
    exact hinv.held lease (Option.filter_eq_some_iff.mp hfilter).1

/-! ### Steps and runs -/

/-- A step of the lock: time, a call, or a command of a method under way. -/
theorem step_cases (w : LockWorld ι) (e : LockStep ι) :
    w.step ttl e = w ∨ (∃ d, e = .elapse d ∧ w.step ttl e = { w with redis := w.redis.elapse d }) ∨
      (∃ i m, e = .call i m ∧ (w.clients i).phase.isIdle = true ∧ w.step ttl e = w.call i m) ∨
      ∃ i reply, e = .command i reply ∧ (w.clients i).phase.isIdle = false ∧
        w.step ttl e = w.command ttl i (w.clients i).phase reply := by
  cases e with
  | elapse d => exact Or.inr (Or.inl ⟨d, rfl, rfl⟩)
  | call i m =>
      by_cases hidle : (w.clients i).phase.isIdle = true
      · exact Or.inr (Or.inr (Or.inl ⟨i, m, rfl, hidle, if_pos hidle⟩))
      · exact Or.inl (if_neg hidle)
  | command i reply =>
      by_cases hidle : (w.clients i).phase.isIdle = true
      · exact Or.inl (if_pos hidle)
      · exact Or.inr (Or.inr (Or.inr ⟨i, reply, rfl, by simpa using hidle, if_neg hidle⟩))

omit [DecidableEq ι] in
theorem lockInv_initial : (initial : LockWorld ι).LockInv where
  clients i :=
    { drew := fun token h => absurd h (by simp [initial])
      armed := fun _ => rfl
      watches := fun g h => absurd h (by simp [initial])
      clean := fun g h => absurd h (by simp [initial]) }
  held lease h := absurd h (by simp [initial, WatchedKey.fresh])

/-- **Every step keeps the invariant.** -/
theorem lockInv_step (hinv : w.LockInv) (e : LockStep ι) : (w.step ttl e).LockInv := by
  rcases w.step_cases e with hstep | ⟨d, -, hstep⟩ | ⟨i, m, -, -, hstep⟩ |
    ⟨i, reply, -, hbusy, hstep⟩
  · rw [hstep]
    exact hinv
  · rw [hstep]
    exact lockInv_elapse d hinv
  · rw [hstep]
    have hlocal : Local i w (w.call i m) := local_call m
    refine lockInv_local hinv hlocal (clientOk_call m (hinv.clients i)) ?_
    intro lease hlease
    rw [held_call] at hlease
    exact Nat.lt_of_lt_of_le (hinv.held lease hlease) hlocal.drawn.length_le
  · rw [hstep]
    have hlocal : Local i w (w.command ttl i (w.clients i).phase reply) := local_command _ reply
    exact lockInv_local hinv hlocal (clientOk_command (hinv.clients i) hbusy reply)
      (held_of_keyMove hinv (keyMove_command (hinv.clients i) reply) hlocal.drawn)

theorem lockInv_run (ttl : ι → ℕ) (es : List (LockStep ι)) :
    (Runs.run (step ttl) initial es).LockInv :=
  Runs.invariant (P := fun _ _ => True) (I := LockInv) (fun _ e hinv _ => lockInv_step hinv e)
    lockInv_initial (Runs.along_of_forall fun _ _ => trivial)

omit [DecidableEq ι] in
/-- A command changes a lease only if it is the instance's own. -/
theorem owns_of_changed {held : Option (Lease OwnerToken)} {lease : Lease OwnerToken}
    (hmove : KeyMove ttl w i held) (hlease : w.redis.held = some lease)
    (hchanged : held ≠ some lease) : w.Owns i := by
  cases hmove with
  | kept => exact absurd hlease hchanged
  | set hphase hfree htoken => exact absurd (hfree.symm.trans hlease) (by simp)
  | extended hphase howns => exact howns
  | deleted hphase howns => exact howns

/-- A step on behalf of one instance leaves the clients of the others. -/
theorem others_step {e : LockStep ι} {j : ι} (hj : j ≠ i)
    (he : (∃ m, e = .call i m) ∨ ∃ reply, e = .command i reply) :
    (w.step ttl e).clients j = w.clients j := by
  rcases he with ⟨m, rfl⟩ | ⟨reply, rfl⟩
  · by_cases hidle : (w.clients i).phase.isIdle = true
    · rw [step, if_pos hidle]
      exact (local_call m).others j hj
    · rw [step, if_neg hidle]
  · by_cases hidle : (w.clients i).phase.isIdle = true
    · rw [step, if_pos hidle]
    · rw [step, if_neg hidle]
      exact (local_command _ reply).others j hj

/-- A method ends in a command of its own. -/
theorem command_of_returns {e : LockStep ι} {result : LockResult}
    (h : Returns w (w.step ttl e) i result) :
    ∃ reply, w.step ttl e = w.command ttl i (w.clients i).phase reply := by
  obtain ⟨hbusy, hafter⟩ := h
  have hmoved : (w.step ttl e).clients i ≠ w.clients i := by
    intro hsame
    rw [hsame] at hafter
    simp [hafter, LockPhase.isIdle] at hbusy
  rcases w.step_cases e with hstep | ⟨d, -, hstep⟩ | ⟨j, m, -, hidle, hstep⟩ |
    ⟨j, reply, -, -, hstep⟩
  · exact absurd (by rw [hstep]) hmoved
  · exact absurd (by rw [hstep]) hmoved
  · have hj : i ≠ j := by
      rintro rfl
      rw [hidle] at hbusy
      exact absurd hbusy (by simp)
    exact absurd (by rw [hstep]; exact (local_call m).others i hj) hmoved
  · by_cases hj : i = j
    · exact ⟨reply, by rw [hj]; exact hstep⟩
    · exact absurd (by rw [hstep]; exact (local_command _ reply).others i hj) hmoved

/-- The key changes by expiry or by a command. -/
theorem moved_step (hinv : w.LockInv) (e : LockStep ι)
    (hmoved : (w.step ttl e).redis.held ≠ w.redis.held) :
    (∃ d, e = .elapse d ∧ (w.step ttl e).redis.held = none ∧
        ∀ lease, w.redis.held = some lease → lease.deadline ≤ (w.step ttl e).redis.now) ∨
      ∃ i reply, e = .command i reply ∧ KeyMove ttl w i (w.step ttl e).redis.held := by
  rcases w.step_cases e with hstep | ⟨d, he, hstep⟩ | ⟨j, m, -, -, hstep⟩ | ⟨j, reply, he, -, hstep⟩
  · exact absurd (by rw [hstep]) hmoved
  · refine Or.inl ⟨d, he, ?_⟩
    rw [hstep] at hmoved ⊢
    show (w.redis.elapse d).held = none ∧
      ∀ lease, w.redis.held = some lease → lease.deadline ≤ (w.redis.elapse d).now
    have hfilter := w.redis.held_elapse d
    cases hheld : w.redis.held with
    | none => exact ⟨by rw [hfilter, hheld]; rfl, fun lease h => absurd h (by simp)⟩
    | some lease =>
        rw [hheld, Option.filter_some] at hfilter
        by_cases hpast : w.redis.now + d < lease.deadline
        · rw [if_pos (by simpa using hpast)] at hfilter
          exact absurd (hfilter.trans hheld.symm) hmoved
        · rw [if_neg (by simpa using hpast)] at hfilter
          refine ⟨hfilter, fun old hold => ?_⟩
          obtain rfl := Option.some.inj hold
          rw [WatchedKey.now_elapse]
          exact Nat.le_of_not_lt hpast
  · exact absurd (by rw [hstep]; exact held_call m) hmoved
  · refine Or.inr ⟨j, reply, he, ?_⟩
    rw [hstep]
    exact keyMove_command (hinv.clients j) reply

/-- **A lease somebody else drew survives every step of an instance.** -/
theorem foreign_step (hinv : w.LockInv) {e : LockStep ι} {lease : Lease OwnerToken}
    (hlease : w.redis.held = some lease)
    (he : (∃ m, e = .call i m) ∨ ∃ reply, e = .command i reply)
    (hforeign : w.drawn[lease.value]? ≠ some i) :
    (w.step ttl e).redis.held = some lease := by
  by_contra hchanged
  have hmoved : (w.step ttl e).redis.held ≠ w.redis.held := by rwa [hlease]
  rcases moved_step hinv e hmoved with ⟨d, rfl, -⟩ | ⟨j, reply, rfl, hmove⟩
  · simp at he
  · have hij : i = j := by
      rcases he with ⟨m, he⟩ | ⟨reply', he⟩
      · cases he
      · exact (LockStep.command.inj he).1.symm
    subst hij
    obtain ⟨own, hown, htoken⟩ := owns_of_changed hmove hlease hchanged
    obtain rfl := Option.some.inj (hlease.symm.trans hown)
    exact hforeign ((hinv.clients i).drew _ htoken)

end Steps

/-- **The lock is token-guarded.**  In every run, whatever the next step is: `renew_lock`
answers `True` only where the key holds the caller's token, and then the key is extended;
`acquire_lock` succeeds only where the key holds nothing; the key changes only by expiry,
or by a command that is one of these or the deletion of the caller's own lease; and a lease
somebody else drew stays as it is under every step of an instance. -/
theorem token_guarded [DecidableEq ι] (ttl : ι → ℕ) (es : List (LockStep ι)) (e : LockStep ι) :
    let w := Runs.run (step ttl) initial es
    let w' := w.step ttl e
    (∀ i, Returns w w' i (.renewed true) →
        w.Owns i ∧ w'.redis.held = w.redis.pexpire (ttl i)) ∧
      (∀ i, Returns w w' i (.acquired true) →
        w.redis.held = none ∧ ∃ token, (w.clients i).ownerToken = some token ∧
          w'.redis.held = some ⟨token, w.redis.now + ttl i⟩) ∧
      (w'.redis.held ≠ w.redis.held →
        (∃ d, e = .elapse d ∧ w'.redis.held = none ∧
            ∀ lease, w.redis.held = some lease → lease.deadline ≤ w'.redis.now) ∨
          ∃ i reply, e = .command i reply ∧ KeyMove ttl w i w'.redis.held) ∧
      ∀ lease, w.redis.held = some lease →
        (∃ owner, w.drawn[lease.value]? = some owner) ∧
          ∀ i, (∃ m, e = .call i m) ∨ (∃ reply, e = .command i reply) →
            w.drawn[lease.value]? ≠ some i → w'.redis.held = some lease := by
  intro w w'
  have hinv : w.LockInv := lockInv_run ttl es
  refine ⟨?_, ?_, moved_step hinv e, ?_⟩
  · intro i hreturns
    obtain ⟨reply, hstep⟩ := command_of_returns hreturns
    have hstep : w' = w.command ttl i (w.clients i).phase reply := hstep
    rw [hstep] at hreturns ⊢
    exact command_renewed (hinv.clients i) hreturns
  · intro i hreturns
    obtain ⟨reply, hstep⟩ := command_of_returns hreturns
    have hstep : w' = w.command ttl i (w.clients i).phase reply := hstep
    rw [hstep] at hreturns ⊢
    exact command_acquired hreturns
  · intro lease hlease
    refine ⟨⟨_, List.getElem?_eq_getElem (hinv.held lease hlease)⟩, fun i he hforeign => ?_⟩
    exact foreign_step hinv hlease he hforeign

end LockWorld

end ForexAi
