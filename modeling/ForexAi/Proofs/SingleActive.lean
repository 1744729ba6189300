/-
One active orchestrator at a time, as long as no lease runs out under its holder.

An instance that is processing holds the lease of its last renewal (`Leased`), so two of
them would hold one lease under two tokens.  The lock lets nobody else touch that lease
(`LockWorld.foreign_step`); only time can take it away, and nothing renews it while the
instance is processing.
-/
import ForexAi.Workers.Runtime
import ForexAi.Proofs.LockGuard

namespace ForexAi

namespace RuntimeWorld

variable {ι : Type*}

/-- No two instances are processing. -/
def SingleActive (w : RuntimeWorld ι) : Prop :=
  ∀ i j, w.Processing i → w.Processing j → i = j

/-- The time that passes does not take an instance that is processing past the lease of its
last renewal. -/
def InTime (w : RuntimeWorld ι) : RuntimeStep ι → Prop
  | .elapse d => ∀ i since, w.loop i = .processing since →
      w.lock.redis.now + d < since + lockTtl lockTtlSeconds
  | _ => True

/-- The key holds what the instance's renewal at `since` left there. -/
def Leased (lock : LockWorld ι) (i : ι) (since : ℕ) : Prop :=
  ∃ token, (lock.clients i).ownerToken = some token ∧
    lock.redis.held = some ⟨token, since + lockTtl lockTtlSeconds⟩

/-- The invariant of the loop. -/
structure RuntimeInv (w : RuntimeWorld ι) : Prop where
  lock : w.lock.LockInv
  /-- Processing runs between lock methods. -/
  idle : ∀ i since, w.loop i = .processing since → (w.lock.clients i).phase.isIdle = true
  leased : ∀ i since, w.loop i = .processing since → Leased w.lock i since

theorem runtimeInv_initial : (initial : RuntimeWorld ι).RuntimeInv where
  lock := LockWorld.lockInv_initial
  idle i since h := absurd h (by simp [initial])
  leased i since h := absurd h (by simp [initial])

/-- **Two instances under the invariant are one**: both their tokens are what the key holds. -/
theorem RuntimeInv.singleActive {w : RuntimeWorld ι} (hinv : w.RuntimeInv) : w.SingleActive := by
  rintro i j ⟨since, hi⟩ ⟨since', hj⟩
  obtain ⟨token, htoken, hheld⟩ := hinv.leased i since hi
  obtain ⟨token', htoken', hheld'⟩ := hinv.leased j since' hj
  have hsame : token = token' := by
    have hlease := Option.some.inj (hheld.symm.trans hheld')
    exact congrArg Lease.value hlease
  have howner := (hinv.lock.clients i).drew token htoken
  have howner' := (hinv.lock.clients j).drew token' htoken'
  rw [← hsame, howner] at howner'
  exact Option.some.inj howner'

section Steps

variable [DecidableEq ι] {w : RuntimeWorld ι} {i : ι}

/-- A lease survives what another instance does to the lock. -/
theorem Leased.foreign {lock : LockWorld ι} {since : ℕ} {e : LockStep ι} {j : ι}
    (h : Leased lock i since) (hinv : lock.LockInv) (hij : i ≠ j)
    (he : (∃ m, e = .call j m) ∨ ∃ reply, e = .command j reply) :
    Leased (lock.step ttl e) i since := by
  obtain ⟨token, htoken, hheld⟩ := h
  have howner := (hinv.clients i).drew token htoken
  refine ⟨token, ?_, ?_⟩
  · rw [LockWorld.others_step hij he]
    exact htoken
  · refine LockWorld.foreign_step hinv hheld he ?_
    rw [howner]
    exact fun h => hij (Option.some.inj h)

/-- What an instance that does not process leaves of the invariant of the others. -/
theorem RuntimeInv.others {w' : RuntimeWorld ι} (hinv : w.RuntimeInv) (hlock : w'.lock.LockInv)
    (hloop : ∀ j, j ≠ i → w'.loop j = w.loop j)
    (hclients : ∀ j, j ≠ i → w'.lock.clients j = w.lock.clients j)
    (hleased : ∀ j, j ≠ i → ∀ since, Leased w.lock j since → Leased w'.lock j since)
    (hself : ∀ since, w'.loop i = .processing since →
      (w'.lock.clients i).phase.isIdle = true ∧ Leased w'.lock i since) : w'.RuntimeInv where
  lock := hlock
  idle j since hj := by
    by_cases hij : j = i
    · subst hij
      exact (hself since hj).1
    · rw [hclients j hij]
      exact hinv.idle j since ((hloop j hij) ▸ hj)
  leased j since hj := by
    by_cases hij : j = i
    · subst hij
      exact (hself since hj).2
    · exact hleased j hij since (hinv.leased j since ((hloop j hij) ▸ hj))

theorem runtimeInv_setLoop {phase : LoopPhase} (hinv : w.RuntimeInv)
    (hphase : ∀ since, phase ≠ .processing since) : (w.setLoop i phase).RuntimeInv := by
  refine hinv.others hinv.lock (fun j hj => if_neg hj) (fun _ _ => rfl) (fun _ _ _ h => h) ?_
  intro since hi
  have hset : (w.setLoop i phase).loop i = phase := if_pos rfl
  exact absurd (hset.symm.trans hi) (hphase since)

/-- A step of the lock for an instance that is not processing: it starts to process only on a
renewal. -/
theorem runtimeInv_onLock {e : LockStep ι} (hinv : w.RuntimeInv)
    (he : (∃ m, e = .call i m) ∨ ∃ reply, e = .command i reply)
    (hnot : ∀ since, w.loop i ≠ .processing since)
    (hself : ∀ result, ((w.lock.step ttl e).clients i).phase = .idle (some result) →
      result = .renewed true → Leased (w.lock.step ttl e) i (w.lock.step ttl e).redis.now) :
    (w.onLock i e).RuntimeInv := by
  refine hinv.others (LockWorld.lockInv_step hinv.lock e) (fun j hj => if_neg hj)
    (fun j hj => LockWorld.others_step hj he)
    (fun j hj since h => h.foreign hinv.lock hj he) ?_
  intro since hi
  have hheed : heed (w.lock.step ttl e) i (w.loop i) =
      .processing since := (if_pos rfl).symm.trans hi
  show ((w.lock.step ttl e).clients i).phase.isIdle = true ∧ Leased (w.lock.step ttl e) i since
  generalize w.lock.step ttl e = lock at hheed hself ⊢
  unfold heed at hheed
  split at hheed
  case h_1 result hresult =>
      rw [hresult]
      refine ⟨rfl, ?_⟩
      cases result with
      | acquired ok => cases ok <;> simp [settle] at hheed
      | renewed ok =>
          cases ok with
          | true =>
              obtain rfl : lock.redis.now = since := by simpa [settle] using hheed
              exact hself _ hresult rfl
          | false => simp [settle] at hheed
      | released => simp [settle] at hheed
      | raised => simp [settle] at hheed
  case h_2 => exact absurd hheed (hnot since)

theorem runtimeInv_call (hinv : w.RuntimeInv) (m : LockMethod)
    (hidle : (w.lock.clients i).phase.isIdle = true)
    (hnot : ∀ since, w.loop i ≠ .processing since) : (w.onLock i (.call i m)).RuntimeInv := by
  refine runtimeInv_onLock hinv (Or.inl ⟨m, rfl⟩) hnot ?_
  rintro result hresult rfl
  have hcall : w.lock.step ttl (.call i m) = w.lock.call i m := if_pos hidle
  rw [hcall] at hresult
  exact absurd hresult (LockWorld.call_result m _ fun g => (LockWorld.result_false_ne g).1)

theorem runtimeInv_command (hinv : w.RuntimeInv) (reply : Reply)
    (hbusy : (w.lock.clients i).phase.isIdle = false) :
    (w.onLock i (.command i reply)).RuntimeInv := by
  have hnot : ∀ since, w.loop i ≠ .processing since := by
    intro since hi
    rw [hinv.idle i since hi] at hbusy
    exact absurd hbusy (by simp)
  refine runtimeInv_onLock hinv (Or.inr ⟨reply, rfl⟩) hnot ?_
  rintro result hresult rfl
  have hstep : w.lock.step ttl (.command i reply)
      = w.lock.command ttl i (w.lock.clients i).phase reply := if_neg (by simp [hbusy])
  rw [hstep] at hresult ⊢
  obtain ⟨⟨lease, hlease, htoken⟩, hheld⟩ :=
    LockWorld.command_renewed (hinv.lock.clients i) ⟨hbusy, hresult⟩
  refine ⟨lease.value, ?_, ?_⟩
  · rw [LockWorld.ownerToken_command]
    exact htoken
  · rw [hheld, LockWorld.now_command, WatchedKey.pexpire, hlease]
    rfl

theorem runtimeInv_elapse {d : ℕ} (hinv : w.RuntimeInv) (hin : InTime w (.elapse d)) :
    (w.step (.elapse d)).RuntimeInv where
  lock := LockWorld.lockInv_elapse d hinv.lock
  idle := hinv.idle
  leased i since hi := by
    obtain ⟨token, htoken, hheld⟩ := hinv.leased i since hi
    have hlate : w.lock.redis.now + d < since + lockTtl lockTtlSeconds := hin i since hi
    refine ⟨token, htoken, ?_⟩
    show (w.lock.redis.elapse d).held = _
    rw [WatchedKey.held_elapse, hheld, Option.filter_some, if_pos (by simpa using hlate)]

theorem runtimeInv_crash (hinv : w.RuntimeInv) : (w.step (.crash i)).RuntimeInv := by
  refine hinv.others ?_ (fun j hj => if_neg hj) (fun j hj => if_neg hj) ?_ ?_
  · refine LockWorld.lockInv_local hinv.lock (LockWorld.Local.of_told fun _ hj => .unwatch hj)
      (LockWorld.clientOk_idle (hinv.lock.clients i) (LockWorld.client_setClient _) rfl) ?_
    exact hinv.lock.held
  · rintro j hj since ⟨token, htoken, hheld⟩
    refine ⟨token, ?_, hheld⟩
    have hclient : ((w.step (.crash i)).lock.clients j) = w.lock.clients j := if_neg hj
    rw [hclient]
    exact htoken
  · intro since hi
    have hstopped : (w.step (.crash i)).loop i = .stopped := if_pos rfl
    rw [hstopped] at hi
    exact absurd hi (by simp)

theorem runtimeInv_goOn (hinv : w.RuntimeInv) (hidle : (w.lock.clients i).phase.isIdle = true) :
    (w.goOn i (w.loop i)).RuntimeInv := by
  cases hloop : w.loop i with
  | starting => exact runtimeInv_call hinv _ hidle (by simp [hloop])
  | granted => exact runtimeInv_setLoop hinv (by simp)
  | looping => exact runtimeInv_call hinv _ hidle (by simp [hloop])
  | processing since => exact runtimeInv_setLoop hinv (by simp)
  | leaving => exact runtimeInv_call hinv _ hidle (by simp [hloop])
  | stopped => exact hinv

theorem stopFrom_ne (phase : LoopPhase) (since : ℕ) : stopFrom phase ≠ .processing since := by
  cases phase <;> simp [stopFrom]

/-- **Every step within the lease keeps the invariant.** -/
theorem runtimeInv_step (hinv : w.RuntimeInv) (e : RuntimeStep ι) (hin : InTime w e) :
    (w.step e).RuntimeInv := by
  cases e with
  | elapse d => exact runtimeInv_elapse hinv hin
  | command i reply =>
      by_cases hidle : (w.lock.clients i).phase.isIdle = true
      · rw [step, if_pos hidle]
        exact hinv
      · rw [step, if_neg hidle]
        exact runtimeInv_command hinv reply (by simpa using hidle)
  | go i =>
      by_cases hidle : (w.lock.clients i).phase.isIdle = true
      · rw [step, if_pos hidle]
        exact runtimeInv_goOn hinv hidle
      · rw [step, if_neg hidle]
        exact hinv
  | stop i =>
      by_cases hidle : (w.lock.clients i).phase.isIdle = true
      · rw [step, if_pos hidle]
        exact runtimeInv_setLoop hinv (stopFrom_ne _)
      · rw [step, if_neg hidle]
        exact hinv
  | crash i => exact runtimeInv_crash hinv

end Steps

/-! ### Runs

Time is the one thing that can end a lease under its holder.  A run in which it does not is a
run of the invariant.
-/

/-- **Single active orchestrator.**  In every run in which no instance is still processing
when the lease of its last renewal runs out, no two instances are ever processing together. -/
theorem single_active [DecidableEq ι] (es : List (RuntimeStep ι))
    (h : Runs.Along step InTime initial es) : (Runs.run step initial es).SingleActive :=
  RuntimeInv.singleActive (Runs.invariant (I := RuntimeInv)
    (fun _ e hinv hin => runtimeInv_step hinv e hin) runtimeInv_initial h)

/-- One instance that acquires, enters the loop and renews. -/
def takeOver (i : ι) : List (RuntimeStep ι) :=
  [.go i, .command i .answered, .go i, .go i, .command i .answered, .command i .answered,
    .command i .answered]

/-- An instance dies after a round, and another takes over when the lease has run out. -/
theorem single_active_takeOver :
    (Runs.run step initial (takeOver false ++ [.elapse 119999, .crash false, .elapse 1] ++
      takeOver true)).SingleActive := by
  refine single_active _ ?_
  refine Runs.along_append.mpr ⟨Runs.along_append.mpr ⟨?_, ?_⟩, ?_⟩
  · exact ⟨trivial, trivial, trivial, trivial, trivial, trivial, trivial, trivial⟩
  · refine ⟨fun i since hi => ?_, trivial, fun i since hi => ?_, trivial⟩
    · cases i with
      | false =>
          obtain rfl : 0 = since := LoopPhase.processing.inj hi
          decide
      | true => exact LoopPhase.noConfusion (hi : LoopPhase.starting = .processing since)
    · cases i with
      | false => exact LoopPhase.noConfusion (hi : LoopPhase.stopped = .processing since)
      | true => exact LoopPhase.noConfusion (hi : LoopPhase.starting = .processing since)
  · exact ⟨trivial, trivial, trivial, trivial, trivial, trivial, trivial, trivial⟩

/-- The first instance is still processing when its lease runs out, and a second takes over. -/
theorem two_active : ¬ ∀ es : List (RuntimeStep Bool), (Runs.run step initial es).SingleActive := by
  intro h
  have hboth := h (takeOver false ++ [.elapse 120000] ++ takeOver true) false true ⟨0, by decide⟩
    ⟨120000, by decide⟩
  exact absurd hboth (by decide)

end RuntimeWorld

end ForexAi
