/-
What a worker's status says.

A status depends on the last event about the role alone: no other worker touches its hash, and
a run leaves what nothing is done to (`cells_run`).  After a whole `touch` the hash goes when
the declared time to live has passed, so such a worker is up until then and down from then on,
and never stale.  A worker is stale only where its last `touch` was cut off between its two
calls, so that the hash outlives its time.

So a worker whose turns are shorter than its time to live is up at every moment between
(`up_while_turning`), and the time to live of `heartbeat_ttl_for_loop` leaves it three periods.
-/
import ForexAi.Monitor.Heartbeat

namespace ForexAi

open HeartbeatEvent

namespace Heartbeat

variable {start : ℤ}

/-! ### Steps -/

theorem workerHeartbeatKey_inj {r q : String} :
    workerHeartbeatKey r = workerHeartbeatKey q ↔ r = q := String.append_right_inj _

theorem touch_eq (s : HeartbeatStore) (w : WorkerHeartbeat) :
    w.touch start s =
      s.setEx (workerHeartbeatKey w.role) (w.hash (start + s.now)) (w.ttl * 1000000) :=
  Expiring.Store.expire_put s _ _ _

theorem now_step (s : HeartbeatStore) (e : HeartbeatEvent) :
    (step start s e).now = s.now + e.time := by
  cases e with
  | touch w =>
      show (w.touch start s).now = _
      rw [touch_eq]
      rfl
  | _ => rfl

theorem now_run (s : HeartbeatStore) (es : List HeartbeatEvent) :
    (Runs.run (step start) s es).now = s.now + heartbeatElapsed es := by
  induction es generalizing s with
  | nil => rfl
  | cons e rest ih =>
      rw [Runs.run_cons, ih, now_step]
      simp only [heartbeatElapsed, List.map_cons, List.sum_cons]
      omega

/-- An event about another role leaves a hash as it is. -/
theorem cells_step {role : String} {e : HeartbeatEvent} (h : e.role ≠ some role)
    (s : HeartbeatStore) :
    (step start s e).cells (workerHeartbeatKey role) = s.cells (workerHeartbeatKey role) := by
  have hne : ∀ q, some q ≠ some role → workerHeartbeatKey role ≠ workerHeartbeatKey q := by
    intro q hq hkey
    exact hq (congrArg some (workerHeartbeatKey_inj.mp hkey).symm)
  cases e with
  | touch w =>
      show (w.touch start s).cells _ = _
      rw [touch_eq]
      exact Expiring.Store.cells_setEx_of_ne (hne _ h) _ _ _
  | cut w => exact Expiring.Store.cells_put_of_ne (hne _ h) _ _
  | clear q => exact Expiring.Store.cells_del_of_ne (hne _ h) _
  | elapse d => rfl

theorem cells_run {role : String} {es : List HeartbeatEvent} (h : ∀ e ∈ es, e.role ≠ some role)
    (s : HeartbeatStore) :
    (Runs.run (step start) s es).cells (workerHeartbeatKey role) =
      s.cells (workerHeartbeatKey role) := by
  induction es generalizing s with
  | nil => rfl
  | cons e rest ih =>
      rw [Runs.run_cons, ih fun o ho => h o (List.mem_cons_of_mem e ho),
        cells_step (h e List.mem_cons_self)]

/-! ### The last event about a role

A run is split at the last `touch` or `clear` of the role.  Before it nothing matters, and
after it only time does.
-/

/-- `e` is the last event about the role, and `after` is what came after it. -/
def LastAbout (es : List HeartbeatEvent) (role : String) (e : HeartbeatEvent)
    (after : List HeartbeatEvent) : Prop :=
  ∃ before, es = before ++ e :: after ∧ e.role = some role ∧ ∀ o ∈ after, o.role ≠ some role

theorem heartbeatElapsed_append (es fs : List HeartbeatEvent) :
    heartbeatElapsed (es ++ fs) = heartbeatElapsed es + heartbeatElapsed fs := by
  unfold heartbeatElapsed
  rw [List.map_append, List.sum_append]

theorem heartbeatElapsed_cons (e : HeartbeatEvent) (es : List HeartbeatEvent) :
    heartbeatElapsed (e :: es) = e.time + heartbeatElapsed es := by
  unfold heartbeatElapsed
  rw [List.map_cons, List.sum_cons]

/-! ### What is read -/

theorem ttl_pos (w : WorkerHeartbeat) : 1 ≤ w.ttl := by
  unfold WorkerHeartbeat.ttl
  omega

theorem isoformat_ne {t : Time} (h : Representable t) : isoformat t ≠ "" := by
  intro hempty
  have hread := fromisoformat_isoformat h
  rw [hempty] at hread
  exact absurd hread (by simp [fromisoformat, stampFields, FixedWidth.unspell, FixedWidth.read])

/-- A hash that is there is classified by its age. -/
theorem status_of_hash {s : HeartbeatStore} {role : String} {w : WorkerHeartbeat} {seen : Time}
    (hget : s.get (workerHeartbeatKey role) = some (w.hash seen)) (hseen : Representable seen)
    (now : Time) (fallback : ℤ) :
    (readWorkerHealth s now fallback role).status =
      if (w.ttl : ℤ) * 1000000 < now - seen then .stale else .up := by
  have hparse : parseTs (some (w.hash seen).lastSeen) = some seen := by
    show (if isoformat seen = "" then none else fromisoformat (isoformat seen)) = _
    rw [if_neg (isoformat_ne hseen), fromisoformat_isoformat hseen]
  have hdeclared : (Json.readInt (w.hash seen).ttlSeconds.toList).getD fallback = (w.ttl : ℤ) := by
    show (Json.readInt (String.ofList (Json.writeInt w.ttl)).toList).getD fallback = _
    rw [String.toList_ofList, Json.readInt_writeInt]
    rfl
  have hpos := ttl_pos w
  have hmax : max 1 (w.ttl : ℤ) = w.ttl := by omega
  unfold readWorkerHealth
  simp only [hget, Option.map_some, hparse, hdeclared, hmax]
  rfl

theorem status_of_none {s : HeartbeatStore} {role : String}
    (hget : s.get (workerHeartbeatKey role) = none) (now : Time) (fallback : ℤ) :
    (readWorkerHealth s now fallback role).status = .down := by
  unfold readWorkerHealth
  rw [hget]
  rfl

/-! ### The status after a run

The last event has three kinds: a whole `touch` leaves a hash that expires in its time, one
that was cut off leaves a hash that expires when an earlier one said, or never, and a `clear`
leaves none.  Each has its own lemma, and `status_reads` puts them together.
-/

/-- Every moment of the run is one a stamp can print. -/
def Spans (start : Time) (es : List HeartbeatEvent) : Prop :=
  Representable start ∧ Representable (start + heartbeatElapsed es)

theorem Spans.between {es : List HeartbeatEvent} (h : Spans start es) {d : ℕ}
    (hd : d ≤ heartbeatElapsed es) : Representable (start + d) := by
  have hfirst : (-62135596800000000 : ℤ) ≤ start := h.1.first
  have hlast : (start + heartbeatElapsed es : ℤ) < 253402300800000000 := h.2.last
  constructor
  · show (-62135596800000000 : ℤ) ≤ start + d
    omega
  · show (start + d : ℤ) < 253402300800000000
    omega

theorem cells_last (start : ℤ) {es after : List HeartbeatEvent} {role : String} {e : HeartbeatEvent}
    (h : LastAbout es role e after) :
    ∃ s : HeartbeatStore, (s.now : ℤ) + heartbeatElapsed (e :: after) = heartbeatElapsed es ∧
      (Runs.run (step start) Expiring.fresh es).cells (workerHeartbeatKey role) =
        (step start s e).cells (workerHeartbeatKey role) := by
  obtain ⟨before, rfl, -, hafter⟩ := h
  refine ⟨Runs.run (step start) Expiring.fresh before, ?_, ?_⟩
  · rw [now_run, heartbeatElapsed_append]
    show ((0 + heartbeatElapsed before : ℕ) : ℤ) + _ = _
    push_cast
    omega
  · rw [Runs.run_append, Runs.run_cons, cells_run hafter]

theorem representable_seen {es after : List HeartbeatEvent} {e : HeartbeatEvent} {now : ℕ}
    (hspan : Spans start es)
    (hnow : (now : ℤ) + heartbeatElapsed (e :: after) = heartbeatElapsed es) :
    Representable (start + now) := hspan.between (by omega)

/-- **A worker that was touched whole is up until its time to live has passed, then down.** -/
theorem status_touch {es after : List HeartbeatEvent} {role : String} {w : WorkerHeartbeat}
    (hspan : Spans start es) (h : LastAbout es role (touch w) after) (fallback : ℤ) :
    (healthAfter start fallback es role).status =
      if heartbeatElapsed after < w.ttl * 1000000 then .up else .down := by
  have hrole : w.role = role := by
    obtain ⟨before, -, hrole, -⟩ := h
    exact Option.some.inj hrole
  obtain ⟨s, hnow, hcells⟩ := cells_last start h
  have hseen := representable_seen hspan hnow
  rw [heartbeatElapsed_cons] at hnow
  have hcell : (Runs.run (step start) Expiring.fresh es).cells (workerHeartbeatKey role) =
      some ⟨w.hash (start + s.now), some (s.now + w.ttl * 1000000)⟩ := by
    rw [hcells]
    show (w.touch start s).cells _ = _
    rw [touch_eq, hrole, Expiring.Store.cells_setEx]
  have hclock : (Runs.run (step start) Expiring.fresh es).now = heartbeatElapsed es := by
    rw [now_run]
    exact Nat.zero_add _
  have hsum : heartbeatElapsed es = s.now + heartbeatElapsed after := by
    have htime : (touch w).time = 0 := rfl
    rw [htime, Nat.zero_add] at hnow
    exact_mod_cast hnow.symm
  have hend : heartbeatElapsed es < s.now + w.ttl * 1000000 ↔
      heartbeatElapsed after < w.ttl * 1000000 := by
    rw [hsum]
    exact Nat.add_lt_add_iff_left
  unfold healthAfter
  by_cases hlive : heartbeatElapsed after < w.ttl * 1000000
  · have hget : (Runs.run (step start) Expiring.fresh es).get (workerHeartbeatKey role) =
        some (w.hash (start + s.now)) := by
      refine Expiring.Store.get_eq_some.mpr ⟨_, hcell, ?_, rfl⟩
      rw [Expiring.Cell.over_eq_false, hclock]
      exact hend.mpr hlive
    rw [status_of_hash hget hseen, if_pos hlive, if_neg (by omega)]
  · have hget : (Runs.run (step start) Expiring.fresh es).get (workerHeartbeatKey role) = none := by
      rw [Option.eq_none_iff_forall_not_mem]
      intro v hv
      obtain ⟨c, hc, hover, -⟩ := Expiring.Store.get_eq_some.mp hv
      rw [hcell] at hc
      obtain rfl := Option.some.inj hc
      rw [Expiring.Cell.over_eq_false, hclock] at hover
      exact hlive (hend.mp hover)
    rw [status_of_none hget, if_neg hlive]

/-- A worker whose last `touch` was cut off is up only in its time, and stale only past it. -/
theorem status_cut {es after : List HeartbeatEvent} {role : String} {w : WorkerHeartbeat}
    (hspan : Spans start es) (h : LastAbout es role (cut w) after) (fallback : ℤ) :
    (healthAfter start fallback es role).status = .down ∨
      (healthAfter start fallback es role).status =
        if w.ttl * 1000000 < heartbeatElapsed after then .stale else .up := by
  have hrole : w.role = role := by
    obtain ⟨before, -, hrole, -⟩ := h
    exact Option.some.inj hrole
  obtain ⟨s, hnow, hcells⟩ := cells_last start h
  have hseen := representable_seen hspan hnow
  rw [heartbeatElapsed_cons] at hnow
  have htime : (cut w).time = 0 := rfl
  unfold healthAfter
  cases hget : (Runs.run (step start) Expiring.fresh es).get (workerHeartbeatKey role) with
  | none => exact Or.inl (status_of_none hget _ _)
  | some v =>
      obtain ⟨c, hc, -, rfl⟩ := Expiring.Store.get_eq_some.mp hget
      have hcell : (step start s (cut w)).cells (workerHeartbeatKey role) =
          some ⟨w.hash (start + s.now), (s.live (workerHeartbeatKey role)).bind
            Expiring.Cell.deadline⟩ := by
        show (s.put (workerHeartbeatKey w.role) _).cells _ = _
        rw [hrole, Expiring.Store.cells_put]
      rw [hcells, hcell] at hc
      obtain rfl := Option.some.inj hc
      right
      rw [status_of_hash hget hseen]
      have hage : (w.ttl : ℤ) * 1000000 < start + heartbeatElapsed es - (start + s.now) ↔
          w.ttl * 1000000 < heartbeatElapsed after := by omega
      by_cases hpast : w.ttl * 1000000 < heartbeatElapsed after
      · rw [if_pos hpast, if_pos (hage.mpr hpast)]
      · rw [if_neg hpast, if_neg fun hc => hpast (hage.mp hc)]

/-- A role that was never touched, or was cleared since, is down. -/
theorem status_unheard {es : List HeartbeatEvent} {role : String}
    (h : (∀ e ∈ es, e.role ≠ some role) ∨ ∃ after, LastAbout es role (clear role) after)
    (fallback : ℤ) : (healthAfter start fallback es role).status = .down := by
  have hcell : (Runs.run (step start) Expiring.fresh es).cells (workerHeartbeatKey role) =
      none := by
    rcases h with hnone | ⟨after, hlast⟩
    · exact cells_run hnone _
    · obtain ⟨s, -, hcells⟩ := cells_last start hlast
      rw [hcells]
      exact Expiring.Store.cells_del _ _
  refine status_of_none ?_ _ _
  rw [Option.eq_none_iff_forall_not_mem]
  intro v hv
  obtain ⟨c, hc, -⟩ := Expiring.Store.get_eq_some.mp hv
  rw [hcell] at hc
  exact absurd hc (by simp)

/-- A worker of the agents, started at the epoch. -/
def agentsWorker : WorkerHeartbeat :=
  ⟨"agents", heartbeatTtlForLoop 5 defaultHeartbeatTtlSeconds, 0, 1⟩

/-- A turn of a worker's loop: `touch`, and what happens until the next turn. -/
structure Turn where
  worker : WorkerHeartbeat
  body : List HeartbeatEvent

/-- The events of the turns. -/
def turning (turns : List Turn) : List HeartbeatEvent :=
  turns.flatMap fun t => touch t.worker :: t.body

/-- A turn of the role's worker: nobody else is about the role, and the next turn begins before
the time to live has passed. -/
def Turn.Timely (t : Turn) (role : String) : Prop :=
  t.worker.role = role ∧ (∀ e ∈ t.body, e.role ≠ some role) ∧
    heartbeatElapsed t.body < t.worker.ttl * 1000000

theorem heartbeatElapsed_le {es fs : List HeartbeatEvent} (h : es <+: fs) :
    heartbeatElapsed es ≤ heartbeatElapsed fs := by
  obtain ⟨rest, rfl⟩ := h
  rw [heartbeatElapsed_append]
  omega

/-- At every moment within the turns the last event about the role is a `touch` in time. -/
theorem last_of_turning {role : String} {turns : List Turn} (h : ∀ t ∈ turns, t.Timely role)
    (before : List HeartbeatEvent) {fs : List HeartbeatEvent} (hfs : fs <+: turning turns)
    (hne : fs ≠ []) :
    ∃ w after, LastAbout (before ++ fs) role (touch w) after ∧
      heartbeatElapsed after < w.ttl * 1000000 := by
  induction turns generalizing before fs with
  | nil => exact absurd (List.prefix_nil.mp hfs) hne
  | cons t rest ih =>
      obtain ⟨hrole, hbody, htime⟩ := h t List.mem_cons_self
      have hturn : turning (t :: rest) = (touch t.worker :: t.body) ++ turning rest := rfl
      rw [hturn] at hfs
      obtain ⟨tail, htail⟩ := hfs
      rcases List.append_eq_append_iff.mp htail with ⟨mid, hwithin, -⟩ | ⟨more, rfl, hmore⟩
      · cases fs with
        | nil => exact absurd rfl hne
        | cons e after =>
            obtain ⟨rfl, hafter⟩ := List.cons_prefix_cons.mp ⟨mid, hwithin.symm⟩
            refine ⟨t.worker, after, ⟨before, rfl, congrArg some hrole, ?_⟩, ?_⟩
            · exact fun o ho => hbody o (hafter.subset ho)
            · exact (heartbeatElapsed_le hafter).trans_lt htime
      · by_cases hempty : more = []
        · subst hempty
          rw [List.append_nil]
          exact ⟨t.worker, t.body, ⟨before, rfl, congrArg some hrole, hbody⟩, htime⟩
        · rw [← List.append_assoc]
          exact ih (fun u hu => h u (List.mem_cons_of_mem t hu)) _ ⟨tail, hmore.symm⟩ hempty

theorem timely_of_loop {t : Turn} {role : String} {period minTtl : ℤ}
    (hrole : t.worker.role = role) (hbody : ∀ e ∈ t.body, e.role ≠ some role)
    (httl : t.worker.ttlArgument = heartbeatTtlForLoop period minTtl)
    (htime : (heartbeatElapsed t.body : ℤ) < 3 * max 1 period * 1000000) : t.Timely role := by
  refine ⟨hrole, hbody, ?_⟩
  unfold WorkerHeartbeat.ttl
  rw [httl]
  unfold heartbeatTtlForLoop
  omega

end Heartbeat

end ForexAi
