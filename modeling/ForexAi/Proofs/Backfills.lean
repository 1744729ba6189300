/-
Backfills are run in the order in which they were accepted, and as they were asked for.

What is queued is always the end of the list of accepted jobs, and what has been run is the
rest of it, less what disturbed drains have dropped (`Serving`).  The text of a job is read
back as the job, so nothing is lost or changed on the way through the list.
-/
import ForexAi.Bus.Envelope
import ForexAi.Data.Backfills

namespace ForexAi

open Json (Value Distinct DistinctItems)

variable {N : Type}

/-! ### A job over the wire -/

theorem distinctItems_texts (texts : List String) :
    DistinctItems (texts.map (Value.str : String → Value N)) := by
  induction texts with
  | nil => trivial
  | cons s rest ih => exact ⟨trivial, ih⟩

theorem mapM_texts (texts : List String) :
    Value.texts (.arr (texts.map (Value.str : String → Value N))) = some texts := by
  unfold Value.texts
  induction texts with
  | nil => rfl
  | cons s rest ih =>
      simp only [List.map_cons, List.mapM_cons] at ih ⊢
      rw [ih]
      rfl

namespace BackfillJob

theorem distinct_value (job : BackfillJob) : Distinct (job.value : Value N) := by
  refine ⟨by simp [fields], ?_⟩
  exact ⟨distinctItems_texts _, distinctItems_texts _, trivial, trivial, trivial⟩

variable [PyText]

/-- The worker runs what was asked for. -/
theorem read_value (job : BackfillJob) :
    BackfillRun.read (job.value : Value N) = some job.asked := by
  have hfield : ∀ key v, (key, v) ∈ job.fields → (job.fields : List (String × Value N)).lookup key =
      some v := fun key v hmem => lookup_of_mem job.distinct_value.1 hmem
  have hstart : Value.stamp (job.fields : List (String × Value N)) "start" = some job.start := by
    unfold Value.stamp
    rw [hfield "start" (.str (isoformat job.start)) (by simp [fields])]
    exact fromisoformat_isoformat job.start_ok
  have hend : Value.stamp (job.fields : List (String × Value N)) "end" = some job.end_ := by
    unfold Value.stamp
    rw [hfield "end" (.str (isoformat job.end_)) (by simp [fields])]
    exact fromisoformat_isoformat job.end_ok
  unfold BackfillRun.read value
  simp only
  rw [hfield "symbols" (.arr (job.symbols.map .str)) (by simp [fields]),
    hfield "timeframes" (.arr (job.timeframes.map .str)) (by simp [fields]), hstart, hend,
    Option.getD_some, Option.getD_some, mapM_texts, mapM_texts]
  exact if_neg (not_le.mpr job.forward)

end BackfillJob

/-! ### One drain

A drain pops up to five texts and runs them.  One that is disturbed has popped what it did not
run, and these jobs are gone.
-/

variable (fmt : Json.NumberFormat N)

/-- A drain takes the oldest jobs, in their order. -/
theorem drainQueue_jobs (n : ℕ) (jobs : List BackfillJob) :
    drainQueue fmt n (jobs.map (·.text fmt)) =
      ((jobs.take n).map (·.value), (jobs.drop n).map (·.text fmt)) := by
  induction jobs generalizing n with
  | nil => cases n <;> rfl
  | cons job rest ih =>
      cases n with
      | zero => rfl
      | succ n =>
          have hread : Json.loads fmt (job.text fmt) = some job.value :=
            Json.loads_dump fmt true job.distinct_value
          rw [List.map_cons]
          unfold drainQueue
          rw [hread, ih n]
          rfl

/-- The jobs of a batch that get to `run_backfill`. -/
def handedOn {α : Type} (reached : ℕ → Bool) (batch : List α) : List α :=
  (batch.zipIdx.filter fun job => reached job.2).map Prod.fst

theorem handedOn_map {α β : Type} (f : α → β) (reached : ℕ → Bool) (batch : List α) :
    handedOn reached (batch.map f) = (handedOn reached batch).map f := by
  unfold handedOn
  rw [List.zipIdx_map, List.filter_map, List.map_map, List.map_map]
  rfl

theorem handedOn_sublist {α : Type} (reached : ℕ → Bool) (batch : List α) :
    (handedOn reached batch).Sublist batch := by
  have h := (List.filter_sublist (l := batch.zipIdx) (p := fun job => reached job.2)).map Prod.fst
  rwa [List.zipIdx_map_fst] at h

theorem handedOn_all {α : Type} {reached : ℕ → Bool} {batch : List α}
    (h : ∀ i, i < batch.length → reached i = true) : handedOn reached batch = batch := by
  unfold handedOn
  rw [List.filter_eq_self.mpr, List.zipIdx_map_fst]
  intro job hjob
  exact h job.2 (List.snd_lt_of_mem_zipIdx hjob)

variable [PyText]

/-- What a drain does to a queue of jobs. -/
theorem step_drain (jobs : List BackfillJob) (runs : List BackfillRun) (pops : ℕ)
    (reached : ℕ → Bool) :
    BackfillWorld.step fmt ⟨jobs.map (·.text fmt), runs⟩ (.drain pops reached) =
      ⟨(jobs.drop (min pops drainLimit)).map (·.text fmt),
        runs ++ (handedOn reached (jobs.take (min pops drainLimit))).map (·.asked)⟩ := by
  unfold BackfillWorld.step
  simp only
  rw [drainQueue_jobs]
  simp only
  congr 2
  show (handedOn reached ((jobs.take (min pops drainLimit)).map (·.value))).filterMap
    BackfillRun.read = _
  rw [handedOn_map, List.filterMap_map]
  rw [← List.filterMap_eq_map]
  exact List.filterMap_congr fun job _ => job.read_value

/-! ### Runs

The accepted jobs, in order, are cut at one place: what is before it was popped, and what is
behind it is the queue.
-/

omit [PyText] in
/-- The jobs a run of events accepts, in order. -/
def acceptedJobs (events : List BackfillEvent) : List BackfillJob :=
  events.filterMap BackfillEvent.accepted

/-- Where the accepted jobs are: the first `popped` of them have been run, but for what
disturbed drains have dropped, and the others are queued. -/
structure Serving (events : List BackfillEvent) (w : BackfillWorld) (popped : ℕ) : Prop where
  popped_le : popped ≤ (acceptedJobs events).length
  queued : w.queue = ((acceptedJobs events).drop popped).map (·.text fmt)
  ran : w.runs.Sublist (((acceptedJobs events).take popped).map (·.asked))
  dropped : popped ≤ w.runs.length + drainLimit * (events.filter (·.disturbed)).length

omit [PyText] in
theorem acceptedJobs_concat (events : List BackfillEvent) (e : BackfillEvent) :
    acceptedJobs (events ++ [e]) = acceptedJobs events ++ e.accepted.toList := by
  unfold acceptedJobs
  rw [List.filterMap_append]
  cases h : e.accepted with
  | none => simp [h]
  | some job => simp [h]

variable {fmt}

theorem Serving.request {events : List BackfillEvent} {w : BackfillWorld} {popped : ℕ}
    (h : Serving fmt events w popped) (effective : List String × List String)
    (body : BackfillRequest) :
    Serving fmt (events ++ [.request effective body]) (w.step fmt (.request effective body))
      popped := by
  have haccepted := acceptedJobs_concat events (.request effective body)
  have hquiet : ((events ++ [BackfillEvent.request effective body]).filter
      (·.disturbed)).length = (events.filter (·.disturbed)).length := by
    rw [List.filter_append]
    simp [BackfillEvent.disturbed]
  cases hbody : body.accept effective with
  | none =>
      have hsame : acceptedJobs (events ++ [.request effective body]) = acceptedJobs events := by
        rw [haccepted]
        simp [BackfillEvent.accepted, hbody]
      have hstep : w.step fmt (.request effective body) = w := by
        simp [BackfillWorld.step, hbody]
      rw [hstep]
      refine ⟨?_, ?_, ?_, ?_⟩
      · rw [hsame]
        exact h.popped_le
      · rw [hsame]
        exact h.queued
      · rw [hsame]
        exact h.ran
      · rw [hquiet]
        exact h.dropped
  | some job =>
      have hnew : acceptedJobs (events ++ [.request effective body]) =
          acceptedJobs events ++ [job] := by
        rw [haccepted]
        simp [BackfillEvent.accepted, hbody]
      have hstep : w.step fmt (.request effective body) =
          { w with queue := w.queue ++ [job.text fmt] } := by
        simp [BackfillWorld.step, hbody]
      rw [hstep]
      refine ⟨?_, ?_, ?_, ?_⟩
      · rw [hnew, List.length_append]
        exact Nat.le_add_right_of_le h.popped_le
      · rw [hnew, List.drop_append_of_le_length h.popped_le, List.map_append, ← h.queued]
        rfl
      · rw [hnew, List.take_append_of_le_length h.popped_le]
        exact h.ran
      · rw [hquiet]
        exact h.dropped

theorem Serving.drain {events : List BackfillEvent} {w : BackfillWorld} {popped : ℕ}
    (h : Serving fmt events w popped) (pops : ℕ) (reached : ℕ → Bool) :
    Serving fmt (events ++ [.drain pops reached]) (w.step fmt (.drain pops reached))
      (min (popped + min pops drainLimit) (acceptedJobs events).length) := by
  have hsame : acceptedJobs (events ++ [.drain pops reached]) = acceptedJobs events := by
    rw [acceptedJobs_concat]
    exact List.append_nil _
  set jobs := acceptedJobs events with hjobs
  set batch := (jobs.drop popped).take (min pops drainLimit) with hbatch
  have hworld : w = ⟨(jobs.drop popped).map (·.text fmt), w.runs⟩ := by
    rw [← h.queued]
  have hstep := step_drain fmt (jobs.drop popped) w.runs pops reached
  rw [← hworld, List.drop_drop] at hstep
  have hcut : ∀ n, jobs.drop (min n jobs.length) = jobs.drop n := by
    intro n
    rcases le_total n jobs.length with hn | hn
    · rw [min_eq_left hn]
    · rw [min_eq_right hn, List.drop_length, List.drop_eq_nil_of_le hn]
  have htaken : jobs.take (min (popped + min pops drainLimit) jobs.length) =
      jobs.take popped ++ batch := by
    rw [List.take_eq_take_min, min_assoc, min_self, ← List.take_eq_take_min, List.take_add]
  have hlength : batch.length = min (min pops drainLimit) (jobs.length - popped) := by
    rw [hbatch, List.length_take, List.length_drop]
  rw [hstep]
  refine ⟨?_, ?_, ?_, ?_⟩
  · rw [hsame]
    exact min_le_right _ _
  · rw [hsame, hcut]
  · rw [hsame, htaken, List.map_append]
    exact h.ran.append ((handedOn_sublist reached batch).map _)
  · rw [List.filter_append, List.length_append, List.length_append, List.length_map]
    have hdropped := h.dropped
    cases hdisturbed : (BackfillEvent.drain pops reached).disturbed with
    | true =>
        have hone : ([BackfillEvent.drain pops reached].filter (·.disturbed)).length = 1 := by
          simp [hdisturbed]
        rw [hone, Nat.mul_add, Nat.mul_one]
        omega
    | false =>
        have hnone : ([BackfillEvent.drain pops reached].filter (·.disturbed)).length = 0 := by
          simp [hdisturbed]
        have hall : handedOn reached batch = batch := by
          refine handedOn_all fun i hi => ?_
          obtain ⟨-, hreached⟩ := Bool.or_eq_false_iff.mp hdisturbed
          have hlimit : i ∈ List.range drainLimit := List.mem_range.mpr (by omega)
          simpa using List.any_eq_false.mp hreached i hlimit
        rw [hnone, Nat.add_zero, hall, hlength]
        omega

variable (fmt)

theorem serving_run (events : List BackfillEvent) :
    ∃ popped, Serving fmt events (Runs.run (BackfillWorld.step fmt) {} events) popped := by
  induction events using List.reverseRecOn with
  | nil => exact ⟨0, Nat.le_refl 0, rfl, List.Sublist.refl _, Nat.zero_le _⟩
  | append_singleton events e ih =>
      obtain ⟨popped, h⟩ := ih
      rw [Runs.run_append]
      cases e with
      | request effective body => exact ⟨popped, h.request effective body⟩
      | drain pops reached => exact ⟨_, h.drain pops reached⟩

/-- Drains that nothing disturbs work the queue off, five jobs at a time. -/
theorem run_whole (m : ℕ) (jobs : List BackfillJob) (runs : List BackfillRun) :
    Runs.run (BackfillWorld.step fmt) ⟨jobs.map (·.text fmt), runs⟩ (List.replicate m .whole) =
      ⟨(jobs.drop (drainLimit * m)).map (·.text fmt),
        runs ++ (jobs.take (drainLimit * m)).map (·.asked)⟩ := by
  induction m generalizing jobs runs with
  | zero => simp
  | succ m ih =>
      have hstep := step_drain fmt jobs runs drainLimit fun _ => true
      rw [min_self, handedOn_all fun _ _ => rfl] at hstep
      have htake : (jobs.take (drainLimit * (m + 1))) =
          jobs.take drainLimit ++ (jobs.drop drainLimit).take (drainLimit * m) := by
        rw [Nat.mul_succ, Nat.add_comm, List.take_add]
      rw [List.replicate_succ, Runs.run_cons]
      show Runs.run _ (BackfillWorld.step fmt _ (.drain drainLimit fun _ => true)) _ = _
      rw [hstep, ih, List.drop_drop, htake, List.map_append, List.append_assoc, Nat.mul_succ,
        Nat.add_comm drainLimit]

/-- **Backfills are run in the order in which they were accepted, each at most once and as it
was asked for**: only a disturbed drain drops any, at most five, and undisturbed drains work off
whatever is queued. -/
theorem backfills_in_order (events : List BackfillEvent) :
    ∃ popped, Serving fmt events (Runs.run (BackfillWorld.step fmt) {} events) popped ∧
      ((∀ e ∈ events, e.disturbed = false) →
        (Runs.run (BackfillWorld.step fmt) {} events).runs =
          ((acceptedJobs events).take popped).map (·.asked)) ∧
      ∀ m, (acceptedJobs events).length ≤ popped + drainLimit * m →
        Runs.run (BackfillWorld.step fmt) {} (events ++ List.replicate m .whole) =
          ⟨[], (Runs.run (BackfillWorld.step fmt) {} events).runs ++
            ((acceptedJobs events).drop popped).map (·.asked)⟩ := by
  obtain ⟨popped, h⟩ := serving_run fmt events
  refine ⟨popped, h, fun hquiet => ?_, fun m hm => ?_⟩
  · have hnone : events.filter (·.disturbed) = [] := by
      refine List.filter_eq_nil_iff.mpr fun e he => ?_
      simp [hquiet e he]
    refine h.ran.eq_of_length_le ?_
    have hdropped := h.dropped
    rw [hnone, List.length_nil, Nat.mul_zero, Nat.add_zero] at hdropped
    rw [List.length_map, List.length_take]
    exact (min_le_left _ _).trans hdropped
  · have hworld : Runs.run (BackfillWorld.step fmt) {} events =
        ⟨((acceptedJobs events).drop popped).map (·.text fmt),
          (Runs.run (BackfillWorld.step fmt) {} events).runs⟩ := by
      rw [← h.queued]
    have henough : ((acceptedJobs events).drop popped).length ≤ drainLimit * m := by
      rw [List.length_drop]
      omega
    rw [Runs.run_append, hworld, run_whole, List.drop_eq_nil_of_le henough,
      List.take_of_length_le henough]
    rfl

end ForexAi
