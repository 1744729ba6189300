/-
What becomes of the triggers, and of the pairs nothing triggers.

In a batch every pair that is named is processed once, at its first entry; the later entries
of the pair were on the stream before the batch was read, so that call has seen what they
announce (`Handling`).  What the calls return is what the poll counts (`Tally`).  The tables go
through the calls and nothing else, so a run of the loop is a run of the worker's events
(`run_loop`), whatever is raised on the way.

While the loop runs, every `SCAN_EVERY_CYCLES` turns hold one that scans, and a scan that
raises nothing has called for every configured pair.
-/
import ForexAi.Proofs.AgentBatch
import ForexAi.Workers.Triggers

namespace ForexAi

variable [Digest]

namespace PairCall

/-- A call for the texts of a trigger does to the tables what the call it names does. -/
theorem processTexts_tables (surroundings : PairCall) (cfg : PairConfig)
    (key : String × String) (db : Database) :
    (surroundings.processTexts cfg key db).2 =
      Runs.run (WorkerEvent.step cfg) db ((surroundings.ofTexts key).toList.map .pair) := by
  unfold processTexts
  cases surroundings.ofTexts key with
  | none => rfl
  | some call => rfl

end PairCall

namespace OrchestratorLoop

omit [Digest] in
theorem pollCalls_concat (met : ℕ → PairCall) (keys : List (String × String))
    (key : String × String) :
    pollCalls met (keys ++ [key]) =
      pollCalls met keys ++ ((met keys.length).ofTexts key).toList := by
  unfold pollCalls
  rw [List.zipIdx_append, List.filterMap_append]
  congr 1
  rw [Nat.zero_add, List.zipIdx_singleton]
  cases hcall : (met keys.length).ofTexts key with
  | none => simp [hcall]
  | some call => simp [hcall]

end OrchestratorLoop

open OrchestratorLoop (pollCalls pollCalls_concat)

/-! ### What the calls of a batch return

A call raises, returns nothing, or reports: `none`, `some none` and `some (some r)`.  The next
one starts from the tables it left.
-/

namespace TriggerPoll

/-- The calls for some pairs, one after the other: the tables after them, and what they
returned. -/
def course (cfg : PairConfig) (met : ℕ → PairCall) (db : Database)
    (keys : List (String × String)) : Database × List (Option (Option DecideReport)) :=
  keys.zipIdx.foldl (fun s k =>
    (((met k.2).processTexts cfg k.1 s.1).2, s.2 ++ [((met k.2).processTexts cfg k.1 s.1).1]))
    (db, [])

/-- What they returned. -/
def returned (cfg : PairConfig) (met : ℕ → PairCall) (db : Database)
    (keys : List (String × String)) : List (Option (Option DecideReport)) :=
  (course cfg met db keys).2

theorem course_concat (cfg : PairConfig) (met : ℕ → PairCall) (db : Database)
    (keys : List (String × String)) (key : String × String) :
    course cfg met db (keys ++ [key]) =
      (((met keys.length).processTexts cfg key (course cfg met db keys).1).2,
        returned cfg met db keys ++
          [((met keys.length).processTexts cfg key (course cfg met db keys).1).1]) := by
  unfold course returned
  rw [List.zipIdx_append, List.foldl_append, Nat.zero_add, List.zipIdx_singleton]
  rfl

theorem course_tables (cfg : PairConfig) (met : ℕ → PairCall) (db : Database)
    (keys : List (String × String)) :
    (course cfg met db keys).1 =
      Runs.run (WorkerEvent.step cfg) db ((pollCalls met keys).map .pair) := by
  induction keys using List.reverseRecOn with
  | nil => rfl
  | append_singleton keys key ih =>
      rw [course_concat, PairCall.processTexts_tables, pollCalls_concat, List.map_append,
        Runs.run_append, ← ih]

omit [Digest] in
/-- What a poll has counted, of so many entries and of what its calls returned. -/
structure Tally (entries : ℕ) (outcomes : List (Option (Option DecideReport)))
    (result : OrchBatchResult) : Prop where
  processed : result.processed = outcomes.countP fun o => o.join.isSome
  errors : result.errors = outcomes.countP fun o => o.isNone
  /-- Every entry is counted, and twice where a call found its decision there already. -/
  counted : result.processed + result.errors + result.replayed =
    entries + outcomes.countP fun o => o.join.any fun r => !r.created
  statusCount : ∀ status, result.statusCount status =
    outcomes.countP fun o => o.join.any fun r => decide (r.status = some status)

section Counting

variable {entries : ℕ} {outcomes : List (Option (Option DecideReport))} {result : OrchBatchResult}

omit [Digest] in
/-- An entry that calls nothing. -/
theorem Tally.replay (h : Tally entries outcomes result) :
    Tally (entries + 1) outcomes { result with replayed := result.replayed + 1 } := by
  refine ⟨h.processed, h.errors, ?_, h.statusCount⟩
  have hcounted := h.counted
  simp only
  omega

omit [Digest] in
/-- A call that raises. -/
theorem Tally.raised (h : Tally entries outcomes result) :
    Tally (entries + 1) (outcomes ++ [none]) { result with errors := result.errors + 1 } := by
  refine ⟨?_, ?_, ?_, fun status => ?_⟩
  · simpa [List.countP_append] using h.processed
  · simpa [List.countP_append] using h.errors
  · have hcounted := h.counted
    simp only [List.countP_append, List.countP_singleton, Option.join_none, Option.any_none]
    simp only [Bool.false_eq_true, if_false]
    omega
  · simpa [List.countP_append] using h.statusCount status

omit [Digest] in
/-- A call that returns nothing. -/
theorem Tally.nothing (h : Tally entries outcomes result) :
    Tally (entries + 1) (outcomes ++ [some none])
      { result with replayed := result.replayed + 1 } := by
  have hnext := h.replay
  refine ⟨?_, ?_, ?_, fun status => ?_⟩
  · simpa [List.countP_append] using hnext.processed
  · simpa [List.countP_append] using hnext.errors
  · simpa [List.countP_append] using hnext.counted
  · simpa [List.countP_append] using hnext.statusCount status

omit [Digest] in
/-- A call that reports. -/
theorem Tally.report (h : Tally entries outcomes result) (r : DecideReport) :
    Tally (entries + 1) (outcomes ++ [some (some r)])
      { result.count r.status with
        replayed := result.replayed + if r.created then 0 else 1
        processed := result.processed + 1 } := by
  refine ⟨?_, ?_, ?_, fun status => ?_⟩
  · simpa [List.countP_append] using h.processed
  · simpa [List.countP_append, OrchBatchResult.count] using h.errors
  · have hcounted := h.counted
    simp only [OrchBatchResult.count, List.countP_append, List.countP_singleton, Option.join_some,
      Option.any_some]
    by_cases hcreated : r.created = true
    · simp only [hcreated, Bool.not_true, Bool.false_eq_true, if_false, if_true]
      omega
    · simp only [Bool.not_eq_true] at hcreated
      simp only [hcreated, Bool.not_false, Bool.false_eq_true, if_false, if_true]
      omega
  · rw [List.countP_append, List.countP_singleton, ← h.statusCount status]
    simp only [OrchBatchResult.count, Option.join_some, Option.any_some, decide_eq_true_eq]

end Counting

/-! ### One batch

The loop stops at the first entry that raises, and everything it had done is counted or lost
with it: the acknowledgements are sent after the loop.  So what is said of a batch is said of
the entries before the first that raises.
-/

variable (fromJson : String → Option Envelope)

omit [Digest] in
/-- The pair an entry names. -/
def named (e : StreamEntry) : Option (String × String) :=
  ((unwrap fromJson e.data).join.map AgentPoll.keyOf).filter fun key =>
    decide (key.1 ≠ "" ∧ key.2 ≠ "")

omit [Digest] in
/-- The entry can be looked at without raising. -/
def Readable (e : StreamEntry) : Bool := (unwrap fromJson e.data).isSome

/-- What the loop has done with the entries it has passed. -/
structure Handling (cfg : PairConfig) (met : ℕ → PairCall) (db : Database)
    (passed : List StreamEntry) (st : TriggerState) : Prop where
  acked : st.acks = passed.map (·.ack)
  called : st.seen = (passed.filterMap (named fromJson)).eraseDups
  tables : st.db = (course cfg met db st.seen).1
  counted : Tally passed.length (returned cfg met db st.seen) st.toOrchBatchResult

variable {fromJson} {cfg : PairConfig} {met : ℕ → PairCall} {db : Database}
  {passed : List StreamEntry} {st : TriggerState}

variable (fromJson cfg met db) in
theorem handling_start : Handling fromJson cfg met db [] { db } := by
  exact ⟨rfl, rfl, rfl, rfl, rfl, rfl, fun _ => rfl⟩

theorem Handling.called_concat (h : Handling fromJson cfg met db passed st) (e : StreamEntry) :
    ((passed ++ [e]).filterMap (named fromJson)).eraseDups =
      st.seen ++ (named fromJson e).toList.filter fun key => decide (key ∉ st.seen) := by
  have hmem : ∀ key, key ∈ st.seen ↔ key ∈ passed.filterMap (named fromJson) := by
    intro key
    rw [h.called, List.mem_eraseDups]
  rw [List.filterMap_append, List.eraseDups_append, ← h.called]
  congr 1
  cases hnamed : named fromJson e with
  | none => simp [hnamed]
  | some key =>
      by_cases hseen : key ∈ st.seen
      · simp [hnamed, List.removeAll, hseen, ← hmem]
      · simp [hnamed, List.removeAll, hseen, ← hmem, List.eraseDups_cons]

/-- An entry that calls nothing. -/
theorem Handling.replay (h : Handling fromJson cfg met db passed st) {e : StreamEntry}
    (hold : ∀ key, named fromJson e = some key → key ∈ st.seen) :
    Handling fromJson cfg met db (passed ++ [e]) (replay st e) := by
  refine ⟨?_, ?_, h.tables, ?_⟩
  · show st.acks ++ [(e.stream, e.id)] = (passed ++ [e]).map (·.ack)
    rw [h.acked, List.map_append]
    rfl
  · rw [h.called_concat]
    show st.seen = _
    cases hnamed : named fromJson e with
    | none => simp
    | some key => simp [hold key hnamed]
  · rw [List.length_append, List.length_singleton]
    exact h.counted.replay

/-- The first entry of a pair. -/
theorem Handling.process (h : Handling fromJson cfg met db passed st) {e : StreamEntry}
    {key : String × String} (hnamed : named fromJson e = some key) (hnew : key ∉ st.seen) :
    Handling fromJson cfg met db (passed ++ [e]) (process cfg met st e key) := by
  have hlength : (passed ++ [e]).length = passed.length + 1 := by
    rw [List.length_append, List.length_singleton]
  have hacked : st.acks ++ [(e.stream, e.id)] = (passed ++ [e]).map (·.ack) := by
    rw [h.acked, List.map_append]
    rfl
  have hcalled : st.seen ++ [key] = ((passed ++ [e]).filterMap (named fromJson)).eraseDups := by
    rw [h.called_concat, hnamed]
    simp [hnew]
  have htables : ((met st.seen.length).processTexts cfg key st.db).2 =
      (course cfg met db (st.seen ++ [key])).1 := by
    rw [course_concat, ← h.tables]
  have hreturned : returned cfg met db (st.seen ++ [key]) = returned cfg met db st.seen ++
      [((met st.seen.length).processTexts cfg key st.db).1] := by
    rw [h.tables]
    exact congrArg Prod.snd (course_concat cfg met db st.seen key)
  unfold TriggerPoll.process
  cases hcall : (met st.seen.length).processTexts cfg key st.db with
  | mk outcome after =>
      rw [hcall] at htables hreturned
      cases outcome with
      | none =>
          refine ⟨hacked, hcalled, htables, ?_⟩
          show Tally _ (returned cfg met db (st.seen ++ [key])) _
          rw [hlength, hreturned]
          exact h.counted.raised
      | some outcome =>
          cases outcome with
          | none =>
              refine ⟨hacked, hcalled, htables, ?_⟩
              show Tally _ (returned cfg met db (st.seen ++ [key])) _
              rw [hlength, hreturned]
              exact h.counted.nothing
          | some r =>
              refine ⟨hacked, hcalled, htables, ?_⟩
              show Tally _ (returned cfg met db (st.seen ++ [key])) _
              rw [hlength, hreturned]
              exact h.counted.report r

/-- **What one entry does**: it raises, or it is acknowledged, and it calls for the pair it
names unless an earlier one of the batch did. -/
theorem handle_step (h : Handling fromJson cfg met db passed st) (e : StreamEntry) :
    (Readable fromJson e = false ∧ handle fromJson cfg met st e = none) ∨
      (Readable fromJson e = true ∧ ∃ st', handle fromJson cfg met st e = some st' ∧
        Handling fromJson cfg met db (passed ++ [e]) st') := by
  cases hunwrap : unwrap fromJson e.data with
  | none => exact Or.inl ⟨by simp [Readable, hunwrap], by simp [handle, hunwrap]⟩
  | some payload =>
      refine Or.inr ⟨by simp [Readable, hunwrap], ?_⟩
      unfold handle
      rw [hunwrap, Option.map_some]
      cases payload with
      | none =>
          refine ⟨_, rfl, h.replay fun key hnamed => ?_⟩
          simp [named, hunwrap] at hnamed
      | some payload =>
          simp only
          by_cases hempty : (AgentPoll.keyOf payload).1 = "" ∨ (AgentPoll.keyOf payload).2 = ""
          · rw [if_pos hempty]
            refine ⟨_, rfl, h.replay fun key hnamed => ?_⟩
            simp only [named, hunwrap, Option.join_some, Option.map_some,
              Option.filter_some] at hnamed
            split at hnamed
            · rename_i hfull
              obtain ⟨hfirst, hsecond⟩ := of_decide_eq_true hfull
              exact absurd hempty (not_or.mpr ⟨hfirst, hsecond⟩)
            · exact absurd hnamed (by simp)
          · rw [if_neg hempty]
            obtain ⟨hfirst, hsecond⟩ := not_or.mp hempty
            have hnamed : named fromJson e = some (AgentPoll.keyOf payload) := by
              simp [named, hunwrap, hfirst, hsecond]
            by_cases hseen : AgentPoll.keyOf payload ∈ st.seen
            · rw [if_pos hseen]
              refine ⟨_, rfl, h.replay fun key hkey => ?_⟩
              rw [← Option.some.inj (hnamed.symm.trans hkey)]
              exact hseen
            · rw [if_neg hseen]
              exact ⟨_, rfl, h.process hnamed hseen⟩

/-- What the loop does with a batch: it gets through the entries before the first that
raises. -/
theorem handle_run (entries : List StreamEntry) (h : Handling fromJson cfg met db passed st) :
    Handling fromJson cfg met db (passed ++ entries.takeWhile (Readable fromJson))
        (handleAll fromJson cfg met st entries).1 ∧
      ((handleAll fromJson cfg met st entries).2 = true ↔
        ∀ e ∈ entries, Readable fromJson e = true) := by
  induction entries generalizing passed st with
  | nil => exact ⟨by simpa [handleAll] using h, by simp [handleAll]⟩
  | cons e rest ih =>
      unfold handleAll
      rcases handle_step h e with ⟨hraises, hhandle⟩ | ⟨hreads, st', hhandle, hnext⟩
      · rw [hhandle]
        refine ⟨by simpa [hraises] using h, ?_⟩
        simp [hraises]
      · obtain ⟨hrest, hthrough⟩ := ih hnext
        rw [hhandle, List.takeWhile_cons_of_pos hreads]
        refine ⟨by simpa using hrest, ?_⟩
        simp only [hthrough, List.forall_mem_cons, hreads, true_and]

/-- What is asked of a poll. -/
structure Polled (fromJson : String → Option Envelope) (cfg : PairConfig) (met : ℕ → PairCall)
    (db : Database) (entries : List StreamEntry) (out : PollOutcome) : Prop where
  /-- It raises where an entry does, and calls then for the pairs before that entry. -/
  through : out.result.isSome = true ↔ ∀ e ∈ entries, Readable fromJson e = true
  /-- One call for each pair named, in the order in which they are first named. -/
  called : out.calls =
    ((entries.takeWhile (Readable fromJson)).filterMap (named fromJson)).eraseDups
  /-- The tables go through these calls and nothing else. -/
  tables : out.db = Runs.run (WorkerEvent.step cfg) db ((pollCalls met out.calls).map .pair)
  /-- Every entry is acknowledged once and in order, or none is. -/
  acked : out.acked = if out.result.isSome then entries.map (·.ack) else []
  /-- Every entry is counted, and every call by what it returned. -/
  counted : ∀ result, out.result = some result →
    Tally entries.length (returned cfg met db out.calls) result

variable (fromJson cfg met db)

/-- **A poll calls once for every pair its batch names**, and acknowledges the batch. -/
theorem poll_triggers (response : List (String × List (String × String))) :
    Polled fromJson cfg met db (AgentPoll.entriesOf response)
      (pollOnce fromJson cfg met db response) := by
  obtain ⟨hrun, hthrough⟩ := handle_run (AgentPoll.entriesOf response)
    (handling_start fromJson cfg met db)
  rw [List.nil_append] at hrun
  unfold pollOnce
  cases hloop : handleAll fromJson cfg met { db } (AgentPoll.entriesOf response) with
  | mk st through =>
      rw [hloop] at hrun hthrough
      cases through with
      | false =>
          refine ⟨?_, hrun.called, hrun.tables.trans (course_tables cfg met db st.seen), rfl,
            fun result h => absurd h (by simp)⟩
          simpa using hthrough
      | true =>
          have hall := hthrough.mp rfl
          have hentries : (AgentPoll.entriesOf response).takeWhile (Readable fromJson) =
              AgentPoll.entriesOf response := List.takeWhile_eq_self_iff.mpr hall
          refine ⟨by simpa using hthrough, hrun.called,
            hrun.tables.trans (course_tables cfg met db st.seen), ?_, fun result h => ?_⟩
          · simpa [hentries] using hrun.acked
          · have hcounted := hrun.counted
            rw [hentries] at hcounted
            rw [← Option.some.inj h]
            exact hcounted

end TriggerPoll

/-! ### The scan -/

theorem scanPairs_tables (cfg : PairConfig) (met : ℕ → PairCall)
    (pairs : List (Symbol × Timeframe)) (n : ℕ) (result : OrchBatchResult) (db : Database) :
    (scanPairs cfg met n result db pairs).db =
      Runs.run (WorkerEvent.step cfg) db
        ((scanPairs cfg met n result db pairs).calls.map .pair) := by
  induction pairs generalizing n result db with
  | nil => rfl
  | cons pair rest ih =>
      obtain ⟨symbol, timeframe⟩ := pair
      unfold scanPairs
      cases hcall : ({ met n with symbol, timeframe } : PairCall).processPair cfg db with
      | mk outcome after =>
          have hafter : WorkerEvent.step cfg db (.pair { met n with symbol, timeframe }) = after :=
            congrArg Prod.snd hcall
          cases outcome with
          | none =>
              simp only [hcall]
              exact hafter.symm
          | some outcome =>
              simp only [hcall, List.map_cons, Runs.run_cons, hafter]
              exact ih _ _ _

/-- A scan that raises nothing has called for every pair. -/
theorem scanPairs_all {cfg : PairConfig} {met : ℕ → PairCall}
    {pairs : List (Symbol × Timeframe)} {n : ℕ} {result : OrchBatchResult} {db : Database}
    (h : (scanPairs cfg met n result db pairs).result.isSome = true) :
    (scanPairs cfg met n result db pairs).calls.map (fun c => (c.symbol, c.timeframe)) = pairs := by
  induction pairs generalizing n result db with
  | nil => rfl
  | cons pair rest ih =>
      obtain ⟨symbol, timeframe⟩ := pair
      unfold scanPairs at h ⊢
      cases hcall : ({ met n with symbol, timeframe } : PairCall).processPair cfg db with
      | mk outcome after =>
          cases outcome with
          | none => simp [hcall] at h
          | some outcome =>
              simp only [hcall, List.map_cons] at h ⊢
              rw [ih h]

theorem scanAll_tables (cfg : PairConfig) (met : ℕ → PairCall)
    (configured : Option (List Symbol × List Timeframe)) (db : Database) :
    (scanAll cfg met configured db).db =
      Runs.run (WorkerEvent.step cfg) db ((scanAll cfg met configured db).calls.map .pair) := by
  cases configured with
  | none => rfl
  | some configured => exact scanPairs_tables cfg met (pairsOf configured) 0 {} db

theorem scanAll_all {cfg : PairConfig} {met : ℕ → PairCall}
    {configured : Option (List Symbol × List Timeframe)} {db : Database}
    (h : (scanAll cfg met configured db).result.isSome = true) :
    ∃ c, configured = some c ∧
      (scanAll cfg met configured db).calls.map (fun c => (c.symbol, c.timeframe)) =
        pairsOf c := by
  cases configured with
  | none => simp [scanAll] at h
  | some c => exact ⟨c, rfl, scanPairs_all h⟩

/-! ### Runs of the loop

A turn reads a batch and, when its cycle comes, scans.  Each of its calls is a call of the
worker, with the tables as the earlier ones left them; so a run of the loop is a run of the
worker.
-/

namespace OrchestratorLoop

variable (fromJson : String → Option Envelope) (cfg : PairConfig)

theorem poll_tables (t : OrchestratorTurn) (db : Database) :
    (poll fromJson cfg t db).db =
      Runs.run (WorkerEvent.step cfg) db
        ((pollCalls t.polled (poll fromJson cfg t db).calls).map .pair) := by
  unfold poll
  cases t.response with
  | none => rfl
  | some response => exact (TriggerPoll.poll_triggers fromJson cfg t.polled db response).tables

theorem beforeScan_tables (t : OrchestratorTurn) (db : Database) :
    beforeScan fromJson cfg t db =
      Runs.run (WorkerEvent.step cfg) db
        ((pollCalls t.polled (poll fromJson cfg t db).calls).map .pair ++
          t.lifecycle.toList.map .cycle) := by
  rw [Runs.run_append, ← poll_tables]
  unfold beforeScan
  cases t.lifecycle with
  | none => rfl
  | some cy => rfl

theorem turn_tables (s : OrchestratorLoop) (t : OrchestratorTurn) :
    (s.turn fromJson cfg t).db =
      Runs.run (WorkerEvent.step cfg) s.db (s.events fromJson cfg t) := by
  unfold turn events
  by_cases hrunning : s.running = false
  · rw [if_pos hrunning, if_pos (Or.inl hrunning)]
    rfl
  · by_cases hrenewed : t.renewed = false
    · rw [if_neg hrunning, if_pos hrenewed, if_pos (Or.inr hrenewed)]
      rfl
    · rw [if_neg hrunning, if_neg hrenewed, if_neg (not_or.mpr ⟨hrunning, hrenewed⟩)]
      by_cases hscan : (s.cycle + 1) % scanEveryCycles = 0
      · simp only [if_pos hscan]
        rw [Runs.run_append, ← beforeScan_tables]
        exact scanAll_tables cfg t.scanned t.configured _
      · simp only [if_neg hscan]
        rw [List.append_nil, ← beforeScan_tables]

/-- **The loop refines the worker**: the tables go through its calls and cycles alone. -/
theorem run_loop (s : OrchestratorLoop) (ts : List OrchestratorTurn) :
    (Runs.run (turn fromJson cfg) s ts).db =
      Runs.run (WorkerEvent.step cfg) s.db (runEvents fromJson cfg s ts) := by
  induction ts generalizing s with
  | nil => rfl
  | cons t rest ih =>
      unfold runEvents
      rw [Runs.run_cons, ih, Runs.run_append, turn_tables]

/-- The turn gets through. -/
def GoesOn (s : OrchestratorLoop) (t : OrchestratorTurn) : Prop :=
  t.renewed = true ∧ ((s.cycle + 1) % scanEveryCycles = 0 →
    (scanAll cfg t.scanned t.configured (beforeScan fromJson cfg t s.db)).result.isSome = true)

theorem turn_running (s : OrchestratorLoop) (t : OrchestratorTurn) :
    (s.turn fromJson cfg t).running = true ↔
      s.running = true ∧ GoesOn fromJson cfg s t := by
  unfold turn GoesOn
  cases hrunning : s.running with
  | false => simp [hrunning]
  | true =>
      cases hrenewed : t.renewed with
      | false => simp
      | true =>
          by_cases hscan : (s.cycle + 1) % scanEveryCycles = 0
          · simp [hscan]
          · simp [hscan]

theorem run_running (s : OrchestratorLoop) (ts : List OrchestratorTurn) :
    (Runs.run (turn fromJson cfg) s ts).running = true ↔
      s.running = true ∧ Runs.Along (turn fromJson cfg) (GoesOn fromJson cfg) s ts := by
  induction ts generalizing s with
  | nil => simp [Runs.Along]
  | cons t rest ih =>
      rw [Runs.run_cons, ih, turn_running, and_assoc]
      rfl

variable {fromJson cfg}

theorem turn_cycle {s : OrchestratorLoop} {t : OrchestratorTurn}
    (h : (s.turn fromJson cfg t).running = true) :
    (s.turn fromJson cfg t).cycle = s.cycle + 1 := by
  obtain ⟨hrunning, hrenewed, -⟩ := (turn_running fromJson cfg s t).mp h
  unfold turn
  rw [if_neg (by simp [hrunning]), if_neg (by simp [hrenewed])]
  simp only
  split <;> rfl

/-- A turn that scans and gets through calls for every configured pair. -/
theorem events_scan {s : OrchestratorLoop} {t : OrchestratorTurn}
    (h : (s.turn fromJson cfg t).running = true) (hscan : (s.cycle + 1) % scanEveryCycles = 0)
    {pair : Symbol × Timeframe} (hpair : ∀ c, t.configured = some c → pair ∈ pairsOf c) :
    ∃ call, .pair call ∈ s.events fromJson cfg t ∧ (call.symbol, call.timeframe) = pair := by
  obtain ⟨hrunning, hrenewed, hgoes⟩ := (turn_running fromJson cfg s t).mp h
  obtain ⟨c, hconfigured, hcalls⟩ := scanAll_all (hgoes hscan)
  have hmem := hpair c hconfigured
  rw [← hcalls] at hmem
  obtain ⟨call, hcall, hsame⟩ := List.mem_map.mp hmem
  refine ⟨call, ?_, hsame⟩
  unfold events
  rw [if_neg (by simp [hrunning, hrenewed]), if_pos hscan]
  exact List.mem_append_right _ (List.mem_map_of_mem hcall)

theorem scan_reached {ts : List OrchestratorTurn} {s : OrchestratorLoop}
    (hrun : (Runs.run (turn fromJson cfg) s ts).running = true)
    (hlong : scanEveryCycles - s.cycle % scanEveryCycles ≤ ts.length)
    {pair : Symbol × Timeframe}
    (hpair : ∀ t ∈ ts, ∀ c, t.configured = some c → pair ∈ pairsOf c) :
    ∃ call, .pair call ∈ runEvents fromJson cfg s ts ∧
      (call.symbol, call.timeframe) = pair := by
  induction ts generalizing s with
  | nil =>
      have hlt : s.cycle % scanEveryCycles < scanEveryCycles := Nat.mod_lt _ (by decide)
      rw [List.length_nil] at hlong
      omega
  | cons t rest ih =>
      rw [Runs.run_cons] at hrun
      have hturn : (s.turn fromJson cfg t).running = true :=
        ((run_running fromJson cfg _ rest).mp hrun).1
      unfold runEvents
      by_cases hscan : (s.cycle + 1) % scanEveryCycles = 0
      · obtain ⟨call, hcall, hsame⟩ := events_scan hturn hscan (hpair t List.mem_cons_self)
        exact ⟨call, List.mem_append_left _ hcall, hsame⟩
      · have hcycle := turn_cycle hturn
        have hnext : scanEveryCycles - (s.turn fromJson cfg t).cycle % scanEveryCycles ≤
            rest.length := by
          rw [hcycle]
          rw [List.length_cons] at hlong
          unfold scanEveryCycles at hlong hscan ⊢
          omega
        obtain ⟨call, hcall, hsame⟩ :=
          ih hrun hnext fun t' ht' => hpair t' (List.mem_cons_of_mem t ht')
        exact ⟨call, List.mem_append_right _ hcall, hsame⟩

/-- The pair a trigger names is called for in the turn that reads the trigger. -/
theorem events_trigger {s : OrchestratorLoop} {t : OrchestratorTurn}
    (h : (s.turn fromJson cfg t).running = true)
    {response : List (String × List (String × String))} (hresponse : t.response = some response)
    {e : StreamEntry}
    (he : e ∈ (AgentPoll.entriesOf response).takeWhile (TriggerPoll.Readable fromJson))
    {key : String × String}
    (hnamed : TriggerPoll.named fromJson e = some key)
    (hknown : Timeframe.ofCode key.2.toUpper ≠ none) :
    ∃ call, .pair call ∈ s.events fromJson cfg t ∧ call.symbol = Symbol.ofText key.1 ∧
      some call.timeframe = Timeframe.ofCode key.2.toUpper := by
  obtain ⟨hrunning, hrenewed, -⟩ := (turn_running fromJson cfg s t).mp h
  have hpolled := TriggerPoll.poll_triggers fromJson cfg t.polled s.db response
  have hpoll : poll fromJson cfg t s.db
      = TriggerPoll.pollOnce fromJson cfg t.polled s.db response := by
    unfold poll
    rw [hresponse]
  have hkey : key ∈ (poll fromJson cfg t s.db).calls := by
    rw [hpoll, hpolled.called, List.mem_eraseDups]
    exact List.mem_filterMap.mpr ⟨e, he, hnamed⟩
  obtain ⟨timeframe, htimeframe⟩ := Option.ne_none_iff_exists'.mp hknown
  obtain ⟨n, hn⟩ := List.mem_iff_getElem?.mp hkey
  refine ⟨{ t.polled n with symbol := Symbol.ofText key.1, timeframe }, ?_, rfl, htimeframe.symm⟩
  unfold events
  rw [if_neg (by simp [hrunning, hrenewed])]
  refine List.mem_append_left _ (List.mem_append_left _ (List.mem_map_of_mem ?_))
  refine List.mem_filterMap.mpr ⟨(key, n), List.mem_zipIdx_iff_getElem?.mpr hn, ?_⟩
  unfold PairCall.ofTexts
  rw [htimeframe]
  rfl

/-- What is asked of a run of the loop. -/
structure Driven (fromJson : String → Option Envelope) (cfg : PairConfig) (s : OrchestratorLoop)
    (ts : List OrchestratorTurn) : Prop where
  /-- Whatever is raised, the tables go through calls and cycles alone. -/
  tables : (Runs.run (turn fromJson cfg) s ts).db =
    Runs.run (WorkerEvent.step cfg) s.db (runEvents fromJson cfg s ts)
  /-- Polls, calls of a poll and cycles that raise do not end the loop. -/
  running : (Runs.run (turn fromJson cfg) s ts).running = true ↔
    s.running = true ∧ Runs.Along (turn fromJson cfg) (GoesOn fromJson cfg) s ts
  /-- The pair a trigger names is called for in the turn that reads it, unless an entry before
  it in the batch is one on which `_unwrap` raises. -/
  triggered : (Runs.run (turn fromJson cfg) s ts).running = true →
    ∀ before t after, ts = before ++ t :: after →
    ∀ response, t.response = some response →
    ∀ e ∈ (AgentPoll.entriesOf response).takeWhile (TriggerPoll.Readable fromJson),
    ∀ key, TriggerPoll.named fromJson e = some key →
    Timeframe.ofCode key.2.toUpper ≠ none →
    ∃ call, .pair call ∈ (Runs.run (turn fromJson cfg) s before).events fromJson cfg t ∧
      call.symbol = Symbol.ofText key.1 ∧ some call.timeframe = Timeframe.ofCode key.2.toUpper
  /-- A pair that stays configured is called for in every `SCAN_EVERY_CYCLES` turns. -/
  scanned : (Runs.run (turn fromJson cfg) s ts).running = true →
    ∀ before window after, ts = before ++ (window ++ after) → scanEveryCycles ≤ window.length →
    ∀ pair, (∀ t ∈ window, ∀ c, t.configured = some c → pair ∈ pairsOf c) →
    ∃ call, .pair call ∈
        runEvents fromJson cfg (Runs.run (turn fromJson cfg) s before) window ∧
      (call.symbol, call.timeframe) = pair

variable (fromJson cfg)

theorem run_running_append {s : OrchestratorLoop} {ts us : List OrchestratorTurn}
    (h : (Runs.run (turn fromJson cfg) s (ts ++ us)).running = true) :
    (Runs.run (turn fromJson cfg) s ts).running = true := by
  rw [Runs.run_append] at h
  exact ((run_running fromJson cfg _ us).mp h).1

/-- **No pair starves**: as long as the loop runs, what is triggered is called for at once and
what is configured is called for again and again, and the tables go through these calls and
the cycles alone. -/
theorem pairs_never_starve (s : OrchestratorLoop) (ts : List OrchestratorTurn) :
    Driven fromJson cfg s ts := by
  refine ⟨run_loop fromJson cfg s ts, run_running fromJson cfg s ts, ?_, ?_⟩
  · intro hrun before t after hsplit response hresponse e he key hnamed hknown
    have hturn : (Runs.run (turn fromJson cfg) s (before ++ [t])).running = true := by
      rw [hsplit, List.append_cons] at hrun
      exact run_running_append fromJson cfg hrun
    rw [Runs.run_append] at hturn
    exact events_trigger hturn hresponse he hnamed hknown
  · intro hrun before window after hsplit hlong pair hpair
    have hwindow : (Runs.run (turn fromJson cfg) s (before ++ window)).running = true := by
      rw [hsplit, ← List.append_assoc] at hrun
      exact run_running_append fromJson cfg hrun
    rw [Runs.run_append] at hwindow
    exact scan_reached hwindow ((Nat.sub_le _ _).trans hlong) hpair

end OrchestratorLoop

end ForexAi
