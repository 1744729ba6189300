/-
What the backtest tables say of a run.

The trades and the curve of a run are written in the transaction that marks it completed, so
after any calls, with any commits lost or unheard and processes dying anywhere, a completed run
has exactly the trades, points and metrics of its replay, in the decimals of their columns, and
a running one has none.  A failed
run has none either, but for one case: the commit of the results took effect and raised.

The argument follows one call: the header is new, so nothing is stored under it (`kept_create`),
and from then on each transaction changes that run alone (`Kept.update`).
-/
import ForexAi.Backtest.Service
import ForexAi.Lib.Runs

namespace ForexAi

namespace BacktestDb

/-! ### What is kept of a run

A run has rows in three tables under one identifier.  What is said of it is said of these rows
and of the calls made so far, so the records of different runs do not meet.
-/

/-- Nothing is stored under the identifier. -/
def Bare (db : BacktestDb) (id : RunId) : Prop := db.tradesOf id = [] ∧ db.equityOf id = []

/-- Everything a replay gave is stored under the identifier. -/
def Whole (db : BacktestDb) (id : RunId) (result : BacktestResult) : Prop :=
  db.tradesOf id = result.trades.map (·.stored) ∧
    db.equityOf id = result.equityPoints.map (fun p => (p.1, Rounding.numeric 6 p.2)) ∧
    (result.equityPoints.map (·.1)).Nodup

/-- What the tables say of a run is what its call did. -/
structure Recorded (db : BacktestDb) (row : BacktestRunRow) (c : BacktestCall) : Prop where
  id : row.id = c.id
  cfg : row.cfg = c.cfg
  running : row.status = .running → db.Bare c.id ∧ row.error = none ∧ row.metrics = none
  completed : row.status = .completed → ∃ result, c.outcome = .ok result ∧
    db.Whole c.id result ∧ row.metrics = some result.metrics ∧ row.error = none
  failed : row.status = .failed → row.error ≠ none ∧
    (db.Bare c.id ∨ c.store = .unheard ∧ ∃ result, c.outcome = .ok result ∧ db.Whole c.id result)

/-- The tables after some calls. -/
structure Kept (db : BacktestDb) (calls : List BacktestCall) : Prop where
  unique : (db.runs.map (·.id)).Nodup
  ownTrades : ∀ t ∈ db.trades, t.1 ∈ db.runs.map (·.id)
  ownEquity : ∀ e ∈ db.equity, e.runId ∈ db.runs.map (·.id)
  recorded : ∀ row ∈ db.runs, ∃ c ∈ calls, db.Recorded row c

theorem Kept.mono {db : BacktestDb} {calls more : List BacktestCall} (h : db.Kept calls)
    (hsub : calls ⊆ more) : db.Kept more := by
  refine ⟨h.unique, h.ownTrades, h.ownEquity, fun row hrow => ?_⟩
  obtain ⟨c, hc, hrec⟩ := h.recorded row hrow
  exact ⟨c, hsub hc, hrec⟩

/-- A record speaks of what is stored under its own identifier only. -/
theorem Recorded.frame {db db' : BacktestDb} {row : BacktestRunRow} {c : BacktestCall}
    (h : db.Recorded row c) (htrades : db'.tradesOf c.id = db.tradesOf c.id)
    (hequity : db'.equityOf c.id = db.equityOf c.id) : db'.Recorded row c := by
  have hbare : db'.Bare c.id ↔ db.Bare c.id := by
    unfold Bare
    rw [htrades, hequity]
  have hwhole : ∀ result, db'.Whole c.id result ↔ db.Whole c.id result := by
    intro result
    unfold Whole
    rw [htrades, hequity]
  refine ⟨h.id, h.cfg, ?_, ?_, ?_⟩
  · intro hstatus
    rw [hbare]
    exact h.running hstatus
  · intro hstatus
    obtain ⟨result, houtcome, hall, hrest⟩ := h.completed hstatus
    exact ⟨result, houtcome, (hwhole result).mpr hall, hrest⟩
  · intro hstatus
    obtain ⟨herror, hstored⟩ := h.failed hstatus
    refine ⟨herror, hstored.imp hbare.mpr ?_⟩
    intro ⟨hunheard, result, houtcome, hall⟩
    exact ⟨hunheard, result, houtcome, (hwhole result).mpr hall⟩

theorem ids_mark (db : BacktestDb) (id : RunId) (change : BacktestRunRow → BacktestRunRow)
    (hid : ∀ r, (change r).id = r.id) :
    (db.mark id change).runs.map (·.id) = db.runs.map (·.id) := by
  unfold mark
  rw [List.map_map]
  refine List.map_congr_left fun r _ => ?_
  show (if r.id = id then change r else r).id = r.id
  split_ifs
  · exact hid r
  · rfl

/-- **A transaction about one run keeps the records of the others.** -/
theorem Kept.update {db db' : BacktestDb} {calls : List BacktestCall} (h : db.Kept calls)
    {c : BacktestCall} (hc : c ∈ calls) (change : BacktestRunRow → BacktestRunRow)
    (hid : ∀ r, (change r).id = r.id) (hruns : db'.runs = (db.mark c.id change).runs)
    (howned : c.id ∈ db.runs.map (·.id))
    (htrades : ∀ t ∈ db'.trades, t ∈ db.trades ∨ t.1 = c.id)
    (hequity : ∀ e ∈ db'.equity, e ∈ db.equity ∨ e.runId = c.id)
    (hframe : ∀ id ≠ c.id, db'.tradesOf id = db.tradesOf id ∧ db'.equityOf id = db.equityOf id)
    (hrec : ∀ r ∈ db.runs, r.id = c.id → db'.Recorded (change r) c) : db'.Kept calls := by
  have hids : db'.runs.map (·.id) = db.runs.map (·.id) := by
    rw [hruns]
    exact ids_mark db c.id change hid
  refine ⟨hids ▸ h.unique, ?_, ?_, ?_⟩
  · intro t ht
    rw [hids]
    rcases htrades t ht with hold | hown
    · exact h.ownTrades t hold
    · rw [hown]
      exact howned
  · intro e he
    rw [hids]
    rcases hequity e he with hold | hown
    · exact h.ownEquity e hold
    · rw [hown]
      exact howned
  · intro row' hrow'
    rw [hruns] at hrow'
    obtain ⟨row, hrow, rfl⟩ := List.mem_map.mp hrow'
    by_cases hown : row.id = c.id
    · rw [if_pos hown]
      exact ⟨c, hc, hrec row hrow hown⟩
    · rw [if_neg hown]
      obtain ⟨other, hother, hrecorded⟩ := h.recorded row hrow
      obtain ⟨hsameTrades, hsameEquity⟩ := hframe row.id hown
      rw [hrecorded.id] at hsameTrades hsameEquity
      exact ⟨other, hother, hrecorded.frame hsameTrades hsameEquity⟩

/-! ### The transactions

A call makes up to three: the header, the result, and the note of a failure.  Each of them is
committed and heard of, committed unheard, or lost.
-/

theorem createRun_eq_some {db created : BacktestDb} {c : BacktestCall}
    (h : db.createRun c.id c.cfg = some created) :
    c.id ∉ db.runs.map (·.id) ∧
      created = { db with runs := db.runs ++ [{ id := c.id, cfg := c.cfg }] } := by
  unfold createRun at h
  split_ifs at h with htaken
  exact ⟨htaken, (Option.some.inj h).symm⟩

/-- The header of a call is there, and no failure is noted for it yet. -/
def Open (db : BacktestDb) (c : BacktestCall) : Prop :=
  c.id ∈ db.runs.map (·.id) ∧ ∀ r ∈ db.runs, r.id = c.id → r.cfg = c.cfg ∧ r.error = none

theorem kept_create {db created : BacktestDb} {calls : List BacktestCall} (h : db.Kept calls)
    {c : BacktestCall} (hcreate : db.createRun c.id c.cfg = some created) :
    created.Kept (calls ++ [c]) ∧ created.Bare c.id ∧ created.Open c := by
  obtain ⟨hnew, rfl⟩ := createRun_eq_some hcreate
  have hbare : db.Bare c.id := by
    constructor
    · unfold tradesOf
      rw [List.filter_eq_nil_iff.mpr fun t ht => by
        intro hid
        exact hnew (of_decide_eq_true hid ▸ h.ownTrades t ht)]
      rfl
    · unfold equityOf
      rw [List.filter_eq_nil_iff.mpr fun e he => by
        intro hid
        exact hnew (of_decide_eq_true hid ▸ h.ownEquity e he)]
      rfl
  refine ⟨⟨?_, ?_, ?_, ?_⟩, hbare, by simp, ?_⟩
  · rw [List.map_append, List.map_singleton, ← List.concat_eq_append]
    exact h.unique.concat hnew
  · intro t ht
    rw [List.map_append]
    exact List.mem_append_left _ (h.ownTrades t ht)
  · intro e he
    rw [List.map_append]
    exact List.mem_append_left _ (h.ownEquity e he)
  · intro row hrow
    rcases List.mem_append.mp hrow with hold | hone
    · obtain ⟨other, hother, hrecorded⟩ := h.recorded row hold
      exact ⟨other, List.mem_append_left _ hother, hrecorded.frame rfl rfl⟩
    · obtain rfl := List.mem_singleton.mp hone
      refine ⟨c, by simp, rfl, rfl, fun _ => ⟨hbare, rfl, rfl⟩, ?_, ?_⟩
      · intro hstatus
        exact absurd hstatus (by simp)
      · intro hstatus
        exact absurd hstatus (by simp)
  · intro r hr hid
    rcases List.mem_append.mp hr with hold | hone
    · exact absurd (hid ▸ List.mem_map_of_mem hold) hnew
    · obtain rfl := List.mem_singleton.mp hone
      exact ⟨rfl, rfl⟩

/-- Noting a failure keeps the records, where nothing is stored or the commit was unheard. -/
theorem kept_noteFailure {db d : BacktestDb} {calls : List BacktestCall} (h : db.Kept calls)
    {c : BacktestCall} (hc : c ∈ calls) (hopen : db.Open c) {error : String}
    (hstored : db.Bare c.id ∨
      c.store = .unheard ∧ ∃ result, c.outcome = .ok result ∧ db.Whole c.id result)
    (hd : d ∈ db.noteFailure c error) : d.Kept calls := by
  unfold noteFailure at hd
  split_ifs at hd
  · obtain rfl := List.mem_singleton.mp hd
    refine h.update hc (fun r => { r with status := .failed, error := some error })
      (fun _ => rfl) rfl hopen.1 (fun _ ht => Or.inl ht) (fun _ he => Or.inl he)
      (fun _ _ => ⟨rfl, rfl⟩) ?_
    intro r hr hid
    exact ⟨hid, (hopen.2 r hr hid).1, fun hs => absurd hs (by simp),
      fun hs => absurd hs (by simp), fun _ => ⟨by simp, hstored⟩⟩
  · exact absurd hd List.not_mem_nil

theorem saveEquityCurve_eq {rows rows' : List BacktestEquityRow} {id : RunId}
    {points : List (Time × ℚ)} (h : saveEquityCurve rows id points = some rows') :
    rows' = rows ++ points.map (equityRow id) := by
  induction points generalizing rows with
  | nil => simpa [saveEquityCurve] using h.symm
  | cons p rest ih =>
      have hstep : (insertEquity rows (equityRow id p)).bind
          (fun next => saveEquityCurve next id rest) = some rows' := h
      unfold insertEquity at hstep
      split_ifs at hstep
      · exact absurd hstep (by simp)
      · rw [Option.bind_some] at hstep
        rw [ih hstep]
        simp

/-- The tables with the result of a call. -/
def withResult (db : BacktestDb) (c : BacktestCall) (result : BacktestResult) : BacktestDb :=
  ({ db with
    trades := db.trades ++ result.trades.map fun t => (c.id, t.stored)
    equity := db.equity ++ result.equityPoints.map (equityRow c.id) }
      : BacktestDb).markCompleted c.id result.metrics

/-- What the second transaction stores. -/
theorem storeResult_eq_ok {db stored : BacktestDb} {c : BacktestCall} {result : BacktestResult}
    (h : db.storeResult c result = .ok stored) :
    c.statement = none ∧ (saveEquityCurve db.equity c.id result.equityPoints).isSome = true ∧
      stored = db.withResult c result := by
  unfold storeResult at h
  cases hstatement : c.statement with
  | some error =>
      rw [hstatement] at h
      exact absurd h (by simp)
  | none =>
      rw [hstatement] at h
      cases hsave : saveEquityCurve db.equity c.id result.equityPoints with
      | none =>
          rw [hsave] at h
          exact absurd h (by simp)
      | some rows =>
          rw [hsave, saveEquityCurve_eq hsave] at h
          exact ⟨rfl, rfl, (Except.ok.inj h).symm⟩

theorem filter_own {α : Type} (id : RunId) (key : α → RunId) (xs ys : List α)
    (hys : ∀ y ∈ ys, key y = id) :
    (xs ++ ys).filter (fun x => key x = id) = xs.filter (fun x => key x = id) ++ ys := by
  rw [List.filter_append]
  refine congrArg _ (List.filter_eq_self.mpr fun y hy => ?_)
  simpa using hys y hy

theorem filter_other {α : Type} {id other : RunId} (hne : other ≠ id) (key : α → RunId)
    (xs ys : List α) (hys : ∀ y ∈ ys, key y = id) :
    (xs ++ ys).filter (fun x => key x = other) = xs.filter (fun x => key x = other) := by
  have hnone : ys.filter (fun x => key x = other) = [] := by
    rw [List.filter_eq_nil_iff]
    intro y hy
    rw [hys y hy]
    simpa using hne.symm
  rw [List.filter_append, hnone, List.append_nil]

/-- **The second transaction stores all of the result and marks the run completed.** -/
theorem kept_store {db stored : BacktestDb} {calls : List BacktestCall} (h : db.Kept calls)
    {c : BacktestCall} (hc : c ∈ calls) (hopen : db.Open c) (hbare : db.Bare c.id)
    {result : BacktestResult} (houtcome : c.outcome = .ok result)
    (hstore : db.storeResult c result = .ok stored) :
    stored.Kept calls ∧ stored.Whole c.id result ∧ stored.Open c := by
  obtain ⟨-, hsaved, rfl⟩ := storeResult_eq_ok hstore
  have hnodup := ((saveEquityCurve_isSome_iff c.id result.equityPoints db.equity).mp hsaved).1
  have htradeKeys : ∀ t ∈ result.trades.map (fun t => (c.id, t.stored)), t.1 = c.id := by
    intro t ht
    obtain ⟨_, -, rfl⟩ := List.mem_map.mp ht
    rfl
  have hpointKeys : ∀ e ∈ result.equityPoints.map (equityRow c.id), e.runId = c.id := by
    intro e he
    obtain ⟨_, -, rfl⟩ := List.mem_map.mp he
    rfl
  have hwhole : (db.withResult c result).Whole c.id result := by
    obtain ⟨htrades, hequity⟩ := hbare
    unfold tradesOf at htrades
    unfold equityOf at hequity
    refine ⟨?_, ?_, hnodup⟩
    · show ((db.trades ++ _).filter fun t => t.1 = c.id).map Prod.snd = _
      rw [filter_own c.id Prod.fst _ _ htradeKeys, List.map_append, htrades, List.map_map]
      rfl
    · show ((db.equity ++ _).filter fun e => e.runId = c.id).map (fun e => (e.ts, e.equity)) = _
      rw [filter_own c.id BacktestEquityRow.runId _ _ hpointKeys, List.map_append, hequity,
        List.map_map]
      rfl
  refine ⟨?_, hwhole, ?_⟩
  · refine h.update hc (fun r => { r with status := .completed, metrics := some result.metrics })
      (fun _ => rfl) rfl hopen.1 ?_ ?_ ?_ ?_
    · intro t ht
      exact (List.mem_append.mp ht).imp id (htradeKeys t)
    · intro e he
      exact (List.mem_append.mp he).imp id (hpointKeys e)
    · intro other hne
      constructor
      · show ((db.trades ++ _).filter fun t => t.1 = other).map Prod.snd = _
        rw [filter_other hne Prod.fst _ _ htradeKeys]
        rfl
      · show ((db.equity ++ _).filter fun e => e.runId = other).map (fun e => (e.ts, e.equity)) = _
        rw [filter_other hne BacktestEquityRow.runId _ _ hpointKeys]
        rfl
    · intro r hr hid
      obtain ⟨hcfg, herror⟩ := hopen.2 r hr hid
      exact ⟨hid, hcfg, fun hs => absurd hs (by simp),
        fun _ => ⟨result, houtcome, hwhole, rfl, herror⟩, fun hs => absurd hs (by simp)⟩
  · have hids : (db.withResult c result).runs.map (·.id) = db.runs.map (·.id) :=
      ids_mark _ c.id (fun r => { r with status := .completed, metrics := some result.metrics })
        fun _ => rfl
    refine ⟨hids ▸ hopen.1, ?_⟩
    intro r' hr' hid
    obtain ⟨r, hr, rfl⟩ := List.mem_map.mp hr'
    split_ifs at hid ⊢ with hown
    · exact hopen.2 r hr hown
    · exact absurd hid hown

/-! ### A call, and any calls

A process can die between two transactions, so what has to hold is said of every state that
was committed, and not of the end of the call alone.
-/

/-- **Every state that a call commits keeps the records.** -/
theorem kept_committed {db d : BacktestDb} {calls : List BacktestCall} (h : db.Kept calls)
    (c : BacktestCall) (hd : d ∈ db.committed c) : d.Kept (calls ++ [c]) := by
  unfold committed at hd
  cases hcreate : db.createRun c.id c.cfg with
  | none =>
      rw [hcreate] at hd
      exact absurd hd List.not_mem_nil
  | some created =>
      obtain ⟨hkept, hbare, hopen⟩ := kept_create h hcreate
      have hc : c ∈ calls ++ [c] := by simp
      rw [hcreate] at hd
      have hafter : ∀ d ∈ created.committedAfter c, d.Kept (calls ++ [c]) := by
        intro d hd
        unfold committedAfter at hd
        cases houtcome : c.outcome with
        | error error =>
            rw [houtcome] at hd
            exact kept_noteFailure hkept hc hopen (Or.inl hbare) hd
        | ok result =>
            rw [houtcome] at hd
            simp only at hd
            cases hstore : created.storeResult c result with
            | error error =>
                rw [hstore] at hd
                exact kept_noteFailure hkept hc hopen (Or.inl hbare) hd
            | ok stored =>
                obtain ⟨hkept', hwhole, hopen'⟩ := kept_store hkept hc hopen hbare houtcome hstore
                rw [hstore] at hd
                simp only at hd
                cases hfate : c.store with
                | done =>
                    rw [hfate] at hd
                    exact (List.mem_singleton.mp hd) ▸ hkept'
                | lost =>
                    rw [hfate] at hd
                    exact kept_noteFailure hkept hc hopen (Or.inl hbare) hd
                | unheard =>
                    rw [hfate] at hd
                    rcases List.mem_cons.mp hd with rfl | hnote
                    · exact hkept'
                    · exact kept_noteFailure hkept' hc hopen'
                        (Or.inr ⟨hfate, result, houtcome, hwhole⟩) hnote
      simp only at hd
      cases hfate : c.create with
      | done =>
          rw [hfate] at hd
          rcases List.mem_cons.mp hd with rfl | hlater
          · exact hkept
          · exact hafter d hlater
      | lost =>
          rw [hfate] at hd
          exact absurd hd List.not_mem_nil
      | unheard =>
          rw [hfate] at hd
          exact (List.mem_singleton.mp hd) ▸ hkept

theorem kept_step {db : BacktestDb} {calls : List BacktestCall} (h : db.Kept calls)
    (call : BacktestCall × ℕ) : (db.step call).Kept (calls ++ [call.1]) := by
  unfold step
  rw [List.getLastD_eq_getLast?]
  cases hlast : ((db.committed call.1).take call.2).getLast? with
  | none => exact h.mono (List.subset_append_left _ _)
  | some d =>
      exact kept_committed h call.1 (List.mem_of_mem_take (List.mem_of_getLast? hlast))

theorem kept_run (calls : List (BacktestCall × ℕ)) :
    (Runs.run step {} calls).Kept (calls.map Prod.fst) := by
  have hrun : ∀ (rest : List (BacktestCall × ℕ)) (db : BacktestDb) (before : List BacktestCall),
      db.Kept before → (Runs.run step db rest).Kept (before ++ rest.map Prod.fst) := by
    intro rest
    induction rest with
    | nil =>
        intro db before h
        rw [List.map_nil, List.append_nil]
        exact h
    | cons call rest ih =>
        intro db before h
        rw [Runs.run_cons, List.map_cons, List.append_cons]
        exact ih _ _ (kept_step h call)
  exact hrun calls {} [] ⟨List.nodup_nil, fun _ h => absurd h List.not_mem_nil,
    fun _ h => absurd h List.not_mem_nil, fun _ h => absurd h List.not_mem_nil⟩

/-- Nothing fails on the way of a call but what its replay raises. -/
structure Undisturbed (c : BacktestCall) : Prop where
  create : c.create = .done
  statement : c.statement = none
  store : c.store = .done
  fail : c.fail = .done

theorem mem_mark {db : BacktestDb} {c : BacktestCall} (h : db.Open c)
    (change : BacktestRunRow → BacktestRunRow) :
    ∃ r ∈ db.runs, r.id = c.id ∧ change r ∈ (db.mark c.id change).runs := by
  obtain ⟨r, hr, hid⟩ := List.mem_map.mp h.1
  exact ⟨r, hr, hid, List.mem_map.mpr ⟨r, hr, if_pos hid⟩⟩

/-- What the second transaction comes to, where nothing is stored of the run and no statement
fails: the curve is saved if it has no moment twice. -/
theorem storeResult_cases {db : BacktestDb} {c : BacktestCall} (result : BacktestResult)
    (hbare : db.Bare c.id) (hstatement : c.statement = none) :
    ((result.equityPoints.map (·.1)).Nodup ∧
        db.storeResult c result = .ok (db.withResult c result)) ∨
      (¬ (result.equityPoints.map (·.1)).Nodup ∧
        ∃ error, db.storeResult c result = .error error) := by
  cases hstore : db.storeResult c result with
  | ok stored =>
      obtain ⟨-, hsaved, rfl⟩ := storeResult_eq_ok hstore
      exact Or.inl ⟨((saveEquityCurve_isSome_iff c.id _ _).mp hsaved).1, rfl⟩
  | error error =>
      refine Or.inr ⟨fun hnodup => ?_, error, rfl⟩
      have hsaved : (saveEquityCurve db.equity c.id result.equityPoints).isSome = true := by
        refine (saveEquityCurve_isSome_iff c.id _ _).mpr ⟨hnodup, fun e he hid => ?_⟩
        have hmem : (e.ts, e.equity) ∈ db.equityOf c.id :=
          List.mem_map_of_mem (f := fun e : BacktestEquityRow => (e.ts, e.equity))
            (List.mem_filter.mpr ⟨he, by simpa using hid⟩)
        rw [hbare.2] at hmem
        exact absurd hmem List.not_mem_nil
      obtain ⟨rows, hrows⟩ := Option.isSome_iff_exists.mp hsaved
      unfold storeResult at hstore
      rw [hstatement, hrows] at hstore
      exact absurd hstore (by simp)

/-- What a call that nothing disturbs commits after its header. -/
theorem committedAfter_undisturbed {db : BacktestDb} {c : BacktestCall} (hc : Undisturbed c)
    (hbare : db.Bare c.id) :
    ((∃ result, c.outcome = .ok result ∧ (result.equityPoints.map (·.1)).Nodup) ∧
        ∃ result, db.committedAfter c = [db.withResult c result]) ∨
      (¬ (∃ result, c.outcome = .ok result ∧ (result.equityPoints.map (·.1)).Nodup) ∧
        ∃ error, db.committedAfter c = [db.markFailed c.id error]) := by
  have hnote : ∀ error, db.noteFailure c error = [db.markFailed c.id error] := by
    intro error
    unfold noteFailure
    rw [hc.fail]
    rfl
  unfold committedAfter
  cases houtcome : c.outcome with
  | error error =>
      exact Or.inr ⟨fun ⟨_, hresult, _⟩ => absurd hresult (by simp), error, hnote error⟩
  | ok result =>
      simp only
      rcases storeResult_cases result hbare hc.statement with
        ⟨hnodup, hstore⟩ | ⟨htwice, error, hstore⟩
      · rw [hstore]
        simp only
        rw [hc.store]
        exact Or.inl ⟨⟨result, rfl, hnodup⟩, result, rfl⟩
      · rw [hstore]
        refine Or.inr ⟨?_, error, hnote error⟩
        rintro ⟨result', hresult, hnodup⟩
        obtain rfl := Except.ok.inj hresult
        exact htwice hnodup

/-- The tables after a call under a new identifier that nothing disturbs, if it commits one state
after its header. -/
theorem step_undisturbed {db created d : BacktestDb} {c : BacktestCall} (hc : Undisturbed c)
    (hcreate : db.createRun c.id c.cfg = some created) (hafter : created.committedAfter c = [d])
    {n : ℕ} (hn : 2 ≤ n) : db.step (c, n) = d := by
  have hcommitted : db.committed c = [created, d] := by
    unfold committed
    rw [hcreate]
    simp only
    rw [hc.create, hafter]
  unfold step
  rw [hcommitted, List.take_of_length_le (by simpa using hn)]
  rfl

/-- A call that nothing disturbs ends with its run completed, or failed where the replay raised
or the curve has a moment twice. -/
theorem status_undisturbed {db : BacktestDb} {calls : List BacktestCall} (h : db.Kept calls)
    {c : BacktestCall} (hnew : c.id ∉ db.runs.map (·.id)) (hc : Undisturbed c) {n : ℕ}
    (hn : 2 ≤ n) :
    ∃ row ∈ (db.step (c, n)).runs, row.id = c.id ∧
      ((∃ result, c.outcome = .ok result ∧ (result.equityPoints.map (·.1)).Nodup) →
        row.status = .completed) ∧
      (¬ (∃ result, c.outcome = .ok result ∧ (result.equityPoints.map (·.1)).Nodup) →
        row.status = .failed) := by
  obtain ⟨created, hcreate⟩ : ∃ created, db.createRun c.id c.cfg = some created :=
    ⟨_, if_neg hnew⟩
  obtain ⟨-, hbare, hopen⟩ := kept_create h hcreate
  rcases committedAfter_undisturbed hc hbare with
    ⟨hwhole, result, hafter⟩ | ⟨hnone, error, hafter⟩
  · rw [step_undisturbed hc hcreate hafter hn]
    obtain ⟨r, -, hid, hmem⟩ := mem_mark hopen fun r =>
      { r with status := .completed, metrics := some result.metrics }
    exact ⟨_, hmem, hid, fun _ => rfl, fun hnone => absurd hwhole hnone⟩
  · rw [step_undisturbed hc hcreate hafter hn]
    obtain ⟨r, -, hid, hmem⟩ :=
      mem_mark hopen fun r => { r with status := .failed, error := some error }
    exact ⟨_, hmem, hid, fun hwhole => absurd hwhole hnone, fun _ => rfl⟩

/-- **What the tables say of a run is what its call did**, after any calls, whatever of them
fails and wherever their processes die: a completed run has the trades, the curve and the
metrics of its replay, in the decimals of their columns, and a running one has nothing.  And a
call under a new identifier that nothing disturbs completes, unless its replay raises or its
curve has a moment twice. -/
theorem recorded_run (calls : List (BacktestCall × ℕ)) :
    (Runs.run step {} calls).Kept (calls.map Prod.fst) ∧
      ∀ c n, c.id ∉ (Runs.run step {} calls).runs.map (·.id) → Undisturbed c → 2 ≤ n →
        ∃ row ∈ (Runs.run step {} (calls ++ [(c, n)])).runs, row.id = c.id ∧
          ((∃ result, c.outcome = .ok result ∧ (result.equityPoints.map (·.1)).Nodup) →
            row.status = .completed) ∧
          (¬ (∃ result, c.outcome = .ok result ∧ (result.equityPoints.map (·.1)).Nodup) →
            row.status = .failed) := by
  refine ⟨kept_run calls, fun c n hnew hc hn => ?_⟩
  rw [Runs.run_append]
  exact status_undisturbed (kept_run calls) hnew hc hn

end BacktestDb

end ForexAi
