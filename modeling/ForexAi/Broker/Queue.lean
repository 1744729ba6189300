/-
The queue of pending orders.

A submission adds one row to the queue or leaves the ledger as it is: `submit_kept` and
`submit_new` say which.  A bar adds nothing.  When the queue holds one order its unit has
one candidate, and the bar it is due at has one.
-/
import ForexAi.Broker.Live
import ForexAi.Broker.Replay

namespace ForexAi

/-! ### A queue of at most one order -/

namespace LedgerStore

variable {s : LedgerStore} {symbol : Symbol} {timeframe : Timeframe} {bucket : Time}

/-- The one order of the queue is the one candidate of its unit. -/
theorem unitCandidates_single {o : PaperOrderRow} (hqueue : s.listPendingOrders = [o])
    (hsymbol : o.symbol = symbol) (htimeframe : o.timeframe = timeframe)
    (hbucket : s.getDecisionBucket o.decisionId = some bucket) :
    s.unitCandidates symbol timeframe = [⟨o, bucket + timeframe.length⟩] := by
  have hcandidate : s.candidateOf o = some ⟨o, bucket + timeframe.length⟩ := by
    unfold candidateOf fillStamp
    rw [hbucket, htimeframe]
    rfl
  unfold unitCandidates pendingCandidates
  rw [hqueue, List.filterMap_cons_some hcandidate]
  exact List.filter_cons_of_pos (by simp [hsymbol, htimeframe])

theorem unitCandidates_empty (hqueue : s.listPendingOrders = []) :
    s.unitCandidates symbol timeframe = [] := by
  unfold unitCandidates pendingCandidates
  rw [hqueue]
  rfl

/-- An order added to an empty queue is the queue. -/
theorem listPendingOrders_append (hqueue : s.listPendingOrders = []) {s' : LedgerStore}
    {o : PaperOrderRow} (horders : s'.orders = s.orders ++ [o]) (hstatus : o.status = .pending) :
    s'.listPendingOrders = [o] := by
  have hnone : s.orders.filter (fun o => decide (o.status = .pending)) = [] := by
    refine List.eq_nil_iff_forall_not_mem.mpr fun q hq => ?_
    have hmem : q ∈ s.listPendingOrders := (List.mem_insertionSort OlderOrder).mpr hq
    rw [hqueue] at hmem
    exact absurd hmem (by simp)
  unfold listPendingOrders
  rw [horders, List.filter_append, hnone, List.filter_cons_of_pos (by simpa using hstatus)]
  rfl

end LedgerStore

/-! ### What a bar leaves of the queue in memory -/

namespace Ledger

theorem pending_cancelPending (l : Ledger) (order : PaperOrderRow) :
    ∀ o ∈ (l.cancelPending order).2.broker.pending, o ∈ l.broker.pending := by
  intro o ho
  unfold cancelPending at ho
  split at ho
  · exact List.mem_of_mem_filter ho
  · exact ho

variable [Digest]

theorem pending_fillPending (l : Ledger) (order : PaperOrderRow) (price : ℚ) (ts : Time) :
    ∀ o ∈ (l.fillPending order price ts).2.broker.pending, o ∈ l.broker.pending := by
  intro o ho
  unfold fillPending at ho
  split at ho
  · exact ho
  · split at ho
    · exact ho
    · simp only at ho
      split at ho
      · exact ho
      · split at ho
        · exact ho
        · exact List.mem_of_mem_filter ho

theorem pending_applyAction (symbol : Symbol) (bar : Bar) (run : UnitBarResult × Ledger)
    (act : PendingCandidate × FillAction) :
    ∀ o ∈ (applyAction symbol bar run act).2.broker.pending, o ∈ run.2.broker.pending := by
  intro o ho
  obtain ⟨c, action⟩ := act
  cases action with
  | superseded => exact pending_cancelPending run.2 c.order o ho
  | fill => exact pending_fillPending run.2 c.order bar.openPrice bar.ts o ho
  | flip =>
      have hclosed := pending_fillPending _ c.order bar.openPrice bar.ts o ho
      unfold closeOnSignal at hclosed
      rw [(persist_keeps _ _).2.2.2] at hclosed
      exact hclosed

/-- After a bar the broker's queue holds only what was pending in the table before it. -/
theorem pending_processUnitBar (interval : Option ℕ) (l : Ledger) (symbol : Symbol)
    (timeframe : Timeframe) (bar : Bar) (candidates : List PendingCandidate) :
    ∀ o ∈ (processUnitBar interval l symbol timeframe bar candidates).2.broker.pending,
      o ∈ l.store.listPendingOrders := by
  set run : UnitBarResult × Ledger := ({ symbol, timeframe, ts := bar.ts }, l.restoreState)
    with hrun
  have hopened : ∀ o ∈ (fillsAtOpen symbol bar candidates run).2.broker.pending,
      o ∈ l.store.listPendingOrders := by
    unfold fillsAtOpen
    refine List.foldlRecOn (motive := fun run' : UnitBarResult × Ledger =>
      ∀ o ∈ run'.2.broker.pending, o ∈ l.store.listPendingOrders) _ _ (fun o ho => ho) ?_
    intro run' hrun' act _ o ho
    exact hrun' o (pending_applyAction symbol bar run' act o ho)
  intro o ho
  refine hopened o ?_
  have hexit : ((fillsAtOpen symbol bar candidates run).2.evaluateExit symbol bar.close
      bar.ts).2.broker.pending = (fillsAtOpen symbol bar candidates run).2.broker.pending :=
    (persist_keeps _ _).2.2.2
  rcases processUnitBar_ends interval l symbol timeframe bar candidates with hend | hend
  · rw [hend, pending_markPosition] at ho
    rw [← hexit]
    exact ho
  · rw [hend, (equitySnapshot_keeps _ bar.ts).2.2.2.2, pending_markPosition] at ho
    rw [← hexit]
    exact ho

/-- The rows a bar writes back keep their ids and their decisions. -/
theorem orders_processUnitBar (interval : Option ℕ) (l : Ledger) (symbol : Symbol)
    (timeframe : Timeframe) (bar : Bar) (candidates : List PendingCandidate)
    (hdue : Due l.store symbol (candidatesForBar candidates bar.ts)) :
    ∀ o ∈ (processUnitBar interval l symbol timeframe bar candidates).2.store.orders,
      ∃ q ∈ l.store.orders, o.id = q.id ∧ o.decisionId = q.decisionId := by
  rw [processUnitBar_orders interval l symbol timeframe bar candidates hdue]
  intro o ho
  rcases mem_writeOrders ho with ho | ho
  · exact ⟨o, ho, rfl, rfl⟩
  · obtain ⟨act, hact, rfl⟩ := List.mem_map.mp ho
    have hdueAct := hdue.pending act.1 (arbitrateFills_mem hact)
    refine ⟨act.1.order, (LedgerStore.mem_listPendingOrders.mp hdueAct).1, ?_⟩
    unfold settledRow
    simp only
    split <;> exact ⟨rfl, rfl⟩

end Ledger

/-! ### A submission -/

/-- Flat, or on the side that is open, nothing is submitted. -/
theorem Submission.submit_kept {r : Submission} {l : Ledger}
    (h : r.direction = .flat ∨ (l.openFor r.symbol).map (·.side) = some r.direction) :
    r.submit l = l := by
  unfold submit Ledger.submitPaperOrder
  by_cases hskip : r.direction = .flat ∨ r.units ≤ 0
  · rw [dif_pos hskip]
  · rw [dif_neg hskip]
    rcases h with hflat | hside
    · exact absurd (Or.inl hflat) hskip
    · obtain ⟨pos, hpos, hsame⟩ := Option.map_eq_some_iff.mp hside
      rw [if_pos (by rw [hpos]; simpa using hsame)]

/-- Accepted or not, a submission touches neither the decisions nor the seed. -/
theorem Submission.submit_keeps (r : Submission) (l : Ledger) :
    (r.submit l).store.decisions = l.store.decisions ∧
      (r.submit l).broker.seed = l.broker.seed := by
  rcases r.submit_cases l with hsame | ⟨hshape, store, hsave, hsubmit⟩
  · rw [hsame]
    exact ⟨rfl, rfl⟩
  · rw [hsubmit]
    exact ⟨(LedgerStore.saveOrder_some hsave).2.2.2.2, rfl⟩

/-- **A new order is accepted** when its id and its decision are new. -/
theorem Submission.submit_new {r : Submission} {l : Ledger}
    (h : ¬ (r.direction = .flat ∨ r.units ≤ 0))
    (hside : (l.openFor r.symbol).map (·.side) ≠ some r.direction)
    (hqueue : ∀ o ∈ l.broker.pending, o.decisionId ≠ r.decisionId)
    (hrows : ∀ o ∈ l.store.orders, o.id ≠ r.id ∧ o.decisionId ≠ r.decisionId) :
    (r.submit l).store.orders = l.store.orders ++ [r.row l h] ∧
      (r.submit l).broker.pending = l.broker.pending ++ [r.row l h] := by
  have hkeep : ¬ (l.openFor r.symbol).any (fun pos => decide (pos.side = r.direction)) = true := by
    intro hc
    cases hpos : l.openFor r.symbol with
    | none =>
        rw [hpos] at hc
        exact absurd hc (by simp)
    | some pos =>
        rw [hpos] at hc hside
        exact hside (congrArg some (by simpa using hc))
  have hfresh : ¬ (r.decisionId.isSome = true ∧
      l.broker.pending.any (fun o => decide (o.decisionId = r.decisionId)) = true) := by
    rintro ⟨-, hany⟩
    obtain ⟨o, ho, hsame⟩ := List.any_eq_true.mp hany
    exact hqueue o ho (by simpa using hsame)
  have hunique : l.store.refusesOrder (r.row l h) = false := by
    refine List.any_eq_false.mpr fun o ho hc => ?_
    obtain ⟨hid, hdecision⟩ := hrows o ho
    rcases Bool.or_eq_true_iff.mp hc with hsame | hsame
    · exact hid (of_decide_eq_true hsame)
    · exact hdecision (of_decide_eq_true (Bool.and_eq_true_iff.mp hsame).2)
  obtain ⟨store, hstore⟩ : ∃ store, l.store.saveOrder (r.row l h) = some store := by
    unfold LedgerStore.saveOrder
    rw [dif_pos hunique]
    exact ⟨_, rfl⟩
  have hsubmit : r.submit l
      = { broker := { l.broker with pending := l.broker.pending ++ [r.row l h] }, store } := by
    unfold submit Ledger.submitPaperOrder
    rw [dif_neg h, if_neg hkeep, if_neg hfresh]
    unfold row at hstore
    simp only [hstore]
    rfl
  rw [hsubmit]
  exact ⟨(LedgerStore.saveOrder_some hstore).2.1, rfl⟩

end ForexAi
