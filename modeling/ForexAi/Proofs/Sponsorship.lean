/-
Every order is sponsored by exactly one decision.

A call writes in up to three tables, and the three inserts look for a conflict under
different keys.  What ties them together is `Sponsored`: row for row, every decision has the
evaluation it was committed with, so the two tables always have the same bars and a bar is new
to both or to neither.  Then an evaluation is never taken from another decision, and the order
of a new `PAPER` decision finds the decision and the evaluation of its own transaction.

A call that raises leaves the tables as they were, and the lifecycle keeps the terms of all
orders, so the invariant holds after any run of calls and cycles.
-/
import ForexAi.Backtest.Stub
import ForexAi.Broker.Terms
import ForexAi.Workers.ProcessPair

namespace ForexAi

/-- What an order has from the decision that sponsors it and from its evaluation. -/
structure Sponsors (d : DecisionRow) (e : RiskEvaluationRow) (t : OrderTerms) : Prop where
  decision : t.decisionId = some d.id
  paper : d.status = .paper
  symbol : t.symbol = d.symbol
  timeframe : t.timeframe = d.timeframe
  side : t.side = d.fusedDirection
  units : e.positionSizeUnits = some t.units
  price : e.price = some t.requestedPrice
  stop_loss : e.stopLoss = t.stopLoss
  take_profit : e.takeProfit = t.takeProfit
  at_once : t.createdAt = d.decisionAt

/-- What every call and every cycle keeps. -/
structure Sponsored (db : Database) : Prop where
  evaluated : List.Forall₂ EvaluatedWith db.decisions db.riskEvaluations
  keys : (db.decisions.map (·.key)).Nodup
  ids : (db.decisions.map (·.id)).Nodup
  once : (db.ledger.terms.map (·.decisionId)).Nodup
  sponsors : ∀ t ∈ db.ledger.terms, ∃ d ∈ db.decisions, ∃ e ∈ db.riskEvaluations,
    EvaluatedWith d e ∧ Sponsors d e t

theorem sponsored_empty : Sponsored Database.empty where
  evaluated := .nil
  keys := List.nodup_nil
  ids := List.nodup_nil
  once := List.nodup_nil
  sponsors := fun t ht => absurd ht (by simp [Database.empty, Database.ledger, LedgerStore.terms])

/-- The evaluations are of the bars the decisions are of. -/
theorem evaluated_keys {ds : List DecisionRow} {es : List RiskEvaluationRow}
    (h : List.Forall₂ EvaluatedWith ds es) : es.map (·.key) = ds.map (·.key) := by
  induction h with
  | nil => rfl
  | cons hfirst _ ih => rw [List.map_cons, List.map_cons, hfirst.key, ih]

/-- The evaluations are of the decisions, each of its own. -/
theorem evaluated_ids {ds : List DecisionRow} {es : List RiskEvaluationRow}
    (h : List.Forall₂ EvaluatedWith ds es) :
    es.map (·.decisionId) = (ds.map (·.id)).map some := by
  induction h with
  | nil => rfl
  | cons hfirst _ ih => rw [List.map_cons, List.map_cons, List.map_cons, hfirst.decision, ih]

namespace Sponsored

variable {db : Database}

/-! ### The three kinds of writes

A decision and its evaluation come in together, with an order of theirs or without one.  Once
they are there only the lifecycle touches one of the three, the order, and leaves its terms as
they are.
-/

/-- A decision on a new bar, with its evaluation. -/
theorem decided (h : Sponsored db) {d : DecisionRow} {e : RiskEvaluationRow}
    (hkey : d.key ∉ db.decisions.map (·.key)) (hid : d.id ∉ db.decisions.map (·.id))
    (hevaluated : EvaluatedWith d e) :
    Sponsored { db with decisions := db.decisions ++ [d],
                        riskEvaluations := db.riskEvaluations ++ [e] } where
  evaluated := List.rel_append h.evaluated (.cons hevaluated .nil)
  keys := Keyed.nodup_concat h.keys hkey
  ids := Keyed.nodup_concat h.ids hid
  once := h.once
  sponsors := by
    intro t ht
    obtain ⟨d', hd', e', he', hsponsors⟩ := h.sponsors t ht
    exact ⟨d', List.mem_append_left _ hd', e', List.mem_append_left _ he', hsponsors⟩

/-- Ledger writes that keep the terms of all orders. -/
theorem settled (h : Sponsored db) {s : LedgerStore} (hterms : s.terms = db.ledger.terms) :
    Sponsored (db.write s) where
  evaluated := h.evaluated
  keys := h.keys
  ids := h.ids
  once := by
    show (s.terms.map (·.decisionId)).Nodup
    rw [hterms]
    exact h.once
  sponsors := by
    intro t ht
    refine h.sponsors t ?_
    rw [← hterms]
    exact ht

/-- An order of its own for a decision that has none. -/
theorem ordered (h : Sponsored db) {s : LedgerStore} {o : PaperOrderRow} {d : DecisionRow}
    {e : RiskEvaluationRow} (horders : s.orders = db.orders ++ [o])
    (hnew : ∀ q ∈ db.orders, q.decisionId ≠ o.decisionId) (hd : d ∈ db.decisions)
    (he : e ∈ db.riskEvaluations) (hevaluated : EvaluatedWith d e)
    (hsponsors : Sponsors d e o.terms) : Sponsored (db.write s) where
  evaluated := h.evaluated
  keys := h.keys
  ids := h.ids
  once := by
    show ((s.orders.map (·.terms)).map (·.decisionId)).Nodup
    rw [horders, List.map_append, List.map_singleton]
    refine Keyed.nodup_concat h.once fun hmem => ?_
    obtain ⟨t, ht, hsame⟩ := List.mem_map.mp hmem
    obtain ⟨q, hq, rfl⟩ := List.mem_map.mp ht
    exact hnew q hq hsame
  sponsors := by
    intro t ht
    obtain ⟨q, hq, rfl⟩ := List.mem_map.mp ht
    have hq' : q ∈ db.orders ++ [o] := horders ▸ hq
    rcases List.mem_append.mp hq' with hold | hadded
    · exact h.sponsors q.terms (List.mem_map_of_mem hold)
    · rw [List.mem_singleton.mp hadded]
      exact ⟨d, hd, e, he, hevaluated, hsponsors⟩

end Sponsored

/-! ### A call

A call commits one transaction.  Either the bar was decided on before and each insert finds
its row, or it was not and none does; the case in between is what the invariant excludes.
-/

namespace PairCall

variable {call : PairCall}

theorem submission_spec {r : DecideReport} {d : DecisionRow} {e : RiskEvaluationRow}
    {submission : Submission} (h : call.submission r (some d) (some e) = some submission) :
    e.positionSizeUnits = some submission.units ∧ e.price = some submission.refPrice ∧
      r.direction = some submission.direction ∧
      submission = { submission with
        createdAt := call.dbNow, symbol := r.symbol, timeframe := r.timeframe,
        decisionId := some d.id, stopLoss := e.stopLoss, takeProfit := e.takeProfit } := by
  obtain ⟨units, hunits, h⟩ := Option.bind_eq_some_iff.mp h
  obtain ⟨price, hprice, h⟩ := Option.bind_eq_some_iff.mp h
  obtain ⟨direction, hdirection, h⟩ := Option.bind_eq_some_iff.mp h
  obtain rfl := Option.some.inj h
  exact ⟨hunits, hprice, hdirection, rfl⟩

/-- The row such a submission writes is sponsored. -/
theorem submission_sponsors {r : DecideReport} {d : DecisionRow} {e : RiskEvaluationRow}
    (hkey : d.key = r.key) (hpaper : d.status = .paper)
    (hdirection : r.direction = some d.fusedDirection) (hat : d.decisionAt = call.dbNow)
    {submission : Submission} (h : call.submission r (some d) (some e) = some submission)
    (l : Ledger) (hshape : ¬ (submission.direction = .flat ∨ submission.units ≤ 0)) :
    Sponsors d e (submission.row l hshape).terms := by
  obtain ⟨hunits, hprice, hside, hargs⟩ := submission_spec h
  have hsame : submission.direction = d.fusedDirection :=
    Option.some.inj (hside.symm.trans hdirection)
  exact
    { decision := congrArg Submission.decisionId hargs
      paper := hpaper
      symbol := (congrArg Submission.symbol hargs).trans (congrArg BarKey.symbol hkey).symm
      timeframe := (congrArg Submission.timeframe hargs).trans (congrArg BarKey.timeframe hkey).symm
      side := hsame
      units := hunits
      price := hprice
      stop_loss := (congrArg Submission.stopLoss hargs).symm
      take_profit := (congrArg Submission.takeProfit hargs).symm
      at_once := (congrArg Submission.createdAt hargs).trans hat.symm }

variable [Digest]

/-- What the wiring leaves of the orders: the table as it was, or one sponsored row more, whose
decision had no order. -/
theorem wirePaperDecision_cases {l l' : Ledger} {r : DecideReport} {d : DecisionRow}
    {e : RiskEvaluationRow} (hkey : d.key = r.key) (hstatus : r.status = some d.status)
    (hdirection : r.direction = some d.fusedDirection) (hat : d.decisionAt = call.dbNow)
    (h : call.wirePaperDecision l r (some d) (some e) = some l') :
    l' = l ∨ ∃ o, l'.store.orders = l.store.orders ++ [o] ∧ Sponsors d e o.terms ∧
      ∀ q ∈ l.store.orders, q.decisionId ≠ o.decisionId := by
  unfold wirePaperDecision at h
  by_cases hidle : r.status ≠ some .paper ∨ r.created = false
  · rw [if_pos hidle] at h
    exact Or.inl (Option.some.inj h).symm
  · rw [if_neg hidle] at h
    have hpaper : d.status = .paper := by
      have hreport : r.status = some .paper := not_not.mp fun hc => hidle (Or.inl hc)
      exact Option.some.inj (hstatus.symm.trans hreport)
    cases hsubmission : call.submission r (some d) (some e) with
    | none =>
        rw [hsubmission] at h
        exact Or.inl (Option.some.inj h).symm
    | some submission =>
        rw [hsubmission] at h
        obtain ⟨_, -, hcall⟩ := Option.bind_eq_some_iff.mp h
        unfold LedgerOp.call at hcall
        split at hcall
        · exact absurd hcall (by simp)
        · have hl : l' = submission.submit l := (Option.some.inj hcall).symm
          rw [hl]
          rcases submission.submit_cases l with hkept | ⟨hshape, store, hsave, hsubmit⟩
          · exact Or.inl hkept
          · obtain ⟨hunique, horders, -⟩ := LedgerStore.saveOrder_some hsave
            refine Or.inr ⟨_, by rw [hsubmit]; exact horders,
              submission_sponsors hkey hpaper hdirection hat hsubmission l hshape, ?_⟩
            intro q hq hsame
            have hdecision : submission.decisionId = some d.id :=
              congrArg Submission.decisionId (submission_spec hsubmission).2.2.2
            refine absurd (List.any_eq_false.mp hunique q hq) (not_not.mpr ?_)
            rw [Bool.or_eq_true, Bool.and_eq_true]
            refine Or.inr ⟨?_, by simpa using hsame⟩
            show submission.decisionId.isSome = true
            rw [hdecision]
            rfl

theorem sponsorPaperOrder_kept {broker : Option LedgerBroker} {r : DecideReport} {db : Database}
    (h : r.created = false) : call.sponsorPaperOrder broker r db = some db := by
  unfold sponsorPaperOrder
  cases broker with
  | none => rfl
  | some broker => exact if_pos (Or.inr h)

theorem sponsored_sponsorPaperOrder {broker : Option LedgerBroker} {r : DecideReport}
    {db db' : Database} (hdb : Sponsored db) {d : DecisionRow} {e : RiskEvaluationRow}
    (hd : Keyed.find DecisionRow.key db.decisions r.key = some d)
    (he : Keyed.find RiskEvaluationRow.key db.riskEvaluations r.key = some e)
    (hevaluated : EvaluatedWith d e) (hstatus : r.status = some d.status)
    (hdirection : r.direction = some d.fusedDirection) (hat : d.decisionAt = call.dbNow)
    (h : call.sponsorPaperOrder broker r db = some db') : Sponsored db' := by
  unfold sponsorPaperOrder at h
  cases broker with
  | none =>
      rw [← Option.some.inj h]
      exact hdb
  | some broker =>
      by_cases hidle : r.status ≠ some .paper ∨ r.created = false
      · simp only [if_pos hidle] at h
        rw [← Option.some.inj h]
        exact hdb
      · simp only [if_neg hidle, hd, he] at h
        obtain ⟨_, -, h⟩ := Option.bind_eq_some_iff.mp h
        obtain ⟨l', hwired, h⟩ := Option.bind_eq_some_iff.mp h
        rw [← Option.some.inj h]
        obtain ⟨hdmem, hdkey⟩ := Keyed.mem_of_find hd
        obtain ⟨hemem, -⟩ := Keyed.mem_of_find he
        rcases wirePaperDecision_cases hdkey hstatus hdirection hat hwired with
          rfl | ⟨o, horders, hsponsors, hnew⟩
        · exact hdb.settled rfl
        · exact hdb.ordered horders hnew hdmem hemem hevaluated hsponsors

/-- **What a call writes is sponsored**: a bar that was decided on stays as it is, and a new one
gets its decision, its evaluation and at most the order that goes with them. -/
theorem sponsored_transaction {cfg : PairConfig} {db db' : Database} (hdb : Sponsored db)
    {r : Option DecideReport} (h : call.transaction cfg db = some (r, db')) : Sponsored db' := by
  unfold transaction at h
  obtain ⟨_, -, h⟩ := Option.bind_eq_some_iff.mp h
  split at h
  · rw [← (Prod.mk.inj (Option.some.inj h)).2]
    exact hdb
  · obtain ⟨_, -, h⟩ := Option.bind_eq_some_iff.mp h
    obtain ⟨⟨report, decided⟩, hdecided, h⟩ := Option.bind_eq_some_iff.mp h
    obtain ⟨sponsored, hsponsored, h⟩ := Option.bind_eq_some_iff.mp h
    obtain ⟨_, -, h⟩ := Option.bind_eq_some_iff.mp h
    rw [← (Prod.mk.inj (Option.some.inj h)).2]
    unfold sponsorPersisted at hsponsored
    rcases decidePair_cases hdecided with
      ⟨hskip, hsame⟩ | ⟨outcome, assessed, hrisk, hwritten, hstatus, hdirection⟩
    · rw [if_neg (by simp [hskip]), hsame] at hsponsored
      rw [← Option.some.inj hsponsored]
      exact hdb
    · rcases persist_spec (evaluated_keys hdb.evaluated) hrisk hwritten with
        ⟨hknown, hsame⟩ | ⟨-, hkey, hid, e, hevaluated, hafter⟩
      · rw [sponsorPaperOrder_kept hknown, ite_self, hsame] at hsponsored
        rw [← Option.some.inj hsponsored]
        exact hdb
      · have hafterSponsored : Sponsored decided := by
          rw [hafter]
          exact hdb.decided hkey hid hevaluated
        split at hsponsored
        · have hkeyEvaluations : e.key ∉ db.riskEvaluations.map (·.key) := by
            rw [evaluated_keys hdb.evaluated, hevaluated.key]
            exact hkey
          have hd : Keyed.find DecisionRow.key decided.decisions report.key
              = some (call.decisionRow report.key outcome) := by
            rw [hafter]
            exact Keyed.find_concat hkey
          have he : Keyed.find RiskEvaluationRow.key decided.riskEvaluations report.key
              = some e := by
            rw [hafter, show report.key = e.key from hevaluated.key.symm]
            exact Keyed.find_concat hkeyEvaluations
          exact sponsored_sponsorPaperOrder hafterSponsored hd he hevaluated hstatus hdirection rfl
            hsponsored
        · rw [← Option.some.inj hsponsored]
          exact hafterSponsored

theorem sponsored_processPair {cfg : PairConfig} {db : Database} (hdb : Sponsored db) :
    Sponsored (call.processPair cfg db).2 := by
  unfold processPair
  cases htransaction : call.transaction cfg db with
  | none => exact hdb
  | some committed =>
      simp only
      split <;> exact sponsored_transaction hdb htransaction

end PairCall

/-! ### A cycle of the lifecycle

Fills and cancellations set the status of an order and what it was filled at.  Who decided on
it, for how much and within which bracket is never written again.
-/

namespace WorkerCycle

theorem knows_unitCandidates (store : LedgerStore) (symbol : Symbol) (timeframe : Timeframe) :
    ∀ c ∈ store.unitCandidates symbol timeframe, store.Knows c.order := by
  intro c hc
  have hpending := (due_unitCandidates store symbol timeframe).pending c hc
  exact LedgerStore.knows_of_mem (LedgerStore.mem_listPendingOrders.mp hpending).1

theorem terms_planUnit (cfg : WorkerConfig) (series : Series) (store : LedgerStore)
    (symbol : Symbol) (timeframe : Timeframe) :
    (planUnit cfg series store symbol timeframe).ledger.store.terms = store.terms := by
  unfold planUnit
  cases series.lastClosedTs with
  | none => rfl
  | some latestClosed =>
      simp only
      rw [← List.foldl_map (f := fun c : PendingCandidate => c.order)
        (g := fun l o => (Ledger.cancelPending l o).2)]
      refine Ledger.terms_cancelAll _ _ fun o ho => ?_
      obtain ⟨c, hc, rfl⟩ := List.mem_map.mp ho
      unfold missingBarCandidates at hc
      rw [List.mem_insertionSort] at hc
      exact knows_unitCandidates store symbol timeframe c (List.mem_filter.mp hc).1

variable [Digest]

theorem terms_processUnit (cfg : WorkerConfig) (candles : Candles) (store : LedgerStore)
    (unit : Symbol × Timeframe) (fault : Option ℕ) :
    (processUnit cfg candles store unit fault).terms = store.terms := by
  have hplan := terms_planUnit cfg (candles unit.1 unit.2) store unit.1 unit.2
  have hknows := knows_unitCandidates store unit.1 unit.2
  have hcandidates := planUnit_candidates cfg (candles unit.1 unit.2) store unit.1 unit.2
  unfold processUnit
  simp only [hcandidates]
  refine Runs.invariant (P := fun _ _ => True)
    (I := fun l : Ledger => l.store.terms = store.terms) ?_ hplan
    (Runs.along_of_forall fun _ _ => trivial)
  intro l bar hl _
  exact (Ledger.terms_processUnitBar cfg.snapshotInterval l unit.1 unit.2 bar _
    fun c hc => (hknows c hc).of_terms hl).trans hl

omit [Digest] in
theorem terms_cancelExpiredPending (cfg : WorkerConfig) (store : LedgerStore) (now : Time) :
    (cancelExpiredPending cfg store now).terms = store.terms := by
  refine Ledger.terms_cancelAll _ _ fun o ho => ?_
  have hpending : o ∈ store.listPendingOrders := (List.mem_filter.mp ho).1
  exact LedgerStore.knows_of_mem (LedgerStore.mem_listPendingOrders.mp hpending).1

/-- **A cycle keeps the terms of all orders**, however its passes end. -/
theorem terms_apply (cfg : WorkerConfig) (cy : WorkerCycle) (store : LedgerStore) :
    (cy.apply cfg store).terms = store.terms := by
  have hpass : ∀ s unit, s.terms = store.terms → (cy.pass cfg s unit).terms = store.terms := by
    intro s unit hs
    unfold pass
    split
    · exact (terms_processUnit cfg cy.candles s unit none).trans hs
    · exact hs
    · exact (terms_processUnit cfg cy.candles s unit _).trans hs
  have hpasses : (cy.passes cfg store).terms = store.terms :=
    Runs.invariant (P := fun _ _ => True) (I := fun s => s.terms = store.terms)
      (fun s unit hs _ => hpass s unit hs) rfl (Runs.along_of_forall fun _ _ => trivial)
  rw [apply_eq]
  split
  · exact (terms_cancelExpiredPending cfg _ cy.now).trans hpasses
  · exact hpasses

end WorkerCycle

/-! ### Runs -/

variable [Digest]

theorem sponsored_step (cfg : PairConfig) (db : Database) (event : WorkerEvent)
    (h : Sponsored db) : Sponsored (WorkerEvent.step cfg db event) := by
  cases event with
  | pair call => exact PairCall.sponsored_processPair h
  | cycle cy =>
      unfold WorkerEvent.step
      cases cfg.broker with
      | none => exact h
      | some broker => exact h.settled (WorkerCycle.terms_apply _ cy db.ledger)

theorem sponsored_run (cfg : PairConfig) (events : List WorkerEvent) :
    Sponsored (Runs.run (WorkerEvent.step cfg) Database.empty events) :=
  Runs.invariant (P := fun _ _ => True) (I := Sponsored)
    (fun db event h _ => sponsored_step cfg db event h) sponsored_empty
    (Runs.along_of_forall fun _ _ => trivial)

omit [Digest] in
/-- An order of sponsored tables, its decision and its evaluation, and no other of either. -/
theorem Sponsored.sponsor {db : Database} (h : Sponsored db) {o : PaperOrderRow}
    (ho : o ∈ db.orders) :
    ∃ d ∈ db.decisions, ∃ e ∈ db.riskEvaluations, EvaluatedWith d e ∧ Sponsors d e o.terms ∧
      (∀ d' ∈ db.decisions, o.decisionId = some d'.id → d' = d) ∧
      ∀ e' ∈ db.riskEvaluations, e'.decisionId = some d.id → e' = e := by
  obtain ⟨d, hd, e, he, hevaluated, hsponsors⟩ := h.sponsors o.terms (List.mem_map_of_mem ho)
  refine ⟨d, hd, e, he, hevaluated, hsponsors, fun d' hd' hid => ?_, fun e' he' hid => ?_⟩
  · have hsame : d'.id = d.id := Option.some.inj (hid.symm.trans hsponsors.decision)
    exact List.inj_on_of_nodup_map h.ids hd' hd hsame
  · have hnodup : (db.riskEvaluations.map (·.decisionId)).Nodup := by
      rw [evaluated_ids h.evaluated]
      exact h.ids.map (Option.some_injective _)
    exact List.inj_on_of_nodup_map hnodup he' he (hid.trans hevaluated.decision.symm)

omit [Digest] in
/-- Two orders of one decision are one order. -/
theorem Sponsored.order_unique {db : Database} (h : Sponsored db) {o o' : PaperOrderRow}
    (ho : o ∈ db.orders) (ho' : o' ∈ db.orders) (hsame : o.decisionId = o'.decisionId) :
      o = o' := by
  have hnodup : (db.orders.map (·.decisionId)).Nodup := by
    have honce := h.once
    unfold LedgerStore.terms at honce
    rw [List.map_map] at honce
    exact honce
  exact List.inj_on_of_nodup_map hnodup ho ho' hsame

/-- **Every order is sponsored by exactly one decision.**  After any calls for any pairs, among
them calls that were made before and calls that raise at any step, and after any cycles of the
lifecycle between them, there is one decision a bar and at most one order a decision, and an
order refers to a `PAPER` decision, and no other, of its symbol, timeframe and direction and has
the units, the price, the stop and the target of the evaluation committed with that decision. -/
theorem every_order_sponsored (cfg : PairConfig) (events : List WorkerEvent) :
    let db := Runs.run (WorkerEvent.step cfg) Database.empty events
    (db.decisions.map (·.key)).Nodup ∧
      (∀ o ∈ db.orders, ∀ o' ∈ db.orders, o.decisionId = o'.decisionId → o = o') ∧
      ∀ o ∈ db.orders, ∃ d ∈ db.decisions, ∃ e ∈ db.riskEvaluations,
        EvaluatedWith d e ∧ Sponsors d e o.terms ∧
          (∀ d' ∈ db.decisions, o.decisionId = some d'.id → d' = d) ∧
          ∀ e' ∈ db.riskEvaluations, e'.decisionId = some d.id → e' = e := by
  intro db
  have h : Sponsored db := sponsored_run cfg events
  refine ⟨h.keys, ?_, fun o ho => h.sponsor ho⟩
  intro o ho o' ho' hsame
  exact h.order_unique ho ho' hsame

/-- A call on a bar where everyone is long, with its fresh ids. -/
def longCall (id : ℕ) (fails : PairStep → Bool) : PairCall where
  symbol := .eurusd
  timeframe := .H1
  now := seconds 60
  gateNow := seconds 60
  started := seconds 60
  dbNow := seconds 60
  risk := .default
  configuredSymbols := [.eurusd]
  configuredTimeframes := [.H1]
  signals := agentFamilies.filterMap (stubRunner .long ⟨.eurusd, .H1, 0, [], 0, none, 1 / 10000⟩)
  candles := stubSeries [0] (List.pairwise_singleton _ _)
  dailyLoss := none
  drawdown := none
  decisionId := id
  evaluationId := id
  orderId := id
  fails := fails

-- The first call fails at its commit, the second one goes through, the third is a replay.
example :
    ((@Runs.run _ _ (@WorkerEvent.step Digest.zero ⟨{}, some ⟨100000, 0, {}⟩, 1, none⟩)
      Database.empty [.pair (longCall 1 fun s => s == .commit), .pair (longCall 2 fun _ => false),
        .pair (longCall 3 fun _ => false)]).orders.map fun o => (o.id, o.decisionId))
      = [(2, some 2)] := by decide +kernel

end ForexAi
