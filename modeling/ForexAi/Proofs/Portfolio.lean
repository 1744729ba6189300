/-
What the portfolio shows is what happened.

The listing of positions joins each position to its order.  `Booked` is why nothing is lost
in it: the filled orders and the positions are the same entries, with the same terms, price
and moment, so the join has one row for each position.  Every write of the ledger keeps that
(`booked_write`), and so does a worker.

The snapshots ascend, as each is later than all before it, so the history of the equity is
the end of the table as it stands.  No bar leaves a position without a snapshot, so the empty
summary, which counts nothing, hides no position; it hides the pending orders.
-/
import ForexAi.Broker.Portfolio
import ForexAi.Proofs.LedgerWrites
import ForexAi.Proofs.Sponsorship

namespace ForexAi

open LedgerStore

/-- What a filled order and the position it opened have in common. -/
structure EntryTerms where
  orderId : OrderId
  symbol : Symbol
  timeframe : Timeframe
  side : Direction
  units : ℚ
  stopLoss : Option ℚ
  takeProfit : Option ℚ
  price : Option ℚ
  at' : Option Time

/-- The entry of a filled order. -/
def PaperOrderRow.entry (o : PaperOrderRow) : Option EntryTerms :=
  if o.status = .filled then
    some ⟨o.id, o.symbol, o.timeframe, o.side, o.units, o.stopLoss, o.takeProfit, o.filledPrice,
      o.filledAt⟩
  else none

/-- The entry of a position. -/
def PaperPositionRow.entry (r : PaperPositionRow) : EntryTerms :=
  ⟨r.orderId, r.symbol, r.timeframe, r.side, r.units, r.stopLoss, r.takeProfit, some r.entryPrice,
    some r.entryTs⟩

namespace LedgerStore

/-- The entries of the filled orders are the entries of the positions, and an order that is not
filled shows no fill. -/
structure Booked (s : LedgerStore) : Prop where
  entries : (s.orders.filterMap (·.entry)).Perm (s.positions.rows.map (·.entry))
  unfilled : ∀ o ∈ s.orders, o.status ≠ .filled → o.filledPrice = none ∧ o.filledAt = none
  accepted : ∀ o ∈ s.orders, o.status ≠ .rejected

theorem entry_of_ne {o : PaperOrderRow} (h : o.status ≠ .filled) : o.entry = none := if_neg h

/-- A pending order that is written back. -/
theorem entries_updateOrder {s : LedgerStore} {o row : PaperOrderRow}
    (h : o ∈ s.listPendingOrders) (hid : o.id = row.id) :
    ((s.updateOrder row).orders.filterMap (·.entry)).Perm
      (row.entry.toList ++ s.orders.filterMap (·.entry)) := by
  obtain ⟨hmem, hpending⟩ := mem_listPendingOrders.mp h
  refine Keyed.filterMap_replace s.orders_pk hmem hid (entry_of_ne ?_)
  rw [hpending]
  simp

theorem mem_updateOrder {s : LedgerStore} {row q : PaperOrderRow}
    (h : q ∈ (s.updateOrder row).orders) : q = row ∨ q ∈ s.orders := by
  obtain ⟨p, hp, heq⟩ := List.mem_map.mp h
  by_cases hsame : p.id = row.id
  · rw [if_pos hsame] at heq
    exact Or.inl heq.symm
  · rw [if_neg hsame] at heq
    exact Or.inr (heq ▸ hp)

/-- Closing a position keeps its entry. -/
theorem entries_close (t : PositionTable) (trade : Trade) :
    (t.close trade).rows.map (·.entry) = t.rows.map (·.entry) := by
  show (PositionTable.closeRow trade.symbol trade t.rows).map _ = _
  induction t.rows with
  | nil => rfl
  | cons r rest ih =>
      unfold PositionTable.closeRow
      split
      · rfl
      · rw [List.map_cons, List.map_cons, ih]

/-- **Every write keeps orders and positions in step.** -/
theorem booked_write {s s' : LedgerStore} (hwrite : Write s s') (h : s.Booked) : s'.Booked := by
  cases hwrite with
  | @submit _ o hstatus hprice hat hsave =>
      obtain ⟨-, horders, hpositions, -⟩ := saveOrder_some hsave
      have hentry : o.entry = none := entry_of_ne (by rw [hstatus]; simp)
      refine ⟨?_, ?_, ?_⟩
      · rw [horders, hpositions, List.filterMap_append, List.filterMap_cons_none hentry,
          List.filterMap_nil, List.append_nil]
        exact h.entries
      · intro q hq hne
        rw [horders, List.mem_append, List.mem_singleton] at hq
        rcases hq with hq | rfl
        · exact h.unfilled q hq hne
        · exact ⟨hprice, hat⟩
      · intro q hq
        rw [horders, List.mem_append, List.mem_singleton] at hq
        rcases hq with hq | rfl
        · exact h.accepted q hq
        · rw [hstatus]
          simp
  | @cancel o hpending =>
      obtain ⟨hmem, hstatus⟩ := mem_listPendingOrders.mp hpending
      have hentries := @entries_updateOrder s o { o with status := .cancelled } hpending rfl
      rw [entry_of_ne (by simp)] at hentries
      refine ⟨hentries.trans h.entries, ?_, ?_⟩
      · intro q hq hne
        rcases mem_updateOrder hq with rfl | hq
        · exact h.unfilled o hmem (by rw [hstatus]; simp)
        · exact h.unfilled q hq hne
      · intro q hq
        rcases mem_updateOrder hq with rfl | hq
        · simp
        · exact h.accepted q hq
  | @fill _ o pos ts hpending hfills hsave =>
      obtain ⟨horders, -, hrows⟩ := orders_savePosition hsave
      have hsame : (Ledger.filledRow o pos ts).entry
          = some (PaperPositionRow.ofPosition o.id pos).entry := by
        refine (if_pos rfl).trans ?_
        simp only [PaperPositionRow.entry, Ledger.filledRow, PaperPositionRow.ofPosition,
          hfills.symbol, hfills.timeframe,
          hfills.side, hfills.units, hfills.stopLoss, hfills.takeProfit, hfills.entryTs]
      refine ⟨?_, ?_, ?_⟩
      · rw [horders, hrows, List.map_append, List.map_singleton]
        have hentries := @entries_updateOrder s o (Ledger.filledRow o pos ts) hpending rfl
        rw [hsame] at hentries
        refine hentries.trans ?_
        exact (h.entries.cons _).trans (List.perm_append_singleton _ _).symm
      · intro q hq hne
        rw [horders] at hq
        rcases mem_updateOrder hq with rfl | hq
        · exact absurd rfl hne
        · exact h.unfilled q hq hne
      · intro q hq
        rw [horders] at hq
        rcases mem_updateOrder hq with rfl | hq
        · simp [Ledger.filledRow]
        · exact h.accepted q hq
  | close trade =>
      refine ⟨?_, h.unfilled, h.accepted⟩
      show (s.orders.filterMap _).Perm ((s.positions.close trade).rows.map _)
      rw [entries_close]
      exact h.entries
  | snapshot _ => exact ⟨h.entries, h.unfilled, h.accepted⟩
  | decide _ => exact ⟨h.entries, h.unfilled, h.accepted⟩

theorem booked_empty (decisions : DecisionId → Option DecisionRef) :
    (LedgerStore.empty decisions).Booked :=
  ⟨.nil, fun _ h => absurd h List.not_mem_nil, fun _ h => absurd h List.not_mem_nil⟩

/-- The order of a position. -/
theorem Booked.order_of {s : LedgerStore} (h : s.Booked) {r : PaperPositionRow}
    (hr : r ∈ s.positions.rows) : ∃ o ∈ s.orders, o.entry = some r.entry := by
  have hmem := h.entries.mem_iff.mpr (List.mem_map_of_mem hr)
  obtain ⟨o, ho, hentry⟩ := List.mem_filterMap.mp hmem
  exact ⟨o, ho, hentry⟩

theorem id_of_entry {o : PaperOrderRow} {e : EntryTerms} (h : o.entry = some e) :
    o.status = .filled ∧ o.id = e.orderId := by
  unfold PaperOrderRow.entry at h
  split at h
  · rename_i hstatus
    obtain rfl := Option.some.inj h
    exact ⟨hstatus, rfl⟩
  · exact absurd h (by simp)

theorem terms_of_entry {o : PaperOrderRow} {r : PaperPositionRow} (h : o.entry = some r.entry) :
    o.symbol = r.symbol ∧ o.timeframe = r.timeframe ∧ o.side = r.side := by
  unfold PaperOrderRow.entry at h
  split at h
  · have hsame := Option.some.inj h
    exact ⟨congrArg EntryTerms.symbol hsame, congrArg EntryTerms.timeframe hsame,
      congrArg EntryTerms.side hsame⟩
  · exact absurd h (by simp)

/-- The join finds one order for a position. -/
theorem Booked.join {s : LedgerStore} (h : s.Booked) {r : PaperPositionRow}
    (hr : r ∈ s.positions.rows) :
    ∃ o ∈ s.orders, o.entry = some r.entry ∧ s.orders.filter (fun q => q.id = r.orderId) = [o] := by
  obtain ⟨o, ho, hentry⟩ := h.order_of hr
  have hid : o.id = r.orderId := (id_of_entry hentry).2
  refine ⟨o, ho, hentry, ?_⟩
  rw [← hid]
  exact Keyed.filter_of_mem s.orders_pk ho

end LedgerStore

/-! ### The listing of positions

The join goes from the positions to their orders, and what is filtered and cut afterwards is a
list with one row for each position.
-/

namespace Portfolio

/-- The join has one row for each position, in the order of the table. -/
theorem joined_positions {s : LedgerStore} (h : s.Booked) :
    (joined s).map (·.1) = s.positions.rows := by
  unfold joined
  rw [List.map_flatMap]
  have hone : ∀ r ∈ s.positions.rows, ((s.orders.filter fun o => o.id = r.orderId).map
      fun o => (r, o.decisionId)).map (·.1) = [r] := by
    intro r hr
    obtain ⟨o, -, -, hjoin⟩ := h.join hr
    rw [hjoin]
    rfl
  rw [List.flatMap_congr hone, List.flatMap_singleton']

theorem mem_joined {s : LedgerStore} (h : s.Booked) {row : PaperPositionRow × Option DecisionId}
    (hrow : row ∈ joined s) :
    row.1 ∈ s.positions.rows ∧
      ∃ o ∈ s.orders, o.entry = some row.1.entry ∧ row.2 = o.decisionId := by
  obtain ⟨r, hr, hrow⟩ := List.mem_flatMap.mp hrow
  obtain ⟨o, ho, hentry, hjoin⟩ := h.join hr
  rw [hjoin] at hrow
  obtain rfl := List.mem_singleton.mp hrow
  exact ⟨hr, o, ho, hentry, rfl⟩

theorem checkedStatus_of_mem (repr : String → String) {status : Option String}
    {allowed : List String} (h : ∀ s ∈ status, s ∈ allowed) (label : String) :
    checkedStatus repr status allowed label = .ok status := by
  unfold checkedStatus
  cases status with
  | none => rfl
  | some s => exact if_neg (not_not.mpr (h s rfl))

/-- The rows of the join that pass a filter are as many as the positions that do. -/
theorem length_joined {s : LedgerStore} (h : s.Booked) (status : Option String) :
    ((joined s).filter fun row => passes status row.1.status.value).length
      = (s.positions.rows.filter fun r => passes status r.status.value).length := by
  conv_rhs => rw [← joined_positions h, List.filter_map, List.length_map]
  rfl

/-- **What is shown of booked positions**: as many as there are, up to the limit, newest first,
each with the decision of the order it was opened by. -/
theorem listPositions_shown {s : LedgerStore} (h : s.Booked) (repr : String → String)
    {status : Option String} (hstatus : ∀ v ∈ status, v ∈ positionStatuses) (limit : ℕ) :
    ∃ shown, listPositions repr s status limit = .ok shown ∧
      shown.length = min limit
        (s.positions.rows.filter fun r => passes status r.status.value).length ∧
      shown.Pairwise (fun p q => q.entryTs ≤ p.entryTs) ∧
      ∀ p ∈ shown, ∃ r ∈ s.positions.rows, ∃ o ∈ s.orders,
        p = position r o.decisionId ∧ o.entry = some r.entry := by
  set rows := (joined s).filter fun row => passes status row.1.status.value with hrows
  refine ⟨(Latest.latest (·.1.entryTs) limit rows).map fun row => position row.1 row.2,
    ?_, ?_, ?_, ?_⟩
  · unfold listPositions
    rw [checkedStatus_of_mem repr hstatus]
    rfl
  · rw [List.length_map, Latest.length_latest, hrows, length_joined h]
  · exact List.pairwise_map.mpr (Latest.pairwise_latest limit rows)
  · intro p hp
    obtain ⟨row, hrow, rfl⟩ := List.mem_map.mp hp
    have hmem := Latest.mem_of_latest hrow
    obtain ⟨hr, o, ho, hentry, hdecision⟩ := mem_joined h (List.mem_filter.mp hmem).1
    exact ⟨row.1, hr, o, ho, by rw [hdecision], hentry⟩

/-- **What is shown of booked orders**: as many as there are, up to the limit, newest first, and
no fill of an order that is not filled. -/
theorem listOrders_shown {s : LedgerStore} (h : s.Booked) (repr : String → String)
    {status : Option String} (hstatus : ∀ v ∈ status, v ∈ orderStatuses) (limit : ℕ) :
    ∃ shown, listOrders repr s status limit = .ok shown ∧
      shown.length = min limit (s.orders.filter fun o => passes status o.status.value).length ∧
      shown.Pairwise (fun o q => q.createdAt ≤ o.createdAt) ∧
      ∀ o ∈ shown, ∃ row ∈ s.orders, o = order row ∧
        (row.status ≠ .filled → o.filledPrice = none ∧ o.filledAt = none) := by
  set rows := s.orders.filter fun o => passes status o.status.value with hrows
  refine ⟨(Latest.latest (·.createdAt) limit rows).map order, ?_, ?_, ?_, ?_⟩
  · unfold listOrders
    rw [checkedStatus_of_mem repr hstatus]
    rfl
  · rw [List.length_map, Latest.length_latest]
  · exact List.pairwise_map.mpr (Latest.pairwise_latest limit rows)
  · intro o ho
    obtain ⟨row, hrow, rfl⟩ := List.mem_map.mp ho
    have hmem := (List.mem_filter.mp (Latest.mem_of_latest hrow)).1
    exact ⟨row, hmem, rfl, h.unfilled row hmem⟩

/-! ### After a run -/

variable [Digest]

theorem booked_run (cfg : PairConfig) (events : List WorkerEvent) :
    (Runs.run (WorkerEvent.step cfg) Database.empty events).ledger.Booked :=
  Writes.keeps (fun _ _ => booked_write) (worker_refines_writes cfg Database.empty events)
    (booked_empty _)

/-- **After any run of the worker the filled orders are the positions, and the portfolio shows
them all.**  An order that is not filled shows no fill.  A request for positions or orders is
refused or answered, never with an error; the answer leaves out what is over the limit and nothing
else, and each position is shown with the one `PAPER` decision it goes back to, on its own
symbol, timeframe and side. -/
theorem positions_shown (cfg : PairConfig) (events : List WorkerEvent) :
    let db := Runs.run (WorkerEvent.step cfg) Database.empty events
    (db.orders.filterMap (·.entry)).Perm (db.positions.rows.map (·.entry)) ∧
    (∀ o ∈ db.orders, o.status ≠ .filled → o.filledPrice = none ∧ o.filledAt = none) ∧
    (∀ repr status limit reply, portfolioOrders repr db.ledger status limit = some reply →
      ∃ shown, reply = .ok shown ∧
        shown.length = min (limit.getD 50)
          (db.orders.filter fun o => passes status o.status.value).length ∧
        shown.Pairwise (fun o q => q.createdAt ≤ o.createdAt) ∧
        ∀ o ∈ shown, ∃ row ∈ db.orders, o = order row ∧
          (row.status ≠ .filled → o.filledPrice = none ∧ o.filledAt = none)) ∧
    ∀ repr status limit reply, portfolioPositions repr db.ledger status limit = some reply →
      ∃ shown, reply = .ok shown ∧
        shown.length = min (limit.getD 100)
          (db.positions.rows.filter fun r => passes status r.status.value).length ∧
        shown.Pairwise (fun p q => q.entryTs ≤ p.entryTs) ∧
        ∀ p ∈ shown, ∃ r ∈ db.positions.rows, ∃ d ∈ db.decisions,
          p = position r (some d.id) ∧ d.status = .paper ∧ d.symbol = p.symbol ∧
          d.timeframe = p.timeframe ∧ d.fusedDirection = p.side := by
  intro db
  have hbooked : db.ledger.Booked := booked_run cfg events
  have hsponsored : Sponsored db := sponsored_run cfg events
  refine ⟨hbooked.entries, hbooked.unfilled, ?_, ?_⟩
  · intro repr status limit reply hreply
    unfold portfolioOrders at hreply
    split at hreply
    · rename_i hadmissible
      obtain rfl := Option.some.inj hreply
      exact listOrders_shown hbooked repr hadmissible.1 (limit.getD 50)
    · exact absurd hreply (by simp)
  intro repr status limit reply hreply
  unfold portfolioPositions at hreply
  split at hreply
  · rename_i hadmissible
    obtain ⟨shown, hshown, hlength, hsorted, hmem⟩ :=
      listPositions_shown hbooked repr hadmissible.1 (limit.getD 100)
    refine ⟨shown, ?_, hlength, hsorted, fun p hp => ?_⟩
    · rw [← hshown]
      exact (Option.some.inj hreply).symm
    · obtain ⟨r, hr, o, ho, rfl, hentry⟩ := hmem p hp
      obtain ⟨d, hd, _, -, -, hsponsors, -⟩ := hsponsored.sponsor ho
      have hdecision : o.decisionId = some d.id := hsponsors.decision
      obtain ⟨hsymbol, htimeframe, hside⟩ := terms_of_entry hentry
      refine ⟨r, hr, d, hd, by rw [hdecision], hsponsors.paper, ?_, ?_, ?_⟩
      · exact (hsponsors.symbol.symm.trans hsymbol)
      · exact (hsponsors.timeframe.symm.trans htimeframe)
      · exact (hsponsors.side.symm.trans hside)
  · exact absurd hreply (by simp)

end Portfolio

/-! ### Snapshots

A bar writes its snapshot after its positions.  The first bar that opens one finds no
snapshot, and one is due then, so no position is ever there without.
-/

namespace LedgerStore

/-- Each snapshot is later than all before it. -/
def Ascending (s : LedgerStore) : Prop := s.snapshots.Pairwise fun a b => a.ts < b.ts

theorem newest_of_ascending {rows : List AccountSnapshotRow}
    (h : rows.Pairwise fun a b => a.ts < b.ts) : newest rows = rows.getLast? := by
  induction rows using List.reverseRecOn with
  | nil => rfl
  | append_singleton rest row =>
      rw [List.getLast?_concat]
      refine newest_of_later fun latest hlatest => ?_
      rw [newest_eq] at hlatest
      exact (List.pairwise_append.mp h).2.2 latest (Newest.pick_mem hlatest) row
        (List.mem_singleton.mpr rfl)

theorem ascending_write {s s' : LedgerStore} (hwrite : Write s s') (h : s.Ascending) :
    s'.Ascending := by
  have hkept : ∀ t : LedgerStore, t.snapshots = s.snapshots → t.Ascending := by
    intro t ht
    unfold Ascending
    rw [ht]
    exact h
  cases hwrite with
  | submit _ _ _ hsave => exact hkept _ (saveOrder_some hsave).2.2.2.1
  | cancel _ => exact hkept _ rfl
  | fill _ _ hsave => exact hkept _ (orders_savePosition hsave).2.1
  | close _ => exact hkept _ rfl
  | @snapshot row hlater =>
      refine List.pairwise_append.mpr ⟨h, List.pairwise_singleton _ _, ?_⟩
      intro a ha b hb
      obtain rfl := List.mem_singleton.mp hb
      obtain ⟨init, last, hsplit⟩ := (List.eq_nil_or_concat' s.snapshots).resolve_left
        (List.ne_nil_of_mem ha)
      have hlatest : s.latestSnapshot = some last := by
        unfold latestSnapshot
        rw [newest_of_ascending h, hsplit, List.getLast?_concat]
      have hlast := hlater last hlatest
      rw [hsplit, List.mem_append, List.mem_singleton] at ha
      rcases ha with ha | rfl
      · unfold Ascending at h
        rw [hsplit] at h
        exact ((List.pairwise_append.mp h).2.2 a ha last (List.mem_singleton.mpr rfl)).trans hlast
      · exact hlast
  | decide _ => exact hkept _ rfl

end LedgerStore

namespace Book

/-- Where there is a position there is a snapshot. -/
def Covered (b : Book) : Prop := b.snapshots = [] → b.table.rows = []

variable [Digest]

/-- **A bar that opens a position writes a snapshot**, if there was none. -/
theorem covered_processBar {b : Book} (h : b.Covered) (interval : Option ℕ) (symbol : Symbol)
    (bar : Bar) (acting : Option PaperOrderRow) :
    (b.processBar interval symbol bar acting).Covered := by
  by_cases hwrites : b.touched symbol acting = true ∧ b.snapshotDue interval bar.ts = true
  · intro hempty
    rw [processBar_writes hwrites] at hempty
    exact absurd hempty (List.append_ne_nil_of_right_ne_nil _ (by simp))
  · intro hempty
    rw [processBar_silent hwrites] at hempty ⊢
    rw [settleBar_snapshots] at hempty
    have hdue : b.snapshotDue interval bar.ts = true := by
      unfold snapshotDue latest
      rw [hempty]
      rfl
    have hidle : b.touched symbol acting = false := by
      rw [← Bool.not_eq_true]
      exact fun htouched => hwrites ⟨htouched, hdue⟩
    obtain ⟨hclosed, hnone⟩ := Bool.or_eq_false_iff.mp hidle
    obtain rfl : acting = none := by simpa using hnone
    have hfree : b.restore.paper.positions.openFor symbol = none := by
      rw [show b.restore.paper.positions = b.table.openPositions from rfl,
        ← PositionTable.openRow_eq_none_iff]
      simpa using hclosed
    have htable : (b.settleBar symbol bar none).table = b.table := by
      show ((b.restore.evaluateExit symbol bar.close bar.ts)).table = b.table
      unfold evaluateExit
      rw [PaperBroker.evaluateExit_none hfree]
      rfl
    rw [htable]
    exact h hempty

end Book

namespace LedgerStore

/-- Where there is a position there is a snapshot. -/
def Covered (s : LedgerStore) : Prop := s.snapshots = [] → s.positions.rows = []

theorem Covered.of_account {s s' : LedgerStore} (h : s.Covered)
    (hsame : s'.positions = s.positions ∧ s'.snapshots = s.snapshots) : s'.Covered := by
  unfold Covered
  rw [hsame.1, hsame.2]
  exact h

end LedgerStore

namespace WorkerCycle

variable [Digest]

theorem covered_processUnit (cfg : WorkerConfig) (candles : Candles) {store : LedgerStore}
    (h : store.Covered) (unit : Symbol × Timeframe) (fault : Option ℕ) :
    (processUnit cfg candles store unit fault).Covered := by
  have hplan := (writes_planUnit cfg (candles unit.1 unit.2) store unit.1 unit.2).account
  have hdue := (planUnit_due cfg (candles unit.1 unit.2) store unit.1 unit.2 fault).2
  rw [processUnit_eq, planUnit_candidates]
  refine Runs.invariant (I := fun l : Ledger => l.book.Covered) ?_ (h.of_account hplan) hdue
  intro l bar hl hbar
  have heffect := Ledger.processUnitBar_effect cfg.snapshotInterval l unit.1 unit.2 bar _ hbar
  unfold handBar
  rw [heffect.book]
  exact Book.covered_processBar hl _ _ _ _

theorem covered_apply (cfg : WorkerConfig) (cy : WorkerCycle) {store : LedgerStore}
    (h : store.Covered) : (cy.apply cfg store).Covered := by
  have hpasses : (cy.passes cfg store).Covered := by
    refine Runs.invariant (P := fun _ _ => True) (I := Covered) ?_ h
      (Runs.along_of_forall fun _ _ => trivial)
    intro s unit hs _
    unfold pass
    split
    · exact covered_processUnit cfg cy.candles hs unit none
    · exact hs
    · exact covered_processUnit cfg cy.candles hs unit _
  rw [apply_eq]
  split
  · exact hpasses.of_account (writes_cancelExpiredPending cfg _ cy.now).account
  · exact hpasses

end WorkerCycle

namespace Portfolio

variable [Digest]

theorem covered_run (cfg : PairConfig) (events : List WorkerEvent) :
    (Runs.run (WorkerEvent.step cfg) Database.empty events).ledger.Covered := by
  refine Runs.invariant (P := fun _ _ => True) (I := fun db : Database => db.ledger.Covered) ?_
    (fun _ => rfl) (Runs.along_of_forall fun _ _ => trivial)
  intro db event h _
  cases event with
  | pair call => exact h.of_account (PairCall.writes_processPair cfg db).account
  | cycle cy =>
      unfold WorkerEvent.step
      cases cfg.broker with
      | none => exact h
      | some broker => exact WorkerCycle.covered_apply _ cy h

theorem ascending_run (cfg : PairConfig) (events : List WorkerEvent) :
    (Runs.run (WorkerEvent.step cfg) Database.empty events).ledger.Ascending :=
  Writes.keeps (fun _ _ => ascending_write) (worker_refines_writes cfg Database.empty events)
    List.Pairwise.nil

omit [Digest] in
theorem latestSnapshot_head {s : LedgerStore} (h : s.Ascending) :
    (Latest.latest (·.ts) 1 s.snapshots).head? = s.snapshots.getLast? := by
  rw [Latest.latest_of_ascending h, List.head?_take, if_neg (by omega), List.head?_reverse]

omit [Digest] in
theorem loadEquityHistory_eq {s : LedgerStore} (h : s.Ascending) (limit : ℕ) :
    loadEquityHistory s limit
      = (s.snapshots.drop (s.snapshots.length - limit)).map equityPoint := by
  unfold loadEquityHistory
  rw [Latest.latest_of_ascending h, List.take_reverse, List.reverse_reverse]

omit [Digest] in
theorem summary_asOf {s : LedgerStore} (h : s.Ascending) :
    (loadPortfolioSummary s).asOf = s.snapshots.getLast?.map (·.ts) := by
  unfold loadPortfolioSummary
  rw [latestSnapshot_head h]
  cases s.snapshots.getLast? <;> rfl

omit [Digest] in
theorem status_opened (r : PaperPositionRow) : (r.status = .opened) = (r.exit.isNone = true) := by
  unfold PaperPositionRow.status
  cases r.exit.isNone <;> simp

/-- **After any run each snapshot is later than the one before, the equity history is the last of
them, and the summary the very last**, with the positions that are open and the orders that are
pending.  While there is no snapshot there is no position either, so what the empty summary
leaves out is pending orders. -/
theorem account_shown (cfg : PairConfig) (events : List WorkerEvent) :
    let s := (Runs.run (WorkerEvent.step cfg) Database.empty events).ledger
    s.snapshots.Pairwise (fun a b => a.ts < b.ts) ∧
    (∀ limit points, portfolioEquity s limit = some points →
      points = (s.snapshots.drop (s.snapshots.length - limit.getD 500)).map equityPoint ∧
      points.Pairwise (fun a b => a.ts < b.ts) ∧
      points.getLast?.map (·.ts) = (loadPortfolioSummary s).asOf) ∧
    (loadPortfolioSummary s).openPositions = s.listOpenPositions.length ∧
    (loadPortfolioSummary s).openOrders =
      if s.snapshots = [] then 0 else s.listPendingOrders.length := by
  intro s
  have hascending : s.Ascending := ascending_run cfg events
  have hcovered : s.Covered := covered_run cfg events
  refine ⟨hascending, ?_, ?_, ?_⟩
  · intro limit points hpoints
    unfold portfolioEquity at hpoints
    split at hpoints
    · rename_i hlimit
      obtain rfl := Option.some.inj hpoints
      rw [loadEquityHistory_eq hascending]
      refine ⟨rfl, ?_, ?_⟩
      · exact List.pairwise_map.mpr (hascending.sublist (List.drop_sublist _ _))
      · rw [List.getLast?_map, List.getLast?_drop, summary_asOf hascending]
        cases hsnapshots : s.snapshots with
        | nil => simp
        | cons row rest =>
            rw [if_neg (by rw [List.length_cons]; omega), Option.map_map]
            rfl
    · exact absurd hpoints (by simp)
  · unfold loadPortfolioSummary
    rw [latestSnapshot_head hascending]
    cases hlast : s.snapshots.getLast? with
    | none =>
        have hrows := hcovered (List.getLast?_eq_none_iff.mp hlast)
        unfold listOpenPositions PositionTable.openRows
        rw [hrows]
        rfl
    | some row =>
        unfold listOpenPositions PositionTable.openRows
        simp only [status_opened, Bool.decide_eq_true]
  · unfold loadPortfolioSummary
    rw [latestSnapshot_head hascending]
    cases hlast : s.snapshots.getLast? with
    | none => rw [if_pos (List.getLast?_eq_none_iff.mp hlast)]; rfl
    | some row =>
        rw [if_neg fun hempty => by rw [hempty] at hlast; exact absurd hlast (by simp)]
        unfold listPendingOrders
        rw [List.length_insertionSort]

end Portfolio

end ForexAi
