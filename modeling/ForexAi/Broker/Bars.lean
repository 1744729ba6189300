/-
One bar of the ledger is one bar of the book.

The orders due at a bar go through `applyAction` one by one.  `Acted` records what
such a stretch does to the queue and to the counters, the book is followed alongside,
and the two are composed along the list `arbitrateFills` returns: superseded orders
only leave the queue, the acting one moves the account.
-/
import ForexAi.Broker.Book

namespace ForexAi

/-- The candidates of a bar: pending orders of the symbol, each once. -/
structure Due (s : LedgerStore) (symbol : Symbol) (cs : List PendingCandidate) : Prop where
  pending : ∀ c ∈ cs, c.order ∈ s.listPendingOrders
  symbol_eq : ∀ c ∈ cs, c.order.symbol = symbol
  distinct : (cs.map (·.order.id)).Nodup

/-! ### The candidates a unit loads

What is due at a bar is a sublist of the pending orders of the symbol.  It stays due, order by
order, as the ones before are settled.
-/

theorem candidateOf_order {s : LedgerStore} {o : PaperOrderRow} {c : PendingCandidate}
    (h : s.candidateOf o = some c) : c.order = o := by
  unfold LedgerStore.candidateOf at h
  obtain ⟨bucket, -, rfl⟩ := Option.map_eq_some_iff.mp h
  rfl

private theorem candidate_ids (s : LedgerStore) (orders : List PaperOrderRow) :
    ((orders.filterMap s.candidateOf).map (·.order.id)).Sublist (orders.map (·.id)) := by
  induction orders with
  | nil => exact List.Sublist.slnil
  | cons o rest ih =>
      cases hc : s.candidateOf o with
      | none =>
          rw [List.filterMap_cons_none hc, List.map_cons]
          exact ih.cons _
      | some c =>
          rw [List.filterMap_cons_some hc, List.map_cons, List.map_cons, candidateOf_order hc]
          exact ih.cons_cons _

theorem listPendingOrders_ids_nodup (s : LedgerStore) :
    (s.listPendingOrders.map (·.id)).Nodup := by
  have hperm := (List.perm_insertionSort LedgerStore.OlderOrder
    (s.orders.filter fun o => decide (o.status = .pending))).map (·.id)
  refine hperm.nodup_iff.mpr ?_
  exact s.orders_pk.sublist (List.filter_sublist.map _)

theorem mem_pendingCandidates {s : LedgerStore} {c : PendingCandidate} :
    c ∈ s.pendingCandidates ↔
      c.order ∈ s.listPendingOrders ∧ s.candidateOf c.order = some c := by
  unfold LedgerStore.pendingCandidates
  rw [List.mem_insertionSort, List.mem_filterMap]
  constructor
  · rintro ⟨o, ho, hc⟩
    rw [candidateOf_order hc]
    exact ⟨ho, hc⟩
  · rintro ⟨ho, hc⟩
    exact ⟨c.order, ho, hc⟩

/-- With the same decisions, what is still pending is still a candidate. -/
theorem pendingCandidates_of_decisions {store store' : LedgerStore}
    (hdec : store'.decisions = store.decisions) {c : PendingCandidate}
    (hc : c ∈ store.pendingCandidates) (hpending : c.order ∈ store'.listPendingOrders) :
    c ∈ store'.pendingCandidates := by
  refine mem_pendingCandidates.mpr ⟨hpending, ?_⟩
  rw [LedgerStore.candidateOf_congr hdec]
  exact (mem_pendingCandidates.mp hc).2

theorem mem_unitCandidates {s : LedgerStore} {symbol : Symbol} {tf : Timeframe}
    {c : PendingCandidate} :
    c ∈ s.unitCandidates symbol tf ↔
      c ∈ s.pendingCandidates ∧ c.order.symbol = symbol ∧ c.order.timeframe = tf := by
  unfold LedgerStore.unitCandidates
  rw [List.mem_filter, decide_eq_true_eq]

theorem mem_candidatesForBar {cs : List PendingCandidate} {ts : Time} {c : PendingCandidate} :
    c ∈ candidatesForBar cs ts ↔ c ∈ cs ∧ c.fillStamp = ts := by
  unfold candidatesForBar
  rw [List.mem_insertionSort, List.mem_filter, decide_eq_true_eq]

theorem due_unitCandidates (s : LedgerStore) (symbol : Symbol) (tf : Timeframe) :
    Due s symbol (s.unitCandidates symbol tf) := by
  refine ⟨?_, ?_, ?_⟩
  · intro c hc
    exact (mem_pendingCandidates.mp (mem_unitCandidates.mp hc).1).1
  · intro c hc
    exact (mem_unitCandidates.mp hc).2.1
  · have hperm := (List.perm_insertionSort PendingCandidate.KeyLe
      (s.listPendingOrders.filterMap s.candidateOf)).map (·.order.id)
    have hall : (s.pendingCandidates.map (·.order.id)).Nodup := by
      refine hperm.nodup_iff.mpr ?_
      exact (listPendingOrders_ids_nodup s).sublist (candidate_ids s _)
    exact hall.sublist (List.filter_sublist.map _)

namespace Due

variable {s s' : LedgerStore} {symbol : Symbol} {cs : List PendingCandidate}

theorem candidatesForBar (h : Due s symbol cs) (ts : Time) :
    Due s symbol (candidatesForBar cs ts) := by
  refine ⟨?_, ?_, ?_⟩
  · intro c hc
    exact h.pending c (mem_candidatesForBar.mp hc).1
  · intro c hc
    exact h.symbol_eq c (mem_candidatesForBar.mp hc).1
  · have hperm := (List.perm_insertionSort PendingCandidate.KeyLe
      (cs.filter fun c => c.fillStamp = ts)).map (·.order.id)
    refine hperm.nodup_iff.mpr ?_
    exact h.distinct.sublist (List.filter_sublist.map _)

theorem before {before after : List PendingCandidate} (h : Due s symbol (before ++ after)) :
    Due s symbol before := by
  have hdistinct := h.distinct
  rw [List.map_append, List.nodup_append] at hdistinct
  exact ⟨fun c hc => h.pending c (List.mem_append_left after hc),
    fun c hc => h.symbol_eq c (List.mem_append_left after hc), hdistinct.1⟩

theorem drop {before after : List PendingCandidate} (h : Due s symbol (before ++ after))
    (hpending : ∀ o, o ∈ s'.listPendingOrders ↔
      o ∈ s.listPendingOrders ∧ o.id ∉ before.map (·.order.id)) :
    Due s' symbol after := by
  have hdistinct := h.distinct
  rw [List.map_append, List.nodup_append] at hdistinct
  refine ⟨?_, ?_, hdistinct.2.1⟩
  · intro c hc
    refine (hpending c.order).mpr ⟨h.pending c (List.mem_append_right before hc), ?_⟩
    intro hmem
    exact hdistinct.2.2 _ hmem _ (List.mem_map.mpr ⟨c, hc, rfl⟩) rfl
  · intro c hc
    exact h.symbol_eq c (List.mem_append_right before hc)

/-- What is left of a due list once its first order has been settled is still due. -/
theorem settle {c : PendingCandidate} {rest : List PendingCandidate}
    (h : Due s symbol (c :: rest))
    (hpending : ∀ o, o ∈ s'.listPendingOrders ↔
      o ∈ s.listPendingOrders ∧ o.id ∉ [c.order.id]) : Due s' symbol rest :=
  @drop s s' symbol [c] rest h hpending

end Due

/-! ### A stretch of actions

The account and the queue are moved by different actions.  A stretch is described by what it
does to the second, so that two stretches can be put one after the other.
-/

/-- What a stretch of actions does outside the account: `ids` leave the queue, `fills`
of them filled. -/
structure Acted (run run' : UnitBarResult × Ledger) (ids : List OrderId) (fills : ℕ) :
    Prop where
  pending : ∀ o, o ∈ run'.2.store.listPendingOrders ↔
    o ∈ run.2.store.listPendingOrders ∧ o.id ∉ ids
  filled : run'.1.filled = run.1.filled + fills
  exits : run'.1.exits = run.1.exits
  seed : run'.2.broker.seed = run.2.broker.seed
  decisions : run'.2.store.decisions = run.2.store.decisions

theorem Acted.refl (run : UnitBarResult × Ledger) : Acted run run [] 0 :=
  ⟨fun o => by simp, rfl, rfl, rfl, rfl⟩

theorem Acted.trans {run₁ run₂ run₃ : UnitBarResult × Ledger} {ids₁ ids₂ : List OrderId}
    {n₁ n₂ : ℕ} (h : Acted run₁ run₂ ids₁ n₁) (h' : Acted run₂ run₃ ids₂ n₂) :
    Acted run₁ run₃ (ids₁ ++ ids₂) (n₁ + n₂) := by
  refine ⟨?_, ?_, h'.exits.trans h.exits, h'.seed.trans h.seed, h'.decisions.trans h.decisions⟩
  · intro o
    rw [h'.pending, h.pending, List.mem_append, not_or, and_assoc]
  · rw [h'.filled, h.filled]
    omega

/-- The order that acts on a bar of the symbol, whose open row decides the side. -/
def LedgerStore.actingAt (s : LedgerStore) (symbol : Symbol) (ts : Time)
    (candidates : List PendingCandidate) : Option PaperOrderRow :=
  (actingOrder ((s.positions.openRow symbol).map (·.side)) (candidatesForBar candidates ts)).map
    (·.order)

namespace Ledger

variable [Digest]

/-- A superseded order leaves the queue and nothing else happens. -/
theorem acted_superseded (symbol : Symbol) (bar : Bar) (run : UnitBarResult × Ledger)
    {c : PendingCandidate} (hc : c.order ∈ run.2.store.listPendingOrders) :
    Acted run (applyAction symbol bar run (c, .superseded)) [c.order.id] 0 ∧
      (applyAction symbol bar run (c, .superseded)).2.book = run.2.book := by
  refine ⟨?_, book_cancelPending run.2 c.order⟩
  have hpending := LedgerStore.statusOf_pending hc
  have heq : (applyAction symbol bar run (c, .superseded)).2
      = { run.2.dropPending c.order.id with
          store := run.2.store.updateOrder { c.order with status := .cancelled } } := by
    show (run.2.cancelPending c.order).2 = _
    unfold cancelPending
    rw [if_pos hpending]
  refine ⟨?_, rfl, rfl, ?_, ?_⟩
  · intro o
    rw [heq, List.mem_singleton]
    exact LedgerStore.mem_listPendingOrders_cancelled run.2.store c.order o
  · rw [heq]
    rfl
  · rw [heq]
    rfl

theorem acted_supersededs (symbol : Symbol) (bar : Bar) (cs : List PendingCandidate) :
    ∀ run : UnitBarResult × Ledger, Due run.2.store symbol cs →
      Acted run ((cs.map fun c => (c, FillAction.superseded)).foldl (applyAction symbol bar) run)
        (cs.map (·.order.id)) 0 ∧
      ((cs.map fun c => (c, FillAction.superseded)).foldl (applyAction symbol bar) run).2.book
        = run.2.book := by
  induction cs with
  | nil => intro run _; exact ⟨Acted.refl run, rfl⟩
  | cons c rest ih =>
      intro run hdue
      obtain ⟨hstep, hbook⟩ :=
        acted_superseded symbol bar run (hdue.pending c List.mem_cons_self)
      have hrest : Due (applyAction symbol bar run (c, .superseded)).2.store symbol rest :=
        hdue.settle hstep.pending
      obtain ⟨hacted, hbook'⟩ := ih _ hrest
      rw [List.map_cons, List.foldl_cons]
      exact ⟨hstep.trans hacted, hbook'.trans hbook⟩

/-- Filling a pending order on a free symbol, as an action. -/
theorem fill_pending_iff {l : Ledger} (hagree : l.book.Agrees) {order : PaperOrderRow}
    (hpending : order ∈ l.store.listPendingOrders)
    (hfree : l.openFor order.symbol = none) (price : ℚ) (ts : Time) :
    (l.fillPending order price ts).1.isSome = true ∧
    (l.fillPending order price ts).2.book = l.book.fill order price ts ∧
    (∀ o, o ∈ (l.fillPending order price ts).2.store.listPendingOrders ↔
      o ∈ l.store.listPendingOrders ∧ o.id ≠ order.id) ∧
    (l.fillPending order price ts).2.broker.seed = l.broker.seed ∧
    (l.fillPending order price ts).2.store.decisions = l.store.decisions := by
  obtain ⟨row, filled, store, heq, hid, hstatus, hsave, hbook⟩ :=
    fillPending_eq hagree (LedgerStore.statusOf_pending hpending) hfree price ts
  obtain ⟨table, -, hstore⟩ := Option.map_eq_some_iff.mp hsave
  refine ⟨by rw [heq]; rfl, hbook, ?_, by rw [heq]; rfl, ?_⟩
  · intro o
    rw [heq, ← hid]
    show o ∈ store.listPendingOrders ↔ _
    rw [← hstore]
    exact LedgerStore.mem_listPendingOrders_updateOrder (by rw [hstatus]; simp) o
  · rw [heq]
    show store.decisions = _
    rw [← hstore]
    rfl

theorem acted_fill (symbol : Symbol) (bar : Bar) (run : UnitBarResult × Ledger)
    (hagree : run.2.book.Agrees) {c : PendingCandidate}
    (hc : c.order ∈ run.2.store.listPendingOrders)
    (hfree : run.2.openFor c.order.symbol = none) :
    Acted run (applyAction symbol bar run (c, .fill)) [c.order.id] 1 ∧
      (applyAction symbol bar run (c, .fill)).2.book
        = run.2.book.fill c.order bar.openPrice bar.ts := by
  obtain ⟨hsome, hbook, hpending, hseed, hdec⟩ :=
    fill_pending_iff hagree hc hfree bar.openPrice bar.ts
  refine ⟨⟨?_, ?_, rfl, hseed, hdec⟩, hbook⟩
  · intro o
    rw [List.mem_singleton]
    exact hpending o
  · show run.1.filled + (if _ then 1 else 0) = _
    rw [if_pos hsome]

/-- After a close the symbol is free. -/
theorem openFor_closeOnSignal {l : Ledger} (hagree : l.book.Agrees) {symbol : Symbol}
    {pos : Position} (hpos : l.openFor symbol = some pos) (price : ℚ) (ts : Time) :
    (l.closeOnSignal symbol price ts).2.openFor symbol = none := by
  have hsym : pos.symbol = symbol := PositionSet.openFor_symbol hpos
  have hdistinct : l.broker.paper.positions.Pairwise fun a b => a.symbol ≠ b.symbol := by
    rw [show l.broker.paper.positions = _ from hagree]
    exact PositionTable.openPositions_distinct _
  unfold closeOnSignal
  rw [PaperBroker.closeOnSignal_some hpos]
  show PositionSet.openFor (l.broker.paper.positions.close pos.symbol) symbol = none
  rw [hsym]
  exact PositionSet.openFor_close hdistinct symbol

omit [Digest] in
/-- Writing a close down leaves the orders, the decisions, the seed and the queue alone. -/
theorem persist_keeps (l : Ledger) (closed : Option Trade × PaperBroker) :
    (l.persist closed).2.store.orders = l.store.orders ∧
      (l.persist closed).2.store.decisions = l.store.decisions ∧
      (l.persist closed).2.broker.seed = l.broker.seed ∧
      (l.persist closed).2.broker.pending = l.broker.pending := by
  unfold persist
  split <;> exact ⟨rfl, rfl, rfl, rfl⟩

omit [Digest] in
theorem listPendingOrders_persist (l : Ledger) (closed : Option Trade × PaperBroker) :
    (l.persist closed).2.store.listPendingOrders = l.store.listPendingOrders := by
  unfold LedgerStore.listPendingOrders
  rw [(l.persist_keeps closed).1]

omit [Digest] in
/-- A close is written down as it is. -/
theorem persist_trade (l : Ledger) (closed : Option Trade × PaperBroker) :
    (l.persist closed).1 = closed.1 := by
  unfold persist
  split <;> rename_i h <;> exact h.symm

theorem acted_flip (symbol : Symbol) (bar : Bar) (run : UnitBarResult × Ledger)
    (hagree : run.2.book.Agrees) {c : PendingCandidate}
    (hc : c.order ∈ run.2.store.listPendingOrders) (hsym : c.order.symbol = symbol)
    {pos : Position} (hpos : run.2.openFor symbol = some pos) :
    Acted run (applyAction symbol bar run (c, .flip)) [c.order.id] 1 ∧
      (applyAction symbol bar run (c, .flip)).2.book
        = (run.2.book.closeOnSignal symbol bar.openPrice bar.ts).fill c.order bar.openPrice
            bar.ts := by
  have hqueue : (run.2.closeOnSignal symbol bar.openPrice bar.ts).2.store.listPendingOrders
      = run.2.store.listPendingOrders := run.2.listPendingOrders_persist _
  obtain ⟨-, hdec', hseed', -⟩ :=
    run.2.persist_keeps (run.2.broker.paper.closeOnSignal symbol bar.openPrice bar.ts)
  have hbook' := book_closeOnSignal run.2 symbol bar.openPrice bar.ts
  have hagree' : (run.2.closeOnSignal symbol bar.openPrice bar.ts).2.book.Agrees := by
    rw [hbook']
    exact Book.agrees_closeOnSignal hagree symbol bar.openPrice bar.ts
  have hfree : (run.2.closeOnSignal symbol bar.openPrice bar.ts).2.openFor c.order.symbol
      = none := by
    rw [hsym]
    exact openFor_closeOnSignal hagree hpos bar.openPrice bar.ts
  obtain ⟨hsome, hbook, hpending, hseed, hdec⟩ :=
    fill_pending_iff hagree' (by rw [hqueue]; exact hc) hfree bar.openPrice bar.ts
  refine ⟨⟨?_, ?_, rfl, hseed.trans hseed', hdec.trans hdec'⟩, ?_⟩
  · intro o
    rw [List.mem_singleton, ← hqueue]
    exact hpending o
  · show run.1.filled + (if _ then 1 else 0) = _
    rw [if_pos hsome]
  · rw [← hbook']
    exact hbook

/-- **The acting order of an open**: a fill on a free symbol, a flip on an open one. -/
theorem acted_act (symbol : Symbol) (bar : Bar) (run : UnitBarResult × Ledger)
    (hagree : run.2.book.Agrees) {c : PendingCandidate}
    (hc : c.order ∈ run.2.store.listPendingOrders) (hsym : c.order.symbol = symbol) :
    Acted run (applyAction symbol bar run
        (c, if (run.2.openFor symbol).isSome then .flip else .fill)) [c.order.id] 1 ∧
      (applyAction symbol bar run
        (c, if (run.2.openFor symbol).isSome then .flip else .fill)).2.book
          = run.2.book.actAtOpen symbol bar (some c.order) := by
  have hopen : run.2.book.actAtOpen symbol bar (some c.order)
      = if (run.2.openFor symbol).isSome then
          (run.2.book.closeOnSignal symbol bar.openPrice bar.ts).fill c.order bar.openPrice bar.ts
        else run.2.book.fill c.order bar.openPrice bar.ts := rfl
  rw [hopen]
  cases hpos : run.2.openFor symbol with
  | none => exact acted_fill symbol bar run hagree hc (by rw [hsym]; exact hpos)
  | some pos => exact acted_flip symbol bar run hagree hc hsym hpos

/-! ### The open of a bar -/

omit [Digest] in
/-- The order that acts at the open of the bar. -/
def actingAt (l : Ledger) (symbol : Symbol) (ts : Time) (candidates : List PendingCandidate) :
    Option PaperOrderRow :=
  (actingOrder ((l.openFor symbol).map (·.side)) (candidatesForBar candidates ts)).map (·.order)

/-- **The open of a bar.**  Every order due leaves the queue; the acting one, if there is
one, moves the account. -/
theorem fillsAtOpen_eq (symbol : Symbol) (bar : Bar) (candidates : List PendingCandidate)
    (run : UnitBarResult × Ledger) (hagree : run.2.book.Agrees)
    (hdue : Due run.2.store symbol (candidatesForBar candidates bar.ts)) :
    Acted run (fillsAtOpen symbol bar candidates run)
      ((candidatesForBar candidates bar.ts).map (·.order.id))
      ((run.2.actingAt symbol bar.ts candidates).elim 0 fun _ => 1) ∧
    (fillsAtOpen symbol bar candidates run).2.book
      = run.2.book.actAtOpen symbol bar (run.2.actingAt symbol bar.ts candidates) := by
  unfold fillsAtOpen actingAt
  generalize candidatesForBar candidates bar.ts = cs at hdue ⊢
  simp only
  rcases arbitrateFills_split ((run.2.openFor symbol).map (·.side)) cs with
    ⟨hnone, hmap⟩ | ⟨before, c, after, rfl, hsome, hmap⟩
  · rw [hmap, hnone]
    exact acted_supersededs symbol bar cs run hdue
  · rw [hmap, hsome, List.foldl_append, List.foldl_cons, Option.isSome_map]
    obtain ⟨hacted₁, hbook₁⟩ := acted_supersededs symbol bar before run hdue.before
    set run₁ := (before.map fun c => (c, FillAction.superseded)).foldl
      (applyAction symbol bar) run with hrun₁
    have hopen₁ : run₁.2.openFor symbol = run.2.openFor symbol :=
      Ledger.openFor_of_book hbook₁ symbol
    have hmid : Due run₁.2.store symbol (c :: after) := Due.drop hdue hacted₁.pending
    obtain ⟨hacted₂, hbook₂⟩ := acted_act symbol bar run₁ (by rw [hbook₁]; exact hagree)
      (hmid.pending c List.mem_cons_self) (hmid.symbol_eq c List.mem_cons_self)
    rw [hopen₁] at hacted₂ hbook₂
    obtain ⟨hacted₃, hbook₃⟩ :=
      acted_supersededs symbol bar after _ (hmid.settle hacted₂.pending)
    refine ⟨?_, by rw [hbook₃, hbook₂, hbook₁]; rfl⟩
    rw [List.map_append, List.map_cons]
    exact hacted₁.trans (hacted₂.trans hacted₃)

/-! ### The whole bar -/

omit [Digest] in
theorem openFor_restoreState (l : Ledger) (symbol : Symbol) :
    l.restoreState.openFor symbol = (l.store.positions.openRow symbol).map (·.toPosition) :=
  PositionTable.openFor_openPositions l.store.positions symbol

omit [Digest] in
theorem actingAt_restoreState (l : Ledger) (symbol : Symbol) (ts : Time)
    (candidates : List PendingCandidate) :
    l.restoreState.actingAt symbol ts candidates = l.store.actingAt symbol ts candidates := by
  unfold actingAt LedgerStore.actingAt
  rw [openFor_restoreState, Option.map_map]
  rfl

/-- The lifecycle's "something changed", read off before the bar. -/
private theorem stateChanged_iff {b : Book} (symbol : Symbol) (bar : Bar)
    (acting : Option PaperOrderRow) (fills exits : ℕ) (opened : Option Position)
    (hfills : fills = acting.elim 0 fun _ => 1)
    (hexits : exits = if ((b.restore.actAtOpen symbol bar acting).paper.evaluateExit symbol
      bar.close bar.ts).1.isSome then 1 else 0)
    (hopened : opened = (b.settleBar symbol bar acting).paper.positions.openFor symbol) :
    (0 < fills ∨ 0 < exits ∨ opened.isSome = true) ↔ b.touched symbol acting = true := by
  subst hfills hexits hopened
  unfold Book.touched
  cases acting with
  | some order => simp
  | none =>
      have hpos : b.restore.paper.positions.openFor symbol
          = (b.table.openRow symbol).map (·.toPosition) :=
        PositionTable.openFor_openPositions b.table symbol
      have hact : b.restore.actAtOpen symbol bar none = b.restore := rfl
      unfold Book.settleBar Book.evaluateExit
      rw [hact]
      show (_ ∨ _ ∨ ((b.restore.persist _).paper.positions.openFor symbol).isSome = true) ↔ _
      cases hrow : b.table.openRow symbol with
      | none =>
          rw [hrow] at hpos
          rw [PaperBroker.evaluateExit_none hpos]
          simp [Book.persist, hpos]
      | some row =>
          rw [hrow] at hpos
          rcases PaperBroker.evaluateExit_some hpos bar.close bar.ts with
            ⟨-, heq⟩ | ⟨price, reason, -, heq⟩
          · rw [heq]
            simp [Book.persist, hpos]
          · rw [heq]
            simp

omit [Digest] in
/-- A snapshot adds a row of its own and nothing else to the store. -/
theorem equitySnapshot_keeps (l : Ledger) (ts : Time) :
    (l.equitySnapshot ts).2.store.orders = l.store.orders ∧
      (l.equitySnapshot ts).2.store.listPendingOrders = l.store.listPendingOrders ∧
      (l.equitySnapshot ts).2.store.decisions = l.store.decisions ∧
      (l.equitySnapshot ts).2.broker.seed = l.broker.seed ∧
      (l.equitySnapshot ts).2.broker.pending = l.broker.pending := ⟨rfl, rfl, rfl, rfl, rfl⟩

omit [Digest] in
theorem store_markPosition (l : Ledger) (symbol : Symbol) (price : ℚ) :
    (l.markPosition symbol price).store = l.store := rfl

omit [Digest] in
theorem pending_markPosition (l : Ledger) (symbol : Symbol) (price : ℚ) :
    (l.markPosition symbol price).broker.pending = l.broker.pending := rfl

/-- What a bar does to the ledger. -/
structure BarEffect (interval : Option ℕ) (l l' : Ledger) (symbol : Symbol) (bar : Bar)
    (candidates : List PendingCandidate) : Prop where
  book : l'.book
    = l.book.processBar interval symbol bar (l.store.actingAt symbol bar.ts candidates)
  pending : ∀ o, o ∈ l'.store.listPendingOrders ↔
    o ∈ l.store.listPendingOrders ∧
      o.id ∉ (candidatesForBar candidates bar.ts).map (·.order.id)
  seed : l'.broker.seed = l.broker.seed
  decisions : l'.store.decisions = l.store.decisions

/-- **The ledger's bar is the book's bar**, and the orders due at it leave the queue. -/
theorem processUnitBar_effect (interval : Option ℕ) (l : Ledger) (symbol : Symbol)
    (timeframe : Timeframe) (bar : Bar) (candidates : List PendingCandidate)
    (hdue : Due l.store symbol (candidatesForBar candidates bar.ts)) :
    BarEffect interval l (processUnitBar interval l symbol timeframe bar candidates).2 symbol bar
      candidates := by
  set run : UnitBarResult × Ledger := ({ symbol, timeframe, ts := bar.ts }, l.restoreState)
    with hrun
  obtain ⟨hacted, hbook⟩ := fillsAtOpen_eq symbol bar candidates run rfl hdue
  rw [show run.2.actingAt symbol bar.ts candidates = _ from
    actingAt_restoreState l symbol bar.ts candidates] at hacted hbook
  set acting := l.store.actingAt symbol bar.ts candidates with hacting
  set filled := fillsAtOpen symbol bar candidates run with hfilled
  set exited := filled.2.evaluateExit symbol bar.close bar.ts with hexited
  have hqueue : exited.2.store.listPendingOrders = filled.2.store.listPendingOrders :=
    filled.2.listPendingOrders_persist _
  obtain ⟨-, hdec, hseed, -⟩ :=
    filled.2.persist_keeps (filled.2.broker.paper.evaluateExit symbol bar.close bar.ts)
  set marked := exited.2.markPosition symbol bar.close with hmarked
  have hsettled : marked.book = l.book.settleBar symbol bar acting := by
    rw [hmarked, book_markPosition, hexited, book_evaluateExit, hbook]
    rfl
  have hchanged : (0 < filled.1.filled ∨ 0 < filled.1.exits + (if exited.1.isSome then 1 else 0)
      ∨ (marked.openFor symbol).isSome = true) ↔ l.book.touched symbol acting = true := by
    refine stateChanged_iff symbol bar acting _ _ _ ?_ ?_ ?_
    · rw [hacted.filled]
      exact Nat.zero_add _
    · rw [hacted.exits, Nat.zero_add, ← book_restoreState]
      have hexit : exited.1 = (filled.2.broker.paper.evaluateExit symbol bar.close bar.ts).1 :=
        filled.2.persist_trade _
      rw [hexit, paper_of_book hbook]
    · rw [← hsettled]
      rfl
  have hsnap : marked.store.snapshotDue interval bar.ts = l.book.snapshotDue interval bar.ts := by
    have hsame : marked.store.snapshots = l.store.snapshots := by
      rw [snapshots_of_book hsettled, Book.settleBar_snapshots]
      rfl
    unfold LedgerStore.snapshotDue Book.snapshotDue LedgerStore.latestSnapshot Book.latest
    rw [hsame]
    rfl
  have hprocess : processUnitBar interval l symbol timeframe bar candidates =
      if (0 < filled.1.filled ∨ 0 < filled.1.exits + (if exited.1.isSome then 1 else 0)
        ∨ (marked.openFor symbol).isSome = true) ∧ marked.store.snapshotDue interval bar.ts = true
      then ({ filled.1 with
              exits := filled.1.exits + (if exited.1.isSome then 1 else 0)
              snapshotWritten := true }, (marked.equitySnapshot bar.ts).2)
      else ({ filled.1 with exits := filled.1.exits + (if exited.1.isSome then 1 else 0) },
        marked) := rfl
  rw [hprocess]
  have hpending : ∀ o, o ∈ marked.store.listPendingOrders ↔ o ∈ l.store.listPendingOrders ∧
      o.id ∉ (candidatesForBar candidates bar.ts).map (·.order.id) := by
    intro o
    rw [hmarked, store_markPosition, hqueue]
    exact hacted.pending o
  have hmarkedDec : marked.store.decisions = l.store.decisions := by
    rw [hmarked, store_markPosition]
    exact hdec.trans hacted.decisions
  by_cases h : (0 < filled.1.filled ∨ 0 < filled.1.exits + (if exited.1.isSome then 1 else 0)
      ∨ (marked.openFor symbol).isSome = true) ∧ marked.store.snapshotDue interval bar.ts = true
  · rw [if_pos h]
    obtain ⟨-, hlisted, hstoreDec, hbrokerSeed, -⟩ := marked.equitySnapshot_keeps bar.ts
    show BarEffect interval l (marked.equitySnapshot bar.ts).2 symbol bar candidates
    refine ⟨?_, ?_, hbrokerSeed.trans (hseed.trans hacted.seed), hstoreDec.trans hmarkedDec⟩
    · rw [book_equitySnapshot, hsettled]
      unfold Book.processBar
      rw [if_pos ⟨hchanged.mp h.1, hsnap ▸ h.2⟩]
    · rw [hlisted]
      exact hpending
  · rw [if_neg h]
    show BarEffect interval l marked symbol bar candidates
    refine ⟨?_, hpending, hseed.trans hacted.seed, hmarkedDec⟩
    rw [hsettled]
    unfold Book.processBar
    rw [if_neg fun hc => h ⟨hchanged.mpr hc.1, hsnap.trans hc.2⟩]

end Ledger

end ForexAi
