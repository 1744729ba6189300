/-
Fill arbitration resolves every due order exactly once.

The orders due at a bar are superseded until the first one that is not on the open side;
that one acts, and the rest are superseded.  So the arguments go part by part: what a run
of superseded orders leaves of the tables (`supersededs_spec`), what the acting order
writes (`Ledger.orders_act`), and the two put together (`resolved`).

The candidates may be any list of pending orders of the symbol, in any order and with
repetitions: an order that comes up again is settled already and is left as it is.
-/
import ForexAi.Proofs.BookStore

namespace ForexAi

/-! ### The action list

The loop carries a flag: whether an order has acted.  Until then an order on the open side is
superseded and the first other one acts, and from then on every order is superseded.
-/

/-- **One action an order, in order, and at most one that acts.** -/
theorem arbitrateFills_actions (openSide : Option Direction) (candidates : List PendingCandidate) :
    (arbitrateFills openSide candidates).map (·.1) = candidates ∧
      ((arbitrateFills openSide candidates).filter
        fun act => decide (act.2 ≠ .superseded)).length ≤ 1 := by
  have hmap (cs : List PendingCandidate) :
      (cs.map fun c => (c, FillAction.superseded)).map (·.1) = cs := by
    rw [List.map_map]
    exact List.map_id cs
  have hnone (cs : List PendingCandidate) :
      (cs.map fun c => (c, FillAction.superseded)).filter
        (fun act => decide (act.2 ≠ .superseded)) = [] := by
    refine List.filter_eq_nil_iff.mpr fun act hact => ?_
    obtain ⟨c, -, rfl⟩ := List.mem_map.mp hact
    simp
  rcases first_actionable openSide candidates with hkept | ⟨before, c, after, rfl, hbefore, hc⟩
  · rw [arbitrateFills_kept hkept, hmap, hnone]
    exact ⟨rfl, Nat.zero_le 1⟩
  · rw [arbitrateFills_first hbefore hc, List.map_append, List.map_cons, hmap, hmap,
      List.filter_append, List.filter_cons, hnone, hnone]
    refine ⟨rfl, ?_⟩
    split <;> simp

/-! ### The status of an order that is written back -/

namespace LedgerStore

theorem statusOf_updateOrder (s : LedgerStore) (order : PaperOrderRow) (id : OrderId) :
    (s.updateOrder order).statusOf id
      = if id = order.id then (s.statusOf id).map fun _ => order.status else s.statusOf id := by
  show ((s.orders.map fun o => if o.id = order.id then order else o).find?
    (fun o => decide (o.id = id))).map (·.status) = _
  unfold statusOf
  induction s.orders with
  | nil => simp
  | cons q rest ih =>
      by_cases hq : q.id = id
      · have hfind : (q :: rest).find? (fun o => decide (o.id = id)) = some q :=
          List.find?_cons_of_pos (by simpa using hq)
        rw [hfind, List.map_cons]
        by_cases hid : id = order.id
        · rw [if_pos (hq.trans hid), if_pos hid, List.find?_cons_of_pos (by simpa using hid.symm)]
          rfl
        · rw [if_neg (by rw [hq]; exact hid), if_neg hid,
            List.find?_cons_of_pos (by simpa using hq)]
      · have hfind : (q :: rest).find? (fun o => decide (o.id = id))
            = rest.find? fun o => decide (o.id = id) := List.find?_cons_of_neg (by simpa using hq)
        rw [hfind, List.map_cons]
        have hskip : (if q.id = order.id then order else q).id ≠ id := by
          by_cases hqo : q.id = order.id
          · rw [if_pos hqo, ← hqo]
            exact hq
          · rw [if_neg hqo]
            exact hq
        rw [List.find?_cons_of_neg (by simpa using hskip)]
        exact ih

theorem mem_updateOrder_ne {s : LedgerStore} {order o : PaperOrderRow} (ho : o ∈ s.orders)
    (hne : o.id ≠ order.id) : o ∈ (s.updateOrder order).orders :=
  List.mem_map.mpr ⟨o, ho, if_neg hne⟩

end LedgerStore

/-! ### Part by part

An order that is settled is written back as it is, which is why repetitions and other
candidates' settlements do no harm.
-/

namespace Ledger

variable [Digest]

/-- What superseding an order writes. -/
theorem superseded_spec (symbol : Symbol) (bar : Bar) (run : UnitBarResult × Ledger)
    (c : PendingCandidate) :
    let run' := applyAction symbol bar run (c, .superseded)
    run'.2.book = run.2.book ∧
      (∀ id, run'.2.store.statusOf id =
        if id = c.order.id ∧ run.2.store.statusOf id = some .pending then some .cancelled
        else run.2.store.statusOf id) ∧
      ∀ o ∈ run.2.store.orders, o.id ≠ c.order.id → o ∈ run'.2.store.orders := by
  intro run'
  refine ⟨book_cancelPending run.2 c.order, ?_⟩
  by_cases hpending : run.2.store.statusOf c.order.id = some .pending
  · have hstore : run'.2.store = run.2.store.updateOrder { c.order with status := .cancelled } := by
      show (run.2.cancelPending c.order).2.store = _
      unfold cancelPending
      rw [if_pos hpending]
    rw [hstore]
    refine ⟨fun id => ?_, fun o ho hne => LedgerStore.mem_updateOrder_ne ho hne⟩
    rw [LedgerStore.statusOf_updateOrder]
    by_cases hid : id = c.order.id
    · rw [if_pos hid, if_pos ⟨hid, hid ▸ hpending⟩, hid, hpending]
      rfl
    · rw [if_neg hid, if_neg fun h => hid h.1]
  · have hstore : run'.2.store = run.2.store := by
      show (run.2.cancelPending c.order).2.store = _
      unfold cancelPending
      rw [if_neg hpending]
    rw [hstore]
    refine ⟨fun id => (if_neg ?_).symm, fun o ho _ => ho⟩
    rintro ⟨rfl, hstatus⟩
    exact hpending hstatus

/-- **A run of superseded orders**: those that are pending are cancelled. -/
theorem supersededs_spec (symbol : Symbol) (bar : Bar) (cs : List PendingCandidate) :
    ∀ run : UnitBarResult × Ledger,
      let run' := (cs.map fun c => (c, FillAction.superseded)).foldl (applyAction symbol bar) run
      run'.2.book = run.2.book ∧
        (∀ id, run'.2.store.statusOf id =
          if id ∈ cs.map (·.order.id) ∧ run.2.store.statusOf id = some .pending
          then some .cancelled else run.2.store.statusOf id) ∧
        ∀ o ∈ run.2.store.orders, o.id ∉ cs.map (·.order.id) → o ∈ run'.2.store.orders := by
  induction cs with
  | nil => exact fun run => ⟨rfl, fun id => (if_neg (by simp)).symm, fun o ho _ => ho⟩
  | cons c rest ih =>
      intro run
      obtain ⟨hbook, hstatus, hrows⟩ := superseded_spec symbol bar run c
      obtain ⟨hbook', hstatus', hrows'⟩ := ih (applyAction symbol bar run (c, .superseded))
      refine ⟨hbook'.trans hbook, fun id => ?_, fun o ho hnot => ?_⟩
      · refine (hstatus' id).trans ?_
        rw [hstatus id]
        by_cases hpending : run.2.store.statusOf id = some .pending
        · by_cases hid : id = c.order.id
          · simp [hid, hid ▸ hpending]
          · simp [hid, hpending]
        · simp [hpending]
      · rw [List.map_cons, List.mem_cons, not_or] at hnot
        exact hrows' o (hrows o ho hnot.1) hnot.2

/-- What the acting order writes: it is filled, and the other orders are as they were. -/
theorem act_spec (symbol : Symbol) (bar : Bar) (run : UnitBarResult × Ledger)
    (hagree : run.2.book.Agrees) {c : PendingCandidate}
    (hc : c.order ∈ run.2.store.listPendingOrders) (hsym : c.order.symbol = symbol) :
    let run' := applyAction symbol bar run
      (c, if (run.2.openFor symbol).isSome then .flip else .fill)
    (∀ id, run'.2.store.statusOf id =
        if id = c.order.id then some .filled else run.2.store.statusOf id) ∧
      ∀ o ∈ run.2.store.orders, o.id ≠ c.order.id → o ∈ run'.2.store.orders := by
  intro run'
  set row := settledRow run.2.broker.paper.costParams bar
    (c, if (run.2.openFor symbol).isSome then .flip else .fill) with hrow
  have horders : run'.2.store.orders = (run.2.store.updateOrder row).orders :=
    orders_act symbol bar run hagree hc hsym
  have hid : row.id = c.order.id ∧ row.status = .filled := by
    rw [hrow]
    cases (run.2.openFor symbol).isSome <;> exact ⟨rfl, rfl⟩
  refine ⟨fun id => ?_, fun o ho hne => ?_⟩
  · have hsame : run'.2.store.statusOf id = (run.2.store.updateOrder row).statusOf id := by
      unfold LedgerStore.statusOf
      rw [horders]
    rw [hsame, LedgerStore.statusOf_updateOrder, hid.1, hid.2]
    by_cases heq : id = c.order.id
    · rw [if_pos heq, if_pos heq, heq, LedgerStore.statusOf_pending hc]
      rfl
    · rw [if_neg heq, if_neg heq]
  · rw [horders]
    exact LedgerStore.mem_updateOrder_ne ho (by rw [hid.1]; exact hne)

/-- The open of a bar at which an order acts: the pending orders before and after it are
cancelled, it is filled, and the other orders are as they were. -/
theorem acting_resolves (symbol : Symbol) (bar : Bar) (run : UnitBarResult × Ledger)
    (hagree : run.2.book.Agrees) (before after : List PendingCandidate) {c : PendingCandidate}
    (hc : c.order ∈ run.2.store.listPendingOrders) (hsym : c.order.symbol = symbol)
    (hfresh : c.order.id ∉ before.map (·.order.id)) :
    let run' := (before.map (fun c => (c, FillAction.superseded)) ++
      (c, if (run.2.openFor symbol).isSome then FillAction.flip else .fill) ::
        after.map fun c => (c, FillAction.superseded)).foldl (applyAction symbol bar) run
    run'.2.store.statusOf c.order.id = some .filled ∧
      (∀ id, id ≠ c.order.id → run.2.store.statusOf id = some .pending →
        id ∈ before.map (·.order.id) ∨ id ∈ after.map (·.order.id) →
          run'.2.store.statusOf id = some .cancelled) ∧
      ∀ o ∈ run.2.store.orders, o.id ∉ before.map (·.order.id) → o.id ≠ c.order.id →
        o.id ∉ after.map (·.order.id) → o ∈ run'.2.store.orders := by
  intro run'
  obtain ⟨hrow, hpendingRow⟩ := LedgerStore.mem_listPendingOrders.mp hc
  obtain ⟨hbook₁, hstatus₁, hrows₁⟩ := supersededs_spec symbol bar before run
  set run₁ := (before.map fun c => (c, FillAction.superseded)).foldl
    (applyAction symbol bar) run with hrun₁
  have hopen₁ : run₁.2.openFor symbol = run.2.openFor symbol :=
    Ledger.openFor_of_book hbook₁ symbol
  obtain ⟨hstatus₂, hrows₂⟩ := act_spec symbol bar run₁ (by rw [hbook₁]; exact hagree)
    (LedgerStore.mem_listPendingOrders.mpr ⟨hrows₁ _ hrow hfresh, hpendingRow⟩) hsym
  rw [hopen₁] at hstatus₂ hrows₂
  set run₂ := applyAction symbol bar run₁
    (c, if (run.2.openFor symbol).isSome then .flip else .fill) with hrun₂
  obtain ⟨-, hstatus₃, hrows₃⟩ := supersededs_spec symbol bar after run₂
  have hend : run' = (after.map fun c => (c, FillAction.superseded)).foldl
      (applyAction symbol bar) run₂ := by
    show List.foldl _ _ _ = _
    rw [List.foldl_append, List.foldl_cons]
  rw [← hend] at hstatus₃ hrows₃
  have hfilled₂ : run₂.2.store.statusOf c.order.id = some .filled := by
    rw [hstatus₂, if_pos rfl]
  refine ⟨?_, fun id hne hpending hmem => ?_, fun o ho hb hne ha => ?_⟩
  · rw [hstatus₃, hfilled₂, if_neg (by simp)]
  · by_cases hbefore : id ∈ before.map (·.order.id)
    · have hid₁ : run₁.2.store.statusOf id = some .cancelled := by
        rw [hstatus₁, if_pos ⟨hbefore, hpending⟩]
      rw [hstatus₃, hstatus₂, if_neg hne, hid₁, if_neg (by simp)]
    · have hid₁ : run₁.2.store.statusOf id = some .pending := by
        rw [hstatus₁, if_neg fun h => hbefore h.1]
        exact hpending
      rw [hstatus₃, hstatus₂, if_neg hne, hid₁,
        if_pos ⟨hmem.resolve_left hbefore, rfl⟩]
  · exact hrows₃ o (hrows₂ o (hrows₁ o ho hb) hne) ha

/-- **The open of a bar resolves every order due.**  If all are on the open side they are
cancelled and the account is as it was; otherwise one that is not is filled, and the others
are cancelled.  The other orders are as they were. -/
theorem fillsAtOpen_resolves (symbol : Symbol) (bar : Bar) (candidates : List PendingCandidate)
    (run : UnitBarResult × Ledger) (hagree : run.2.book.Agrees)
    (hcands : ∀ c ∈ candidatesForBar candidates bar.ts,
      c.order ∈ run.2.store.listPendingOrders ∧ c.order.symbol = symbol) :
    let due := candidatesForBar candidates bar.ts
    let side := (run.2.openFor symbol).map (·.side)
    let run' := fillsAtOpen symbol bar candidates run
    (((∀ c ∈ due, side = some c.order.side) ∧ run'.2.book = run.2.book ∧
          ∀ c ∈ due, run'.2.store.statusOf c.order.id = some .cancelled) ∨
        ∃ c ∈ due, side ≠ some c.order.side ∧
          run'.2.store.statusOf c.order.id = some .filled ∧
          ∀ c' ∈ due, c'.order.id ≠ c.order.id →
            run'.2.store.statusOf c'.order.id = some .cancelled) ∧
      ∀ o ∈ run.2.store.orders, o.id ∉ due.map (·.order.id) → o ∈ run'.2.store.orders := by
  intro due side run'
  have hrun' : run' = (arbitrateFills side due).foldl (applyAction symbol bar) run := rfl
  have hpending : ∀ c ∈ due, run.2.store.statusOf c.order.id = some .pending :=
    fun c hc => LedgerStore.statusOf_pending (hcands c hc).1
  rcases first_actionable side due with hkept | ⟨before, c, after, hsplit, hbefore, hc⟩
  · rw [arbitrateFills_kept hkept] at hrun'
    obtain ⟨hbook, hstatus, hrows⟩ := supersededs_spec symbol bar due run
    rw [← hrun'] at hbook hstatus hrows
    refine ⟨Or.inl ⟨hkept, hbook, fun c hc => ?_⟩, hrows⟩
    rw [hstatus, if_pos ⟨List.mem_map_of_mem hc, hpending c hc⟩]
  · have hcDue : c ∈ due := by rw [hsplit]; simp
    obtain ⟨hcPending, hcSymbol⟩ := hcands c hcDue
    have hcRow := (LedgerStore.mem_listPendingOrders.mp hcPending).1
    -- An order on the open side is another order than the acting one.
    have hfresh : c.order.id ∉ before.map (·.order.id) := by
      intro hmem
      obtain ⟨q, hq, hid⟩ := List.mem_map.mp hmem
      have hqRow := (LedgerStore.mem_listPendingOrders.mp
        (hcands q (by show q ∈ due; rw [hsplit]; simp [hq])).1).1
      have hsame : q.order = c.order :=
        List.inj_on_of_nodup_map run.2.store.orders_pk hqRow hcRow hid
      exact hc (by rw [← hsame]; exact hbefore q hq)
    obtain ⟨hfilled, hcancelled, hrows⟩ :=
      acting_resolves symbol bar run hagree before after hcPending hcSymbol hfresh
    rw [hsplit, arbitrateFills_first hbefore hc, Option.isSome_map] at hrun'
    rw [← hrun'] at hfilled hcancelled hrows
    have hids : due.map (·.order.id)
        = before.map (·.order.id) ++ c.order.id :: after.map (·.order.id) := by
      rw [hsplit, List.map_append, List.map_cons]
    refine ⟨Or.inr ⟨c, hcDue, hc, hfilled, fun q hq hne => ?_⟩, fun o ho hnot => ?_⟩
    · have hmem : q.order.id ∈ due.map (·.order.id) := List.mem_map_of_mem hq
      rw [hids, List.mem_append, List.mem_cons] at hmem
      exact hcancelled _ hne (hpending q hq) (hmem.imp_right fun h => h.resolve_left hne)
    · rw [hids, List.mem_append, List.mem_cons, not_or, not_or] at hnot
      exact hrows o ho hnot.1 hnot.2.1 hnot.2.2

/-- **Fill arbitration resolves every due order exactly once.**  Every candidate gets one
action, in order, and at most one acts.  After the bar an order due at it is filled or
cancelled; one is filled exactly when some order due is not on the open side, and no two are;
when all are on the open side the open leaves the account alone; the orders that are not due
are as they were; and the symbol has at most one open row. -/
theorem arbitration_resolves (interval : Option ℕ) (l : Ledger) (symbol : Symbol)
    (timeframe : Timeframe) (bar : Bar) (candidates : List PendingCandidate)
    (hcands : ∀ c ∈ candidates, c.order ∈ l.store.listPendingOrders ∧ c.order.symbol = symbol) :
    let due := candidatesForBar candidates bar.ts
    let side := (l.store.positions.openRow symbol).map (·.side)
    let opened := fillsAtOpen symbol bar candidates
      ({ symbol, timeframe, ts := bar.ts }, l.restoreState)
    let after := (processUnitBar interval l symbol timeframe bar candidates).2.store
    (∀ openSide cs, (arbitrateFills openSide cs).map (·.1) = cs ∧
        ((arbitrateFills openSide cs).filter
          fun act => decide (act.2 ≠ .superseded)).length ≤ 1) ∧
      (∀ c ∈ due, after.statusOf c.order.id = some .filled ∨
        after.statusOf c.order.id = some .cancelled) ∧
      ((∃ c ∈ due, after.statusOf c.order.id = some .filled) ↔
        ∃ c ∈ due, side ≠ some c.order.side) ∧
      (∀ c ∈ due, ∀ c' ∈ due, after.statusOf c.order.id = some .filled →
        after.statusOf c'.order.id = some .filled → c.order = c'.order) ∧
      ((∀ c ∈ due, side = some c.order.side) → opened.2.book = l.restoreState.book) ∧
      (∀ o ∈ l.store.orders, o.id ∉ due.map (·.order.id) → o ∈ after.orders) ∧
      ∀ r ∈ after.positions.rows, ∀ r' ∈ after.positions.rows,
        r.exit = none → r'.exit = none → r.symbol = r'.symbol → r = r' := by
  intro due side opened after
  have horders : after.orders = opened.2.store.orders :=
    processUnitBar_opened interval l symbol timeframe bar candidates
  have hstatus (id : OrderId) : after.statusOf id = opened.2.store.statusOf id := by
    unfold LedgerStore.statusOf
    rw [horders]
  have hdue : ∀ c ∈ due, c.order ∈ l.store.listPendingOrders ∧ c.order.symbol = symbol :=
    fun c hc => hcands c (mem_candidatesForBar.mp hc).1
  have hresolved := fillsAtOpen_resolves symbol bar candidates
    ({ symbol, timeframe, ts := bar.ts }, l.restoreState) rfl hdue
  simp only [openSide_restoreState] at hresolved
  obtain ⟨hcases, hrows⟩ := hresolved
  refine ⟨arbitrateFills_actions, ?_⟩
  have hunchanged : ∀ o ∈ l.store.orders, o.id ∉ due.map (·.order.id) → o ∈ after.orders := by
    rw [horders]
    exact hrows
  have hopen : ∀ r ∈ after.positions.rows, ∀ r' ∈ after.positions.rows,
      r.exit = none → r'.exit = none → r.symbol = r'.symbol → r = r' := by
    intro r hr r' hr' hopen hopen' hsymbol
    exact open_unique ⟨l.broker, after⟩ hr hr' hopen hopen' hsymbol
  simp only [hstatus]
  rcases hcases with ⟨hkept, hbook, hcancelled⟩ | ⟨c, hc, hside, hfilled, hothers⟩
  · refine ⟨fun c hc => Or.inr (hcancelled c hc), ⟨?_, ?_⟩, ?_, fun _ => hbook, hunchanged, hopen⟩
    · rintro ⟨c, hc, hfilled⟩
      exact absurd ((hcancelled c hc).symm.trans hfilled) (by simp)
    · rintro ⟨c, hc, hside⟩
      exact absurd (hkept c hc) hside
    · intro c hc _ _ hfilled
      exact absurd ((hcancelled c hc).symm.trans hfilled) (by simp)
  · have honly : ∀ q ∈ due, opened.2.store.statusOf q.order.id = some .filled →
        q.order = c.order := by
      intro q hq hqFilled
      have hid : q.order.id = c.order.id := by
        by_contra hne
        exact absurd ((hothers q hq hne).symm.trans hqFilled) (by simp)
      exact List.inj_on_of_nodup_map l.store.orders_pk
        (LedgerStore.mem_listPendingOrders.mp (hdue q hq).1).1
        (LedgerStore.mem_listPendingOrders.mp (hdue c hc).1).1 hid
    refine ⟨fun q hq => ?_, ⟨fun _ => ⟨c, hc, hside⟩, fun _ => ⟨c, hc, hfilled⟩⟩, ?_, ?_,
      hunchanged, hopen⟩
    · by_cases hid : q.order.id = c.order.id
      · exact Or.inl (by rw [hid]; exact hfilled)
      · exact Or.inr (hothers q hq hid)
    · intro q hq q' hq' hqFilled hqFilled'
      exact (honly q hq hqFilled).trans (honly q' hq' hqFilled').symm
    · intro hkept
      exact absurd (hkept c hc) hside

end Ledger

/-- Two orders for the same bar, on either side. -/
def twoOrders : Ledger :=
  @Runs.run _ _ (@LedgerOp.step Digest.zero) emptySession.restoreState
    [.submit firstLong,
      .submit { firstLong with id := 2, direction := .short, decisionId := some 2 }]

/-- Both are due at one o'clock. -/
def twoDue : List PendingCandidate :=
  twoOrders.store.listPendingOrders.map fun order => { order, fillStamp := seconds 3600 }

/-- The bar of one o'clock. -/
def oneOClock : Bar where
  ts := seconds 3600
  openPrice := 11 / 10
  close := 11 / 10

theorem twoDue_pending : ∀ c ∈ twoDue,
    c.order ∈ twoOrders.store.listPendingOrders ∧ c.order.symbol = .eurusd := by
  intro c hc
  obtain ⟨order, horder, rfl⟩ := List.mem_map.mp hc
  have hall : (twoOrders.store.listPendingOrders.all
      fun order => decide (order.symbol = .eurusd)) = true := by decide +kernel
  exact ⟨horder, of_decide_eq_true (List.all_eq_true.mp hall order horder)⟩

/-- One of the two is filled. -/
theorem twoDue_filled : ∃ c ∈ candidatesForBar twoDue oneOClock.ts,
    (@Ledger.processUnitBar Digest.zero none twoOrders .eurusd .H1 oneOClock
      twoDue).2.store.statusOf c.order.id = some .filled := by
  refine (@Ledger.arbitration_resolves Digest.zero none twoOrders .eurusd .H1 oneOClock twoDue
    twoDue_pending).2.2.1.mpr ?_
  have hany : ((candidatesForBar twoDue oneOClock.ts).any fun c =>
      decide ((twoOrders.store.positions.openRow .eurusd).map (·.side) ≠ some c.order.side))
      = true := by decide +kernel
  obtain ⟨c, hc, hside⟩ := List.any_eq_true.mp hany
  exact ⟨c, hc, of_decide_eq_true hside⟩

end ForexAi
