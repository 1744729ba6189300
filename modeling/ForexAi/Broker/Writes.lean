/-
What may be written to the ledger.

Whatever a broker, a bar or a cycle of the lifecycle does to the tables is made of six
writes: an order is submitted, cancelled or filled, a position is closed, a snapshot is
taken, a decision is made.  `Write` says what each of them may be, and nothing else of a
broker is left at this level: a pending order becomes filled only together with the position
that it opens, a snapshot is later than all before it.

A bar works on rows that were read before it.  `Current` says that a row is still as the
table has it, if it is still pending there, and every write keeps that (`Current.write`); so
a row is never written back over a newer one.
-/
import ForexAi.Broker.Live
import ForexAi.Broker.Replay
import Mathlib.Logic.Relation

namespace ForexAi

/-- The position an order opens at a stamp: the order's own terms. -/
structure Position.Fills (pos : Position) (o : PaperOrderRow) (ts : Time) : Prop where
  symbol : pos.symbol = o.symbol
  timeframe : pos.timeframe = o.timeframe
  side : pos.side = o.side
  units : pos.units = o.units
  stopLoss : pos.stopLoss = o.stopLoss
  takeProfit : pos.takeProfit = o.takeProfit
  entryTs : pos.entryTs = ts

namespace LedgerStore

/-- One write to the tables. -/
inductive Write : LedgerStore → LedgerStore → Prop where
  | submit {s s' : LedgerStore} {o : PaperOrderRow} (hstatus : o.status = .pending)
      (hprice : o.filledPrice = none) (hat : o.filledAt = none) (h : s.saveOrder o = some s') :
      Write s s'
  | cancel {s : LedgerStore} {o : PaperOrderRow} (h : o ∈ s.listPendingOrders) :
      Write s (s.updateOrder { o with status := .cancelled })
  | fill {s s' : LedgerStore} {o : PaperOrderRow} {pos : Position} {ts : Time}
      (h : o ∈ s.listPendingOrders) (hfills : pos.Fills o ts)
      (hsave : (s.updateOrder (Ledger.filledRow o pos ts)).savePosition (.ofPosition o.id pos)
        = some s') : Write s s'
  | close {s : LedgerStore} (trade : Trade) : Write s (s.persistClose trade)
  | snapshot {s : LedgerStore} {row : AccountSnapshotRow}
      (h : ∀ latest, s.latestSnapshot = some latest → latest.ts < row.ts) :
      Write s (s.saveSnapshot row)
  | decide {s : LedgerStore} (decisions : DecisionId → Option DecisionRef) :
      Write s { s with decisions }

/-- One write after the other. -/
abbrev Writes : LedgerStore → LedgerStore → Prop := Relation.ReflTransGen Write

/-- **What every write keeps, the writes keep.** -/
theorem Writes.keeps {I : LedgerStore → Prop} (hwrite : ∀ s s', Write s s' → I s → I s')
    {s s' : LedgerStore} (h : Writes s s') (hs : I s) : I s' := by
  induction h with
  | refl => exact hs
  | tail _ hlast ih => exact hwrite _ _ hlast ih

/-- A write to the orders or the decisions alone. -/
structure OrderWrite (s s' : LedgerStore) : Prop where
  write : Write s s'
  positions : s'.positions = s.positions
  snapshots : s'.snapshots = s.snapshots

abbrev OrderWrites : LedgerStore → LedgerStore → Prop := Relation.ReflTransGen OrderWrite

theorem OrderWrites.writes {s s' : LedgerStore} (h : OrderWrites s s') : Writes s s' :=
  Relation.ReflTransGen.mono (fun _ _ (hwrite : OrderWrite _ _) => hwrite.write) _ _ h

theorem OrderWrites.account {s s' : LedgerStore} (h : OrderWrites s s') :
    s'.positions = s.positions ∧ s'.snapshots = s.snapshots := by
  induction h with
  | refl => exact ⟨rfl, rfl⟩
  | tail _ hlast ih => exact ⟨hlast.positions.trans ih.1, hlast.snapshots.trans ih.2⟩

/-! ### Rows that are still current -/

/-- The table has the row under its id, unless it is settled there. -/
structure Current (s : LedgerStore) (o : PaperOrderRow) : Prop where
  known : o.id ∈ s.orders.map (·.id)
  same : ∀ q ∈ s.orders, q.id = o.id → q.status = .pending → q = o

theorem current_of_mem {s : LedgerStore} {o : PaperOrderRow} (h : o ∈ s.orders) :
    s.Current o :=
  ⟨List.mem_map_of_mem h, fun _ hq hid _ => List.inj_on_of_nodup_map s.orders_pk hq h hid⟩

/-- A row that is pending in the table is the row that the table has. -/
theorem Current.pending {s : LedgerStore} {o : PaperOrderRow} (h : s.Current o)
    (hstatus : s.statusOf o.id = some .pending) : o ∈ s.listPendingOrders := by
  obtain ⟨q, hq, hid⟩ := List.mem_map.mp h.known
  have hpending : q.status = .pending := by
    rw [← hid, statusOf_of_mem hq] at hstatus
    exact Option.some.inj hstatus
  have hsame := h.same q hq hid hpending
  subst hsame
  exact mem_listPendingOrders.mpr ⟨hq, hpending⟩

theorem Current.of_orders {s s' : LedgerStore} {o : PaperOrderRow} (h : s.Current o)
    (horders : s'.orders = s.orders) : s'.Current o := by
  refine ⟨?_, ?_⟩
  · rw [horders]
    exact h.known
  · rw [horders]
    exact h.same

/-- Writing a settled row back. -/
theorem Current.updateOrder {s : LedgerStore} {o row : PaperOrderRow} (h : s.Current o)
    (hrow : row.status ≠ .pending) : (s.updateOrder row).Current o := by
  refine ⟨?_, ?_⟩
  · obtain ⟨q, hq, hid⟩ := List.mem_map.mp h.known
    refine List.mem_map.mpr ⟨_, List.mem_map_of_mem hq, ?_⟩
    show (if q.id = row.id then row else q).id = o.id
    by_cases hsame : q.id = row.id
    · rw [if_pos hsame, ← hsame, hid]
    · rw [if_neg hsame, hid]
  · intro q hq hid hpending
    obtain ⟨p, hp, heq⟩ := List.mem_map.mp hq
    by_cases hsame : p.id = row.id
    · rw [if_pos hsame] at heq
      exact absurd (heq ▸ hpending) hrow
    · rw [if_neg hsame] at heq
      exact h.same q (heq ▸ hp) hid hpending

theorem orders_savePosition {s s' : LedgerStore} {row : PaperPositionRow}
    (h : s.savePosition row = some s') :
    s'.orders = s.orders ∧ s'.snapshots = s.snapshots ∧
      s'.positions.rows = s.positions.rows ++ [row] := by
  obtain ⟨positions, hinsert, rfl⟩ := Option.map_eq_some_iff.mp h
  exact ⟨rfl, rfl, PositionTable.rows_of_insert hinsert⟩

/-- **Every write keeps a row current.** -/
theorem Current.write {s s' : LedgerStore} {o : PaperOrderRow} (hwrite : Write s s')
    (h : s.Current o) : s'.Current o := by
  cases hwrite with
  | submit _ _ _ hsave =>
      obtain ⟨hunique, horders, -⟩ := saveOrder_some hsave
      refine ⟨?_, ?_⟩
      · rw [horders, List.map_append]
        exact List.mem_append_left _ h.known
      · intro q hq hid hpending
        rw [horders, List.mem_append, List.mem_singleton] at hq
        rcases hq with hq | rfl
        · exact h.same q hq hid hpending
        · exact absurd (hid ▸ h.known) (refusesOrder_id hunique)
  | cancel _ => exact h.updateOrder (by simp)
  | fill _ _ hsave =>
      have hsettled (p : PaperOrderRow) (pos : Position) (ts : Time) :
          (Ledger.filledRow p pos ts).status ≠ .pending := by simp [Ledger.filledRow]
      exact (h.updateOrder (hsettled _ _ _)).of_orders (orders_savePosition hsave).1
  | close trade => exact h.of_orders rfl
  | snapshot _ => exact h.of_orders rfl
  | decide _ => exact h.of_orders rfl

theorem Current.writes {s s' : LedgerStore} {o : PaperOrderRow} (hwrites : Writes s s')
    (h : s.Current o) : s'.Current o :=
  Writes.keeps (I := fun s => s.Current o) (fun _ _ hwrite hs => Current.write hwrite hs) hwrites h

end LedgerStore

/-! ### The operations of a ledger are writes -/

namespace Ledger

open LedgerStore

theorem writes_submit (r : Submission) (l : Ledger) : OrderWrites l.store (r.submit l).store := by
  rcases r.submit_cases l with hsame | ⟨hshape, store, hsave, hsubmit⟩
  · rw [hsame]
  · obtain ⟨-, -, hpositions, hsnapshots, -⟩ := saveOrder_some hsave
    rw [hsubmit]
    exact .single ⟨.submit rfl rfl rfl hsave, hpositions, hsnapshots⟩

theorem writes_cancelPending {l : Ledger} {order : PaperOrderRow} (h : l.store.Current order) :
    OrderWrites l.store (l.cancelPending order).2.store := by
  unfold cancelPending
  by_cases hpending : l.store.statusOf order.id = some .pending
  · rw [if_pos hpending]
    exact .single ⟨.cancel (h.pending hpending), rfl, rfl⟩
  · rw [if_neg hpending]

/-- Cancelling one current order after the other. -/
theorem writes_cancelAll (l : Ledger) (orders : List PaperOrderRow)
    (h : ∀ o ∈ orders, l.store.Current o) :
    OrderWrites l.store (orders.foldl (fun l o => (l.cancelPending o).2) l).store := by
  refine List.foldlRecOn (motive := fun l' : Ledger => OrderWrites l.store l'.store) _ _ .refl ?_
  intro l' hl' o ho
  exact hl'.trans (writes_cancelPending ((h o ho).writes hl'.writes))

theorem writes_persist (l : Ledger) (closed : Option Trade × PaperBroker) :
    Writes l.store (l.persist closed).2.store := by
  obtain ⟨trade, paper⟩ := closed
  cases trade with
  | none => exact .refl
  | some trade => exact .single (.close trade)

/-- A snapshot that is due is later than all there are. -/
theorem writes_equitySnapshot {l : Ledger} {interval : Option ℕ} {ts : Time}
    (hdue : l.store.snapshotDue interval ts = true) :
    Writes l.store (l.equitySnapshot ts).2.store := by
  refine .single (.snapshot fun latest hlatest => ?_)
  show latest.ts < ts
  unfold LedgerStore.snapshotDue at hdue
  rw [hlatest] at hdue
  by_contra hc
  simp [not_lt.mp hc] at hdue

variable [Digest]

/-- **A fill writes the order together with the position it opens**, or nothing. -/
theorem writes_fillPending {l : Ledger} {order : PaperOrderRow} (h : l.store.Current order)
    (price : ℚ) (ts : Time) : Writes l.store (l.fillPending order price ts).2.store := by
  unfold fillPending
  by_cases hpending : l.store.statusOf order.id = some .pending
  · rw [if_neg (not_not.mpr hpending)]
    by_cases hopen : (l.openFor order.symbol).isSome = true
    · rw [if_pos hopen]
    · rw [if_neg hopen]
      have hfree : l.openFor order.symbol = none := by simpa using hopen
      have hpos := PaperBroker.fillOrder_positions price ts hfree
      unfold PaperBroker.fillOrder at hpos
      have hself : (l.broker.paper.positions ++ [l.broker.paper.filledPosition order price
          ts]).openFor order.symbol = some (l.broker.paper.filledPosition order price ts) :=
        PositionSet.openFor_append_self (p := l.broker.paper.filledPosition order price ts) hfree
      simp only [hpos, hself]
      split
      · exact .refl
      · rename_i store hsave
        refine .single (.fill (h.pending hpending) ?_ hsave)
        exact ⟨rfl, rfl, rfl, rfl, rfl, rfl, rfl⟩
  · rw [if_pos hpending]

/-- One arbitrated order. -/
theorem writes_applyAction (symbol : Symbol) (bar : Bar) (run : UnitBarResult × Ledger)
    (act : PendingCandidate × FillAction) (h : run.2.store.Current act.1.order) :
    Writes run.2.store (applyAction symbol bar run act).2.store := by
  obtain ⟨c, action⟩ := act
  cases action with
  | superseded => exact (writes_cancelPending h).writes
  | fill => exact writes_fillPending h bar.openPrice bar.ts
  | flip =>
      have hclosed := writes_persist run.2
        (run.2.broker.paper.closeOnSignal symbol bar.openPrice bar.ts)
      exact hclosed.trans (writes_fillPending (h.writes hclosed) bar.openPrice bar.ts)

theorem writes_applyActions (symbol : Symbol) (bar : Bar) (run : UnitBarResult × Ledger)
    (acts : List (PendingCandidate × FillAction))
    (h : ∀ act ∈ acts, run.2.store.Current act.1.order) :
    Writes run.2.store (acts.foldl (applyAction symbol bar) run).2.store := by
  refine List.foldlRecOn (motive := fun run' : UnitBarResult × Ledger =>
    Writes run.2.store run'.2.store) _ _ .refl ?_
  intro run' hrun' act hact
  exact hrun'.trans (writes_applyAction symbol bar run' act ((h act hact).writes hrun'))

/-- **A bar is writes**, if the candidates it is given are current. -/
theorem writes_processUnitBar (interval : Option ℕ) (l : Ledger) (symbol : Symbol)
    (timeframe : Timeframe) (bar : Bar) (candidates : List PendingCandidate)
    (h : ∀ c ∈ candidates, l.store.Current c.order) :
    Writes l.store (processUnitBar interval l symbol timeframe bar candidates).2.store := by
  set start : UnitBarResult × Ledger := ({ symbol, timeframe, ts := bar.ts }, l.restoreState)
    with hstart
  have hopened : Writes l.store (fillsAtOpen symbol bar candidates start).2.store :=
    writes_applyActions symbol bar start _ fun act hact =>
      h act.1 (mem_candidatesForBar.mp (arbitrateFills_mem hact)).1
  set opened := fillsAtOpen symbol bar candidates start with hopenedDef
  have hmarked : Writes l.store ((opened.2.evaluateExit symbol bar.close bar.ts).2.markPosition
      symbol bar.close).store := hopened.trans (writes_persist opened.2 _)
  set marked := (opened.2.evaluateExit symbol bar.close bar.ts).2.markPosition symbol bar.close
    with hmarkedDef
  have hprocess : (processUnitBar interval l symbol timeframe bar candidates).2 =
      if (0 < opened.1.filled ∨ 0 < opened.1.exits
          + (if (opened.2.evaluateExit symbol bar.close bar.ts).1.isSome then 1 else 0)
        ∨ (marked.openFor symbol).isSome = true) ∧ marked.store.snapshotDue interval bar.ts = true
      then (marked.equitySnapshot bar.ts).2
      else marked := apply_ite Prod.snd _ _ _
  by_cases hdue : marked.store.snapshotDue interval bar.ts = true
  · rcases processUnitBar_ends interval l symbol timeframe bar candidates with hend | hend
    · rw [hend]
      exact hmarked
    · rw [hend]
      exact hmarked.trans (writes_equitySnapshot hdue)
  · rw [hprocess, if_neg fun hc => hdue hc.2]
    exact hmarked

end Ledger

end ForexAi
