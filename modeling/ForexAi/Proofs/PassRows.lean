/-
A pass, seen in the rows it decides by.

Which bars a pass hands over, which orders act at them and what they write is decided by
the orders and the positions (`SameRows`).  The snapshots a pass writes along the way never
come into it.  So two passes from the same rows end with the same rows, whatever the cash.

Two kinds of bars leave the rows alone.  One is a bar at which no order is due and whose
close breaches nothing (`Idle`).  The other is a bar that was handed over before: its orders
are settled, and what it left open it did not breach.  `Watching` is the invariant behind
it, and `Quiescent` is what a whole pass leaves: nothing due, and an open position that no
stored bar from its entry on breaches.
-/
import ForexAi.Broker.Replay
import ForexAi.Proofs.OrderFates
import Mathlib.Data.Prod.Lex

namespace ForexAi

/-! ### The rows of a store -/

/-- The same orders, positions and decisions. -/
structure LedgerStore.SameRows (s s' : LedgerStore) : Prop where
  orders : s'.orders = s.orders
  positions : s'.positions = s.positions
  decisions : s'.decisions = s.decisions

namespace LedgerStore.SameRows

variable {s s' s'' : LedgerStore}

theorem refl (s : LedgerStore) : s.SameRows s := ⟨rfl, rfl, rfl⟩

theorem symm (h : s.SameRows s') : s'.SameRows s :=
  ⟨h.orders.symm, h.positions.symm, h.decisions.symm⟩

theorem trans (h : s.SameRows s') (h' : s'.SameRows s'') : s.SameRows s'' :=
  ⟨h'.orders.trans h.orders, h'.positions.trans h.positions, h'.decisions.trans h.decisions⟩

theorem listPendingOrders (h : s.SameRows s') : s'.listPendingOrders = s.listPendingOrders := by
  unfold LedgerStore.listPendingOrders
  rw [h.orders]

theorem pendingCandidates (h : s.SameRows s') : s'.pendingCandidates = s.pendingCandidates := by
  unfold LedgerStore.pendingCandidates
  rw [h.listPendingOrders, funext (LedgerStore.candidateOf_congr h.decisions)]

theorem unitCandidates (h : s.SameRows s') (symbol : Symbol) (timeframe : Timeframe) :
    s'.unitCandidates symbol timeframe = s.unitCandidates symbol timeframe := by
  unfold LedgerStore.unitCandidates
  rw [h.pendingCandidates]

theorem openRow (h : s.SameRows s') (symbol : Symbol) :
    s'.positions.openRow symbol = s.positions.openRow symbol := by
  rw [h.positions]

theorem statusOf (h : s.SameRows s') (id : OrderId) : s'.statusOf id = s.statusOf id := by
  unfold LedgerStore.statusOf
  rw [h.orders]

theorem due (h : s.SameRows s') {symbol : Symbol} {cs : List PendingCandidate}
    (hdue : Due s symbol cs) : Due s' symbol cs := by
  refine ⟨fun c hc => ?_, hdue.symbol_eq, hdue.distinct⟩
  rw [h.listPendingOrders]
  exact hdue.pending c hc

end LedgerStore.SameRows

/-! ### Candidates in order

Candidates are sorted by a key that tells any two of them apart.  So which candidates there
are says also in which order they come, and a pass can be compared by membership.
-/

theorem PendingCandidate.keyLe_iff (a b : PendingCandidate) : a.KeyLe b ↔
    toLex (a.fillStamp, toLex (a.order.createdAt, a.order.id))
      ≤ toLex (b.fillStamp, toLex (b.order.createdAt, b.order.id)) := by
  unfold PendingCandidate.KeyLe LedgerStore.OlderOrder
  rw [Prod.Lex.toLex_le_toLex, Prod.Lex.toLex_le_toLex]

instance : Std.Total PendingCandidate.KeyLe := by
  refine ⟨fun a b => ?_⟩
  rw [PendingCandidate.keyLe_iff, PendingCandidate.keyLe_iff]
  exact le_total _ _

instance : IsTrans PendingCandidate PendingCandidate.KeyLe := by
  refine ⟨fun a b c hab hbc => ?_⟩
  rw [PendingCandidate.keyLe_iff] at *
  exact hab.trans hbc

/-- Candidates in order, each once, are determined by which there are. -/
theorem candidates_ext {cs cs' : List PendingCandidate}
    (hsorted : cs.Pairwise PendingCandidate.KeyLe)
    (hsorted' : cs'.Pairwise PendingCandidate.KeyLe) (hids : (cs.map (·.order.id)).Nodup)
    (hids' : (cs'.map (·.order.id)).Nodup) (hmem : ∀ c, c ∈ cs' ↔ c ∈ cs) : cs' = cs := by
  have hperm : cs'.Perm cs :=
    (List.perm_ext_iff_of_nodup (List.Nodup.of_map _ hids') (List.Nodup.of_map _ hids)).mpr hmem
  refine hperm.eq_of_pairwise (fun a b ha hb hab hba => ?_) hsorted' hsorted
  rw [PendingCandidate.keyLe_iff] at hab hba
  have hkey := congrArg (fun k => (ofLex (ofLex k).2).2) (le_antisymm hab hba)
  have hid : a.order.id = b.order.id := hkey
  exact List.inj_on_of_nodup_map hids ((hmem a).mp ha) hb hid

theorem unitCandidates_sorted (s : LedgerStore) (symbol : Symbol) (timeframe : Timeframe) :
    (s.unitCandidates symbol timeframe).Pairwise PendingCandidate.KeyLe :=
  (List.pairwise_insertionSort PendingCandidate.KeyLe _).sublist List.filter_sublist

theorem unitCandidates_ext {s s' : LedgerStore} {symbol : Symbol} {timeframe : Timeframe}
    (hmem : ∀ c, c ∈ s'.unitCandidates symbol timeframe ↔ c ∈ s.unitCandidates symbol timeframe) :
    s'.unitCandidates symbol timeframe = s.unitCandidates symbol timeframe :=
  candidates_ext (unitCandidates_sorted s symbol timeframe)
    (unitCandidates_sorted s' symbol timeframe) (due_unitCandidates s symbol timeframe).distinct
    (due_unitCandidates s' symbol timeframe).distinct hmem

/-- The candidates of a bar are determined by which of them are due there. -/
theorem candidatesForBar_ext {s s' : LedgerStore} {symbol symbol' : Symbol}
    {cs cs' : List PendingCandidate} (hdue : Due s symbol cs) (hdue' : Due s' symbol' cs')
    {ts : Time} (hmem : ∀ c, c.fillStamp = ts → (c ∈ cs' ↔ c ∈ cs)) :
    candidatesForBar cs' ts = candidatesForBar cs ts := by
  refine candidates_ext (List.pairwise_insertionSort _ _) (List.pairwise_insertionSort _ _)
    (hdue.candidatesForBar ts).distinct (hdue'.candidatesForBar ts).distinct fun c => ?_
  rw [mem_candidatesForBar, mem_candidatesForBar]
  exact and_congr_left fun hts => hmem c hts

theorem candidatesForBar_eq_nil {cs : List PendingCandidate} {ts : Time}
    (h : ∀ c ∈ cs, c.fillStamp ≠ ts) : candidatesForBar cs ts = [] := by
  refine List.eq_nil_iff_forall_not_mem.mpr fun c hc => ?_
  obtain ⟨hmem, hts⟩ := mem_candidatesForBar.mp hc
  exact h c hmem hts

/-! ### The bars a pass owes

A pass loads forward from its base, up to a limit, and hands over from its anchor, up to a
throttle.  When neither cuts anything off, what it hands over is every stored bar from the
anchor on.
-/

/-- No load of a pass is cut: from no stamp it may load from are more candles stored than one
load takes. -/
def LoadsAll (series : Series) (store : LedgerStore) (unit : Symbol × Timeframe) : Prop :=
  ∀ start ∈ loadStarts series store unit, (barsFrom series start).length ≤ candleLimit

/-- The stored bars from the earliest stamp on a pass may have to hand over from. -/
def owedBars (series : Series) (store : LedgerStore) (unit : Symbol × Timeframe) : List Bar :=
  (series.rows.filter fun r => (handStarts series store unit).any fun start =>
    decide (start ≤ r.ts)).map (·.toBar)

section Owed

variable {series : Series} {store : LedgerStore} {unit : Symbol × Timeframe}

theorem mem_owedBars {b : Bar} : b ∈ owedBars series store unit ↔
    ∃ r ∈ series.rows, (∃ start ∈ handStarts series store unit, start ≤ r.ts) ∧ r.toBar = b := by
  unfold owedBars
  simp only [List.mem_map, List.mem_filter, List.any_eq_true, decide_eq_true_eq, and_assoc]

theorem owedBars_stamps : (owedBars series store unit).map (·.ts)
    = series.stamps.filter fun t => (handStarts series store unit).any fun start =>
      decide (start ≤ t) := by
  unfold owedBars Series.stamps
  rw [List.map_map, List.filter_map]
  rfl

theorem owedBars_ascending : ((owedBars series store unit).map (·.ts)).Pairwise (· < ·) := by
  rw [owedBars_stamps]
  exact series.stamps_ascending.sublist List.filter_sublist

theorem loadedStamps_all (hloads : LoadsAll series store unit) {latestClosed base : Time}
    (hlatest : series.lastClosedTs = some latestClosed)
    (hbase : baseStamp (store.unitCandidates unit.1 unit.2) (store.current unit.1) latestClosed
      = some base) :
    loadedStamps series store unit.1 unit.2 = barsFrom series base := by
  rw [loadedStamps_eq hlatest hbase]
  refine List.take_of_length_le (hloads base ?_)
  rw [baseStamp_loadStarts hlatest] at hbase
  exact (List.min?_eq_some_iff.mp hbase).1

theorem fill_loaded (hloads : LoadsAll series store unit) {c : PendingCandidate}
    (hc : c ∈ store.unitCandidates unit.1 unit.2) (hstored : c.fillStamp ∈ series.stamps) :
    c.fillStamp ∈ loadedStamps series store unit.1 unit.2 := by
  obtain ⟨latestClosed, base, hlatest, hbase, -, hleast⟩ := exists_base hc hstored
  rw [loadedStamps_all hloads hlatest hbase]
  refine List.mem_filter.mpr ⟨hstored, ?_⟩
  simpa using hleast _ (handStarts_subset (fill_mem_handStarts hc hstored))

/-- **What an uncut pass owes.** -/
theorem owedStamps_all (hloads : LoadsAll series store unit) :
    owedStamps series store unit.1 unit.2 = (owedBars series store unit).map (·.ts) := by
  rw [owedBars_stamps]
  unfold owedStamps
  cases hanchor : anchorStamp (store.unitCandidates unit.1 unit.2)
      (loadedStamps series store unit.1 unit.2) (store.current unit.1) with
  | none =>
      -- Without an anchor nothing is due on a stored bar and nothing is open.
      have hnone : handStarts series store unit = [] := by
        refine List.eq_nil_iff_forall_not_mem.mpr fun start hstart => ?_
        have hsome : ∃ anchor, anchorStamp (store.unitCandidates unit.1 unit.2)
            (loadedStamps series store unit.1 unit.2) (store.current unit.1) = some anchor := by
          refine anchorStamp_isSome ?_
          rcases List.mem_append.mp hstart with hdue | hentry
          · obtain ⟨hmap, hin⟩ := List.mem_filter.mp hdue
            obtain ⟨c, hc, rfl⟩ := List.mem_map.mp hmap
            exact Or.inr ⟨c, hc, fill_loaded hloads hc (by simpa using hin)⟩
          · rw [← current_entry] at hentry
            obtain ⟨pos, hpos, -⟩ := Option.map_eq_some_iff.mp (Option.mem_toList.mp hentry)
            exact Or.inl (by rw [hpos]; rfl)
        obtain ⟨anchor, hsome⟩ := hsome
        rw [hanchor] at hsome
        exact absurd hsome (by simp)
      have hnil : outstandingStamps (store.unitCandidates unit.1 unit.2)
          (loadedStamps series store unit.1 unit.2) (store.current unit.1) = [] := by
        unfold outstandingStamps
        rw [hanchor]
      rw [hnil, hnone]
      exact (List.filter_eq_nil_iff.mpr fun t _ => by simp).symm
  | some anchor =>
      obtain ⟨hmem, hleast⟩ := anchorStamp_handStarts (fun d => fill_loaded hloads) hanchor
      have hload := handStarts_subset hmem
      have hdue : ∀ t, ((handStarts series store unit).any fun start => decide (start ≤ t))
          = decide (anchor ≤ t) := by
        intro t
        rw [Bool.eq_iff_iff, List.any_eq_true, decide_eq_true_eq]
        constructor
        · rintro ⟨start, hstart, hle⟩
          exact (hleast start hstart).trans (of_decide_eq_true hle)
        · intro hle
          exact ⟨anchor, hmem, decide_eq_true hle⟩
      rw [outstandingStamps_of_anchor hanchor]
      simp only [hdue]
      cases hlatest : series.lastClosedTs with
      | none =>
          have hrows := Series.lastClosedTs_eq_none hlatest
          unfold loadedStamps Series.stamps
          rw [hlatest, hrows]
          rfl
      | some latestClosed =>
          cases hbase : (loadStarts series store unit).min? with
          | none =>
              rw [List.min?_eq_none_iff.mp hbase] at hload
              exact absurd hload (by simp)
          | some base =>
              have hle := (List.min?_eq_some_iff.mp hbase).2 anchor hload
              rw [← baseStamp_loadStarts hlatest] at hbase
              rw [loadedStamps_all hloads hlatest hbase]
              unfold barsFrom
              rw [List.filter_filter]
              refine List.filter_congr fun t _ => ?_
              rw [Bool.eq_iff_iff, Bool.and_eq_true, decide_eq_true_eq, decide_eq_true_eq]
              exact ⟨fun h => h.1, fun h => ⟨h, hle.trans h⟩⟩

/-- Bars of one series are determined by their stamps. -/
theorem bars_ext {bars bars' : List Bar} (hbars : ∀ b ∈ bars, ∃ r ∈ series.rows, r.toBar = b)
    (hbars' : ∀ b ∈ bars', ∃ r ∈ series.rows, r.toBar = b)
    (hstamps : bars'.map (·.ts) = bars.map (·.ts)) : bars' = bars := by
  induction bars generalizing bars' with
  | nil => simpa using hstamps
  | cons b rest ih =>
      cases bars' with
      | nil => exact absurd hstamps (by simp)
      | cons b' rest' =>
          rw [List.map_cons, List.map_cons] at hstamps
          obtain ⟨hts, hrest⟩ := List.cons.inj hstamps
          obtain ⟨r, hr, rfl⟩ := hbars b List.mem_cons_self
          obtain ⟨r', hr', rfl⟩ := hbars' b' List.mem_cons_self
          have hnodup : (series.rows.map (·.ts)).Nodup :=
            series.stamps_ascending.imp fun hlt => ne_of_lt hlt
          have hrow : r' = r := List.inj_on_of_nodup_map hnodup hr' hr hts
          rw [hrow, ih (fun b hb => hbars b (List.mem_cons_of_mem _ hb))
            (fun b hb => hbars' b (List.mem_cons_of_mem _ hb)) hrest]

theorem planUnit_bars (cfg : WorkerConfig) {symbol : Symbol} {timeframe : Timeframe} {b : Bar}
    (hb : b ∈ (planUnit cfg series store symbol timeframe).window) :
    ∃ r ∈ series.rows, r.toBar = b := by
  unfold planUnit at hb
  cases hlatest : series.lastClosedTs with
  | none =>
      rw [hlatest] at hb
      exact absurd hb (by simp)
  | some latestClosed =>
      rw [hlatest] at hb
      obtain ⟨ts, -, hfind⟩ := List.mem_filterMap.mp hb
      obtain ⟨r, hr, hbar⟩ := Option.map_eq_some_iff.mp hfind
      exact ⟨r, (Series.loadCandles_sublist _ _ _ _).subset (List.mem_of_find?_eq_some hr), hbar⟩

/-- **The bars of a pass**, when its load is not cut and it owes no more than its throttle. -/
theorem planUnit_window (cfg : WorkerConfig) (hloads : LoadsAll series store unit)
    (hfits : (owedStamps series store unit.1 unit.2).length ≤ max 1 cfg.maxBars) :
    (planUnit cfg series store unit.1 unit.2).window = owedBars series store unit := by
  refine bars_ext (fun b hb => ?_) (fun b hb => planUnit_bars cfg hb) ?_
  · obtain ⟨r, hr, -, hbar⟩ := mem_owedBars.mp hb
    exact ⟨r, hr, hbar⟩
  · have howed := owedStamps_all hloads
    rw [planUnit_stamps]
    rw [howed] at hfits ⊢
    rw [catchupWindow_of_ascending owedBars_ascending, List.take_of_length_le hfits]

end Owed

/-! ### The rows when a loop begins

Before the loop a pass cancels orders and restores its broker.  Two passes from the same rows
do the same there, though their snapshots and so their cash may differ.
-/

/-- Two sessions on the same rows, at the same costs. -/
structure Ledger.Beside (l l' : Ledger) : Prop where
  rows : l.store.SameRows l'.store
  costParams : l'.broker.paper.costParams = l.broker.paper.costParams

/-- Cancelling the same order in two sessions on the same rows. -/
theorem cancelPending_beside {l l' : Ledger} (h : l.Beside l') (o : PaperOrderRow) :
    (l.cancelPending o).2.Beside (l'.cancelPending o).2 := by
  unfold Ledger.cancelPending
  rw [h.rows.statusOf]
  split
  · refine ⟨⟨?_, h.rows.positions, h.rows.decisions⟩, h.costParams⟩
    exact congrArg (List.map _) h.rows.orders
  · exact h

theorem cancelAll_beside (orders : List PaperOrderRow) : ∀ l l' : Ledger, l.Beside l' →
    (orders.foldl (fun l o => (l.cancelPending o).2) l).Beside
      (orders.foldl (fun l o => (l.cancelPending o).2) l') := by
  induction orders with
  | nil => intro l l' h; exact h
  | cons o rest ih => exact fun l l' h => ih _ _ (cancelPending_beside h o)

theorem session_beside (cfg : BrokerConfig) {s s' : LedgerStore} (h : s.SameRows s') :
    (Ledger.session cfg s).restoreState.Beside (Ledger.session cfg s').restoreState := by
  refine ⟨h, ?_⟩
  have hcost := (Ledger.session cfg s).book.restore_seed.2
  have hcost' := (Ledger.session cfg s').book.restore_seed.2
  exact hcost'.trans hcost.symm

/-- **Two passes from the same rows begin alike**: the same candidates, the same bars, the same
rows. -/
theorem planUnit_beside (cfg : WorkerConfig) (series : Series) {s s' : LedgerStore}
    (h : s.SameRows s') (symbol : Symbol) (timeframe : Timeframe) :
    (planUnit cfg series s symbol timeframe).ledger.Beside
        (planUnit cfg series s' symbol timeframe).ledger ∧
      (planUnit cfg series s' symbol timeframe).window
        = (planUnit cfg series s symbol timeframe).window := by
  have hsession := session_beside cfg.broker h
  unfold planUnit
  cases series.lastClosedTs with
  | none => exact ⟨hsession, rfl⟩
  | some latestClosed =>
      have hcandidates := h.unitCandidates symbol timeframe
      have hcurrent : s'.current symbol = s.current symbol := by
        unfold LedgerStore.current
        rw [h.positions]
      have hcands : (Ledger.session cfg.broker s').restoreState.store.unitCandidates symbol timeframe
          = (Ledger.session cfg.broker s).restoreState.store.unitCandidates symbol timeframe :=
        hcandidates
      simp only [openFor_session, hcurrent, hcands]
      refine ⟨?_, trivial⟩
      have hcancel := cancelAll_beside ((missingBarCandidates
        ((Ledger.session cfg.broker s).restoreState.store.unitCandidates symbol timeframe)
        ((loadWindow series
          ((Ledger.session cfg.broker s).restoreState.store.unitCandidates symbol timeframe)
          (s.current symbol) latestClosed).map (·.ts)) latestClosed).map (·.order)) _ _ hsession
      rw [List.foldl_map, List.foldl_map] at hcancel
      exact hcancel

/-- A pass that misses no bar begins with the rows of the store. -/
theorem planUnit_rows (cfg : WorkerConfig) (series : Series) (store : LedgerStore)
    (symbol : Symbol) (timeframe : Timeframe)
    (hloaded : ∀ c ∈ store.unitCandidates symbol timeframe,
      series.lastClosedTs.any (c.fillStamp ≤ ·) = true →
        c.fillStamp ∈ loadedStamps series store symbol timeframe) :
    store.SameRows (planUnit cfg series store symbol timeframe).ledger.store := by
  unfold planUnit
  unfold loadedStamps at hloaded
  cases hlatest : series.lastClosedTs with
  | none => exact LedgerStore.SameRows.refl store
  | some latestClosed =>
      rw [hlatest] at hloaded
      simp only [openFor_session]
      have hnone : missingBarCandidates (store.unitCandidates symbol timeframe)
          ((loadWindow series (store.unitCandidates symbol timeframe) (store.current symbol)
            latestClosed).map (·.ts)) latestClosed = [] := by
        refine List.eq_nil_iff_forall_not_mem.mpr fun c hc => ?_
        unfold missingBarCandidates at hc
        rw [List.mem_insertionSort, List.mem_filter, decide_eq_true_eq] at hc
        exact hc.2.2 (hloaded c hc.1 (by simpa using hc.2.1))
      have hnone' : missingBarCandidates
          ((Ledger.session cfg.broker store).restoreState.store.unitCandidates symbol timeframe)
          ((loadWindow series
            ((Ledger.session cfg.broker store).restoreState.store.unitCandidates symbol timeframe)
            (store.current symbol) latestClosed).map (·.ts)) latestClosed = [] := hnone
      rw [hnone']
      exact LedgerStore.SameRows.refl store

/-- What the broker of a pass starts its loop with. -/
theorem planUnit_paper (cfg : WorkerConfig) (series : Series) (store : LedgerStore)
    (symbol : Symbol) (timeframe : Timeframe) :
    (planUnit cfg series store symbol timeframe).ledger.broker.paper.seed = cfg.broker.seed ∧
      (planUnit cfg series store symbol timeframe).ledger.broker.paper.costParams
        = cfg.broker.costParams := by
  have hbook := congrArg Book.paper (planUnit_ledger cfg series store symbol timeframe).1
  have hseed := (Ledger.session cfg.broker store).book.restore_seed
  exact ⟨(congrArg PaperBroker.seed hbook).trans hseed.1,
    (congrArg PaperBroker.costParams hbook).trans hseed.2⟩

variable [Digest]

/-! ### One bar, in two sessions -/

/-- A trade is decided by the table, the seed and the cost parameters. -/
theorem Book.closes_congr {b b' : Book} (htable : b'.table = b.table)
    (hseed : b'.paper.seed = b.paper.seed) (hcost : b'.paper.costParams = b.paper.costParams)
    (symbol : Symbol) (bar : Bar) (acting : Option PaperOrderRow) :
    b'.closes symbol bar acting = b.closes symbol bar acting := by
  unfold Book.closes
  rw [htable]
  simp only [Book.closePosition_trade hseed hcost]

omit [Digest] in
/-- The book with the seed in its broker replaced. -/
def Book.reseed (b : Book) (seed : ℤ) : Book := { b with paper := b.paper.reseed seed }

/-- **The same bar from the same rows** leaves the same rows, if it closes the same trade.  And
after a bar that fills an order both brokers carry that order's seed. -/
theorem handBar_beside (cfg : WorkerConfig) {symbol : Symbol} {timeframe : Timeframe}
    {candidates candidates' : List PendingCandidate} {l l' : Ledger} {b : Bar}
    (h : l.Beside l') (hdue : Due l.store symbol (candidatesForBar candidates b.ts))
    (hsame : candidatesForBar candidates' b.ts = candidatesForBar candidates b.ts)
    (hcloses : l'.book.closes symbol b (l.store.actingAt symbol b.ts candidates)
      = l.book.closes symbol b (l.store.actingAt symbol b.ts candidates)) :
    (handBar cfg symbol timeframe candidates l b).Beside
        (handBar cfg symbol timeframe candidates' l' b) ∧
      (l'.broker.paper.seed = l.broker.paper.seed ∨
          (l.store.actingAt symbol b.ts candidates).isSome = true →
        (handBar cfg symbol timeframe candidates' l' b).broker.paper.seed
          = (handBar cfg symbol timeframe candidates l b).broker.paper.seed) ∧
      (l.store.actingAt symbol b.ts candidates = none →
        (handBar cfg symbol timeframe candidates' l' b).broker.paper.seed
          = l'.broker.paper.seed) := by
  have hdue' : Due l'.store symbol (candidatesForBar candidates' b.ts) := by
    rw [hsame]
    exact h.rows.due hdue
  have heffect := Ledger.processUnitBar_effect cfg.snapshotInterval l symbol timeframe b
    candidates hdue
  have heffect' := Ledger.processUnitBar_effect cfg.snapshotInterval l' symbol timeframe b
    candidates' hdue'
  have horders := Ledger.processUnitBar_orders cfg.snapshotInterval l symbol timeframe b
    candidates hdue
  have horders' := Ledger.processUnitBar_orders cfg.snapshotInterval l' symbol timeframe b
    candidates' hdue'
  have hacting : l'.store.actingAt symbol b.ts candidates'
      = l.store.actingAt symbol b.ts candidates := by
    unfold LedgerStore.actingAt
    rw [hsame, h.rows.positions]
  have hbook := heffect.book
  have hbook' := heffect'.book
  rw [hacting] at hbook'
  rw [hsame, h.rows.orders, h.rows.positions, h.costParams, ← horders] at horders'
  set acting := l.store.actingAt symbol b.ts candidates with hactingDef
  have hsymbol : ∀ o, acting = some o → o.symbol = symbol := by
    intro o ho
    obtain ⟨c, hc, rfl⟩ := Option.map_eq_some_iff.mp ho
    exact hdue.symbol_eq c (actingOrder_mem hc)
  obtain ⟨htable, hseeds⟩ := @Book.processBar_alike _ l.book l'.book h.rows.positions
    h.costParams symbol b acting hsymbol hcloses cfg.snapshotInterval
  have hkeeps := l.book.processBar_keeps cfg.snapshotInterval symbol b acting
  have hkeeps' := l'.book.processBar_keeps cfg.snapshotInterval symbol b acting
  rw [← hbook, ← hbook'] at htable
  rw [← hbook] at hkeeps hseeds
  rw [← hbook'] at hkeeps' hseeds
  refine ⟨⟨⟨horders', htable, ?_⟩, ?_⟩, ?_, hkeeps'.2⟩
  · exact heffect'.decisions.trans (h.rows.decisions.trans heffect.decisions.symm)
  · exact hkeeps'.1.trans (h.costParams.trans hkeeps.1.symm)
  · intro hseed
    cases hcase : acting with
    | some o => exact (hseeds o hcase).2.trans (hseeds o hcase).1.symm
    | none =>
        rw [hcase] at hseed
        have hequal : l'.broker.paper.seed = l.broker.paper.seed := by simpa using hseed
        exact (hkeeps'.2 hcase).trans (hequal.trans (hkeeps.2 hcase).symm)

omit [Digest] in
/-- No order is due at the bar and its close breaches nothing. -/
def Ledger.Idle (l : Ledger) (symbol : Symbol) (candidates : List PendingCandidate) (b : Bar) :
    Prop :=
  candidatesForBar candidates b.ts = [] ∧ l.book.breached symbol b.close = false

/-- **An idle bar leaves the rows and the seed alone.** -/
theorem handBar_idle (cfg : WorkerConfig) {symbol : Symbol} {timeframe : Timeframe}
    {candidates : List PendingCandidate} {l : Ledger} {b : Bar} (h : l.Idle symbol candidates b) :
    l.Beside (handBar cfg symbol timeframe candidates l b) ∧
      (handBar cfg symbol timeframe candidates l b).broker.paper.seed = l.broker.paper.seed := by
  obtain ⟨hnone, hbreach⟩ := h
  have hdue : Due l.store symbol (candidatesForBar candidates b.ts) := by
    rw [hnone]
    exact ⟨fun c hc => absurd hc (by simp), fun c hc => absurd hc (by simp), List.nodup_nil⟩
  have heffect := Ledger.processUnitBar_effect cfg.snapshotInterval l symbol timeframe b
    candidates hdue
  have horders := Ledger.processUnitBar_orders cfg.snapshotInterval l symbol timeframe b
    candidates hdue
  have hacting : l.store.actingAt symbol b.ts candidates = none := by
    unfold LedgerStore.actingAt
    rw [hnone]
    cases (l.store.positions.openRow symbol).map (·.side) <;> rfl
  have hside : arbitrateFills ((l.store.positions.openRow symbol).map (·.side)) [] = [] := by
    cases (l.store.positions.openRow symbol).map (·.side) <;> rfl
  have hbook := heffect.book
  rw [hacting] at hbook
  rw [hnone, hside] at horders
  have hkeeps := l.book.processBar_keeps cfg.snapshotInterval symbol b none
  have htable := Book.processBar_quiet cfg.snapshotInterval hbreach
  rw [← hbook] at hkeeps htable
  exact ⟨⟨⟨horders, htable, heffect.decisions⟩, hkeeps.1⟩, hkeeps.2 rfl⟩

/-- Bars that are all idle leave the rows and the seed alone. -/
theorem run_idle (cfg : WorkerConfig) {symbol : Symbol} {timeframe : Timeframe}
    {candidates : List PendingCandidate} (bars : List Bar) :
    ∀ l : Ledger, (∀ b ∈ bars, l.Idle symbol candidates b) →
      l.Beside (Runs.run (handBar cfg symbol timeframe candidates) l bars) ∧
        (Runs.run (handBar cfg symbol timeframe candidates) l bars).broker.paper.seed
          = l.broker.paper.seed := by
  induction bars with
  | nil => intro l _; exact ⟨⟨LedgerStore.SameRows.refl _, rfl⟩, rfl⟩
  | cons b rest ih =>
      intro l hidle
      obtain ⟨hstep, hseed⟩ := @handBar_idle _ cfg symbol timeframe candidates l b
        (hidle b List.mem_cons_self)
      have hrest : ∀ b' ∈ rest,
          (handBar cfg symbol timeframe candidates l b).Idle symbol candidates b' := by
        intro b' hb'
        obtain ⟨hnone, hbreach⟩ := hidle b' (List.mem_cons_of_mem b hb')
        refine ⟨hnone, ?_⟩
        unfold Book.breached at hbreach ⊢
        rw [show (handBar cfg symbol timeframe candidates l b).book.table.openRow symbol
          = l.book.table.openRow symbol from hstep.rows.openRow symbol]
        exact hbreach
      obtain ⟨hrun, hseed'⟩ := ih _ hrest
      exact ⟨⟨hstep.rows.trans hrun.rows, hrun.costParams.trans hstep.costParams⟩,
        hseed'.trans hseed⟩

/-- **Two passes from the same rows end with the same rows.** -/
theorem processUnit_rows (cfg : WorkerConfig) (candles : Candles) {s s' : LedgerStore}
    (h : s.SameRows s') (unit : Symbol × Timeframe) (fault : Option ℕ) :
    (processUnit cfg candles s unit fault).SameRows (processUnit cfg candles s' unit fault) := by
  set series := candles unit.1 unit.2 with hseries
  obtain ⟨hplan, hwindow⟩ := planUnit_beside cfg series h unit.1 unit.2
  obtain ⟨hseed, -⟩ := planUnit_paper cfg series s unit.1 unit.2
  obtain ⟨hseed', -⟩ := planUnit_paper cfg series s' unit.1 unit.2
  obtain ⟨-, hdue⟩ := planUnit_due cfg series s unit.1 unit.2 fault
  have hhanded : (planUnit cfg series s' unit.1 unit.2).handed fault
      = (planUnit cfg series s unit.1 unit.2).handed fault := by
    unfold UnitPlan.handed
    rw [hwindow]
  rw [processUnit_eq, processUnit_eq, planUnit_candidates, planUnit_candidates,
    h.unitCandidates unit.1 unit.2, ← hseries, hhanded]
  refine (Runs.simulation
    (R := fun l l' : Ledger => l.Beside l' ∧ l'.broker.paper.seed = l.broker.paper.seed)
    (fun l l' b hl hb => ?_) ⟨hplan, hseed'.trans hseed.symm⟩ hdue).1.rows
  obtain ⟨hbeside, hseeds, -⟩ := handBar_beside cfg hl.1 hb rfl
    (Book.closes_congr hl.1.rows.positions hl.2 hl.1.costParams unit.1 b _)
  exact ⟨hbeside, hseeds (Or.inl hl.2)⟩

/-! ### What a pass leaves on the queue -/

/-- A cycle whose passes all end alike, on candles that stay as they are. -/
def WorkerCycle.still (candles : Candles) (fault : Option ℕ) : WorkerCycle where
  now := 0
  candles := candles
  later := candles
  ends := fun _ => fault.elim .completed .failedAfter
  sweeps := false

theorem WorkerCycle.still_pass (cfg : WorkerConfig) (candles : Candles) (store : LedgerStore)
    (unit : Symbol × Timeframe) (fault : Option ℕ) :
    (WorkerCycle.still candles fault).pass cfg store unit
      = processUnit cfg candles store unit fault := by
  cases fault <;> rfl

/-- A pass adds nothing to the queue, and forgets no decision. -/
theorem processUnit_shrinks (cfg : WorkerConfig) (candles : Candles) (store : LedgerStore)
    (unit : Symbol × Timeframe) (fault : Option ℕ) :
    (∀ o ∈ (processUnit cfg candles store unit fault).listPendingOrders,
      o ∈ store.listPendingOrders) ∧
      (processUnit cfg candles store unit fault).decisions = store.decisions := by
  obtain ⟨hqueue, hdec⟩ := (WorkerCycle.still candles fault).pass_queue cfg store unit
  rw [WorkerCycle.still_pass] at hqueue hdec
  exact ⟨fun o ho => ((hqueue o).mp ho).1, hdec⟩

/-- **The candidates after a pass**: all but those of the unit whose bar is missing or was handed
over. -/
theorem mem_pendingCandidates_processUnit (cfg : WorkerConfig) (candles : Candles)
    (store : LedgerStore) (unit : Symbol × Timeframe) (fault : Option ℕ) (c : PendingCandidate) :
    c ∈ (processUnit cfg candles store unit fault).pendingCandidates ↔
      c ∈ store.pendingCandidates ∧ (c ∈ store.unitCandidates unit.1 unit.2 →
        ((candles unit.1 unit.2).lastClosedTs.any (c.fillStamp ≤ ·) = true →
          c.fillStamp ∈ loadedStamps (candles unit.1 unit.2) store unit.1 unit.2) ∧
        c.fillStamp ∉ ((planUnit cfg (candles unit.1 unit.2) store unit.1 unit.2).handed
          fault).map (·.ts)) := by
  set cy := WorkerCycle.still candles fault with hcy
  have hpass : cy.pass cfg store unit = processUnit cfg candles store unit fault :=
    WorkerCycle.still_pass cfg candles store unit fault
  have hreach : cy.reach cfg unit ≠ none := by
    cases fault <;> simp [hcy, WorkerCycle.reach, WorkerCycle.still]
  have hhanded : cy.handed cfg store unit
      = (planUnit cfg (candles unit.1 unit.2) store unit.1 unit.2).handed fault := by
    cases fault <;> rfl
  have hsettles : ¬ cy.Settles cfg store unit c ↔
      ((candles unit.1 unit.2).lastClosedTs.any (c.fillStamp ≤ ·) = true →
          c.fillStamp ∈ loadedStamps (candles unit.1 unit.2) store unit.1 unit.2) ∧
        c.fillStamp ∉ ((planUnit cfg (candles unit.1 unit.2) store unit.1 unit.2).handed
          fault).map (·.ts) := by
    unfold WorkerCycle.Settles
    rw [hhanded, not_or]
    refine and_congr_left fun _ => ⟨fun hnot hclosed => ?_, fun himp h => h.2.2 (himp h.2.1)⟩
    by_contra hmissing
    exact hnot ⟨hreach, hclosed, hmissing⟩
  obtain ⟨hshrinks, hdec⟩ := processUnit_shrinks cfg candles store unit fault
  have hstays : c ∈ store.pendingCandidates →
      (c.order ∈ (processUnit cfg candles store unit fault).listPendingOrders ↔
        (c ∈ store.unitCandidates unit.1 unit.2 → ¬ cy.Settles cfg store unit c)) := by
    intro hc
    rw [← hpass]
    exact cy.pass_candidate cfg unit hc
  constructor
  · intro hc
    have hpending := (mem_pendingCandidates.mp hc).1
    have hbefore := pendingCandidates_of_decisions hdec.symm hc (hshrinks _ hpending)
    exact ⟨hbefore, fun hunit => hsettles.mp ((hstays hbefore).mp hpending hunit)⟩
  · rintro ⟨hbefore, hunit⟩
    exact pendingCandidates_of_decisions hdec hbefore
      ((hstays hbefore).mpr fun h => hsettles.mpr (hunit h))

/-- A pass leaves the candidates of other symbols alone. -/
theorem unitCandidates_processUnit_ne (cfg : WorkerConfig) (candles : Candles)
    (store : LedgerStore) {unit other : Symbol × Timeframe} (hne : unit.1 ≠ other.1)
    (fault : Option ℕ) :
    (processUnit cfg candles store unit fault).unitCandidates other.1 other.2
      = store.unitCandidates other.1 other.2 := by
  refine unitCandidates_ext fun c => ?_
  rw [mem_unitCandidates, mem_unitCandidates, mem_pendingCandidates_processUnit]
  refine ⟨fun h => ⟨h.1.1, h.2⟩, fun h => ⟨⟨h.1, fun hc => ?_⟩, h.2⟩⟩
  exact absurd ((mem_unitCandidates.mp hc).2.1.symm.trans h.2.1) hne

/-- A pass leaves the open rows of other symbols alone. -/
theorem openRow_processUnit_ne (cfg : WorkerConfig) (candles : Candles) (store : LedgerStore)
    {unit : Symbol × Timeframe} {other : Symbol} (hne : unit.1 ≠ other) (fault : Option ℕ) :
    (processUnit cfg candles store unit fault).positions.openRow other
      = store.positions.openRow other := by
  rw [processUnit_eq, planUnit_candidates]
  refine Runs.invariant (I := fun l : Ledger =>
    l.store.positions.openRow other = store.positions.openRow other) (fun l b hl hb => ?_) ?_
    (Runs.along_and.mpr ⟨(planUnit_due cfg (candles unit.1 unit.2) store unit.1 unit.2 fault).2,
      (planUnit_along cfg (candles unit.1 unit.2) store unit.1 unit.2 fault).2⟩)
  · obtain ⟨hdue, heffect⟩ := hb
    have hsymbol : ∀ o, l.store.actingAt unit.1 b.ts (store.unitCandidates unit.1 unit.2) = some o →
        o.symbol = unit.1 := by
      intro o ho
      obtain ⟨c, hc, rfl⟩ := Option.map_eq_some_iff.mp ho
      exact hdue.symbol_eq c (actingOrder_mem hc)
    have hrow := l.book.openRow_processBar_ne cfg.snapshotInterval hne b hsymbol
    rw [← heffect.book] at hrow
    exact hrow.trans hl
  · rw [planUnit_positions]

/-! ### What a pass leaves open

A position that is open during a pass was entered on its way or before it, and every bar
handed over since has left it alone.  At the end of a pass this is what makes the next one
idle.
-/

omit [Digest] in
/-- A position on its way through a pass: entered at or after a stamp the pass starts from, on
the unit's timeframe, not after a bar still to come, and breached by no bar handed over since. -/
structure Watching (starts : List Time) (timeframe : Timeframe) (done todo : List Bar)
    (q : PaperPositionRow) : Prop where
  started : ∃ start ∈ starts, start ≤ q.entryTs
  timeframe_eq : q.timeframe = timeframe
  ahead : ∀ b ∈ todo, q.entryTs ≤ b.ts
  watched : ∀ b ∈ done, q.entryTs ≤ b.ts →
    (q.toPosition.exitPriceFor b.close q.stopLoss q.takeProfit).2.2 = false

/-- One bar. -/
theorem handBar_watching (cfg : WorkerConfig) {starts : List Time} {symbol : Symbol}
    {timeframe : Timeframe} {candidates : List PendingCandidate} {done rest : List Bar} {b : Bar}
    {l : Ledger} (hdue : Due l.store symbol (candidatesForBar candidates b.ts))
    (htimeframe : ∀ c ∈ candidates, c.order.timeframe = timeframe)
    (hstart : ∃ start ∈ starts, start ≤ b.ts)
    (hasc : ((done ++ b :: rest).map (·.ts)).Pairwise (· < ·))
    (hopen : ∀ q, l.store.positions.openRow symbol = some q →
      Watching starts timeframe done (b :: rest) q) :
    ∀ q, (handBar cfg symbol timeframe candidates l b).store.positions.openRow symbol = some q →
      Watching starts timeframe (done ++ [b]) rest q := by
  intro q hq
  have heffect := Ledger.processUnitBar_effect cfg.snapshotInterval l symbol timeframe b
    candidates hdue
  set acting := l.store.actingAt symbol b.ts candidates with hacting
  have hsymbol : ∀ o, acting = some o → o.symbol = symbol := by
    intro o ho
    obtain ⟨c, hc, rfl⟩ := Option.map_eq_some_iff.mp ho
    exact hdue.symbol_eq c (actingOrder_mem hc)
  have hrow : (l.book.processBar cfg.snapshotInterval symbol b acting).table.openRow symbol
      = some q := by
    rw [← heffect.book]
    exact hq
  rw [List.map_append, List.map_cons, List.pairwise_append, List.pairwise_cons] at hasc
  obtain ⟨-, ⟨hafter, -⟩, hbefore⟩ := hasc
  obtain ⟨hunhit, hcase⟩ := Book.openRow_processBar cfg.snapshotInterval hsymbol hrow
  rcases hcase with ⟨-, hold⟩ | ⟨o, ho, hentry, hframe⟩
  · -- The position was open before and has not been breached here either.
    obtain ⟨hstarted, hframe, hahead, hwatched⟩ := hopen q hold
    refine ⟨hstarted, hframe, fun b' hb' => hahead b' (List.mem_cons_of_mem b hb'), ?_⟩
    intro b' hb' hle
    rcases List.mem_append.mp hb' with hb' | hb'
    · exact hwatched b' hb' hle
    · rw [List.mem_singleton.mp hb']
      exact hunhit
  · -- It was entered here, so no earlier bar counts.
    obtain ⟨c, hc, rfl⟩ := Option.map_eq_some_iff.mp ho
    refine ⟨?_, ?_, ?_, ?_⟩
    · rw [hentry]
      exact hstart
    · rw [hframe]
      exact htimeframe c (mem_candidatesForBar.mp (actingOrder_mem hc)).1
    · intro b' hb'
      rw [hentry]
      exact (hafter b'.ts (List.mem_map.mpr ⟨b', hb', rfl⟩)).le
    · intro b' hb' hle
      rcases List.mem_append.mp hb' with hb' | hb'
      · rw [hentry] at hle
        exact absurd (hbefore b'.ts (List.mem_map.mpr ⟨b', hb', rfl⟩) b.ts List.mem_cons_self)
          (not_lt.mpr hle)
      · rw [List.mem_singleton.mp hb']
        exact hunhit

/-- The first bars of a pass. -/
theorem run_watching (cfg : WorkerConfig) {starts : List Time} {symbol : Symbol}
    {timeframe : Timeframe} {candidates : List PendingCandidate}
    (htimeframe : ∀ c ∈ candidates, c.order.timeframe = timeframe) (bars : List Bar) :
    ∀ (done rest : List Bar) (l : Ledger),
      Runs.Along (handBar cfg symbol timeframe candidates)
        (fun l b => Due l.store symbol (candidatesForBar candidates b.ts)) l bars →
      (∀ b ∈ bars, ∃ start ∈ starts, start ≤ b.ts) →
      ((done ++ (bars ++ rest)).map (·.ts)).Pairwise (· < ·) →
      (∀ q, l.store.positions.openRow symbol = some q →
        Watching starts timeframe done (bars ++ rest) q) →
      ∀ q, (Runs.run (handBar cfg symbol timeframe candidates) l
          bars).store.positions.openRow symbol = some q →
        Watching starts timeframe (done ++ bars) rest q := by
  induction bars with
  | nil =>
      intro done rest l _ _ _ hopen q hq
      rw [List.append_nil]
      exact hopen q hq
  | cons b bars ih =>
      intro done rest l hdue hstarts hasc hopen q hq
      have hsplit : done ++ b :: bars = (done ++ [b]) ++ bars := by simp
      rw [hsplit]
      refine ih (done ++ [b]) rest _ hdue.2 (fun b' hb' => hstarts b' (List.mem_cons_of_mem b hb'))
        (by simpa using hasc) ?_ q hq
      exact handBar_watching cfg hdue.1 htimeframe (hstarts b List.mem_cons_self) hasc hopen

end ForexAi
