/-
The lifecycle side of the orchestrator.

A cycle restores the ledger, finds the (symbol, timeframe) units with something open or
pending, and gives each of them one pass: load the closed candles from the earliest
anchor on, cancel the orders whose bar never came, and hand the outstanding bars to
`processUnitBar`, oldest first and at most `maxBars` of them.  A cycle ends with the sweep
of expired orders.

A pass is in two parts.  `planUnit` is everything before the loop and says which bars
will be handed over; `processUnit` hands them over.  A pass that fails midway keeps the
bars it committed, so a cycle also says after how many bars each pass stops.
-/
import ForexAi.Broker.Bars
import ForexAi.Lib.Runs

namespace ForexAi

/-- `limit=100_000`, the most candles one pass loads. -/
def candleLimit : ℕ := 100000

/-- The settings of the lifecycle step. -/
structure WorkerConfig where
  broker : BrokerConfig
  maxBars : ℕ
  snapshotInterval : Option ℕ

/-- The stored candles, by instrument and timeframe. -/
abbrev Candles := Symbol → Timeframe → Series

/-- A loaded candle as the bar to process. -/
def Candle.toBar (c : Candle) : Bar where
  ts := c.ts
  openPrice := c.openPrice
  close := c.close

/-- The anchor of a pass: the earliest due fill bar or the open position's entry, whichever
is earlier. -/
def anchorStamp (candidates : List PendingCandidate) (stamps : List Time)
    (current : Option Position) : Option Time :=
  let due := (candidates.map (·.fillStamp)).filter (· ∈ stamps)
  (due.min?.toList ++ (current.map (·.entryTs)).toList).min?

/-- `_outstanding_stamps`: every loaded stamp from the anchor on. -/
def outstandingStamps (candidates : List PendingCandidate) (stamps : List Time)
    (current : Option Position) : List Time :=
  match anchorStamp candidates stamps current with
  | none => []
  | some anchor => stamps.filter (anchor ≤ ·)

/-- A unit's pass up to its loop. -/
structure UnitPlan where
  ledger : Ledger
  candidates : List PendingCandidate
  window : List Bar
  depth : ℕ

/-- The stamp a pass loads from: the earliest due fill bar, stored or not, or the open
position's entry. -/
def baseStamp (candidates : List PendingCandidate) (current : Option Position)
    (latestClosed : Time) : Option Time :=
  ((candidates.map (·.fillStamp)).filter (· ≤ latestClosed) ++
    (current.map (·.entryTs)).toList).min?

/-- The candles a pass loads. -/
def loadWindow (series : Series) (candidates : List PendingCandidate) (current : Option Position)
    (latestClosed : Time) : List Candle :=
  series.loadCandles (baseStamp candidates current latestClosed) (some (latestClosed + seconds 1))
    candleLimit

/-- `_process_unit`, before its loop. -/
def planUnit (cfg : WorkerConfig) (series : Series) (store : LedgerStore) (symbol : Symbol)
    (timeframe : Timeframe) : UnitPlan :=
  let l := (Ledger.session cfg.broker store).restoreState
  let candidates := l.store.unitCandidates symbol timeframe
  match series.lastClosedTs with
  | none => { ledger := l, candidates, window := [], depth := 0 }
  | some latestClosed =>
      let current := l.openFor symbol
      let rows := loadWindow series candidates current latestClosed
      let stamps := rows.map (·.ts)
      let doomed := missingBarCandidates candidates stamps latestClosed
      let l := doomed.foldl (fun l cand => (l.cancelPending cand.order).2) l
      let (window, depth) := catchupWindow (outstandingStamps candidates stamps current) cfg.maxBars
      { ledger := l
        candidates := candidates
        window := window.filterMap fun ts => (rows.find? fun c => c.ts = ts).map (·.toBar)
        depth := depth }

variable [Digest]

/-- One turn of the loop of `_process_unit`. -/
def handBar (cfg : WorkerConfig) (symbol : Symbol) (timeframe : Timeframe)
    (candidates : List PendingCandidate) (l : Ledger) (bar : Bar) : Ledger :=
  (l.processUnitBar cfg.snapshotInterval symbol timeframe bar candidates).2

/-- `_process_unit`, up to the bar after which it fails, if it does. -/
def processUnit (cfg : WorkerConfig) (candles : Candles) (store : LedgerStore)
    (unit : Symbol × Timeframe) (fault : Option ℕ) : LedgerStore :=
  let plan := planUnit cfg (candles unit.1 unit.2) store unit.1 unit.2
  let handed := match fault with
    | none => plan.window
    | some n => plan.window.take n
  (Runs.run (handBar cfg unit.1 unit.2 plan.candidates) plan.ledger handed).store

/-- `sorted(units, key=(symbol, timeframe))`, on the codes. -/
def UnitLe (a b : Symbol × Timeframe) : Prop :=
  a.1.code < b.1.code ∨ (a.1.code = b.1.code ∧ a.2.code ≤ b.2.code)

instance : DecidableRel UnitLe := fun a b => by
  unfold UnitLe
  infer_instance

omit [Digest] in
/-- The active units of a cycle. -/
def activeUnits (store : LedgerStore) : List (Symbol × Timeframe) :=
  let pending := store.pendingCandidates.map fun c => (c.order.symbol, c.order.timeframe)
  let opened := store.listOpenPositions.map fun r => (r.symbol, r.timeframe)
  (pending ++ opened).dedup.insertionSort UnitLe

omit [Digest] in
/-- `_cancel_expired_pending`. -/
def cancelExpiredPending (cfg : WorkerConfig) (store : LedgerStore) (now : Time) : LedgerStore :=
  let l := (Ledger.session cfg.broker store).restoreState
  ((l.store.listPendingExpired now).foldl (fun l o => (l.cancelPending o).2) l).store

/-- What goes wrong in a cycle: for each unit the bars it commits before it fails. -/
abbrev Faults := Symbol × Timeframe → Option ℕ

/-- `process_lifecycle`. -/
def processLifecycle (cfg : WorkerConfig) (candles : Candles) (store : LedgerStore) (now : Time)
    (faults : Faults) : LedgerStore :=
  if (Ledger.session cfg.broker store).restoreState.reconcile then
    let store' := (activeUnits store).foldl
      (fun s unit => processUnit cfg candles s unit (faults unit)) store
    cancelExpiredPending cfg store' now
  else store

/-! ### What a pass will hand over -/

section Plan

omit [Digest]

/-- The open position of a symbol, as a fresh session sees it. -/
def LedgerStore.current (s : LedgerStore) (symbol : Symbol) : Option Position :=
  (s.positions.openRow symbol).map (·.toPosition)

/-- The stamps of the candles a pass loads. -/
def loadedStamps (series : Series) (store : LedgerStore) (symbol : Symbol)
    (timeframe : Timeframe) : List Time :=
  match series.lastClosedTs with
  | none => []
  | some latestClosed =>
      (loadWindow series (store.unitCandidates symbol timeframe) (store.current symbol)
        latestClosed).map (·.ts)

/-- The stamps a pass owes. -/
def owedStamps (series : Series) (store : LedgerStore) (symbol : Symbol)
    (timeframe : Timeframe) : List Time :=
  outstandingStamps (store.unitCandidates symbol timeframe)
    (loadedStamps series store symbol timeframe) (store.current symbol)

theorem openFor_session (cfg : BrokerConfig) (store : LedgerStore) (symbol : Symbol) :
    (Ledger.session cfg store).restoreState.openFor symbol = store.current symbol :=
  PositionTable.openFor_openPositions store.positions symbol

theorem mem_outstandingStamps {candidates : List PendingCandidate} {stamps : List Time}
    {current : Option Position} {t : Time} (h : t ∈ outstandingStamps candidates stamps current) :
    t ∈ stamps := by
  unfold outstandingStamps at h
  split at h
  · exact absurd h (by simp)
  · exact List.mem_of_mem_filter h

theorem outstandingStamps_of_anchor {candidates : List PendingCandidate} {stamps : List Time}
    {current : Option Position} {anchor : Time}
    (h : anchorStamp candidates stamps current = some anchor) :
    outstandingStamps candidates stamps current = stamps.filter (anchor ≤ ·) := by
  unfold outstandingStamps
  rw [h]

/-- The anchor is the fill bar of a loaded due order, or the open position's entry. -/
theorem anchorStamp_cases {candidates : List PendingCandidate} {stamps : List Time}
    {current : Option Position} {anchor : Time}
    (h : anchorStamp candidates stamps current = some anchor) :
    (∃ c ∈ candidates, c.fillStamp = anchor ∧ anchor ∈ stamps) ∨
      ∃ pos, current = some pos ∧ pos.entryTs = anchor := by
  rcases List.mem_append.mp (List.min?_eq_some_iff.mp h).1 with hf | he
  · have hmem := (List.min?_eq_some_iff.mp (Option.mem_toList.mp hf)).1
    obtain ⟨hmap, hloaded⟩ := List.mem_filter.mp hmem
    obtain ⟨c, hc, hca⟩ := List.mem_map.mp hmap
    exact Or.inl ⟨c, hc, hca, by simpa using hloaded⟩
  · obtain ⟨pos, hpos, hent⟩ := Option.map_eq_some_iff.mp (Option.mem_toList.mp he)
    exact Or.inr ⟨pos, hpos, hent⟩

/-- No loaded due bar, and no open entry, is older than the anchor. -/
theorem anchorStamp_le {candidates : List PendingCandidate} {stamps : List Time}
    {current : Option Position} {anchor : Time}
    (h : anchorStamp candidates stamps current = some anchor) :
    (∀ c ∈ candidates, c.fillStamp ∈ stamps → anchor ≤ c.fillStamp) ∧
      ∀ pos, current = some pos → anchor ≤ pos.entryTs := by
  have hmin := (List.min?_eq_some_iff.mp h).2
  constructor
  · intro c hc hloaded
    have hdue : c.fillStamp ∈ (candidates.map (·.fillStamp)).filter (· ∈ stamps) :=
      List.mem_filter.mpr ⟨List.mem_map.mpr ⟨c, hc, rfl⟩, by simpa using hloaded⟩
    cases hf : ((candidates.map (·.fillStamp)).filter (· ∈ stamps)).min? with
    | none => rw [List.min?_eq_none_iff.mp hf] at hdue; exact absurd hdue (by simp)
    | some f =>
        refine (hmin f (List.mem_append_left _ ?_)).trans ((List.min?_eq_some_iff.mp hf).2 _ hdue)
        rw [hf]
        exact List.mem_singleton.mpr rfl
  · intro pos hpos
    refine hmin _ (List.mem_append_right _ ?_)
    rw [hpos]
    exact List.mem_singleton.mpr rfl

/-- With a position open, or an order due on a loaded bar, there is an anchor. -/
theorem anchorStamp_isSome {candidates : List PendingCandidate} {stamps : List Time}
    {current : Option Position}
    (h : current.isSome = true ∨ ∃ c ∈ candidates, c.fillStamp ∈ stamps) :
    ∃ anchor, anchorStamp candidates stamps current = some anchor := by
  cases hanchor : anchorStamp candidates stamps current with
  | some anchor => exact ⟨anchor, rfl⟩
  | none =>
      have hnil := List.append_eq_nil_iff.mp (List.min?_eq_none_iff.mp hanchor)
      rcases h with hcurrent | ⟨c, hc, hloaded⟩
      · obtain ⟨pos, hpos⟩ := Option.isSome_iff_exists.mp hcurrent
        rw [hpos] at hnil
        exact absurd hnil.2 (by simp)
      · have hdue : c.fillStamp ∈ (candidates.map (·.fillStamp)).filter (· ∈ stamps) :=
          List.mem_filter.mpr ⟨List.mem_map.mpr ⟨c, hc, rfl⟩, by simpa using hloaded⟩
        have hmin : ((candidates.map (·.fillStamp)).filter (· ∈ stamps)).min? = none := by
          simpa using hnil.1
        rw [List.min?_eq_none_iff.mp hmin] at hdue
        exact absurd hdue (by simp)

/-- Looking stamps of a list up gives back bars of those stamps. -/
private theorem barsAt_ts (rows : List Candle) :
    ∀ stamps : List Time, (∀ t ∈ stamps, t ∈ rows.map (·.ts)) →
      (stamps.filterMap fun ts => (rows.find? fun c => c.ts = ts).map (·.toBar)).map (·.ts)
        = stamps := by
  intro stamps
  induction stamps with
  | nil => intro _; rfl
  | cons t rest ih =>
      intro h
      obtain ⟨c, hc, hct⟩ := List.mem_map.mp (h t List.mem_cons_self)
      cases hfind : rows.find? fun c => c.ts = t with
      | none => exact absurd hct (by simpa using List.find?_eq_none.mp hfind c hc)
      | some d =>
          have hd : d.ts = t := by simpa using List.find?_some hfind
          rw [List.filterMap_cons_some (by rw [hfind]; rfl), List.map_cons,
            ih fun u hu => h u (List.mem_cons_of_mem t hu)]
          show d.ts :: rest = t :: rest
          rw [hd]

/-- **The stamps of a pass**: the catch-up window of the stamps it owes. -/
theorem planUnit_stamps (cfg : WorkerConfig) (series : Series) (store : LedgerStore)
    (symbol : Symbol) (timeframe : Timeframe) :
    (planUnit cfg series store symbol timeframe).window.map (·.ts)
      = (catchupWindow (owedStamps series store symbol timeframe) cfg.maxBars).1 := by
  unfold planUnit owedStamps loadedStamps
  cases series.lastClosedTs with
  | none =>
      have hnil : outstandingStamps (store.unitCandidates symbol timeframe) []
          (store.current symbol) = [] :=
        List.eq_nil_iff_forall_not_mem.mpr fun t ht =>
          absurd (mem_outstandingStamps ht) (by simp)
      simp only [hnil]
      simp [catchupWindow]
  | some latestClosed =>
      simp only [openFor_session]
      refine barsAt_ts _ _ fun t ht => ?_
      exact mem_outstandingStamps (mem_of_mem_catchupWindow ht)

theorem planUnit_candidates (cfg : WorkerConfig) (series : Series) (store : LedgerStore)
    (symbol : Symbol) (timeframe : Timeframe) :
    (planUnit cfg series store symbol timeframe).candidates
      = store.unitCandidates symbol timeframe := by
  unfold planUnit
  cases series.lastClosedTs <;> rfl

/-- Cancelling orders leaves the account alone and takes those orders off the queue. -/
theorem cancelAll_effect (orders : List PaperOrderRow) :
    ∀ l : Ledger, (∀ o ∈ orders, o ∈ l.store.listPendingOrders) →
      (orders.map (·.id)).Nodup →
      (orders.foldl (fun l o => (l.cancelPending o).2) l).book = l.book ∧
      (∀ o, o ∈ (orders.foldl (fun l o => (l.cancelPending o).2) l).store.listPendingOrders ↔
        o ∈ l.store.listPendingOrders ∧ o.id ∉ orders.map (·.id)) ∧
      (orders.foldl (fun l o => (l.cancelPending o).2) l).store.decisions
        = l.store.decisions := by
  induction orders with
  | nil => intro l _ _; exact ⟨rfl, fun o => by simp, rfl⟩
  | cons q rest ih =>
      intro l hmem hnodup
      rw [List.map_cons, List.nodup_cons] at hnodup
      have hq := hmem q List.mem_cons_self
      have hstep : (l.cancelPending q).2 = { l.dropPending q.id with
          store := l.store.updateOrder { q with status := .cancelled } } := by
        unfold Ledger.cancelPending
        rw [if_pos (LedgerStore.statusOf_pending hq)]
      have hpending : ∀ o, o ∈ (l.cancelPending q).2.store.listPendingOrders ↔
          o ∈ l.store.listPendingOrders ∧ o.id ≠ q.id := by
        intro o
        rw [hstep]
        exact LedgerStore.mem_listPendingOrders_cancelled l.store q o
      have hrest : ∀ o ∈ rest, o ∈ (l.cancelPending q).2.store.listPendingOrders := by
        intro o ho
        refine (hpending o).mpr ⟨hmem o (List.mem_cons_of_mem q ho), fun hid => ?_⟩
        exact hnodup.1 (List.mem_map.mpr ⟨o, ho, hid⟩)
      obtain ⟨hbook, hqueue, hdec⟩ := ih _ hrest hnodup.2
      refine ⟨hbook.trans (Ledger.book_cancelPending l q), ?_, ?_⟩
      · intro o
        rw [List.foldl_cons, hqueue, hpending, List.map_cons, List.mem_cons, not_or, and_assoc]
      · rw [List.foldl_cons, hdec, hstep]
        rfl

/-- What a pass finds when its loop begins: the account as restored, the decisions, and on
the queue every order but the unit's orders whose bar is closed and was not loaded. -/
theorem planUnit_queue (cfg : WorkerConfig) (series : Series) (store : LedgerStore)
    (symbol : Symbol) (timeframe : Timeframe) :
    (planUnit cfg series store symbol timeframe).ledger.book
        = (Ledger.session cfg.broker store).restoreState.book ∧
      (∀ o, o ∈ (planUnit cfg series store symbol timeframe).ledger.store.listPendingOrders ↔
        o ∈ store.listPendingOrders ∧
          ∀ c ∈ store.unitCandidates symbol timeframe, c.order.id = o.id →
            series.lastClosedTs.any (c.fillStamp ≤ ·) = true →
              c.fillStamp ∈ loadedStamps series store symbol timeframe) ∧
      (planUnit cfg series store symbol timeframe).ledger.store.decisions = store.decisions := by
  have hdue := due_unitCandidates store symbol timeframe
  unfold planUnit loadedStamps
  cases series.lastClosedTs with
  | none =>
      refine ⟨rfl, fun o => ⟨fun ho => ⟨ho, fun c _ _ h => absurd h (by simp)⟩, fun h => h.1⟩, rfl⟩
  | some latestClosed =>
      simp only [openFor_session]
      set stamps := (loadWindow series (store.unitCandidates symbol timeframe)
        (store.current symbol) latestClosed).map (·.ts) with hstamps
      set doomed := missingBarCandidates (store.unitCandidates symbol timeframe) stamps
        latestClosed with hdoomed
      have hmem : ∀ c, c ∈ doomed ↔ c ∈ store.unitCandidates symbol timeframe ∧
          c.fillStamp ≤ latestClosed ∧ c.fillStamp ∉ stamps := by
        intro c
        rw [hdoomed]
        unfold missingBarCandidates
        rw [List.mem_insertionSort, List.mem_filter, decide_eq_true_eq]
      have hids : (doomed.map (·.order.id)).Nodup := by
        have hperm := (List.perm_insertionSort PendingCandidate.KeyLe
          ((store.unitCandidates symbol timeframe).filter fun c =>
            c.fillStamp ≤ latestClosed ∧ c.fillStamp ∉ stamps)).map (·.order.id)
        exact hperm.nodup_iff.mpr (hdue.distinct.sublist (List.filter_sublist.map _))
      obtain ⟨hbook, hqueue, hdec⟩ := cancelAll_effect (doomed.map (·.order))
        (Ledger.session cfg.broker store).restoreState
        (by
          intro o ho
          obtain ⟨c, hc, rfl⟩ := List.mem_map.mp ho
          exact hdue.pending c ((hmem c).mp hc).1)
        (by rw [List.map_map]; exact hids)
      rw [List.foldl_map] at hbook hqueue hdec
      refine ⟨hbook, fun o => (hqueue o).trans (and_congr_right fun _ => ?_), hdec⟩
      rw [List.map_map]
      constructor
      · intro hnot c hc hid hclosed
        by_contra hmissing
        refine hnot (List.mem_map.mpr ⟨c, (hmem c).mpr ⟨hc, by simpa using hclosed, hmissing⟩, hid⟩)
      · intro hall hin
        obtain ⟨c, hc, hid⟩ := List.mem_map.mp hin
        obtain ⟨hcand, hclosed, hmissing⟩ := (hmem c).mp hc
        exact hmissing (hall c hcand hid (by simpa using hclosed))

/-- The same, read off a candidate of the unit: it is still pending unless its bar is
missing. -/
theorem planUnit_ledger (cfg : WorkerConfig) (series : Series) (store : LedgerStore)
    (symbol : Symbol) (timeframe : Timeframe) :
    (planUnit cfg series store symbol timeframe).ledger.book
        = (Ledger.session cfg.broker store).restoreState.book ∧
      (∀ o ∈ (planUnit cfg series store symbol timeframe).ledger.store.listPendingOrders,
        o ∈ store.listPendingOrders) ∧
      (∀ c ∈ store.unitCandidates symbol timeframe,
        (c.fillStamp ∈ loadedStamps series store symbol timeframe →
          c.order ∈ (planUnit cfg series store symbol timeframe).ledger.store.listPendingOrders) ∧
        (∀ latestClosed, series.lastClosedTs = some latestClosed → c.fillStamp ≤ latestClosed →
          c.fillStamp ∉ loadedStamps series store symbol timeframe →
          c.order ∉ (planUnit cfg series store symbol timeframe).ledger.store.listPendingOrders)) ∧
      (planUnit cfg series store symbol timeframe).ledger.store.decisions = store.decisions := by
  obtain ⟨hbook, hqueue, hdec⟩ := planUnit_queue cfg series store symbol timeframe
  have hdue := due_unitCandidates store symbol timeframe
  refine ⟨hbook, fun o ho => ((hqueue o).mp ho).1, fun c hc => ⟨?_, ?_⟩, hdec⟩
  · intro hloaded
    refine (hqueue c.order).mpr ⟨hdue.pending c hc, fun d hd hid _ => ?_⟩
    rw [List.inj_on_of_nodup_map hdue.distinct hd hc hid]
    exact hloaded
  · intro latestClosed hlatest hle hnot hin
    exact hnot (((hqueue c.order).mp hin).2 c hc rfl (by rw [hlatest]; simpa using hle))

end Plan

/-! ### The loop of a pass -/

/-- The candidates of the bars still to come are still pending. -/
def Ready (l : Ledger) (candidates : List PendingCandidate) (bars : List Bar) : Prop :=
  ∀ b ∈ bars, ∀ c ∈ candidates, c.fillStamp = b.ts → c.order ∈ l.store.listPendingOrders

omit [Digest] in
theorem ready_due {store : LedgerStore} {symbol : Symbol} {candidates : List PendingCandidate}
    (hdue : Due store symbol candidates) {l : Ledger} {b : Bar} {rest : List Bar}
    (hready : Ready l candidates (b :: rest)) :
    Due l.store symbol (candidatesForBar candidates b.ts) := by
  have hbar := hdue.candidatesForBar b.ts
  refine ⟨fun c hc => ?_, hbar.symbol_eq, hbar.distinct⟩
  obtain ⟨hmem, hts⟩ := mem_candidatesForBar.mp hc
  exact hready b List.mem_cons_self c hmem hts

/-- At every bar of the loop the orders due are still pending, since the bars ascend and each
takes only its own orders off the queue. -/
theorem handBars_due (cfg : WorkerConfig) {store : LedgerStore} {symbol : Symbol}
    (timeframe : Timeframe) {candidates : List PendingCandidate}
    (hdue : Due store symbol candidates) (bars : List Bar) :
    ∀ l : Ledger, Ready l candidates bars → (bars.map (·.ts)).Pairwise (· < ·) →
      Runs.Along (handBar cfg symbol timeframe candidates)
        (fun l b => Due l.store symbol (candidatesForBar candidates b.ts)) l bars := by
  induction bars with
  | nil => intro l _ _; trivial
  | cons b rest ih =>
      intro l hready hasc
      rw [List.map_cons, List.pairwise_cons] at hasc
      have hnow := ready_due hdue hready
      have heffect : Ledger.BarEffect cfg.snapshotInterval l
          (handBar cfg symbol timeframe candidates l b) symbol b candidates :=
        Ledger.processUnitBar_effect cfg.snapshotInterval l symbol timeframe b candidates hnow
      refine ⟨hnow, ih _ ?_ hasc.2⟩
      intro b' hb' c hc hts
      refine (heffect.pending c.order).mpr
        ⟨hready b' (List.mem_cons_of_mem b hb') c hc hts, fun hin => ?_⟩
      obtain ⟨d, hd, hid⟩ := List.mem_map.mp hin
      obtain ⟨hdmem, hdts⟩ := mem_candidatesForBar.mp hd
      have hdc : d = c := List.inj_on_of_nodup_map hdue.distinct hdmem hc hid
      have hlt : b.ts < b'.ts := hasc.1 b'.ts (List.mem_map.mpr ⟨b', hb', rfl⟩)
      rw [← hdts, hdc, hts] at hlt
      exact absurd hlt (lt_irrefl _)

/-- What a loop leaves on the queue: the orders that are due at none of its bars. -/
theorem run_queue (cfg : WorkerConfig) {symbol : Symbol} {timeframe : Timeframe}
    {candidates : List PendingCandidate} (bars : List Bar) :
    ∀ l : Ledger,
      Runs.Along (handBar cfg symbol timeframe candidates)
        (fun l b => Ledger.BarEffect cfg.snapshotInterval l
          (handBar cfg symbol timeframe candidates l b) symbol b candidates) l bars →
      (∀ o, o ∈ (Runs.run (handBar cfg symbol timeframe candidates) l
          bars).store.listPendingOrders ↔
        o ∈ l.store.listPendingOrders ∧
          ∀ b ∈ bars, ∀ c ∈ candidates, c.fillStamp = b.ts → c.order.id ≠ o.id) ∧
      (Runs.run (handBar cfg symbol timeframe candidates) l bars).store.decisions
        = l.store.decisions := by
  induction bars with
  | nil =>
      intro l _
      exact ⟨fun o => ⟨fun ho => ⟨ho, fun b hb => absurd hb (by simp)⟩, fun h => h.1⟩, rfl⟩
  | cons b rest ih =>
      intro l halong
      obtain ⟨heffect, hrest⟩ := halong
      obtain ⟨hpending, hdec⟩ := ih _ hrest
      refine ⟨fun o => ?_, hdec.trans heffect.decisions⟩
      rw [Runs.run_cons, hpending, heffect.pending, and_assoc]
      refine and_congr_right fun _ => ⟨?_, ?_⟩
      · rintro ⟨hnow, hlater⟩ b' hb' c hc hts hid
        rcases List.mem_cons.mp hb' with rfl | hb'
        · exact hnow (List.mem_map.mpr ⟨c, mem_candidatesForBar.mpr ⟨hc, hts⟩, hid⟩)
        · exact hlater b' hb' c hc hts hid
      · intro hall
        refine ⟨fun hin => ?_, fun b' hb' => hall b' (List.mem_cons_of_mem b hb')⟩
        obtain ⟨c, hc, hid⟩ := List.mem_map.mp hin
        obtain ⟨hcand, hts⟩ := mem_candidatesForBar.mp hc
        exact hall b List.mem_cons_self c hcand hts hid

end ForexAi
