/-
The paper lifecycle: what one closed bar does to the ledger.

    restore -> fills and flips at the open -> stop and target at the close
            -> mark -> snapshot, if something changed and one is due

A pending order fills at one bar only, the decision's bucket plus the order's
timeframe.  Several orders may be due at the same bar; `arbitrateFills` lets at most
one of them act, and `arbitrateFills_split` says which.
-/
import ForexAi.Broker.Ledger

namespace ForexAi

/-- A pending order and its fill bar. -/
structure PendingCandidate where
  order : PaperOrderRow
  fillStamp : Time

/-- One processed bar of a unit. -/
structure Bar where
  ts : Time
  openPrice : ℚ
  close : ℚ

/-- What becomes of a due order. -/
inductive FillAction where
  | fill | flip | superseded
  deriving DecidableEq, Repr

/-- The counters of one processed bar. -/
structure UnitBarResult where
  symbol : Symbol
  timeframe : Timeframe
  ts : Time
  filled : ℕ := 0
  exits : ℕ := 0
  superseded : ℕ := 0
  snapshotWritten : Bool := false

namespace PendingCandidate

/-- `_key`: earliest fill bar, then creation time, then id. -/
def KeyLe (a b : PendingCandidate) : Prop :=
  a.fillStamp < b.fillStamp ∨
    (a.fillStamp = b.fillStamp ∧ LedgerStore.OlderOrder a.order b.order)

instance : DecidableRel KeyLe := fun a b => by
  unfold KeyLe
  infer_instance

end PendingCandidate

/-- `fill_stamp`. -/
def fillStamp (order : PaperOrderRow) (decisionBucket : Time) : Time :=
  decisionBucket + order.timeframe.length

/-- `candidates_for_bar`: the candidates due at `ts`, oldest first. -/
def candidatesForBar (candidates : List PendingCandidate) (ts : Time) : List PendingCandidate :=
  (candidates.filter fun c => c.fillStamp = ts).insertionSort PendingCandidate.KeyLe

/-- The loop of `arbitrate_fills`, from the current side and whether the bar is taken. -/
def arbitrateFrom (current : Option Direction) (filled : Bool) :
    List PendingCandidate → List (PendingCandidate × FillAction)
  | [] => []
  | cand :: rest =>
      if current = none ∧ filled = false then
        (cand, .fill) :: arbitrateFrom (some cand.order.side) true rest
      else if current = some cand.order.side then
        (cand, .superseded) :: arbitrateFrom current filled rest
      else if current ≠ none ∧ filled = false then
        (cand, .flip) :: arbitrateFrom (some cand.order.side) true rest
      else (cand, .superseded) :: arbitrateFrom current filled rest

/-- `arbitrate_fills`. -/
def arbitrateFills (openSide : Option Direction) (candidates : List PendingCandidate) :
    List (PendingCandidate × FillAction) :=
  arbitrateFrom openSide false candidates

/-- `catchup_window`: at most `maxBars` of the stamps, ascending, and how many are left. -/
def catchupWindow (stamps : List Time) (maxBars : ℕ) : List Time × ℕ :=
  let ordered := stamps.dedup.insertionSort (· ≤ ·)
  let toProcess := ordered.take (max 1 maxBars)
  (toProcess, ordered.length - toProcess.length)

/-- `missing_bar_candidates`: due by `latestClosed`, but their bar was never stored. -/
def missingBarCandidates (candidates : List PendingCandidate) (candleBuckets : List Time)
    (latestClosed : Time) : List PendingCandidate :=
  (candidates.filter fun c => c.fillStamp ≤ latestClosed ∧
    c.fillStamp ∉ candleBuckets).insertionSort
    PendingCandidate.KeyLe

namespace LedgerStore

/-- An order with its fill bar, where its decision is known. -/
def candidateOf (s : LedgerStore) (order : PaperOrderRow) : Option PendingCandidate :=
  (s.getDecisionBucket order.decisionId).map fun bucket =>
    { order, fillStamp := fillStamp order bucket }

theorem candidateOf_congr {s s' : LedgerStore} (h : s'.decisions = s.decisions)
    (order : PaperOrderRow) : s'.candidateOf order = s.candidateOf order := by
  unfold candidateOf
  rw [getDecisionBucket_congr h]

/-- `pending_candidates`. -/
def pendingCandidates (s : LedgerStore) : List PendingCandidate :=
  (s.listPendingOrders.filterMap s.candidateOf).insertionSort PendingCandidate.KeyLe

/-- The candidates of one unit. -/
def unitCandidates (s : LedgerStore) (symbol : Symbol) (timeframe : Timeframe) :
    List PendingCandidate :=
  s.pendingCandidates.filter fun c => c.order.symbol = symbol ∧ c.order.timeframe = timeframe

/-- `_snapshot_due`: no snapshot at or after the bar, nor one within the interval before it. -/
def snapshotDue (s : LedgerStore) (interval : Option ℕ) (ts : Time) : Bool :=
  match s.latestSnapshot with
  | none => true
  | some latest =>
      let withinInterval := interval.any fun n => ts < latest.ts + seconds n
      !(decide (ts ≤ latest.ts) || withinInterval)

end LedgerStore

namespace Ledger

/-- Equality of two lists as sets. -/
def sameMembers {α : Type} [DecidableEq α] (xs ys : List α) : Bool :=
  xs.all (fun x => ys.contains x) && ys.all fun y => xs.contains y

/-- `reconcile`: the tables and the restored broker show the same symbols and orders. -/
def reconcile (l : Ledger) : Bool :=
  sameMembers (l.store.listOpenPositions.map (·.symbol))
      (l.broker.paper.positions.map (·.symbol)) &&
    sameMembers (l.store.listPendingOrders.map (·.id)) (l.broker.pending.map (·.id))

variable [Digest]

/-- One arbitrated order at the open of the bar. -/
def applyAction (symbol : Symbol) (bar : Bar) (run : UnitBarResult × Ledger)
    (act : PendingCandidate × FillAction) : UnitBarResult × Ledger :=
  let (result, l) := run
  let (cand, action) := act
  match action with
  | .superseded =>
      let cancelled := l.cancelPending cand.order
      ({ result with
          superseded := result.superseded + if cancelled.1.isSome then 1 else 0 }, cancelled.2)
  | .flip =>
      let closed := (l.closeOnSignal symbol bar.openPrice bar.ts).2
      let filled := closed.fillPending cand.order bar.openPrice bar.ts
      ({ result with filled := result.filled + if filled.1.isSome then 1 else 0 }, filled.2)
  | .fill =>
      let filled := l.fillPending cand.order bar.openPrice bar.ts
      ({ result with filled := result.filled + if filled.1.isSome then 1 else 0 }, filled.2)

/-- The fills and flips of a bar, at its open. -/
def fillsAtOpen (symbol : Symbol) (bar : Bar) (candidates : List PendingCandidate)
    (run : UnitBarResult × Ledger) : UnitBarResult × Ledger :=
  let openSide := (run.2.openFor symbol).map (·.side)
  (arbitrateFills openSide (candidatesForBar candidates bar.ts)).foldl (applyAction symbol bar) run

/-- `process_unit_bar`. -/
def processUnitBar (interval : Option ℕ) (l : Ledger) (symbol : Symbol) (timeframe : Timeframe)
    (bar : Bar) (candidates : List PendingCandidate) : UnitBarResult × Ledger :=
  let (result, l) :=
    fillsAtOpen symbol bar candidates ({ symbol, timeframe, ts := bar.ts }, l.restoreState)
  let (trade, l) := l.evaluateExit symbol bar.close bar.ts
  let result := { result with exits := result.exits + if trade.isSome then 1 else 0 }
  let l := l.markPosition symbol bar.close
  let stateChanged := 0 < result.filled ∨ 0 < result.exits ∨ (l.openFor symbol).isSome
  if stateChanged ∧ l.store.snapshotDue interval bar.ts = true then
    ({ result with snapshotWritten := true }, (l.equitySnapshot bar.ts).2)
  else (result, l)

end Ledger

/-! ### The catch-up window -/

/-- The stamps of a window before it is cut. -/
private theorem ordered_ascending (stamps : List Time) :
    (stamps.dedup.insertionSort (· ≤ ·)).Pairwise (· < ·) := by
  have hle : (stamps.dedup.insertionSort (· ≤ ·)).Pairwise (· ≤ ·) :=
    List.pairwise_insertionSort (· ≤ ·) stamps.dedup
  have hnodup : (stamps.dedup.insertionSort (· ≤ ·)).Nodup :=
    (List.perm_insertionSort (· ≤ ·) stamps.dedup).nodup_iff.mpr stamps.nodup_dedup
  exact (hle.and hnodup).imp fun h => lt_of_le_of_ne h.1 h.2

theorem catchupWindow_ascending (stamps : List Time) (maxBars : ℕ) :
    (catchupWindow stamps maxBars).1.Pairwise (· < ·) :=
  (ordered_ascending stamps).sublist (List.take_sublist _ _)

theorem mem_of_mem_catchupWindow {stamps : List Time} {maxBars : ℕ} {t : Time}
    (h : t ∈ (catchupWindow stamps maxBars).1) : t ∈ stamps := by
  have hmem := List.mem_of_mem_take h
  rwa [List.mem_insertionSort, List.mem_dedup] at hmem

/-- Stamps that ascend already are cut as they are. -/
theorem catchupWindow_of_ascending {stamps : List Time} (h : stamps.Pairwise (· < ·))
    (maxBars : ℕ) : (catchupWindow stamps maxBars).1 = stamps.take (max 1 maxBars) := by
  have hnodup : stamps.Nodup := h.imp fun hlt => ne_of_lt hlt
  have hsorted : stamps.insertionSort (· ≤ ·) = stamps :=
    (h.imp fun hlt => le_of_lt hlt).insertionSort_eq
  show (stamps.dedup.insertionSort (· ≤ ·)).take (max 1 maxBars) = _
  rw [hnodup.dedup, hsorted]

/-- A window starts with the oldest stamp. -/
theorem catchupWindow_head {stamps : List Time} {t : Time} (ht : t ∈ stamps)
    (hmin : ∀ u ∈ stamps, t ≤ u) (maxBars : ℕ) :
    (catchupWindow stamps maxBars).1.head? = some t := by
  show ((stamps.dedup.insertionSort (· ≤ ·)).take (max 1 maxBars)).head? = some t
  have hasc := ordered_ascending stamps
  have hmem : t ∈ stamps.dedup.insertionSort (· ≤ ·) := by
    rw [List.mem_insertionSort, List.mem_dedup]
    exact ht
  cases hl : stamps.dedup.insertionSort (· ≤ ·) with
  | nil => rw [hl] at hmem; exact absurd hmem (by simp)
  | cons u rest =>
      rw [hl] at hasc hmem
      have hu : u ∈ stamps := by
        have : u ∈ stamps.dedup.insertionSort (· ≤ ·) := by rw [hl]; exact List.mem_cons_self
        rwa [List.mem_insertionSort, List.mem_dedup] at this
      have hut : u = t := by
        rcases List.mem_cons.mp hmem with rfl | hrest
        · rfl
        · exact absurd (List.rel_of_pairwise_cons hasc hrest) (not_lt.mpr (hmin u hu))
      obtain ⟨n, hn⟩ : ∃ n, max 1 maxBars = n + 1 := ⟨max 1 maxBars - 1, by omega⟩
      rw [hn, List.take_succ_cons, hut]
      rfl

/-! ### Which order acts -/

/-- The order that takes the bar: the oldest one when nothing is open, otherwise the
oldest on the other side. -/
def actingOrder (openSide : Option Direction) (candidates : List PendingCandidate) :
    Option PendingCandidate :=
  match openSide with
  | none => candidates.head?
  | some side => candidates.find? fun c => c.order.side ≠ side

theorem actingOrder_mem {openSide : Option Direction} {candidates : List PendingCandidate}
    {c : PendingCandidate} (h : actingOrder openSide candidates = some c) : c ∈ candidates := by
  cases openSide with
  | none => exact List.mem_of_mem_head? (by simpa [actingOrder] using h)
  | some side => exact List.mem_of_find?_eq_some h

/-- Once a bar is taken every later order is superseded. -/
theorem arbitrateFrom_filled (side : Direction) (candidates : List PendingCandidate) :
    arbitrateFrom (some side) true candidates = candidates.map fun c => (c, .superseded) := by
  induction candidates with
  | nil => rfl
  | cons c rest ih =>
      unfold arbitrateFrom
      simp [ih]

/-- Orders on the open side are all superseded. -/
theorem arbitrateFills_kept {openSide : Option Direction} {candidates : List PendingCandidate}
    (h : ∀ c ∈ candidates, openSide = some c.order.side) :
    arbitrateFills openSide candidates = candidates.map fun c => (c, .superseded) := by
  unfold arbitrateFills
  induction candidates with
  | nil => rfl
  | cons c rest ih =>
      have hc := h c List.mem_cons_self
      rw [arbitrateFrom, if_neg (by simp [hc]), if_pos hc, List.map_cons,
        ih fun q hq => h q (List.mem_cons_of_mem c hq)]

/-- The first order that is not on the open side acts, and takes the bar. -/
theorem arbitrateFills_first {openSide : Option Direction} {before : List PendingCandidate}
    (hbefore : ∀ q ∈ before, openSide = some q.order.side) {c : PendingCandidate}
    (hc : openSide ≠ some c.order.side) (after : List PendingCandidate) :
    arbitrateFills openSide (before ++ c :: after) =
      before.map (fun c => (c, .superseded)) ++ (c, if openSide.isSome then .flip else .fill) ::
        after.map fun c => (c, .superseded) := by
  unfold arbitrateFills
  induction before with
  | nil =>
      cases openSide with
      | none => simp [arbitrateFrom, arbitrateFrom_filled]
      | some side =>
          have hne : side ≠ c.order.side := fun hside => hc (congrArg some hside)
          simp [arbitrateFrom, arbitrateFrom_filled, hne]
  | cons q rest ih =>
      have hq := hbefore q List.mem_cons_self
      rw [List.cons_append, arbitrateFrom, if_neg (by simp [hq]), if_pos hq,
        ih fun r hr => hbefore r (List.mem_cons_of_mem q hr)]
      rfl

/-- All orders are on the open side, or there is a first one that is not. -/
theorem first_actionable (openSide : Option Direction) (candidates : List PendingCandidate) :
    (∀ c ∈ candidates, openSide = some c.order.side) ∨
      ∃ before c after, candidates = before ++ c :: after ∧
        (∀ q ∈ before, openSide = some q.order.side) ∧ openSide ≠ some c.order.side := by
  cases hfind : candidates.find? fun c => decide (openSide ≠ some c.order.side) with
  | none =>
      refine Or.inl fun c hc => ?_
      simpa using List.find?_eq_none.mp hfind c hc
  | some c =>
      obtain ⟨hc, before, after, hsplit, hbefore⟩ := List.find?_eq_some_iff_append.mp hfind
      refine Or.inr ⟨before, c, after, hsplit, fun q hq => ?_, by simpa using hc⟩
      simpa using hbefore q hq

/-- The acting order is the first one that is not on the open side. -/
theorem actingOrder_first {openSide : Option Direction} {before : List PendingCandidate}
    (hbefore : ∀ q ∈ before, openSide = some q.order.side) {c : PendingCandidate}
    (hc : openSide ≠ some c.order.side) (after : List PendingCandidate) :
    actingOrder openSide (before ++ c :: after) = some c := by
  cases openSide with
  | none =>
      cases before with
      | nil => rfl
      | cons q rest => exact absurd (hbefore q List.mem_cons_self) (by simp)
  | some side =>
      have hne : c.order.side ≠ side := fun hside => hc (congrArg some hside.symm)
      have hskip : before.find? (fun c => decide (c.order.side ≠ side)) = none := by
        refine List.find?_eq_none.mpr fun q hq => ?_
        simpa using (Option.some.inj (hbefore q hq)).symm
      show (before ++ c :: after).find? _ = some c
      rw [List.find?_append, hskip, Option.none_or, List.find?_cons_of_pos (by simpa using hne)]

theorem actingOrder_kept {openSide : Option Direction} {candidates : List PendingCandidate}
    (h : ∀ c ∈ candidates, openSide = some c.order.side) :
      actingOrder openSide candidates = none := by
  cases openSide with
  | none =>
      cases candidates with
      | nil => rfl
      | cons c rest => exact absurd (h c List.mem_cons_self) (by simp)
  | some side =>
      refine List.find?_eq_none.mpr fun c hc => ?_
      simpa using (Option.some.inj (h c hc)).symm

/-- **What arbitration makes of the orders due**: all are superseded, or one acts, as a fill on
a free symbol and as a flip on an open one, and the others are superseded. -/
theorem arbitrateFills_split (openSide : Option Direction) (candidates : List PendingCandidate) :
    (actingOrder openSide candidates = none ∧
      arbitrateFills openSide candidates = candidates.map fun c => (c, .superseded)) ∨
    ∃ before c after, candidates = before ++ c :: after ∧
      actingOrder openSide candidates = some c ∧
      arbitrateFills openSide candidates =
        before.map (fun c => (c, .superseded)) ++ (c, if openSide.isSome then .flip else .fill) ::
          after.map fun c => (c, .superseded) := by
  rcases first_actionable openSide candidates with hkept | ⟨before, c, after, rfl, hbefore, hc⟩
  · exact Or.inl ⟨actingOrder_kept hkept, arbitrateFills_kept hkept⟩
  · exact Or.inr ⟨before, c, after, rfl, actingOrder_first hbefore hc after,
      arbitrateFills_first hbefore hc after⟩

/-- Arbitration adds no order of its own. -/
theorem arbitrateFills_mem {openSide : Option Direction} {candidates : List PendingCandidate}
    {act : PendingCandidate × FillAction} (h : act ∈ arbitrateFills openSide candidates) :
    act.1 ∈ candidates := by
  have hsuperseded : ∀ cs : List PendingCandidate,
      act ∈ cs.map (fun c => (c, FillAction.superseded)) → act.1 ∈ cs := by
    intro cs hact
    obtain ⟨c, hc, rfl⟩ := List.mem_map.mp hact
    exact hc
  rcases arbitrateFills_split openSide candidates with
    ⟨-, hmap⟩ | ⟨before, c, after, rfl, -, hmap⟩
  · rw [hmap] at h
    exact hsuperseded _ h
  · rw [hmap, List.mem_append, List.mem_cons] at h
    rw [List.mem_append, List.mem_cons]
    rcases h with hbefore | rfl | hafter
    · exact Or.inl (hsuperseded before hbefore)
    · exact Or.inr (Or.inl rfl)
    · exact Or.inr (Or.inr (hsuperseded after hafter))

end ForexAi
