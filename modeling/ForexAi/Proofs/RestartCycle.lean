/-
Restarting a cycle.

A cycle goes through its active units one after the other, each with a symbol of its own,
and a pass of one unit does not touch what the others are decided by (`passes_other`).  A
cycle that was stopped begins again with the first unit: the units before the stopped one
are quiescent, the stopped one catches up, and the units after it find the rows they would
have found (`restart_passes`).  Units that have nothing left are not active any more, and
leaving them out makes no difference (`passes_sublist`).

`restart_iff` is the result.  At every point where a cycle can be stopped, starting it again
ends with the orders and positions of the uninterrupted cycle if and only if every bar of it
meets `SameClose`.
-/
import ForexAi.Proofs.Restart
import Mathlib.Data.String.Basic

namespace ForexAi

/-! ### The active units -/

theorem Symbol.code_injective {a b : Symbol} (h : a.code = b.code) : a = b := by
  cases a
  cases b
  cases h
  rfl

theorem Timeframe.code_injective {a b : Timeframe} (h : a.code = b.code) : a = b := by
  cases a <;> cases b <;> first | rfl | exact absurd h (by decide)

theorem unitLe_iff (a b : Symbol × Timeframe) :
    UnitLe a b ↔ toLex (a.1.code, a.2.code) ≤ toLex (b.1.code, b.2.code) := by
  unfold UnitLe
  rw [Prod.Lex.toLex_le_toLex]

instance : Std.Total UnitLe := by
  refine ⟨fun a b => ?_⟩
  rw [unitLe_iff, unitLe_iff]
  exact le_total _ _

instance : IsTrans (Symbol × Timeframe) UnitLe := by
  refine ⟨fun a b c hab hbc => ?_⟩
  rw [unitLe_iff] at *
  exact hab.trans hbc

instance : Std.Antisymm UnitLe := by
  refine ⟨fun a b hab hba => ?_⟩
  rw [unitLe_iff] at hab hba
  have hkey := le_antisymm hab hba
  have hsymbol : a.1.code = b.1.code := congrArg (fun k => (ofLex k).1) hkey
  have hframe : a.2.code = b.2.code := congrArg (fun k => (ofLex k).2) hkey
  exact Prod.ext (Symbol.code_injective hsymbol) (Timeframe.code_injective hframe)

/-- Fewer active units are the same units, some left out. -/
theorem activeUnits_sublist {s s' : LedgerStore} (h : ∀ u ∈ activeUnits s', u ∈ activeUnits s) :
    (activeUnits s').Sublist (activeUnits s) :=
  List.sublist_of_subperm_of_pairwise ((activeUnits_nodup s').subperm h)
    (List.pairwise_insertionSort UnitLe _) (List.pairwise_insertionSort UnitLe _)

theorem mem_activeUnits_iff {store : LedgerStore} {unit : Symbol × Timeframe} :
    unit ∈ activeUnits store ↔
      (∃ c ∈ store.pendingCandidates, (c.order.symbol, c.order.timeframe) = unit) ∨
        ∃ q, store.positions.openRow unit.1 = some q ∧ q.timeframe = unit.2 := by
  unfold activeUnits
  rw [List.mem_insertionSort, List.mem_dedup, List.mem_append, List.mem_map, List.mem_map]
  refine or_congr_right ⟨?_, ?_⟩
  · rintro ⟨q, hq, rfl⟩
    obtain ⟨hmem, hopen⟩ := List.mem_filter.mp hq
    exact ⟨q, PositionTable.openRow_of_mem hmem (by simpa using hopen), rfl⟩
  · rintro ⟨q, hq, hframe⟩
    obtain ⟨hmem, hsymbol, hopen⟩ := PositionTable.openRow_spec hq
    exact ⟨q, List.mem_filter.mpr ⟨hmem, by simp [hopen]⟩, Prod.ext hsymbol hframe⟩

variable [Digest]

/-! ### The passes of a cycle

Passes of different symbols commute as far as the rows are concerned, because each reads and
writes the rows of its own symbol.  What a pass needs for its restart, `Granted`, and what it
leaves behind, `Quiescent`, are therefore kept by the passes of the others.
-/

omit [Digest] in
/-- What is granted of a unit is read off its candidates and its open row. -/
theorem Granted.of_same {cfg : WorkerConfig} {candles : Candles} {s s' : LedgerStore}
    {unit : Symbol × Timeframe} (h : Granted cfg candles s unit)
    (hcandidates : s'.unitCandidates unit.1 unit.2 = s.unitCandidates unit.1 unit.2)
    (hrow : s'.positions.openRow unit.1 = s.positions.openRow unit.1) :
    Granted cfg candles s' unit := by
  have hcurrent : s'.current unit.1 = s.current unit.1 := by
    unfold LedgerStore.current
    rw [hrow]
  refine ⟨?_, ?_, ?_, ?_⟩
  · rw [hcandidates, hrow]
    exact h.late
  · rw [hrow]
    exact h.timeframe_eq
  · have hloads := h.loads
    unfold LoadsAll loadStarts at hloads ⊢
    rw [hcandidates, hrow]
    exact hloads
  · have hfits := h.fits
    unfold owedStamps loadedStamps at hfits ⊢
    rw [hcandidates, hcurrent]
    exact hfits

omit [Digest] in
theorem Quiescent.of_same {candles : Candles} {s s' : LedgerStore} {unit : Symbol × Timeframe}
    (h : Quiescent candles s unit)
    (hcandidates : s'.unitCandidates unit.1 unit.2 = s.unitCandidates unit.1 unit.2)
    (hrow : s'.positions.openRow unit.1 = s.positions.openRow unit.1) :
    Quiescent candles s' unit := by
  refine ⟨?_, ?_, ?_⟩
  · rw [hcandidates]
    exact h.undue
  · rw [hrow]
    exact h.timeframe_eq
  · rw [hrow]
    exact h.unbreached

omit [Digest] in
theorem quiescent_of_inactive {candles : Candles} {store : LedgerStore} {unit : Symbol × Timeframe}
    (hinactive : unit ∉ activeUnits store)
    (htimeframe : ∀ q, store.positions.openRow unit.1 = some q → q.timeframe = unit.2) :
    Quiescent candles store unit := by
  rw [mem_activeUnits_iff, not_or] at hinactive
  obtain ⟨hnone, hclosed⟩ := hinactive
  refine ⟨fun c hc _ => ?_, htimeframe, fun q hq => absurd ⟨q, hq, htimeframe q hq⟩ hclosed⟩
  obtain ⟨hcand, hsymbol, hframe⟩ := mem_unitCandidates.mp hc
  exact hnone ⟨c, hcand, Prod.ext hsymbol hframe⟩

/-- The passes of a cycle over the units, none of which fails. -/
def passes (cfg : WorkerConfig) (candles : Candles) (store : LedgerStore)
    (units : List (Symbol × Timeframe)) : LedgerStore :=
  Runs.run (World.unitStep cfg candles fun _ => none) store units

/-- Each unit of the list has a symbol of its own. -/
def OwnSymbols (units : List (Symbol × Timeframe)) : Prop := units.Pairwise fun u v => u.1 ≠ v.1

section Passes

variable {cfg : WorkerConfig} {candles : Candles}

theorem passes_rows {s s' : LedgerStore} (h : s.SameRows s') (units : List (Symbol × Timeframe)) :
    (passes cfg candles s units).SameRows (passes cfg candles s' units) :=
  Runs.simulation (P := fun _ _ => True) (R := LedgerStore.SameRows)
    (fun _ _ unit h _ => processUnit_rows cfg candles h unit none) h
    (Runs.along_of_forall fun _ _ => trivial)

theorem passes_other {s : LedgerStore} {units : List (Symbol × Timeframe)}
    {other : Symbol × Timeframe} (hother : ∀ u ∈ units, u.1 ≠ other.1) :
    (passes cfg candles s units).unitCandidates other.1 other.2
        = s.unitCandidates other.1 other.2 ∧
      (passes cfg candles s units).positions.openRow other.1 = s.positions.openRow other.1 := by
  refine Runs.invariant (P := fun _ u => u ∈ units) (I := fun k : LedgerStore =>
    k.unitCandidates other.1 other.2 = s.unitCandidates other.1 other.2 ∧
      k.positions.openRow other.1 = s.positions.openRow other.1) (fun k u hk hu => ?_) ⟨rfl, rfl⟩
    Runs.along_mem
  exact ⟨(unitCandidates_processUnit_ne cfg candles k (hother u hu) none).trans hk.1,
    (openRow_processUnit_ne cfg candles k (hother u hu) none).trans hk.2⟩

/-- Passes add nothing to the queue, and forget no decision. -/
theorem passes_shrink (store : LedgerStore) (units : List (Symbol × Timeframe)) :
    (∀ o ∈ (passes cfg candles store units).listPendingOrders, o ∈ store.listPendingOrders) ∧
      (passes cfg candles store units).decisions = store.decisions := by
  refine Runs.invariant (P := fun _ _ => True) (I := fun k : LedgerStore =>
    (∀ o ∈ k.listPendingOrders, o ∈ store.listPendingOrders) ∧ k.decisions = store.decisions)
    (fun k u hk _ => ?_) ⟨fun o ho => ho, rfl⟩ (Runs.along_of_forall fun _ _ => trivial)
  obtain ⟨hshrinks, hdec⟩ := processUnit_shrinks cfg candles k u none
  exact ⟨fun o ho => hk.1 o (hshrinks o ho), hdec.trans hk.2⟩

theorem pendingCandidates_passes {store : LedgerStore} {units : List (Symbol × Timeframe)}
    {c : PendingCandidate} (hc : c ∈ (passes cfg candles store units).pendingCandidates) :
    c ∈ store.pendingCandidates := by
  obtain ⟨hshrinks, hdec⟩ := @passes_shrink _ cfg candles store units
  exact pendingCandidates_of_decisions hdec.symm hc (hshrinks _ (mem_pendingCandidates.mp hc).1)

theorem keepsClosed_passes (store : LedgerStore) (units : List (Symbol × Timeframe)) :
    store.positions.KeepsClosed (passes cfg candles store units).positions :=
  Runs.invariant (P := fun _ _ => True)
    (I := fun k : LedgerStore => store.positions.KeepsClosed k.positions)
    (fun k u hk _ => hk.trans (keepsClosed_processUnit cfg candles k u none))
    (PositionTable.KeepsClosed.refl _) (Runs.along_of_forall fun _ _ => trivial)

/-- **After their passes units are quiescent.** -/
theorem passes_quiescent {units : List (Symbol × Timeframe)} (hown : OwnSymbols units) :
    ∀ {s : LedgerStore}, (∀ u ∈ units, Granted cfg candles s u) →
      ∀ u ∈ units, Quiescent candles (passes cfg candles s units) u := by
  induction units with
  | nil => intro s _ u hu; exact absurd hu (by simp)
  | cons v rest ih =>
      intro s hgranted u hu
      obtain ⟨hne, hrest⟩ := List.pairwise_cons.mp hown
      have hv := hgranted v List.mem_cons_self
      rcases List.mem_cons.mp hu with rfl | hu
      · obtain ⟨hcandidates, hrow⟩ := @passes_other _ cfg candles
          (processUnit cfg candles s u none) rest u fun w hw => (hne w hw).symm
        exact (quiescent_processUnit hv).of_same hcandidates hrow
      · refine ih hrest (fun w hw => ?_) u hu
        exact (hgranted w (List.mem_cons_of_mem v hw)).of_same
          (unitCandidates_processUnit_ne cfg candles s (hne w hw) none)
          (openRow_processUnit_ne cfg candles s (hne w hw) none)

omit [Digest] in
theorem Quiescent.of_rows {s s' : LedgerStore} {unit : Symbol × Timeframe}
    (h : Quiescent candles s unit) (hrows : s.SameRows s') : Quiescent candles s' unit :=
  h.of_same (hrows.unitCandidates unit.1 unit.2) (hrows.openRow unit.1)

theorem quiescent_passes {units : List (Symbol × Timeframe)} : ∀ {s : LedgerStore},
    (∀ u ∈ units, Quiescent candles s u) → s.SameRows (passes cfg candles s units) := by
  induction units with
  | nil => intro s _; exact LedgerStore.SameRows.refl s
  | cons v rest ih =>
      intro s h
      have hstep := (h v List.mem_cons_self).pass cfg none
      exact hstep.trans (ih fun u hu => (h u (List.mem_cons_of_mem v hu)).of_rows hstep)

/-- **Units that are quiescent may be left out.** -/
theorem passes_sublist {units units' : List (Symbol × Timeframe)} (hsub : units'.Sublist units)
    (hown : OwnSymbols units) : ∀ {s : LedgerStore},
      (∀ u ∈ units, u ∉ units' → Quiescent candles s u) →
      (passes cfg candles s units).SameRows (passes cfg candles s units') := by
  induction hsub with
  | slnil => intro s _; exact LedgerStore.SameRows.refl _
  | @cons kept all v hsub ih =>
      intro s h
      obtain ⟨hne, hrest⟩ := List.pairwise_cons.mp hown
      have hout : v ∉ kept := fun hv => hne v (hsub.subset hv) rfl
      have hstep := (h v List.mem_cons_self hout).pass cfg none
      have htail := @ih hrest (processUnit cfg candles s v none) fun u hu hnot =>
        (h u (List.mem_cons_of_mem v hu) hnot).of_rows hstep
      exact htail.trans (passes_rows hstep kept).symm
  | @cons_cons kept all v hsub ih =>
      intro s h
      obtain ⟨hne, hrest⟩ := List.pairwise_cons.mp hown
      refine ih hrest fun u hu hnot => ?_
      have hvu := hne u hu
      refine (h u (List.mem_cons_of_mem v hu) ?_).of_same
        (unitCandidates_processUnit_ne cfg candles s hvu none)
        (openRow_processUnit_ne cfg candles s hvu none)
      rw [List.mem_cons, not_or]
      exact ⟨fun heq => hvu (by rw [heq]), hnot⟩

end Passes

/-! ### Stopped and started again

A cycle can be stopped between two passes, or in a pass after any number of its bars; the
second is the general case.  The active units of the restart are some of the units there were,
so what is compared is two folds over lists of units of which one is shorter by quiescent
ones.
-/

omit [Digest] in
/-- What is granted of a cycle: at most one active timeframe a symbol, no order due before the
entry of its symbol's open position, and no unit that owes more bars than one pass takes. -/
structure Restartable (cfg : WorkerConfig) (candles : Candles) (store : LedgerStore) : Prop where
  one : ∀ u ∈ activeUnits store, ∀ v ∈ activeUnits store, u.1 = v.1 → u = v
  late : ∀ c ∈ store.pendingCandidates, ∀ q,
    store.positions.openRow c.order.symbol = some q → q.entryTs ≤ c.fillStamp
  fits : ∀ u ∈ activeUnits store,
    (owedStamps (candles u.1 u.2) store u.1 u.2).length ≤ max 1 cfg.maxBars

omit [Digest] in
/-- The condition on the loads of a cycle: none is cut. -/
def CycleLoadsAll (candles : Candles) (store : LedgerStore) : Prop :=
  ∀ u ∈ activeUnits store, LoadsAll (candles u.1 u.2) store u

/-- The condition on the bars of a cycle. -/
def CycleSameClose (cfg : WorkerConfig) (candles : Candles) (store : LedgerStore) : Prop :=
  Runs.Along (World.unitStep cfg candles fun _ => none) (PassSameClose cfg candles) store
    (activeUnits store)

/-- What is left of a cycle that is stopped: the passes before, and `n` bars of one more. -/
def crashed (cfg : WorkerConfig) (candles : Candles) (store : LedgerStore)
    (before : List (Symbol × Timeframe)) (unit : Symbol × Timeframe) (n : ℕ) : LedgerStore :=
  processUnit cfg candles (passes cfg candles store before) unit (some n)

namespace Restartable

variable {cfg : WorkerConfig} {candles : Candles} {store : LedgerStore}

omit [Digest] in
theorem granted (h : Restartable cfg candles store) (hloads : CycleLoadsAll candles store) :
    ∀ u ∈ activeUnits store, Granted cfg candles store u := by
  intro u hu
  refine ⟨fun q hq c hc => ?_, fun q hq => ?_, hloads u hu, h.fits u hu⟩
  · obtain ⟨hcand, hsymbol, -⟩ := mem_unitCandidates.mp hc
    exact h.late c hcand q (by rw [hsymbol]; exact hq)
  · have hactive : (u.1, q.timeframe) ∈ activeUnits store :=
      mem_activeUnits_iff.mpr (Or.inr ⟨q, hq, rfl⟩)
    exact congrArg Prod.snd (h.one _ hactive u hu rfl)

omit [Digest] in
theorem own (h : Restartable cfg candles store) : OwnSymbols (activeUnits store) := by
  refine (activeUnits_nodup store).imp_of_mem fun {u v} hu hv hne hsymbol => ?_
  exact hne (h.one u hu v hv hsymbol)

/-- A stopped cycle has no unit to restart with that it did not have to start with, where the
open positions of its units are still of the timeframes they were. -/
theorem activeUnits_crashed {before after : List (Symbol × Timeframe)}
    {unit : Symbol × Timeframe} {n : ℕ} (hsplit : activeUnits store = before ++ unit :: after)
    (hframes : ∀ u ∈ before ++ unit :: after, ∀ q,
      (crashed cfg candles store before unit n).positions.openRow u.1 = some q →
        q.timeframe = u.2) :
    ∀ u ∈ activeUnits (crashed cfg candles store before unit n), u ∈ activeUnits store := by
  intro u hu
  rcases mem_activeUnits_iff.mp hu with ⟨c, hc, rfl⟩ | ⟨q, hq, hframe⟩
  · have hcStart := ((mem_pendingCandidates_processUnit cfg candles
      (passes cfg candles store before) unit (some n) c).mp hc).1
    exact mem_activeUnits (pendingCandidates_passes hcStart)
  · by_cases hsymbol : ∃ v ∈ before ++ unit :: after, v.1 = u.1
    · obtain ⟨v, hv, hvu⟩ := hsymbol
      rw [← hvu] at hq
      have heq : v = u := Prod.ext hvu ((hframes v hv q hq).symm.trans hframe)
      rw [hsplit, ← heq]
      exact hv
    · push Not at hsymbol
      have hrow : (crashed cfg candles store before unit n).positions.openRow u.1
          = store.positions.openRow u.1 :=
        (openRow_processUnit_ne cfg candles _ (hsymbol unit (by simp)) (some n)).trans
          (@passes_other _ cfg candles store before u
            fun v hv => hsymbol v (List.mem_append_left _ hv)).2
      exact mem_activeUnits_iff.mpr (Or.inr ⟨q, hrow.symm.trans hq, hframe⟩)

/-- **What a restart comes to.**  The stopped unit is granted what it needs; the passes of the
restart come to another pass over it and the passes after it. -/
theorem restart_reduces (h : Restartable cfg candles store) (hloads : CycleLoadsAll candles store)
    {before after : List (Symbol × Timeframe)} {unit : Symbol × Timeframe}
    (hsplit : activeUnits store = before ++ unit :: after) (n : ℕ) :
    Granted cfg candles (passes cfg candles store before) unit ∧
    passes cfg candles store (activeUnits store)
      = passes cfg candles (processUnit cfg candles (passes cfg candles store before) unit none)
          after ∧
    (passes cfg candles (processUnit cfg candles (crashed cfg candles store before unit n) unit
        none) after).SameRows
      (passes cfg candles (crashed cfg candles store before unit n)
        (activeUnits (crashed cfg candles store before unit n))) := by
  have hown := h.own
  have hgranted := h.granted hloads
  rw [hsplit] at hown hgranted
  obtain ⟨hownBefore, hownRest, hapart⟩ := List.pairwise_append.mp hown
  obtain ⟨hunitAfter, -⟩ := List.pairwise_cons.mp hownRest
  set start := passes cfg candles store before with hstart
  set crash := crashed cfg candles store before unit n with hcrash
  -- The units before are done, the stopped one was granted what it needs, those after still are.
  have hbefore : ∀ u ∈ before, Quiescent candles crash u := by
    intro u hu
    have hne := hapart u hu unit List.mem_cons_self
    refine (passes_quiescent hownBefore (fun v hv => hgranted v (List.mem_append_left _ hv)) u
      hu).of_same (unitCandidates_processUnit_ne cfg candles start hne.symm (some n)) ?_
    exact openRow_processUnit_ne cfg candles start hne.symm (some n)
  have hstarted : ∀ u ∈ unit :: after, Granted cfg candles start u := by
    intro u hu
    obtain ⟨hcandidates, hrow⟩ := @passes_other _ cfg candles store before u
      fun v hv => hapart v hv u hu
    exact (hgranted u (List.mem_append_right _ hu)).of_same hcandidates hrow
  have hunit := hstarted unit List.mem_cons_self
  have hframes : ∀ u ∈ before ++ unit :: after, ∀ q,
      crash.positions.openRow u.1 = some q → q.timeframe = u.2 := by
    intro u hu q hq
    rcases List.mem_append.mp hu with hu | hu
    · exact (hbefore u hu).timeframe_eq q hq
    · rcases List.mem_cons.mp hu with rfl | hu'
      · exact ((stopped_processUnit hunit n).watching q hq).timeframe_eq
      · rw [show crash.positions.openRow u.1 = start.positions.openRow u.1 from
          openRow_processUnit_ne cfg candles start (hunitAfter u hu') (some n)] at hq
        exact (hstarted u hu).timeframe_eq q hq
  -- A unit the restart leaves out has nothing left.
  have hsublist := activeUnits_sublist (activeUnits_crashed hsplit hframes)
  rw [hsplit] at hsublist
  have hleftOut := @passes_sublist _ cfg candles _ _ hsublist hown crash fun u hu hout =>
    quiescent_of_inactive hout (hframes u hu)
  -- The passes of the restart, one group after the other.
  have hdone : crash.SameRows (passes cfg candles crash before) := quiescent_passes hbefore
  have hrest := @passes_rows _ cfg candles _ _ (processUnit_rows cfg candles hdone unit none) after
  have hagain : passes cfg candles crash (before ++ unit :: after)
      = passes cfg candles (processUnit cfg candles (passes cfg candles crash before) unit none)
          after := Runs.run_append _ _ _ _
  rw [hagain] at hleftOut
  refine ⟨hunit, ?_, hrest.trans hleftOut⟩
  rw [hsplit]
  exact Runs.run_append _ _ _ _

/-- **Restarted where it stopped, a cycle ends with the rows it would have ended with.** -/
theorem restart_passes (h : Restartable cfg candles store) (hloads : CycleLoadsAll candles store)
    (hclose : CycleSameClose cfg candles store) {before after : List (Symbol × Timeframe)}
    {unit : Symbol × Timeframe} (hsplit : activeUnits store = before ++ unit :: after) (n : ℕ) :
    (passes cfg candles store (activeUnits store)).SameRows
      (passes cfg candles (crashed cfg candles store before unit n)
        (activeUnits (crashed cfg candles store before unit n))) := by
  obtain ⟨hunit, hwhole, hrestart⟩ := h.restart_reduces hloads hsplit n
  have hcaught := restart_unit hunit (Runs.along_iff_split.mp hclose before unit after hsplit) n
  rw [hwhole]
  exact (passes_rows hcaught after).trans hrestart

/-- **Restarted at every point with the same positions**, a cycle meets the condition. -/
theorem sameClose_of_restarts (h : Restartable cfg candles store)
    (hloads : CycleLoadsAll candles store)
    (hrestarts : ∀ before unit after n, activeUnits store = before ++ unit :: after →
      (passes cfg candles (crashed cfg candles store before unit n)
          (activeUnits (crashed cfg candles store before unit n))).positions
        = (passes cfg candles store (activeUnits store)).positions) :
    CycleSameClose cfg candles store := by
  refine Runs.along_iff_split.mpr fun before unit after hsplit => ?_
  set start := passes cfg candles store before with hstart
  obtain ⟨hunit, -, -⟩ := h.restart_reduces hloads hsplit 0
  refine (sameClose_rest hunit).mpr (Runs.along_iff_split.mpr fun done b later hbars => ?_)
  by_contra hother
  -- Stop right before the bar: the tables end with different trades.
  obtain ⟨-, hwhole, hrestart⟩ := h.restart_reduces hloads hsplit done.length
  have hdrop : (owedBars (candles unit.1 unit.2) start unit).drop done.length = b :: later := by
    rw [hbars]
    exact List.drop_left
  have htake : (owedBars (candles unit.1 unit.2) start unit).take done.length = done := by
    rw [hbars]
    exact List.take_left
  have hdiffer := restart_differs hunit hdrop (by
    unfold sessionAfter
    rw [htake]
    exact hother)
  have hends := hdiffer.later (@keepsClosed_passes _ cfg candles _ after)
    (@keepsClosed_passes _ cfg candles _ after)
  refine hends.ne ?_
  rw [← hwhole, ← hrestarts before unit after done.length hsplit]
  exact hrestart.positions

/-- Run again after it is complete, a cycle finds nothing to do. -/
theorem again_passes (h : Restartable cfg candles store) (hloads : CycleLoadsAll candles store) :
    (passes cfg candles store (activeUnits store)).SameRows
      (passes cfg candles (passes cfg candles store (activeUnits store))
        (activeUnits (passes cfg candles store (activeUnits store)))) := by
  set finished := passes cfg candles store (activeUnits store) with hfinished
  have hquiet := passes_quiescent h.own (h.granted hloads)
  refine quiescent_passes fun u hu => hquiet u ?_
  rcases mem_activeUnits_iff.mp hu with ⟨c, hc, rfl⟩ | ⟨q, hq, hframe⟩
  · exact mem_activeUnits (pendingCandidates_passes hc)
  · by_cases hsymbol : ∃ v ∈ activeUnits store, v.1 = u.1
    · obtain ⟨v, hv, hvu⟩ := hsymbol
      rw [← hvu] at hq
      have heq : v = u := Prod.ext hvu (((hquiet v hv).timeframe_eq q hq).symm.trans hframe)
      rw [← heq]
      exact hv
    · push Not at hsymbol
      rw [(@passes_other _ cfg candles store _ u hsymbol).2] at hq
      exact mem_activeUnits_iff.mpr (Or.inr ⟨q, hq, hframe⟩)

end Restartable

/-! ### Whole cycles

At the end of a cycle the sweep cancels what is past its validity.  Where nothing is, a cycle
is its passes.
-/

omit [Digest] in
/-- The sweep finds nothing past its validity. -/
theorem sweep_valid {cfg : WorkerConfig} {s s' : LedgerStore} {now : Time}
    (hvalid : s.listPendingExpired now = [])
    (hshrinks : ∀ o ∈ s'.listPendingOrders, o ∈ s.listPendingOrders)
    (hdec : s'.decisions = s.decisions) : cancelExpiredPending cfg s' now = s' := by
  have hnone : (Ledger.session cfg.broker s').restoreState.store.listPendingExpired now = [] := by
    refine List.eq_nil_iff_forall_not_mem.mpr fun o ho => ?_
    have hin := WorkerCycle.expired_of_decisions hdec.symm
      (hshrinks o (List.mem_of_mem_filter ho)) ho
    rw [hvalid] at hin
    exact absurd hin (by simp)
  unfold cancelExpiredPending
  simp only [hnone]
  rfl

/-- With nothing past its validity a cycle is its passes. -/
theorem processLifecycle_passes {cfg : WorkerConfig} {candles : Candles} {s s' : LedgerStore}
    {now : Time} (hvalid : s.listPendingExpired now = [])
    (hshrinks : ∀ o ∈ s'.listPendingOrders, o ∈ s.listPendingOrders)
    (hdec : s'.decisions = s.decisions) :
    processLifecycle cfg candles s' now (fun _ => none)
      = passes cfg candles s' (activeUnits s') := by
  obtain ⟨hpasses, hpassesDec⟩ := @passes_shrink _ cfg candles s' (activeUnits s')
  unfold processLifecycle
  rw [if_pos (World.reconcile_restored _)]
  exact sweep_valid hvalid (fun o ho => hshrinks o (hpasses o ho)) (hpassesDec.trans hdec)

/-- Stopped at any point and started again, a cycle ends with the orders and positions it would
have ended with; and started again after it is complete it changes neither. -/
def RestartsAlike (cfg : WorkerConfig) (candles : Candles) (store : LedgerStore)
    (now later : Time) : Prop :=
  let whole := processLifecycle cfg candles store now fun _ => none
  (∀ before unit after n, activeUnits store = before ++ unit :: after →
    let restarted := processLifecycle cfg candles (crashed cfg candles store before unit n) later
      fun _ => none
    restarted.orders = whole.orders ∧ restarted.positions = whole.positions) ∧
  (processLifecycle cfg candles whole later fun _ => none).orders = whole.orders ∧
  (processLifecycle cfg candles whole later fun _ => none).positions = whole.positions

/-- **Crash and restart.**  On a ledger with one active timeframe a symbol, no order due before
its symbol's open entry, no unit behind by more than a pass and no order past its validity, and
with no load cut, a cycle can be stopped anywhere and started again exactly when every bar of it
closes its position in the same trade with the factory's seed as with the last fill's. -/
theorem restart_iff (cfg : WorkerConfig) (candles : Candles) (store : LedgerStore)
    (now later : Time) (h : Restartable cfg candles store)
    (hvalid : store.listPendingExpired now = []) (hvalid' : store.listPendingExpired later = [])
    (hloads : CycleLoadsAll candles store) :
    RestartsAlike cfg candles store now later ↔ CycleSameClose cfg candles store := by
  have hwhole : processLifecycle cfg candles store now (fun _ => none)
      = passes cfg candles store (activeUnits store) :=
    processLifecycle_passes hvalid (fun o ho => ho) rfl
  have hrestarted : ∀ before unit n,
      processLifecycle cfg candles (crashed cfg candles store before unit n) later (fun _ => none)
        = passes cfg candles (crashed cfg candles store before unit n)
            (activeUnits (crashed cfg candles store before unit n)) := by
    intro before unit n
    obtain ⟨hbefore, hbeforeDec⟩ := @passes_shrink _ cfg candles store before
    obtain ⟨hpass, hpassDec⟩ := processUnit_shrinks cfg candles (passes cfg candles store before)
      unit (some n)
    exact processLifecycle_passes hvalid' (fun o ho => hbefore o (hpass o ho))
      (hpassDec.trans hbeforeDec)
  constructor
  · rintro ⟨hrestarts, -⟩
    refine h.sameClose_of_restarts hloads fun before unit after n hsplit => ?_
    rw [← hrestarted before unit n, ← hwhole]
    exact (hrestarts before unit after n hsplit).2
  · intro hclose
    refine ⟨fun before unit after n hsplit => ?_, ?_⟩
    · have hrows := h.restart_passes hloads hclose hsplit n
      rw [hrestarted, hwhole]
      exact ⟨hrows.orders, hrows.positions⟩
    · obtain ⟨hshrinks, hdec⟩ := @passes_shrink _ cfg candles store (activeUnits store)
      have hrows := h.again_passes hloads
      rw [hwhole, processLifecycle_passes hvalid' hshrinks hdec]
      exact ⟨hrows.orders, hrows.positions⟩

/-! ### Orders of one seed -/

/-- When every pending order carries the factory's seed, a pass meets the condition: its broker
never carries another. -/
theorem passSameClose_of_seeds {cfg : WorkerConfig} {candles : Candles} {store : LedgerStore}
    (unit : Symbol × Timeframe)
    (hseeds : ∀ o ∈ store.listPendingOrders, o.seed = cfg.broker.seed) :
    PassSameClose cfg candles store unit := by
  set plan := planUnit cfg (candles unit.1 unit.2) store unit.1 unit.2 with hplan
  unfold PassSameClose
  simp only [planUnit_candidates]
  have hdue := (planUnit_due cfg (candles unit.1 unit.2) store unit.1 unit.2 none).2
  have hfresh := (planUnit_paper cfg (candles unit.1 unit.2) store unit.1 unit.2).1
  refine (Runs.Along.invariant (I := fun l : Ledger => l.broker.paper.seed = cfg.broker.seed)
    (fun l b hl hb => ?_) hfresh hdue).mono fun l b hl => ?_
  · have heffect := Ledger.processUnitBar_effect cfg.snapshotInterval l unit.1 unit.2 b
      (store.unitCandidates unit.1 unit.2) hb
    set acting := l.store.actingAt unit.1 b.ts (store.unitCandidates unit.1 unit.2) with hacting
    have hmem : ∀ o, acting = some o → ∃ c ∈ store.unitCandidates unit.1 unit.2, c.order = o := by
      intro o ho
      obtain ⟨c, hc, hco⟩ := Option.map_eq_some_iff.mp ho
      exact ⟨c, (mem_candidatesForBar.mp (actingOrder_mem hc)).1, hco⟩
    have hdueAll := due_unitCandidates store unit.1 unit.2
    show (handBar cfg unit.1 unit.2 (store.unitCandidates unit.1 unit.2) l b).book.paper.seed = _
    rw [show (handBar cfg unit.1 unit.2 (store.unitCandidates unit.1 unit.2) l b).book
      = l.book.processBar cfg.snapshotInterval unit.1 b acting from heffect.book]
    cases hcase : acting with
    | none => exact ((l.book.processBar_keeps cfg.snapshotInterval unit.1 b none).2 rfl).trans hl
    | some o =>
        obtain ⟨c, hc, rfl⟩ := hmem o hcase
        have hfilled := (@Book.processBar_alike _ l.book l.book rfl rfl unit.1 b (some c.order)
          (fun o ho => by
            obtain rfl := Option.some.inj ho
            exact hdueAll.symbol_eq c hc) rfl cfg.snapshotInterval).2 c.order rfl
        exact hfilled.1.trans (hseeds c.order (hdueAll.pending c hc))
  · exact @Book.closes_congr _ l.book (l.book.reseed cfg.broker.seed) rfl hl.symm rfl unit.1 b _

/-- **A ledger whose pending orders all carry the factory's seed** meets the condition. -/
theorem cycleSameClose_of_seeds {cfg : WorkerConfig} {candles : Candles} {store : LedgerStore}
    (hseeds : ∀ o ∈ store.listPendingOrders, o.seed = cfg.broker.seed) :
    CycleSameClose cfg candles store := by
  refine Runs.along_iff_split.mpr fun before unit after _ => passSameClose_of_seeds unit ?_
  intro o ho
  exact hseeds o ((@passes_shrink _ cfg candles store before).1 o ho)

/-! ### A seed that was changed

An order keeps the seed it was submitted under.  The broker that fills it goes on with that
seed, and a restored broker starts from the settings.
-/

omit [Digest]

/-- The draws of a long in EURUSD with the seeds 0 and 7, read off the digest of their keys. -/
@[reducible] def twoDraws : Digest where
  draw := fun key =>
    if key = slippageKey 7 .eurusd .long then 1996321131948167386 / 18446744073709551616
    else 12356638800251422662 / 18446744073709551616
  nonneg := fun key => by split <;> decide +kernel
  lt_one := fun key => by split <;> decide +kernel

/-- A writer with the default costs whose seed is 0. -/
def slippingWorker (seed : ℤ) : WorkerConfig where
  broker := { startEquity := 100000, seed := seed, costParams := {} }
  maxBars := 24
  snapshotInterval := none

/-- A candle that opens at 1.10 and closes at the given price. -/
def candleTo (ts : Time) (close : ℚ) : Candle where
  ts := ts
  openPrice := 11 / 10
  high := 12 / 10
  low := 11 / 10
  close := close

/-- The fill bar of the order, and one that closes at its target. -/
def upToTarget : Candles := fun _ tf =>
  match tf with
  | .H1 => ⟨[candleTo (seconds 3600) (11 / 10), candleTo (seconds 7200) (12 / 10)], by decide⟩
  | _ => .empty

/-- A long with a target, submitted by a writer with the seed. -/
def targetLong (seed : ℤ) : LedgerStore :=
  (@World.step twoDraws (slippingWorker seed) (World.start Ledger.atZero upToTarget)
    (.submit { Ledger.longOrder 1 .eurusd with takeProfit := some (12 / 10) })).store

/-- **The seed of the last fill prices the exit, and a restart loses it.**  Stopped after the bar
that fills the order and started again, the cycle closes the position for another amount. -/
theorem restart_other_trade : ¬ ∀ (_ : Digest) (cfg : WorkerConfig) (candles : Candles)
    (store : LedgerStore) (now later : Time), Restartable cfg candles store →
    store.listPendingExpired now = [] → store.listPendingExpired later = [] →
    CycleLoadsAll candles store → RestartsAlike cfg candles store now later := by
  intro hall
  have hgranted : Restartable (slippingWorker 0) upToTarget (targetLong 7) :=
    ⟨by decide +kernel, by decide +kernel, by decide +kernel⟩
  have hvalid : (targetLong 7).listPendingExpired (seconds 10800) = [] := by
    refine List.eq_nil_of_length_eq_zero ?_
    decide +kernel
  have hloads : CycleLoadsAll upToTarget (targetLong 7) := by
    unfold CycleLoadsAll LoadsAll
    decide +kernel
  obtain ⟨hrestarts, -⟩ := hall twoDraws (slippingWorker 0) upToTarget (targetLong 7)
    (seconds 10800) (seconds 10800) hgranted hvalid hvalid hloads
  obtain ⟨-, hpositions⟩ := hrestarts [] eurusdHour [] 1 (by decide +kernel)
  have hnet := congrArg (fun p : PositionTable => p.rows.map fun r => r.exit.map (·.netPnl))
    hpositions
  revert hnet
  decide +kernel

/-- An order that carries the writer's own seed is closed alike. -/
theorem restart_same_seed : @RestartsAlike twoDraws (slippingWorker 0) upToTarget (targetLong 0)
    (seconds 10800) (seconds 10800) := by
  have hvalid : (targetLong 0).listPendingExpired (seconds 10800) = [] := by
    refine List.eq_nil_of_length_eq_zero ?_
    decide +kernel
  have hloads : CycleLoadsAll upToTarget (targetLong 0) := by
    unfold CycleLoadsAll LoadsAll
    decide +kernel
  exact (@restart_iff twoDraws (slippingWorker 0) upToTarget (targetLong 0) (seconds 10800)
    (seconds 10800) ⟨by decide +kernel, by decide +kernel, by decide +kernel⟩ hvalid hvalid
    hloads).mpr (@cycleSameClose_of_seeds twoDraws _ _ _ (by decide +kernel))

end ForexAi
