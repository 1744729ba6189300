/-
The equity curve as a function of time.

A point replaces the last one when the two have the same stamp, and `_record_equity` looks
no further back.  So the stamps of a curve are those of the bars in the order they are
replayed, without an immediate repeat (`points_merged`).  The symbols are replayed one
after another, each over the whole window: the curve ascends exactly when every symbol's
bars lie before those of the symbols listed after it, up to a stamp that two of them share
at the junction.
-/
import ForexAi.Lib.Ascending
import ForexAi.Lib.Rounding
import ForexAi.Proofs.GateCausality

namespace ForexAi

/-! ### The table -/

abbrev RunId := ℕ

/-- One point of a stored curve. -/
structure BacktestEquityRow where
  runId : RunId
  ts : Time
  equity : ℚ
  drawdownPct : ℚ

/-- The row of a point, with what its column keeps of the equity. -/
def equityRow (runId : RunId) (p : Time × ℚ) : BacktestEquityRow where
  runId := runId
  ts := p.1
  equity := Rounding.numeric 6 p.2
  drawdownPct := 0

/-- An insert; `none` where `uq_backtest_equity_run_ts` refuses it. -/
def insertEquity (rows : List BacktestEquityRow) (row : BacktestEquityRow) :
    Option (List BacktestEquityRow) :=
  if rows.any (fun r => decide (r.runId = row.runId ∧ r.ts = row.ts)) = true then none
  else some (rows ++ [row])

/-- `save_equity_curve`. -/
def saveEquityCurve (rows : List BacktestEquityRow) (runId : RunId) (points : List (Time × ℚ)) :
    Option (List BacktestEquityRow) :=
  points.foldlM (fun rows p => insertEquity rows (equityRow runId p)) rows

/-- **A curve is saved exactly when its stamps are distinct and new to the run.** -/
theorem saveEquityCurve_isSome_iff (runId : RunId) (points : List (Time × ℚ)) :
    ∀ rows : List BacktestEquityRow,
      (saveEquityCurve rows runId points).isSome = true ↔
        (points.map (·.1)).Nodup ∧ ∀ r ∈ rows, r.runId = runId → r.ts ∉ points.map (·.1) := by
  induction points with
  | nil => intro rows; simp [saveEquityCurve]
  | cons p rest ih =>
      intro rows
      have hstep : saveEquityCurve rows runId (p :: rest)
          = (insertEquity rows (equityRow runId p)).bind
            fun next => saveEquityCurve next runId rest := rfl
      have hinsert : insertEquity rows (equityRow runId p)
          = if rows.any (fun r => decide (r.runId = runId ∧ r.ts = p.1)) = true then none
            else some (rows ++ [equityRow runId p]) := rfl
      rw [hstep, hinsert]
      by_cases htaken : rows.any (fun r => decide (r.runId = runId ∧ r.ts = p.1)) = true
      · rw [if_pos htaken]
        obtain ⟨r, hr, hsame⟩ := List.any_eq_true.mp htaken
        obtain ⟨hrun, hts⟩ := of_decide_eq_true hsame
        refine ⟨fun h => absurd h (by simp), fun h => absurd ?_ (h.2 r hr hrun)⟩
        rw [hts]
        exact List.mem_cons_self
      · have hfree : ∀ r ∈ rows, r.runId = runId → r.ts ≠ p.1 := by
          intro r hr hrun hts
          exact htaken (List.any_eq_true.mpr ⟨r, hr, decide_eq_true ⟨hrun, hts⟩⟩)
        rw [if_neg htaken, Option.bind_some, ih, List.map_cons, List.nodup_cons]
        constructor
        · intro ⟨hnodup, hnew⟩
          refine ⟨⟨hnew _ (List.mem_append_right rows List.mem_cons_self) rfl, hnodup⟩, ?_⟩
          intro r hr hrun hmem
          rcases List.mem_cons.mp hmem with hts | hmem
          · exact hfree r hr hrun hts
          · exact hnew r (List.mem_append_left _ hr) hrun hmem
        · intro ⟨⟨hfirst, hnodup⟩, hnew⟩
          refine ⟨hnodup, fun r hr hrun hmem => ?_⟩
          rcases List.mem_append.mp hr with hr | hr
          · exact hnew r hr hrun (List.mem_cons_of_mem p.1 hmem)
          · rw [List.mem_singleton.mp hr] at hmem
            exact hfirst hmem

namespace Driver

/-! ### The stamps of the curve

A curve is extended by a point for each bar, or its last point is replaced.  Its stamps are a
function of the stamps of the bars marked, in the order they were.
-/

theorem stamps_recordEquity (points : List (Time × ℚ)) (ts : Time) (equity : ℚ) :
    (recordEquity points ts equity).map (·.1) = Ascending.note (points.map (·.1)) ts := by
  unfold recordEquity Ascending.note
  rw [List.getLast?_map]
  cases hlast : points.getLast? with
  | none =>
      rw [List.getLast?_eq_none_iff.mp hlast]
      rfl
  | some p =>
      obtain ⟨front, rfl⟩ := List.getLast?_eq_some_iff.mp hlast
      by_cases hsame : p.1 = ts
      · simp [hsame]
      · simp [hsame]

/-- The points are those of the bars marked, merged at the last one. -/
def PointsMerged (s : DriverState) : Prop :=
  s.equityPoints.map (·.1) = Ascending.merged (marked s)

variable [Digest]

/-- **Every bar keeps it so.** -/
theorem pointsMerged_fineBar (d : Driver) (symbol : Symbol) (bars : List Candle) {s : DriverState}
    (h : PointsMerged s) (i : ℕ) : PointsMerged (d.fineBar symbol bars s i) := by
  cases hbar : bars[i]? with
  | none =>
      unfold fineBar
      rw [hbar]
      exact h
  | some bar =>
      have heffect := d.fineBar_effect symbol bars hbar s
      have hmarked : marked (d.fineBar symbol bars s i) = marked s ++ [bar.ts] := by
        unfold marked
        rw [heffect.curve, List.map_append]
        rfl
      unfold PointsMerged at h ⊢
      rw [heffect.equityPoints, stamps_recordEquity, h, hmarked, Ascending.merged_concat]

theorem pointsMerged_runFine (d : Driver) {s : DriverState} (h : PointsMerged s)
    (symbol : Symbol) : PointsMerged (d.runFine s symbol) := by
  obtain ⟨-, htrace, hpoints⟩ := d.runFine_fields symbol s
  have hrun : PointsMerged (d.fineRun symbol (d.loadBars symbol d.cfg.fine) s
      (d.loadBars symbol d.cfg.fine).length) :=
    List.foldlRecOn _ _ h fun _ hs i _ => d.pointsMerged_fineBar symbol _ hs i
  unfold PointsMerged marked at hrun ⊢
  rw [hpoints, htrace]
  exact hrun

/-- **The stamps of a run's curve.** -/
theorem points_merged (d : Driver) : PointsMerged d.run := by
  refine List.foldlRecOn _ _ ?_ fun _ hs symbol _ => d.pointsMerged_runFine hs symbol
  unfold PointsMerged marked
  rw [d.context_account.equityPoints, d.context_account.curve]
  rfl

/-- The bars of a run are marked symbol by symbol. -/
theorem marked_run (d : Driver) :
    marked d.run = d.cfg.symbols.flatMap fun symbol =>
      (d.loadBars symbol d.cfg.fine).map (·.ts) := by
  have hall (symbols : List Symbol) : ∀ s : DriverState, marked (symbols.foldl d.runFine s)
      = marked s ++ symbols.flatMap fun symbol => (d.loadBars symbol d.cfg.fine).map (·.ts) := by
    induction symbols with
    | nil => intro s; simp
    | cons symbol rest ih =>
        intro s
        rw [List.foldl_cons, ih, (d.runFine_gates symbol s).1, List.flatMap_cons, List.append_assoc]
  have hstart : marked d.context = [] := by
    unfold marked
    rw [d.context_account.curve]
    rfl
  unfold run
  rw [hall, hstart, List.nil_append]

/-! ### When it ascends

Within one symbol the bars ascend.  At a junction the last bar of a symbol meets the first of
the next one, and there alone the curve can go back.
-/

omit [Digest] in
/-- No bar of `a` is later than a bar of `b`. -/
def Precedes (d : Driver) (a b : Symbol) : Prop :=
  ∀ x ∈ d.loadBars a d.cfg.fine, ∀ y ∈ d.loadBars b d.cfg.fine, x.ts ≤ y.ts

/-- The curve of a run is a function of time, and a run with no points yet can save it. -/
def CurveOfTime (d : Driver) : Prop :=
  (d.run.equityPoints.map (·.1)).Pairwise (· < ·) ∧
    ∀ (rows : List BacktestEquityRow) (runId : RunId), (∀ r ∈ rows, r.runId ≠ runId) →
      (saveEquityCurve rows runId d.run.equityPoints).isSome = true

/-- **The equity curve is a function of time exactly when the symbols' histories come one after
the other**, in the order the symbols are listed. -/
theorem curveOfTime_iff (d : Driver) : d.CurveOfTime ↔ d.cfg.symbols.Pairwise d.Precedes := by
  have hascends : (d.run.equityPoints.map (·.1)).Pairwise (· < ·) ↔
      d.cfg.symbols.Pairwise d.Precedes := by
    have hbars : ∀ symbol ∈ d.cfg.symbols,
        ((d.loadBars symbol d.cfg.fine).map (·.ts)).Pairwise (· ≤ ·) := by
      intro symbol _
      rw [List.pairwise_map]
      exact (d.loadBars_ascending symbol d.cfg.fine).imp fun h => le_of_lt h
    have hprecedes (a b : Symbol) :
        (∀ x ∈ (d.loadBars a d.cfg.fine).map (·.ts), ∀ y ∈ (d.loadBars b d.cfg.fine).map (·.ts),
          x ≤ y) ↔ d.Precedes a b := by
      simp only [List.forall_mem_map]
      exact Iff.rfl
    rw [d.points_merged, Ascending.pairwise_merged_iff, marked_run, List.pairwise_flatMap]
    simp only [hprecedes]
    exact ⟨fun h => h.2, fun h => ⟨hbars, h⟩⟩
  refine ⟨fun h => hascends.mp h.1, fun h => ⟨hascends.mpr h, fun rows runId hnew => ?_⟩⟩
  rw [saveEquityCurve_isSome_iff]
  refine ⟨(hascends.mpr h).imp fun hlt => ne_of_lt hlt, ?_⟩
  intro r hr hrun
  exact absurd hrun (hnew r hr)

omit [Digest]

/-- Two symbols on the same two hours: the curve goes back to midnight, and is refused. -/
theorem goes_back : ¬ ∀ (_ : Digest) (d : Driver), d.CurveOfTime := by
  intro h
  have hsaved := (h Digest.zero twoSymbols).2 [] 0 (fun r hr => absurd hr (by simp))
  exact absurd hsaved (by decide +kernel)

end Driver

end ForexAi
