/-
What one bar of a backtest does.

A context bar decides and remembers; it leaves the account alone.  A fine bar moves the
account by a few broker calls at its own stamp, decides on what the account is then,
and marks.  The lemmas here say so field by field, and nothing above unfolds a bar
again.
-/
import ForexAi.Backtest.Driver
import ForexAi.Broker.Runs
import ForexAi.Broker.Watermarks

namespace ForexAi

/-! ### A fill as broker calls -/

/-- The calls a pending fill is executed with. -/
def PendingFill.calls (act : PendingFill) (fine : Timeframe) (symbol : Symbol) (price : ℚ)
    (ts : Time) : List PaperBroker.Op :=
  (if act.closeExisting then [.closeOnSignal symbol price ts] else []) ++
    [.enterAtNextOpen symbol fine act.openDirection price ts act.stopLoss act.takeProfit
      (some act.units)]

theorem PendingFill.calls_stamp {act : PendingFill} {fine : Timeframe} {symbol : Symbol}
    {price : ℚ} {ts : Time} :
    ∀ op ∈ act.calls fine symbol price ts, ∀ t, op.stamp = some t → t = ts := by
  intro op hop t ht
  unfold PendingFill.calls at hop
  rcases List.mem_append.mp hop with hclose | henter
  · split at hclose
    · rw [List.mem_singleton.mp hclose] at ht
      exact (Option.some.inj ht).symm
    · exact absurd hclose (by simp)
  · rw [List.mem_singleton.mp henter] at ht
    exact (Option.some.inj ht).symm

variable [Digest]

theorem applyFill_eq_run (fine : Timeframe) (b : PaperBroker) (symbol : Symbol)
    (act : PendingFill) (price : ℚ) (ts : Time) :
    applyFill fine b symbol act price ts = b.run (act.calls fine symbol price ts) := by
  unfold applyFill PendingFill.calls
  by_cases hclose : act.closeExisting = true
  · rw [if_pos hclose, if_pos hclose]
    rfl
  · rw [if_neg hclose, if_neg hclose]
    rfl

namespace Driver

variable (d : Driver) (symbol : Symbol) (bars : List Candle)

/-! ### A context bar

A bar of a larger timeframe ends in a decision that is remembered, and in nothing else.
-/

/-- Two states with the same account. -/
structure SameAccount (s s' : DriverState) : Prop where
  broker : s'.broker = s.broker
  pendingFills : s'.pendingFills = s.pendingFills
  equityPoints : s'.equityPoints = s.equityPoints
  fills : s'.trace.fills = s.trace.fills
  gateCalls : s'.trace.gateCalls = s.trace.gateCalls
  curve : s'.trace.curve = s.trace.curve

omit [Digest] in
theorem SameAccount.refl (s : DriverState) : SameAccount s s := ⟨rfl, rfl, rfl, rfl, rfl, rfl⟩

omit [Digest] in
theorem SameAccount.trans {s s' s'' : DriverState} (h : SameAccount s s')
    (h' : SameAccount s' s'') : SameAccount s s'' :=
  ⟨h'.broker.trans h.broker, h'.pendingFills.trans h.pendingFills,
    h'.equityPoints.trans h.equityPoints, h'.fills.trans h.fills,
    h'.gateCalls.trans h.gateCalls, h'.curve.trans h.curve⟩

omit [Digest] in
/-- A context bar leaves the account alone. -/
theorem contextBar_account (timeframe : Timeframe) (s : DriverState) (i : ℕ) :
    SameAccount s (d.contextBar symbol timeframe bars s i) := by
  unfold contextBar
  cases bars[i]? with
  | none => exact SameAccount.refl s
  | some bar =>
      simp only
      by_cases hdecides : d.decidesAt symbol timeframe bars i bar.ts = true
      · rw [if_pos hdecides]
        exact ⟨rfl, rfl, rfl, rfl, rfl, rfl⟩
      · rw [if_neg hdecides]
        exact SameAccount.refl s

omit [Digest] in
/-- Before the first fine bar the account is as it was at the start. -/
theorem context_account : SameAccount d.start d.context := by
  unfold context
  refine List.foldlRecOn _ _ (SameAccount.refl _) ?_
  intro s hs timeframe _
  refine List.foldlRecOn _ _ hs ?_
  intro s' hs' symbol _
  refine hs'.trans ?_
  unfold runContextTf
  refine List.foldlRecOn _ _ (SameAccount.refl _) ?_
  intro s'' hs'' i _
  exact hs''.trans (d.contextBar_account symbol _ timeframe s'' i)

/-! ### A fine bar

A fine bar fills what is pending at its open, evaluates the stop and the target at its close,
decides on what the account is then, and marks.
-/

/-- The broker at a bar's close: the pending fill executed, the stop and target evaluated. -/
def brokerAtClose (s : DriverState) (bar : Candle) : PaperBroker :=
  (evaluateClose symbol (d.executePending symbol s bar) bar).broker

/-- What is decided at a bar's close on the given broker. -/
def outcomeAt (i : ℕ) (last : RecentDecisions) (broker : PaperBroker) (bar : Candle) :
    DecisionOutcome :=
  decideOutcome last symbol d.cfg.fine bar.ts bar.ts
    (d.signalsAt symbol d.cfg.fine bars i bar.ts) bar.close d.cfg.timeframes
    (d.gate broker symbol bar.ts) d.risk

/-- What an outcome schedules. -/
def scheduled (totalBars i : ℕ) (broker : PaperBroker) (outcome : DecisionOutcome) :
    Option PendingFill :=
  if outcome.action = .persist ∧ outcome.status = some .paper then
    scheduleFill broker.positions symbol totalBars i outcome.intent
  else none

/-- The calls of a bar up to its decision. -/
def callsAtOpen (s : DriverState) (bar : Candle) : List PaperBroker.Op :=
  (match s.pendingFills symbol with
    | none => []
    | some act => act.calls d.cfg.fine symbol bar.openPrice bar.ts) ++
    [.evaluateExit symbol bar.close bar.ts]

theorem brokerAtClose_eq_run (s : DriverState) (bar : Candle) :
    d.brokerAtClose symbol s bar = s.broker.run (d.callsAtOpen symbol s bar) := by
  unfold brokerAtClose evaluateClose executePending callsAtOpen
  cases s.pendingFills symbol with
  | none => rfl
  | some act =>
      show ((applyFill d.cfg.fine s.broker symbol act bar.openPrice bar.ts).evaluateExit symbol
        bar.close bar.ts).2 = _
      rw [applyFill_eq_run]
      unfold PaperBroker.run
      rw [List.foldl_append]
      rfl

omit [Digest] in
/-- A call of a bar is one of the pending fill's, or the exit. -/
theorem callsAtOpen_cases {s : DriverState} {bar : Candle} {op : PaperBroker.Op}
    (hop : op ∈ d.callsAtOpen symbol s bar) :
    (∃ act : PendingFill, op ∈ act.calls d.cfg.fine symbol bar.openPrice bar.ts) ∨
      op = .evaluateExit symbol bar.close bar.ts := by
  unfold callsAtOpen at hop
  rcases List.mem_append.mp hop with hfill | hexit
  · cases hact : s.pendingFills symbol with
    | none => rw [hact] at hfill; exact absurd hfill (by simp)
    | some act =>
        rw [hact] at hfill
        exact Or.inl ⟨act, hfill⟩
  · exact Or.inr (List.mem_singleton.mp hexit)

omit [Digest] in
theorem callsAtOpen_stamp {s : DriverState} {bar : Candle} :
    ∀ op ∈ d.callsAtOpen symbol s bar, ∀ t, op.stamp = some t → t = bar.ts := by
  intro op hop t ht
  rcases d.callsAtOpen_cases symbol hop with ⟨act, hfill⟩ | rfl
  · exact PendingFill.calls_stamp op hfill t ht
  · exact (Option.some.inj ht).symm

omit [Digest] in
/-- Acting on an outcome touches the pending fill and the counters. -/
theorem actOn_fields (totalBars i : ℕ) (s : DriverState) (outcome : DecisionOutcome)
    (hpending : s.pendingFills symbol = none) :
    (actOn symbol totalBars i s outcome).broker = s.broker ∧
      (actOn symbol totalBars i s outcome).last = s.last ∧
      (actOn symbol totalBars i s outcome).equityPoints = s.equityPoints ∧
      (actOn symbol totalBars i s outcome).trace = s.trace ∧
      (actOn symbol totalBars i s outcome).pendingFills
        = Function.update s.pendingFills symbol
          (scheduled symbol totalBars i s.broker outcome) := by
  have hsame : s.pendingFills = Function.update s.pendingFills symbol none := by
    rw [← hpending, Function.update_eq_self]
  unfold actOn scheduled
  by_cases hpersist : outcome.action = .persist
  · rw [if_pos hpersist]
    by_cases hpaper : outcome.status = some .paper
    · rw [if_pos hpaper, if_pos ⟨hpersist, hpaper⟩]
      refine ⟨rfl, rfl, rfl, rfl, ?_⟩
      cases scheduleFill s.broker.positions symbol totalBars i outcome.intent with
      | none => exact hsame
      | some act => rfl
    · rw [if_neg hpaper, if_neg fun h => hpaper h.2]
      exact ⟨rfl, rfl, rfl, rfl, hsame⟩
  · rw [if_neg hpersist, if_neg fun h => hpersist h.1]
    exact ⟨rfl, rfl, rfl, rfl, hsame⟩

omit [Digest] in
theorem callsAtOpen_not_state {s : DriverState} {bar : Candle} :
    ∀ op ∈ d.callsAtOpen symbol s bar, ∀ ts, op ≠ .state ts := by
  intro op hop ts heq
  rcases d.callsAtOpen_cases symbol hop with ⟨act, hfill⟩ | hexit
  · unfold PendingFill.calls at hfill
    rw [heq] at hfill
    by_cases hclose : act.closeExisting = true
    · simp [hclose] at hfill
    · simp [hclose] at hfill
  · rw [heq] at hexit
    exact absurd hexit (by simp)

/-- What a fine bar leaves, field by field. -/
structure FineEffect (i : ℕ) (bar : Candle) (s s' : DriverState) : Prop where
  broker : s'.broker
    = (((d.brokerAtClose symbol s bar).markPosition symbol bar.close).state bar.ts).2
  last : s'.last =
    if d.decidesAt symbol d.cfg.fine bars i bar.ts = true then
      s.last.record symbol d.cfg.fine bar.ts
        (d.outcomeAt symbol bars i s.last (d.brokerAtClose symbol s bar) bar)
    else s.last
  pendingFills : s'.pendingFills = Function.update s.pendingFills symbol
    (if d.decidesAt symbol d.cfg.fine bars i bar.ts = true then
      scheduled symbol bars.length i (d.brokerAtClose symbol s bar)
        (d.outcomeAt symbol bars i s.last (d.brokerAtClose symbol s bar) bar)
    else none)
  equityPoints : s'.equityPoints = recordEquity s.equityPoints bar.ts
    ((d.brokerAtClose symbol s bar).markPosition symbol bar.close).totalEquity
  fills : s'.trace.fills = s.trace.fills ++
    (s.pendingFills symbol).toList.map fun act => ⟨symbol, bar.ts, bar.openPrice, act⟩
  outcomes : s'.trace.outcomes = s.trace.outcomes ++
    if d.decidesAt symbol d.cfg.fine bars i bar.ts = true then
      [⟨symbol, d.cfg.fine, bar.ts,
        d.outcomeAt symbol bars i s.last (d.brokerAtClose symbol s bar) bar⟩]
    else []
  gateCalls : s'.trace.gateCalls = s.trace.gateCalls ++
    if d.decidesAt symbol d.cfg.fine bars i bar.ts = true then
      [⟨symbol, bar.ts, d.gate (d.brokerAtClose symbol s bar) symbol bar.ts,
        (d.brokerAtClose symbol s bar).positions, (d.brokerAtClose symbol s bar).trades,
        s.trace.curve⟩]
    else []
  curve : s'.trace.curve = s.trace.curve ++
    [(bar.ts, ((d.brokerAtClose symbol s bar).markPosition symbol bar.close).totalEquity)]

/-- The fill and the exit of a bar take the pending fill off and note it. -/
theorem evaluateClose_fields (s : DriverState) (bar : Candle) :
    let opened := evaluateClose symbol (d.executePending symbol s bar) bar
    opened.pendingFills = Function.update s.pendingFills symbol none ∧
      opened.last = s.last ∧ opened.equityPoints = s.equityPoints ∧
      opened.trace.outcomes = s.trace.outcomes ∧ opened.trace.gateCalls = s.trace.gateCalls ∧
      opened.trace.curve = s.trace.curve ∧ opened.trace.fills = s.trace.fills ++
        (s.pendingFills symbol).toList.map fun act => ⟨symbol, bar.ts, bar.openPrice, act⟩ := by
  unfold evaluateClose executePending
  cases hact : s.pendingFills symbol with
  | none =>
      refine ⟨?_, rfl, rfl, rfl, rfl, rfl, (List.append_nil _).symm⟩
      show s.pendingFills = _
      rw [← hact, Function.update_eq_self]
  | some act => exact ⟨rfl, rfl, rfl, rfl, rfl, rfl, rfl⟩

/-- What the decision of a bar leaves, where no fill is pending. -/
structure DecideEffect (i : ℕ) (bar : Candle) (s s' : DriverState) : Prop where
  broker : s'.broker = s.broker
  last : s'.last =
    if d.decidesAt symbol d.cfg.fine bars i bar.ts = true then
      s.last.record symbol d.cfg.fine bar.ts (d.outcomeAt symbol bars i s.last s.broker bar)
    else s.last
  pendingFills : s'.pendingFills = Function.update s.pendingFills symbol
    (if d.decidesAt symbol d.cfg.fine bars i bar.ts = true then
      scheduled symbol bars.length i s.broker (d.outcomeAt symbol bars i s.last s.broker bar)
    else none)
  equityPoints : s'.equityPoints = s.equityPoints
  fills : s'.trace.fills = s.trace.fills
  outcomes : s'.trace.outcomes = s.trace.outcomes ++
    if d.decidesAt symbol d.cfg.fine bars i bar.ts = true then
      [⟨symbol, d.cfg.fine, bar.ts, d.outcomeAt symbol bars i s.last s.broker bar⟩]
    else []
  gateCalls : s'.trace.gateCalls = s.trace.gateCalls ++
    if d.decidesAt symbol d.cfg.fine bars i bar.ts = true then
      [⟨symbol, bar.ts, d.gate s.broker symbol bar.ts, s.broker.positions, s.broker.trades,
        s.trace.curve⟩]
    else []
  curve : s'.trace.curve = s.trace.curve

omit [Digest] in
theorem decideClose_effect {i : ℕ} {bar : Candle} {s : DriverState}
    (hfree : s.pendingFills symbol = none) :
    d.DecideEffect symbol bars i bar s (d.decideClose symbol bars i s bar) := by
  unfold decideClose
  by_cases hdecides : d.decidesAt symbol d.cfg.fine bars i bar.ts = true
  · rw [if_pos hdecides]
    set outcome := d.outcomeAt symbol bars i s.last s.broker bar with houtcome
    set decided : DriverState :=
      { s with
        last := s.last.record symbol d.cfg.fine bar.ts outcome
        trace := { s.trace with
          outcomes := s.trace.outcomes ++ [⟨symbol, d.cfg.fine, bar.ts, outcome⟩]
          gateCalls := s.trace.gateCalls ++
            [⟨symbol, bar.ts, d.gate s.broker symbol bar.ts, s.broker.positions,
              s.broker.trades, s.trace.curve⟩] } } with hdecided
    obtain ⟨hbroker, hlast, hpoints, htrace, hpending⟩ :=
      actOn_fields symbol bars.length i decided outcome hfree
    show d.DecideEffect symbol bars i bar s (actOn symbol bars.length i decided outcome)
    exact
      { broker := hbroker
        last := by rw [if_pos hdecides]; exact hlast
        pendingFills := by rw [if_pos hdecides]; exact hpending
        equityPoints := hpoints
        fills := by rw [htrace]
        outcomes := by rw [if_pos hdecides, htrace]
        gateCalls := by rw [if_pos hdecides, htrace]
        curve := by rw [htrace] }
  · rw [if_neg hdecides]
    have hkept : s.pendingFills = Function.update s.pendingFills symbol none := by
      rw [← hfree, Function.update_eq_self]
    exact
      { broker := rfl
        last := by rw [if_neg hdecides]
        pendingFills := by rw [if_neg hdecides]; exact hkept
        equityPoints := rfl
        fills := rfl
        outcomes := by rw [if_neg hdecides, List.append_nil]
        gateCalls := by rw [if_neg hdecides, List.append_nil]
        curve := rfl }

/-- **What a fine bar does.** -/
theorem fineBar_effect {i : ℕ} {bar : Candle} (hbar : bars[i]? = some bar) (s : DriverState) :
    d.FineEffect symbol bars i bar s (d.fineBar symbol bars s i) := by
  have hfields := d.evaluateClose_fields symbol s bar
  have hmid : (evaluateClose symbol (d.executePending symbol s bar) bar).broker
      = d.brokerAtClose symbol s bar := rfl
  have hstep : d.fineBar symbol bars s i = markClose symbol
      (d.decideClose symbol bars i (evaluateClose symbol (d.executePending symbol s bar) bar) bar)
      bar := by
    unfold fineBar
    rw [hbar]
  rw [hstep]
  generalize evaluateClose symbol (d.executePending symbol s bar) bar = opened at hfields hmid ⊢
  obtain ⟨hpending, hlast, hpoints, houtcomes, hcalls, hcurve, hfills⟩ := hfields
  have hfree : opened.pendingFills symbol = none := by
    rw [hpending]
    exact Function.update_self _ _ _
  have h := @decideClose_effect d symbol bars i bar opened hfree
  generalize d.decideClose symbol bars i opened bar = decided at h ⊢
  constructor
  · show ((decided.broker.markPosition symbol bar.close).state bar.ts).2 = _
    rw [h.broker, hmid]
  · show decided.last = _
    rw [h.last, hlast, hmid]
  · show decided.pendingFills = _
    rw [h.pendingFills, hpending, Function.update_idem, hlast, hmid]
  · show recordEquity decided.equityPoints bar.ts
      (decided.broker.markPosition symbol bar.close).totalEquity = _
    rw [h.broker, h.equityPoints, hpoints, hmid]
  · show decided.trace.fills = _
    rw [h.fills, hfills]
  · show decided.trace.outcomes = _
    rw [h.outcomes, houtcomes, hlast, hmid]
  · show decided.trace.gateCalls = _
    rw [h.gateCalls, hcalls, hcurve, hmid]
  · show decided.trace.curve ++
      [(bar.ts, (decided.broker.markPosition symbol bar.close).totalEquity)] = _
    rw [h.broker, h.curve, hcurve, hmid]

/-! ### A symbol's bars -/

/-- The first `n` fine bars of a symbol. -/
def fineRun (s : DriverState) (n : ℕ) : DriverState :=
  (List.range n).foldl (d.fineBar symbol bars) s

theorem fineRun_succ (s : DriverState) (n : ℕ) :
    d.fineRun symbol bars s (n + 1) = d.fineBar symbol bars (d.fineRun symbol bars s n) n := by
  unfold fineRun
  rw [List.range_succ, List.foldl_append]
  rfl

/-- Beside its bars `_run_fine` touches the coverage report only. -/
theorem runFine_fields (s : DriverState) :
    (d.runFine s symbol).broker
        = (d.fineRun symbol (d.loadBars symbol d.cfg.fine) s
            (d.loadBars symbol d.cfg.fine).length).broker ∧
      (d.runFine s symbol).trace
        = (d.fineRun symbol (d.loadBars symbol d.cfg.fine) s
            (d.loadBars symbol d.cfg.fine).length).trace ∧
      (d.runFine s symbol).equityPoints
        = (d.fineRun symbol (d.loadBars symbol d.cfg.fine) s
            (d.loadBars symbol d.cfg.fine).length).equityPoints := by
  unfold runFine
  by_cases hempty : (d.loadBars symbol d.cfg.fine).isEmpty = true
  · simp only [if_pos hempty]
    rw [List.isEmpty_iff.mp hempty]
    exact ⟨rfl, rfl, rfl⟩
  · simp only [if_neg hempty]
    exact ⟨rfl, rfl, rfl⟩

omit [Digest] in
theorem loadBars_ascending (timeframe : Timeframe) :
    (d.loadBars symbol timeframe).Pairwise (·.ts < ·.ts) :=
  (d.history symbol timeframe).ascending.sublist List.filter_sublist

end Driver

end ForexAi
