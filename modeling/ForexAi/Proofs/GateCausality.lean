/-
What the backtest's gate counts.

The symbols are replayed one after another on one broker, each over its whole history.
When the gate of a later symbol is evaluated the broker already holds everything the
earlier ones did, up to the end of their histories: their open positions, their
trades, and a drawdown made of all their equity values.

Everything on the broker carries the stamp of a bar that was marked before, or of the
bar at hand (`Rooted`), and every fine bar is marked.  So a gate counts the past only
exactly when no bar marked so far is later than its own, and `gate_causal_iff` reads
that off the symbols: whenever the gate of a symbol is evaluated at a bar, no symbol
listed before it has a later bar.
-/
import ForexAi.Backtest.Bars
import ForexAi.Backtest.Stub

namespace ForexAi

/-! ### A gate and what it counts -/

namespace GateCall

/-- The gate counts only positions entered, trades left and equity values seen by its bar. -/
def Causal (c : GateCall) : Prop :=
  (∀ p ∈ c.positions, p.entryTs ≤ c.ts) ∧ (∀ t ∈ c.trades, t.exitTs ≤ c.ts) ∧
    ∀ v ∈ c.curve, v.1 ≤ c.ts

instance (c : GateCall) : Decidable c.Causal := by
  unfold Causal
  infer_instance

/-- The positions and trades come from bars on the curve, or from the gate's own bar. -/
structure Rooted (c : GateCall) : Prop where
  entered : ∀ p ∈ c.positions, p.entryTs ∈ c.curve.map (·.1) ∨ p.entryTs = c.ts
  left : ∀ t ∈ c.trades, t.exitTs ∈ c.curve.map (·.1) ∨ t.exitTs = c.ts

/-- The bars that were marked before the gate are not later than it. -/
def MarkedBefore (c : GateCall) : Prop := ∀ t ∈ c.curve.map (·.1), t ≤ c.ts

/-- With its contents rooted in the curve, a gate is causal when the curve is in its past. -/
theorem causal_iff {c : GateCall} (h : c.Rooted) : c.Causal ↔ c.MarkedBefore := by
  constructor
  · rintro ⟨-, -, hcurve⟩ t ht
    obtain ⟨v, hv, rfl⟩ := List.mem_map.mp ht
    exact hcurve v hv
  · intro hmarked
    refine ⟨?_, ?_, ?_⟩
    · intro p hp
      rcases h.entered p hp with hmem | heq
      · exact hmarked _ hmem
      · exact le_of_eq heq
    · intro t ht
      rcases h.left t ht with hmem | heq
      · exact hmarked _ hmem
      · exact le_of_eq heq
    · intro v hv
      exact hmarked _ (List.mem_map.mpr ⟨v, hv, rfl⟩)

end GateCall

namespace Driver

/-- The stamps of the bars marked so far. -/
def marked (s : DriverState) : List Time := s.trace.curve.map (·.1)

/-- The account of a run: it is stamped by the bars marked so far, its watermarks are those of
the curve, and every gate is rooted in the curve it saw and read the drawdown off it. -/
structure Accounted (d : Driver) (s : DriverState) : Prop where
  stamped : s.broker.Stamped (· ∈ marked s)
  watermarks : (s.broker.peakEquity, s.broker.maxDrawdownPct)
    = watermarks d.cfg.startEquity (s.trace.curve.map (·.2))
  rooted : ∀ c ∈ s.trace.gateCalls, c.Rooted
  drawdown : ∀ c ∈ s.trace.gateCalls,
    c.gate.drawdownUsedPct = (ForexAi.watermarks d.cfg.startEquity (c.curve.map (·.2))).2

theorem accounted_context (d : Driver) : Accounted d d.context := by
  have hsame := d.context_account
  constructor
  · rw [hsame.broker]
    exact ⟨fun p hp => absurd hp (by simp [start, PaperBroker.new]),
      fun t ht => absurd ht (by simp [start, PaperBroker.new])⟩
  · rw [hsame.broker, hsame.curve]
    rfl
  · rw [hsame.gateCalls]
    exact fun c hc => absurd hc (by simp [start])
  · rw [hsame.gateCalls]
    exact fun c hc => absurd hc (by simp [start])

variable [Digest]

/-- **A fine bar keeps the account in order.** -/
theorem accounted_fineBar {d : Driver} {symbol : Symbol} {bars : List Candle} {i : ℕ}
    {bar : Candle} (hbar : bars[i]? = some bar) {s : DriverState} (h : Accounted d s) :
    Accounted d (d.fineBar symbol bars s i) := by
  have heffect := d.fineBar_effect symbol bars hbar s
  set mid := d.brokerAtClose symbol s bar with hmid
  have hrun : mid = s.broker.run (d.callsAtOpen symbol s bar) := d.brokerAtClose_eq_run symbol s bar
  have hstamped : mid.Stamped fun t => t ∈ marked s ∨ t = bar.ts := by
    rw [hrun]
    refine (h.stamped.mono fun t ht => Or.inl ht).run ?_
    intro op hop t ht
    exact Or.inr (d.callsAtOpen_stamp symbol op hop t ht)
  have hwatermarks : (mid.peakEquity, mid.maxDrawdownPct)
      = ForexAi.watermarks d.cfg.startEquity (s.trace.curve.map (·.2)) := by
    rw [hrun, PaperBroker.run_watermarks (d.callsAtOpen_not_state symbol) s.broker]
    exact h.watermarks
  have hmarked : marked (d.fineBar symbol bars s i) = marked s ++ [bar.ts] := by
    unfold marked
    rw [heffect.curve, List.map_append]
    rfl
  constructor
  · have hnow : mid.Stamped (· ∈ marked (d.fineBar symbol bars s i)) := by
      refine hstamped.mono fun t ht => ?_
      rw [hmarked, List.mem_append, List.mem_singleton]
      exact ht
    rw [heffect.broker]
    exact ⟨hnow.entered, hnow.left⟩
  · rw [heffect.broker, heffect.curve, List.map_append]
    exact @state_watermarks (mid.markPosition symbol bar.close) _ _ hwatermarks bar.ts
  · intro c hc
    rw [heffect.gateCalls] at hc
    rcases List.mem_append.mp hc with hold | hnew
    · exact h.rooted c hold
    · split at hnew
      · rw [List.mem_singleton.mp hnew]
        exact ⟨hstamped.entered, hstamped.left⟩
      · exact absurd hnew (by simp)
  · intro c hc
    rw [heffect.gateCalls] at hc
    rcases List.mem_append.mp hc with hold | hnew
    · exact h.drawdown c hold
    · split at hnew
      · rw [List.mem_singleton.mp hnew]
        exact congrArg Prod.snd hwatermarks
      · exact absurd hnew (by simp)

theorem accounted_fineRun {d : Driver} {symbol : Symbol} {bars : List Candle} {s : DriverState}
    (h : Accounted d s) : ∀ n ≤ bars.length, Accounted d (d.fineRun symbol bars s n) := by
  intro n
  induction n with
  | zero => intro _; exact h
  | succ n ih =>
      intro hn
      rw [fineRun_succ]
      exact accounted_fineBar (List.getElem?_eq_getElem (by omega : n < bars.length))
        (ih (by omega))

theorem accounted_runFine {d : Driver} {s : DriverState} (symbol : Symbol) (h : Accounted d s) :
    Accounted d (d.runFine s symbol) := by
  obtain ⟨hbroker, htrace, -⟩ := d.runFine_fields symbol s
  have hrun := @accounted_fineRun _ d symbol (d.loadBars symbol d.cfg.fine) s h _ le_rfl
  constructor
  · unfold marked
    rw [hbroker, htrace]
    exact hrun.stamped
  · rw [hbroker, htrace]
    exact hrun.watermarks
  · rw [htrace]
    exact hrun.rooted
  · rw [htrace]
    exact hrun.drawdown

theorem accounted_run (d : Driver) : Accounted d d.run := by
  unfold run
  refine List.foldlRecOn _ _ d.accounted_context ?_
  intro s hs symbol _
  exact accounted_runFine symbol hs

/-! ### The gates of a run

The symbols are replayed one after the other, so a gate has behind it all the bars of the
symbols before and those of its own up to it.  The latter are in its past.
-/

omit [Digest] in
/-- The gate of a symbol is evaluated at a bar stamped `ts`. -/
def GateCalledAt (d : Driver) (symbol : Symbol) (ts : Time) : Prop :=
  ∃ i bar, (d.loadBars symbol d.cfg.fine)[i]? = some bar ∧ bar.ts = ts ∧
    d.decidesAt symbol d.cfg.fine (d.loadBars symbol d.cfg.fine) i ts = true

omit [Digest] in
/-- Whenever the gate of `b` is evaluated, `a` has no later bar. -/
def InOrder (d : Driver) (a b : Symbol) : Prop :=
  ∀ ts, d.GateCalledAt b ts → ∀ bar ∈ d.loadBars a d.cfg.fine, bar.ts ≤ ts

omit [Digest] in
/-- What holds at the first `n + 1` bars holds at the first `n` and at the one after them. -/
theorem forall_bars_succ {bars : List Candle} {n : ℕ} {b : Candle} (hbar : bars[n]? = some b)
    {P : ℕ → Candle → Prop} :
    (∀ i < n + 1, ∀ bar, bars[i]? = some bar → P i bar) ↔
      (∀ i < n, ∀ bar, bars[i]? = some bar → P i bar) ∧ P n b := by
  constructor
  · intro h
    exact ⟨fun i hi => h i (by omega), h n (by omega) b hbar⟩
  · rintro ⟨h, hlast⟩ i hi bar hi'
    by_cases hin : i < n
    · exact h i hin bar hi'
    · obtain rfl : i = n := by omega
      obtain rfl := Option.some.inj (hbar.symm.trans hi')
      exact hlast

/-- The first `n` bars of a symbol mark themselves, and their gates look back on what was
marked before the symbol when no bar of it is too late. -/
theorem fineRun_gates (d : Driver) (symbol : Symbol) {bars : List Candle}
    (hasc : bars.Pairwise (·.ts < ·.ts)) (s : DriverState) :
    ∀ n ≤ bars.length,
      marked (d.fineRun symbol bars s n) = marked s ++ (bars.take n).map (·.ts) ∧
      ((∀ c ∈ (d.fineRun symbol bars s n).trace.gateCalls, c.MarkedBefore) ↔
        (∀ c ∈ s.trace.gateCalls, c.MarkedBefore) ∧
        ∀ i < n, ∀ bar, bars[i]? = some bar →
          d.decidesAt symbol d.cfg.fine bars i bar.ts = true → ∀ t ∈ marked s, t ≤ bar.ts) := by
  intro n
  induction n with
  | zero =>
      intro _
      refine ⟨by simp [fineRun], ?_⟩
      constructor
      · intro h
        exact ⟨h, fun i hi => absurd hi (by omega)⟩
      · intro h
        exact h.1
  | succ n ih =>
      intro hn
      obtain ⟨hmarked, hgates⟩ := ih (by omega)
      have hlt : n < bars.length := by omega
      have hbar : bars[n]? = some bars[n] := List.getElem?_eq_getElem hlt
      have heffect := d.fineBar_effect symbol bars hbar (d.fineRun symbol bars s n)
      rw [fineRun_succ]
      constructor
      · unfold marked at hmarked ⊢
        rw [heffect.curve, List.map_append, hmarked, List.take_add_one, hbar, List.map_append,
          List.append_assoc]
        rfl
      · rw [heffect.gateCalls, List.forall_mem_append, hgates, forall_bars_succ hbar, and_assoc]
        refine and_congr_right fun _ => and_congr_right fun _ => ?_
        by_cases hdecides : d.decidesAt symbol d.cfg.fine bars n bars[n].ts = true
        · rw [if_pos hdecides, List.forall_mem_singleton]
          show (∀ t ∈ marked (d.fineRun symbol bars s n), t ≤ bars[n].ts) ↔ _
          rw [hmarked, List.forall_mem_append]
          -- The symbol's own bars are never too late: they ascend.
          have hown : ∀ t ∈ (bars.take n).map (·.ts), t ≤ bars[n].ts := by
            intro t ht
            obtain ⟨b, hb, rfl⟩ := List.mem_map.mp ht
            obtain ⟨j, hj, rfl⟩ := List.mem_take_iff_getElem.mp hb
            have hjn : j < n := by omega
            exact le_of_lt (List.pairwise_iff_getElem.mp hasc j n (by omega) hlt hjn)
          exact ⟨fun h _ => h.1, fun h => ⟨h hdecides, hown⟩⟩
        · rw [if_neg hdecides]
          exact ⟨fun _ hdec => absurd hdec hdecides, fun _ c hc => absurd hc (by simp)⟩

/-- The same for all bars of a symbol. -/
theorem runFine_gates (d : Driver) (symbol : Symbol) (s : DriverState) :
    marked (d.runFine s symbol) = marked s ++ (d.loadBars symbol d.cfg.fine).map (·.ts) ∧
    ((∀ c ∈ (d.runFine s symbol).trace.gateCalls, c.MarkedBefore) ↔
      (∀ c ∈ s.trace.gateCalls, c.MarkedBefore) ∧
      ∀ ts, d.GateCalledAt symbol ts → ∀ t ∈ marked s, t ≤ ts) := by
  set bars := d.loadBars symbol d.cfg.fine with hbars
  obtain ⟨-, htrace, -⟩ := d.runFine_fields symbol s
  obtain ⟨hmarked, hgates⟩ :=
    d.fineRun_gates symbol (d.loadBars_ascending symbol d.cfg.fine) s bars.length le_rfl
  rw [List.take_length] at hmarked
  constructor
  · unfold marked at hmarked ⊢
    rw [htrace]
    exact hmarked
  · rw [htrace, hgates]
    refine and_congr_right fun _ => ?_
    constructor
    · rintro h ts ⟨i, bar, hi, rfl, hdecides⟩ t ht
      exact h i (List.getElem?_eq_some_iff.mp hi).1 bar hi hdecides t ht
    · intro h i _ bar hi hdecides t ht
      exact h bar.ts ⟨i, bar, hi, rfl, hdecides⟩ t ht

/-- And for the symbols still to come. -/
theorem symbols_gates (d : Driver) (symbols : List Symbol) :
    ∀ s : DriverState,
      (∀ c ∈ (symbols.foldl d.runFine s).trace.gateCalls, c.MarkedBefore) ↔
        (∀ c ∈ s.trace.gateCalls, c.MarkedBefore) ∧
        (∀ symbol ∈ symbols, ∀ ts, d.GateCalledAt symbol ts → ∀ t ∈ marked s, t ≤ ts) ∧
        symbols.Pairwise d.InOrder := by
  induction symbols with
  | nil => intro s; simp
  | cons symbol rest ih =>
      intro s
      obtain ⟨hmarked, hgates⟩ := d.runFine_gates symbol s
      rw [List.foldl_cons, ih, hgates, hmarked, List.pairwise_cons]
      constructor
      · rintro ⟨⟨hold, hfirst⟩, hlater, hrest⟩
        refine ⟨hold, ?_, ?_, hrest⟩
        · intro other hother ts hcalled t ht
          rcases List.mem_cons.mp hother with rfl | hother
          · exact hfirst ts hcalled t ht
          · exact hlater other hother ts hcalled t (List.mem_append_left _ ht)
        · intro other hother ts hcalled bar hbar
          exact hlater other hother ts hcalled bar.ts
            (List.mem_append_right _ (List.mem_map.mpr ⟨bar, hbar, rfl⟩))
      · rintro ⟨hold, hall, hhead, hrest⟩
        refine ⟨⟨hold, hall symbol List.mem_cons_self⟩, ?_, hrest⟩
        intro other hother ts hcalled t ht
        rcases List.mem_append.mp ht with hearlier | hown
        · exact hall other (List.mem_cons_of_mem symbol hother) ts hcalled t hearlier
        · obtain ⟨bar, hbar, rfl⟩ := List.mem_map.mp hown
          exact hhead other hother ts hcalled bar hbar

/-- **What the gates count.**  The drawdown of every gate is that of the equity values before
it; and every gate of the run counts the past only, if and only if no symbol has a bar
later than one at which the gate of a symbol listed after it is evaluated. -/
theorem gate_causal_iff (d : Driver) :
    (∀ c ∈ d.run.trace.gateCalls,
      c.gate.drawdownUsedPct = (ForexAi.watermarks d.cfg.startEquity (c.curve.map (·.2))).2) ∧
    ((∀ c ∈ d.run.trace.gateCalls, c.Causal) ↔ d.cfg.symbols.Pairwise d.InOrder) := by
  have haccounted := d.accounted_run
  refine ⟨haccounted.drawdown, ?_⟩
  have hcausal : (∀ c ∈ d.run.trace.gateCalls, c.Causal) ↔
      ∀ c ∈ d.run.trace.gateCalls, c.MarkedBefore := by
    constructor
    · intro h c hc
      exact (GateCall.causal_iff (haccounted.rooted c hc)).mp (h c hc)
    · intro h c hc
      exact (GateCall.causal_iff (haccounted.rooted c hc)).mpr (h c hc)
  have hsame := d.context_account
  have hmarked : marked d.context = [] := by
    unfold marked
    rw [hsame.curve]
    rfl
  have hcalls : d.context.trace.gateCalls = [] := hsame.gateCalls
  rw [hcausal]
  unfold run
  rw [symbols_gates, hmarked, hcalls]
  simp

omit [Digest]

/-- Two symbols on the same two hours, always long. -/
def twoSymbols : Driver where
  cfg := stubConfig [.eurusd, .gbpusd] [.H1] hourly_ne_nil
  risk := .default
  history := fun _ _ => stubSeries [0, seconds 3600] (by decide)
  runner := stubRunner .long

/-- The first gate of the second symbol, at midnight, counts the position that the first
symbol enters an hour later. -/
theorem counts_later_position : ¬ ∀ (_ : Digest) (d : Driver),
    ∀ c ∈ d.run.trace.gateCalls, c.Causal := by
  intro h
  have hcausal := h Digest.zero twoSymbols
  exact absurd hcausal (by decide +kernel)

end Driver

end ForexAi
