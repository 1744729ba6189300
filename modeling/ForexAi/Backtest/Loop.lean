/-
The bar loop of a backtest, on decisions that are given.

The driver computes its decisions from the bars and the account.  What it does with
them does not depend on where they come from: `Loop` is that part alone, the broker and
the fill that waits for the next open.  `fineRun_loop` is the link: the driver's run
over the bars of a symbol is the loop, on the decisions the driver takes on the way.
-/
import ForexAi.Backtest.Bars

namespace ForexAi

/-- The broker, and the fill that waits for the next open. -/
structure Loop where
  broker : PaperBroker
  pending : Option PendingFill

namespace Loop

/-- A fresh broker, and nothing that waits. -/
def start (startEquity : ℚ) (seed : ℤ) (costParams : CostParams) : Loop where
  broker := .new startEquity seed costParams
  pending := none

variable [Digest]

/-- The broker at a bar's close: the pending fill executed at the open, the stop and target
evaluated at the close. -/
def atClose (fine : Timeframe) (symbol : Symbol) (s : Loop) (bar : Candle) : PaperBroker :=
  let opened :=
    match s.pending with
    | none => s.broker
    | some act => applyFill fine s.broker symbol act bar.openPrice bar.ts
  (opened.evaluateExit symbol bar.close bar.ts).2

/-- One bar: the open, the close, what is decided on it, and the mark. -/
def bar (fine : Timeframe) (symbol : Symbol) (totalBars : ℕ) (s : Loop) (i : ℕ) (bar : Candle)
    (decided : Option Intent) : Loop where
  broker := (((s.atClose fine symbol bar).markPosition symbol bar.close).state bar.ts).2
  pending := decided.bind fun intent =>
    scheduleFill (s.atClose fine symbol bar).positions symbol totalBars i intent

/-- The first `n` bars of the loop. -/
def after (fine : Timeframe) (symbol : Symbol) (bars : List (Candle × Option Intent)) (s : Loop)
    (n : ℕ) : Loop :=
  (List.range n).foldl
    (fun s i =>
      match bars[i]? with
      | none => s
      | some b => s.bar fine symbol bars.length i b.1 b.2) s

theorem after_succ {fine : Timeframe} {symbol : Symbol} {bars : List (Candle × Option Intent)}
    (s : Loop) {n : ℕ} {b : Candle × Option Intent} (hb : bars[n]? = some b) :
    after fine symbol bars s (n + 1)
      = (after fine symbol bars s n).bar fine symbol bars.length n b.1 b.2 := by
  unfold after
  rw [List.range_succ, List.foldl_append, List.foldl_cons, List.foldl_nil, hb]

/-- There is nothing after the last bar. -/
theorem after_beyond {fine : Timeframe} {symbol : Symbol} {bars : List (Candle × Option Intent)}
    (s : Loop) {n : ℕ} (hb : bars[n]? = none) :
    after fine symbol bars s (n + 1) = after fine symbol bars s n := by
  unfold after
  rw [List.range_succ, List.foldl_append, List.foldl_cons, List.foldl_nil, hb]

end Loop

/-! ### The driver's loop -/

namespace Driver

variable [Digest] (d : Driver) (symbol : Symbol) (bars : List Candle)

/-- What the driver's loop holds of a symbol. -/
def loopOf (s : DriverState) : Loop where
  broker := s.broker
  pending := s.pendingFills symbol

/-- What the driver wants to do after bar `i`, met in the state `s`: the intent of a paper
outcome. -/
def intentAt (s : DriverState) (i : ℕ) (bar : Candle) : Option Intent :=
  if d.decidesAt symbol d.cfg.fine bars i bar.ts = true then
    let outcome := d.outcomeAt symbol bars i s.last (d.brokerAtClose symbol s bar) bar
    if outcome.action = .persist ∧ outcome.status = some .paper then some outcome.intent else none
  else none

/-- The bars of a symbol with the intents of the driver's run over them. -/
def decidedBars (s : DriverState) : List (Candle × Option Intent) :=
  bars.zipIdx.map fun b =>
    (b.1, d.intentAt symbol bars (d.fineRun symbol bars s b.2) b.2 b.1)

theorem decidedBars_get {s : DriverState} {i : ℕ} {bar : Candle} (hbar : bars[i]? = some bar) :
    (d.decidedBars symbol bars s)[i]?
      = some (bar, d.intentAt symbol bars (d.fineRun symbol bars s i) i bar) := by
  unfold decidedBars
  rw [List.getElem?_map, List.getElem?_zipIdx, hbar]
  simp

/-- A fine bar is a bar of the loop. -/
theorem fineBar_loop {s : DriverState} {i : ℕ} {bar : Candle} (hbar : bars[i]? = some bar) :
    loopOf symbol (d.fineBar symbol bars s i)
      = (loopOf symbol s).bar d.cfg.fine symbol bars.length i bar
          (d.intentAt symbol bars s i bar) := by
  have heffect := d.fineBar_effect symbol bars hbar s
  have hclose : (loopOf symbol s).atClose d.cfg.fine symbol bar = d.brokerAtClose symbol s bar := by
    unfold Loop.atClose brokerAtClose evaluateClose executePending loopOf
    cases s.pendingFills symbol <;> rfl
  unfold Loop.bar
  rw [hclose]
  unfold loopOf
  rw [heffect.broker, heffect.pendingFills, Function.update_self]
  congr 1
  unfold intentAt
  by_cases hdecides : d.decidesAt symbol d.cfg.fine bars i bar.ts = true
  · rw [if_pos hdecides, if_pos hdecides]
    unfold scheduled
    simp only
    split <;> rfl
  · rw [if_neg hdecides, if_neg hdecides]
    rfl

/-- **The driver's run over the bars of a symbol is the loop**, on the decisions the driver
takes on the way. -/
theorem fineRun_loop (s : DriverState) (n : ℕ) :
    loopOf symbol (d.fineRun symbol bars s n)
      = Loop.after d.cfg.fine symbol (d.decidedBars symbol bars s) (loopOf symbol s) n := by
  have hlength : (d.decidedBars symbol bars s).length = bars.length := by
    unfold decidedBars
    rw [List.length_map, List.length_zipIdx]
  induction n with
  | zero => rfl
  | succ n ih =>
      rw [d.fineRun_succ]
      cases hbar : bars[n]? with
      | none =>
          have hnone : (d.decidedBars symbol bars s)[n]? = none := by
            rw [List.getElem?_eq_none_iff] at hbar ⊢
            rw [hlength]
            exact hbar
          rw [Loop.after_beyond _ hnone, ← ih]
          unfold fineBar
          rw [hbar]
      | some bar =>
          rw [Loop.after_succ _ (d.decidedBars_get symbol bars hbar), hlength, ← ih]
          exact d.fineBar_loop symbol bars hbar

end Driver

end ForexAi
