/-
What a backtest knows of the future.

A bar is stamped with the start of its bucket and is over one bucket later, so the
stamp of a bar is no time at which it could be known; `closedBy` is.  Two histories that
agree on every bar closed by `t` should give runs that agree on what was decided,
filled, closed and marked at bars closed by `t`.

Replayed by itself a timeframe does: the closed bars are a prefix of both series, the two
replays go through it in step (`fineRun_agree`), and what comes after is stamped later
(`fineRun_later`).  With a larger timeframe beside it a run does not.  The larger
timeframe is replayed to its end before the smallest one starts, only the last decision
of a timeframe is kept, and nothing asks when that decision was made: the first bar of
the smallest timeframe is decided in the context of the last bar of the larger.
-/
import ForexAi.Backtest.Bars
import ForexAi.Backtest.Stub
import ForexAi.Lib.Ascending
import ForexAi.Lib.Runs

namespace ForexAi

/-- A bar stamped `ts` is over by `t`. -/
def closedBy (t : Time) (tf : Timeframe) (ts : Time) : Bool := decide (ts + tf.length ≤ t)

/-- The histories agree on every bar closed by `t`. -/
def History.AgreeUpTo (t : Time) (h h' : History) : Prop :=
  ∀ symbol tf, ((h symbol tf).rows.filter fun c => closedBy t tf c.ts)
    = (h' symbol tf).rows.filter fun c => closedBy t tf c.ts

/-- What a run gives. -/
structure Outputs where
  outcomes : List DecisionRecord
  fills : List FillRecord
  trades : List Trade
  equityPoints : List (Time × ℚ)

/-- What a run has given at bars closed by `t`. -/
def DriverState.upTo (t : Time) (fine : Timeframe) (s : DriverState) : Outputs where
  outcomes := s.trace.outcomes.filter fun r => closedBy t r.timeframe r.ts
  fills := s.trace.fills.filter fun r => closedBy t fine r.ts
  trades := s.broker.trades.filter fun r => closedBy t fine r.exitTs
  equityPoints := s.equityPoints.filter fun p => closedBy t fine p.1

namespace Driver

/-- The driver on another history. -/
def on (d : Driver) (history : History) : Driver := { d with history := history }

/-! ### The closed part of the data

Every bar closed by the time comes before every bar that is not, so the closed bars are a
prefix of the series, and what the runner is shown at a closed bar lies in that prefix.
-/

/-- The bars closed by `t`. -/
def closedBars (d : Driver) (t : Time) (symbol : Symbol) (tf : Timeframe) : List Candle :=
  (d.loadBars symbol tf).filter fun c => closedBy t tf c.ts

theorem loadBars_split (d : Driver) (t : Time) (symbol : Symbol) (tf : Timeframe) :
    ∃ rest, d.loadBars symbol tf = d.closedBars t symbol tf ++ rest ∧
      ∀ c ∈ rest, closedBy t tf c.ts = false := by
  refine Ascending.split_filter ((d.loadBars_ascending symbol tf).imp ?_)
  intro a b hab hb
  unfold closedBy at hb ⊢
  rw [decide_eq_true_eq] at hb ⊢
  have hlt : a.ts < b.ts := hab
  exact (Int.add_le_add_right hlt.le _).trans hb

theorem closedBars_agree (d : Driver) {h' : History} {t : Time} (h : d.history.AgreeUpTo t h')
    (symbol : Symbol) (tf : Timeframe) :
    (d.on h').closedBars t symbol tf = d.closedBars t symbol tf := by
  have hrange : ∀ rows : List Candle,
      ((rows.filter fun c => decide (alignToBucket d.cfg.start tf ≤ c.ts) &&
          decide (c.ts < d.cfg.stop)).filter fun c => closedBy t tf c.ts)
        = (rows.filter fun c => closedBy t tf c.ts).filter fun c =>
          decide (alignToBucket d.cfg.start tf ≤ c.ts) && decide (c.ts < d.cfg.stop) := by
    intro rows
    rw [List.filter_filter, List.filter_filter]
    exact List.filter_congr fun c _ => Bool.and_comm _ _
  unfold closedBars loadBars
  show List.filter _ ((h' symbol tf).rows.filter fun c =>
    decide (alignToBucket d.cfg.start tf ≤ c.ts) && decide (c.ts < d.cfg.stop)) = _
  rw [hrange, hrange, h symbol tf]

/-- The day before a bucket closed by `t` is among the closed days. -/
theorem prevDaily_closed (d : Driver) {t bucket : Time} (hbucket : bucket ≤ t)
    (symbol : Symbol) :
    d.prevDaily symbol bucket =
      if Timeframe.D1 ∈ d.cfg.timeframes then
        (((d.closedBars t symbol .D1).takeWhile fun c =>
          decide (c.ts + Timeframe.D1.length ≤ bucket)).getLast?).map fun c =>
            { high := c.high, low := c.low, close := c.close }
      else none := by
  obtain ⟨rest, hsplit, hrest⟩ := d.loadBars_split t symbol .D1
  have hlate : ∀ c ∈ rest, decide (c.ts + Timeframe.D1.length ≤ bucket) = false := by
    intro c hc
    have hopen := hrest c hc
    unfold closedBy at hopen
    rw [decide_eq_false_iff_not] at hopen ⊢
    exact fun hover => hopen (hover.trans hbucket)
  unfold prevDaily
  rw [hsplit, Ascending.takeWhile_append_of_fails _ hlate]

theorem signalsAt_agree (d : Driver) {h' : History} {t : Time} (h : d.history.AgreeUpTo t h')
    (symbol : Symbol) (tf : Timeframe) {i : ℕ} (hi : i < (d.closedBars t symbol tf).length)
    {bucket : Time} (hbucket : bucket ≤ t) :
    (d.on h').signalsAt symbol tf ((d.on h').loadBars symbol tf) i bucket
      = d.signalsAt symbol tf (d.loadBars symbol tf) i bucket := by
  obtain ⟨rest, hsplit, -⟩ := d.loadBars_split t symbol tf
  obtain ⟨rest', hsplit', -⟩ := (d.on h').loadBars_split t symbol tf
  rw [closedBars_agree d h] at hsplit'
  have hwindow : window ((d.on h').loadBars symbol tf) i = window (d.loadBars symbol tf) i := by
    unfold window
    rw [hsplit, hsplit', List.take_append_of_le_length (by omega),
      List.take_append_of_le_length (by omega)]
  have hdaily : (d.on h').prevDaily symbol bucket = d.prevDaily symbol bucket := by
    rw [prevDaily_closed _ hbucket, prevDaily_closed _ hbucket, closedBars_agree d h]
    rfl
  unfold signalsAt
  rw [hwindow, hdaily]
  rfl

/-! ### The closed bars, in step

The replay of a bar looks one bar ahead, to see whether an order can still be filled.  At the
last closed bar the two histories may differ in that, which is why the relation speaks of what
is known and not of the whole state.
-/

/-- Two states of which the same is known. -/
structure SameRun (s s' : DriverState) : Prop where
  broker : s'.broker = s.broker
  last : s'.last = s.last
  equityPoints : s'.equityPoints = s.equityPoints
  outcomes : s'.trace.outcomes = s.trace.outcomes
  fills : s'.trace.fills = s.trace.fills

theorem SameRun.upTo {s s' : DriverState} (h : SameRun s s') (t : Time) (fine : Timeframe) :
    s'.upTo t fine = s.upTo t fine := by
  unfold DriverState.upTo
  rw [h.broker, h.equityPoints, h.outcomes, h.fills]

variable [Digest]

/-- One closed bar, on both histories.  What it leaves pending is the same as long as both
have another bar. -/
theorem fineBar_agree (d : Driver) {h' : History} {t : Time} (h : d.history.AgreeUpTo t h')
    (symbol : Symbol) {i : ℕ} (hi : i < (d.closedBars t symbol d.cfg.fine).length)
    {s s' : DriverState} (hsame : SameRun s s')
    (hpending : s'.pendingFills symbol = s.pendingFills symbol) :
    SameRun (d.fineBar symbol (d.loadBars symbol d.cfg.fine) s i)
        ((d.on h').fineBar symbol ((d.on h').loadBars symbol d.cfg.fine) s' i) ∧
      (i + 1 < (d.closedBars t symbol d.cfg.fine).length →
        ((d.on h').fineBar symbol ((d.on h').loadBars symbol d.cfg.fine) s' i).pendingFills symbol
          = (d.fineBar symbol (d.loadBars symbol d.cfg.fine) s i).pendingFills symbol) := by
  set bars := d.loadBars symbol d.cfg.fine with hbars
  set bars' := (d.on h').loadBars symbol d.cfg.fine with hbars'
  obtain ⟨rest, hsplit, -⟩ := d.loadBars_split t symbol d.cfg.fine
  obtain ⟨rest', hsplit', -⟩ := (d.on h').loadBars_split t symbol d.cfg.fine
  rw [closedBars_agree d h, ← hbars'] at hsplit'
  rw [← hbars] at hsplit
  set closed := d.closedBars t symbol d.cfg.fine with hclosed
  have hbar : bars[i]? = some closed[i] := by
    rw [hsplit, List.getElem?_append_left hi, List.getElem?_eq_getElem hi]
  have hbar' : bars'[i]? = some closed[i] := by
    rw [hsplit', List.getElem?_append_left hi, List.getElem?_eq_getElem hi]
  have hbucket : closed[i].ts ≤ t := by
    have hmem : closed[i] ∈ d.closedBars t symbol d.cfg.fine := List.getElem_mem hi
    have hover := (List.mem_filter.mp hmem).2
    unfold closedBy at hover
    rw [decide_eq_true_eq] at hover
    have hpos := d.cfg.fine.length_pos
    exact le_trans (le_add_of_nonneg_right hpos.le) hover
  set bar := closed[i] with hbardef
  have hsignals := signalsAt_agree d h symbol d.cfg.fine hi hbucket
  rw [← hbars, ← hbars'] at hsignals
  have heffect := d.fineBar_effect symbol bars hbar s
  have heffect' := (d.on h').fineBar_effect symbol bars' hbar' s'
  have hbroker : (d.on h').brokerAtClose symbol s' bar = d.brokerAtClose symbol s bar := by
    rw [brokerAtClose_eq_run, brokerAtClose_eq_run, hsame.broker]
    unfold callsAtOpen
    rw [hpending]
    rfl
  have hdecides : (d.on h').decidesAt symbol (d.on h').cfg.fine bars' i bar.ts
      = d.decidesAt symbol d.cfg.fine bars i bar.ts := by
    unfold decidesAt
    show (decide (d.cfg.warmupBars ≤ i) && _) = _
    rw [show (d.on h').cfg.fine = d.cfg.fine from rfl, hsignals]
  have houtcome : (d.on h').outcomeAt symbol bars' i s'.last
      ((d.on h').brokerAtClose symbol s' bar) bar
      = d.outcomeAt symbol bars i s.last (d.brokerAtClose symbol s bar) bar := by
    unfold outcomeAt
    rw [show (d.on h').cfg = d.cfg from rfl, hsignals, hsame.last, hbroker]
    rfl
  refine ⟨⟨?_, ?_, ?_, ?_, ?_⟩, ?_⟩
  · rw [heffect'.broker, heffect.broker, hbroker]
  · rw [heffect'.last, heffect.last, hdecides, houtcome, hsame.last]
    rfl
  · rw [heffect'.equityPoints, heffect.equityPoints, hbroker, hsame.equityPoints]
  · rw [heffect'.outcomes, heffect.outcomes, hdecides, houtcome, hsame.outcomes]
    rfl
  · rw [heffect'.fills, heffect.fills, hsame.fills, hpending]
  · intro hnext
    have hmore : i + 1 < bars.length := by
      rw [hsplit, List.length_append]
      omega
    have hmore' : i + 1 < bars'.length := by
      rw [hsplit', List.length_append]
      omega
    rw [heffect'.pendingFills, heffect.pendingFills, Function.update_self, Function.update_self,
      hdecides, houtcome, hbroker]
    unfold scheduled scheduleFill
    rw [if_neg (by omega : ¬ bars'.length ≤ i + 1), if_neg (by omega : ¬ bars.length ≤ i + 1)]

/-- The closed bars of both histories, from states of which the same is known. -/
theorem fineRun_agree (d : Driver) {h' : History} {t : Time} (h : d.history.AgreeUpTo t h')
    (symbol : Symbol) {s s' : DriverState} (hsame : SameRun s s')
    (hpending : s'.pendingFills symbol = s.pendingFills symbol) :
    ∀ n ≤ (d.closedBars t symbol d.cfg.fine).length,
      SameRun (d.fineRun symbol (d.loadBars symbol d.cfg.fine) s n)
          ((d.on h').fineRun symbol ((d.on h').loadBars symbol d.cfg.fine) s' n) ∧
        (n < (d.closedBars t symbol d.cfg.fine).length →
          ((d.on h').fineRun symbol ((d.on h').loadBars symbol d.cfg.fine) s' n).pendingFills
              symbol
            = (d.fineRun symbol (d.loadBars symbol d.cfg.fine) s n).pendingFills symbol) := by
  intro n
  induction n with
  | zero => intro _; exact ⟨hsame, fun _ => hpending⟩
  | succ n ih =>
      intro hn
      obtain ⟨hrun, hfill⟩ := ih (by omega)
      rw [fineRun_succ, fineRun_succ]
      exact fineBar_agree d h symbol (by omega) hrun (hfill (by omega))

/-! ### The bars that are not closed

Trades, points and decisions of later bars are stamped later.  So they are cut off by `upTo`,
whatever they are.
-/

omit [Digest] in
theorem recordEquity_later {t ts : Time} {fine : Timeframe} (hlate : closedBy t fine ts = false)
    (points : List (Time × ℚ)) (equity : ℚ) :
    ((recordEquity points ts equity).filter fun p => closedBy t fine p.1)
      = points.filter fun p => closedBy t fine p.1 := by
  unfold recordEquity
  cases hlast : points.getLast? with
  | none =>
      rw [List.getLast?_eq_none_iff.mp hlast]
      simp [hlate]
  | some point =>
      obtain ⟨init, hinit⟩ := List.getLast?_eq_some_iff.mp hlast
      obtain ⟨stamp, value⟩ := point
      simp only
      by_cases hsame : stamp = ts
      · rw [if_pos hsame, hinit, List.dropLast_concat, List.filter_append, List.filter_append]
        simp [hsame, hlate]
      · rw [if_neg hsame, List.filter_append]
        simp [hlate]

theorem fineBar_later (d : Driver) (symbol : Symbol) {bars : List Candle} {i : ℕ} {bar : Candle}
    (hbar : bars[i]? = some bar) {t : Time} (hlate : closedBy t d.cfg.fine bar.ts = false)
    (s : DriverState) :
    (d.fineBar symbol bars s i).upTo t d.cfg.fine = s.upTo t d.cfg.fine := by
  have heffect := d.fineBar_effect symbol bars hbar s
  have htrades : (d.fineBar symbol bars s i).broker.trades
      = (s.broker.run (d.callsAtOpen symbol s bar)).trades := by
    rw [heffect.broker, brokerAtClose_eq_run]
    rfl
  obtain ⟨new, hnew, hstamps⟩ := PaperBroker.run_trades (d.callsAtOpen_stamp symbol) s.broker
  have hleft : ∀ r ∈ new, closedBy t d.cfg.fine r.exitTs = false := by
    intro r hr
    rw [hstamps r hr]
    exact hlate
  unfold DriverState.upTo
  rw [heffect.outcomes, heffect.fills, heffect.equityPoints, htrades, hnew,
    recordEquity_later hlate, Ascending.filter_append_of_fails _ hleft,
    Ascending.filter_append_of_fails, Ascending.filter_append_of_fails]
  · intro fill hfill
    obtain ⟨act, -, rfl⟩ := List.mem_map.mp hfill
    exact hlate
  · intro record hrecord
    by_cases hdecides : d.decidesAt symbol d.cfg.fine bars i bar.ts = true
    · rw [if_pos hdecides] at hrecord
      rw [List.mem_singleton.mp hrecord]
      exact hlate
    · rw [if_neg hdecides] at hrecord
      exact absurd hrecord (by simp)

theorem fineRun_later (d : Driver) (t : Time) (symbol : Symbol) (s : DriverState) :
    (d.fineRun symbol (d.loadBars symbol d.cfg.fine) s
        (d.loadBars symbol d.cfg.fine).length).upTo t d.cfg.fine
      = (d.fineRun symbol (d.loadBars symbol d.cfg.fine) s
          (d.closedBars t symbol d.cfg.fine).length).upTo t d.cfg.fine := by
  obtain ⟨rest, hsplit, hrest⟩ := d.loadBars_split t symbol d.cfg.fine
  have hsteps : ∀ m ≤ rest.length,
      (d.fineRun symbol (d.loadBars symbol d.cfg.fine) s
          ((d.closedBars t symbol d.cfg.fine).length + m)).upTo t d.cfg.fine
        = (d.fineRun symbol (d.loadBars symbol d.cfg.fine) s
            (d.closedBars t symbol d.cfg.fine).length).upTo t d.cfg.fine := by
    intro m
    induction m with
    | zero => intro _; rfl
    | succ m ih =>
        intro hm
        have hbar : (d.loadBars symbol d.cfg.fine)[(d.closedBars t symbol d.cfg.fine).length + m]?
            = some rest[m] := by
          rw [hsplit, List.getElem?_append_right (by omega), Nat.add_sub_cancel_left,
            List.getElem?_eq_getElem]
        rw [← Nat.add_assoc, fineRun_succ,
          fineBar_later d symbol hbar (hrest _ (List.getElem_mem _)), ih (by omega)]
  have hlength : (d.loadBars symbol d.cfg.fine).length
      = (d.closedBars t symbol d.cfg.fine).length + rest.length := by
    conv_lhs => rw [hsplit]
    exact List.length_append
  rw [hlength]
  exact hsteps rest.length le_rfl

/-- **The smallest timeframe does not look ahead**, started from states of which the same is
known. -/
theorem runFine_upTo (d : Driver) {h' : History} {t : Time} (h : d.history.AgreeUpTo t h')
    (symbol : Symbol) {s s' : DriverState} (hsame : SameRun s s')
    (hpending : s'.pendingFills symbol = s.pendingFills symbol) :
    ((d.on h').runFine s' symbol).upTo t d.cfg.fine = (d.runFine s symbol).upTo t d.cfg.fine := by
  have hfields : ∀ (d : Driver) (s : DriverState), (d.runFine s symbol).upTo t d.cfg.fine
      = (d.fineRun symbol (d.loadBars symbol d.cfg.fine) s
          (d.closedBars t symbol d.cfg.fine).length).upTo t d.cfg.fine := by
    intro d s
    obtain ⟨hbroker, htrace, hpoints⟩ := d.runFine_fields symbol s
    rw [← fineRun_later]
    unfold DriverState.upTo
    rw [hbroker, htrace, hpoints]
  have hclosed := closedBars_agree d h symbol d.cfg.fine
  have hon : (d.on h').cfg.fine = d.cfg.fine := rfl
  rw [hfields d s, ← hon, hfields (d.on h') s', hon, hclosed]
  exact (fineRun_agree d h symbol hsame hpending _ le_rfl).1.upTo t d.cfg.fine

/-! ### The smallest timeframe and the others -/

omit [Digest] in
/-- Ranked, the timeframes are the smallest one and then the others, all of them longer. -/
theorem byRank_fine (cfg : BacktestConfig) : ∃ larger, byRank cfg.timeframes = cfg.fine :: larger ∧
    ∀ tf ∈ cfg.timeframes, tf ≠ cfg.fine → tf ∈ larger ∧ cfg.fine.length < tf.length := by
  have hcons : byRank cfg.timeframes = cfg.fine :: (byRank cfg.timeframes).tail :=
    (List.cons_head_tail (byRank_ne_nil cfg.timeframes_ne)).symm
  have hsorted : (byRank cfg.timeframes).Pairwise fun a b => a.rank ≤ b.rank := by
    have htotal : Std.Total fun a b : Timeframe => a.rank ≤ b.rank :=
      ⟨fun a b => Nat.le_total a.rank b.rank⟩
    have htrans : IsTrans Timeframe fun a b => a.rank ≤ b.rank :=
      ⟨fun _ _ _ hab hbc => Nat.le_trans hab hbc⟩
    exact List.pairwise_insertionSort _ _
  refine ⟨_, hcons, fun tf htf hne => ?_⟩
  have hmem : tf ∈ byRank cfg.timeframes := (List.mem_insertionSort _).mpr htf
  rw [hcons] at hmem hsorted
  have hlarger := (List.mem_cons.mp hmem).resolve_left hne
  have hle : cfg.fine.rank ≤ tf.rank := List.rel_of_pairwise_cons hsorted hlarger
  have hrank : cfg.fine.rank ≠ tf.rank := fun heq => hne (Timeframe.rank_injective heq.symm)
  exact ⟨hlarger, Timeframe.length_lt (by omega)⟩

omit [Digest] in
theorem fine_mem (cfg : BacktestConfig) : cfg.fine ∈ cfg.timeframes := by
  obtain ⟨larger, hranked, -⟩ := byRank_fine cfg
  have hmem : cfg.fine ∈ byRank cfg.timeframes := by simp [hranked]
  exact (List.mem_insertionSort _).mp hmem

omit [Digest] in
theorem mem_contextFrames (cfg : BacktestConfig) {tf : Timeframe} :
    tf ∈ cfg.contextFrames ↔ tf ∈ cfg.timeframes ∧ tf ≠ cfg.fine := by
  unfold BacktestConfig.contextFrames
  rw [List.mem_filter, List.mem_insertionSort, decide_eq_true_eq]

/-! ### A run of one symbol -/

/-- On the timeframes, no run of one symbol looks ahead: histories that agree on every bar
closed by a time give the same at bars closed by that time. -/
def NoLookAhead (timeframes : List Timeframe) : Prop :=
  ∀ (d : Driver) (symbol : Symbol) (h' : History) (t : Time),
    d.cfg.timeframes = timeframes → d.cfg.symbols = [symbol] → d.history.AgreeUpTo t h' →
    (d.on h').run.upTo t d.cfg.fine = d.run.upTo t d.cfg.fine

/-- A run on one timeframe does not look ahead. -/
theorem noLookAhead_single {timeframes : List Timeframe}
    (h : ∀ a ∈ timeframes, ∀ b ∈ timeframes, a = b) : NoLookAhead timeframes := by
  intro d symbol h' t htimeframes hsymbols hagree
  have hcontext : d.cfg.contextFrames = [] := by
    rw [List.eq_nil_iff_forall_not_mem]
    intro tf htf
    obtain ⟨hmem, hne⟩ := (mem_contextFrames d.cfg).mp htf
    have hfine := fine_mem d.cfg
    rw [htimeframes] at hmem hfine
    exact hne (h tf hmem _ hfine)
  have hstart : ∀ d' : Driver, d'.cfg = d.cfg → d'.run = d'.runFine d.start symbol := by
    intro d' hcfg
    unfold run context
    rw [hcfg, hcontext, hsymbols]
    unfold start
    rw [hcfg]
    rfl
  rw [hstart d rfl, hstart (d.on h') rfl]
  exact runFine_upTo d hagree symbol ⟨rfl, rfl, rfl, rfl, rfl⟩ rfl

/-! ### The leak

A first bar on a longer timeframe, always decided long, is all it takes.  The bar is not over
by the end of the first bar of the smallest timeframe, its decision is in the context all the
same, and without it there would be no context.
-/

omit [Digest] in
/-- One bar at zero on each of the frames. -/
def firstBars (frames : List Timeframe) : History := fun _ tf =>
  stubSeries (if tf ∈ frames then [0] else []) (by split <;> simp)

omit [Digest] in
/-- A run over first bars, always long. -/
def overFirstBars (timeframes : List Timeframe) (h : timeframes ≠ []) (frames : List Timeframe) :
    Driver where
  cfg := stubConfig [.eurusd] timeframes h
  risk := .default
  history := firstBars frames
  runner := stubRunner .long

section
variable {timeframes : List Timeframe} {h : timeframes ≠ []} {frames : List Timeframe}

omit [Digest] in
theorem overFirstBars_bars (symbol : Symbol) (tf : Timeframe) :
    (overFirstBars timeframes h frames).loadBars symbol tf
      = if tf ∈ frames then [stubBar 0] else [] := by
  unfold loadBars
  show List.filter _ (List.map stubBar (if tf ∈ frames then [0] else [])) = _
  by_cases hmem : tf ∈ frames
  · rw [if_pos hmem, if_pos hmem]
    have hstart : alignToBucket 0 tf = 0 := by simp [alignToBucket]
    have hin : (decide (alignToBucket 0 tf ≤ (stubBar 0).ts)
        && decide ((stubBar 0).ts < seconds 86400)) = true := by
      rw [hstart]
      decide
    exact List.filter_cons_of_pos hin
  · rw [if_neg hmem, if_neg hmem]
    rfl

omit [Digest] in
/-- The last decision on the frame is to go long, and it is still fresh at zero. -/
def Long (tf : Timeframe) (s : DriverState) : Prop :=
  ∃ recent, s.last .eurusd tf = some recent ∧ recent.direction = .long ∧ 0 < recent.confidence ∧
    0 ≤ recent.validUntil

omit [Digest] in
theorem runContextTf_overFirstBars (s : DriverState) (tf : Timeframe) :
    (tf ∈ frames → ∃ recent, recent.direction = .long ∧ 0 < recent.confidence ∧
      0 ≤ recent.validUntil ∧
      ((overFirstBars timeframes h frames).runContextTf s .eurusd tf).last =
        Function.update s.last .eurusd (Function.update (s.last .eurusd) tf (some recent))) ∧
    (tf ∉ frames → (overFirstBars timeframes h frames).runContextTf s .eurusd tf = s) := by
  unfold runContextTf
  rw [overFirstBars_bars]
  refine ⟨fun hmem => ?_, fun hmem => ?_⟩
  · rw [if_pos hmem]
    set outcome := decideOutcome s.last .eurusd tf 0 0
      (stubRunner .long
        { symbol := .eurusd, timeframe := tf, bucketTs := 0,
          candles := window [stubBar 0] 0, now := 0,
          prevDaily := (overFirstBars timeframes h frames).prevDaily .eurusd 0,
          pipSize := pipSize .eurusd })
      (stubBar 0).close timeframes {} .default with houtcome
    obtain ⟨haction, hdirection, hconfidence, -⟩ := decideOutcome_stub s.last .eurusd tf 0 0
      { symbol := .eurusd, timeframe := tf, bucketTs := 0,
        candles := window [stubBar 0] 0, now := 0,
        prevDaily := (overFirstBars timeframes h frames).prevDaily .eurusd 0,
        pipSize := pipSize .eurusd }
      (stubBar 0).close timeframes {} .default
    refine ⟨outcome.recent tf 0, hdirection, hconfidence, ?_, ?_⟩
    · show (0 : ℤ) ≤ 0 + seconds (tf.seconds * 4)
      exact add_nonneg le_rfl (seconds_nonneg _)
    · show s.last.record .eurusd tf 0 outcome = _
      unfold RecentDecisions.record
      rw [if_pos haction]
  · rw [if_neg hmem]
    rfl

omit [Digest] in
theorem Long.kept {other : Timeframe} {s : DriverState} (hlong : Long other s) (tf : Timeframe) :
    Long other ((overFirstBars timeframes h frames).runContextTf s .eurusd tf) := by
  by_cases hmem : tf ∈ frames
  · obtain ⟨recent, hdirection, hconfidence, hfresh, hlast⟩ :=
      (@runContextTf_overFirstBars timeframes h frames s tf).1 hmem
    unfold Long
    rw [hlast, Function.update_self]
    by_cases hsame : other = tf
    · subst hsame
      exact ⟨recent, Function.update_self _ _ _, hdirection, hconfidence, hfresh⟩
    · rw [Function.update_of_ne hsame]
      exact hlong
  · rw [(@runContextTf_overFirstBars timeframes h frames s tf).2 hmem]
    exact hlong

omit [Digest] in
/-- A context frame with a bar ends the context on a long decision. -/
theorem context_long {tf : Timeframe}
    (hframe : tf ∈ (overFirstBars timeframes h frames).cfg.contextFrames) (hmem : tf ∈ frames) :
    Long tf (overFirstBars timeframes h frames).context := by
  refine @Runs.established _ _ _ (Long tf) tf ?_ ?_ _ hframe _
  · intro s
    obtain ⟨recent, hdirection, hconfidence, hfresh, hlast⟩ :=
      (@runContextTf_overFirstBars timeframes h frames s tf).1 hmem
    refine ⟨recent, ?_, hdirection, hconfidence, hfresh⟩
    show ((overFirstBars timeframes h frames).runContextTf s .eurusd tf).last .eurusd tf = _
    rw [hlast, Function.update_self, Function.update_self]
  · intro s other hlong
    exact hlong.kept other

omit [Digest] in
/-- Context frames without bars leave no decision. -/
theorem context_empty
    (hframes : ∀ tf ∈ (overFirstBars timeframes h frames).cfg.contextFrames, tf ∉ frames) :
    (overFirstBars timeframes h frames).context = (overFirstBars timeframes h frames).start := by
  unfold context
  refine List.foldlRecOn
    (motive := fun s => s = (overFirstBars timeframes h frames).start) _ _ rfl ?_
  intro s hs tf htf
  rw [hs]
  exact (@runContextTf_overFirstBars timeframes h frames _ tf).2 (hframes tf htf)

omit [Digest] in
theorem overFirstBars_agree {fine larger : Timeframe} (hother : larger ≠ fine)
    (hlong : fine.length < larger.length) :
    (overFirstBars timeframes h [fine]).history.AgreeUpTo fine.length
      (overFirstBars timeframes h [fine, larger]).history := by
  intro symbol tf
  show ((if tf ∈ [fine] then [0] else []).map stubBar).filter _
    = ((if tf ∈ [fine, larger] then [0] else []).map stubBar).filter _
  by_cases hfine : tf = fine
  · simp [hfine]
  · by_cases hsame : tf = larger
    · have hopen : closedBy fine.length larger (stubBar 0).ts = false := by
        unfold closedBy
        rw [decide_eq_false_iff_not, not_le]
        exact hlong.trans_eq (zero_add _).symm
      simp [hsame, hother, hopen]
    · simp [hfine, hsame]

/-- The decision on the first bar of the smallest timeframe, after the context. -/
theorem run_overFirstBars (hfine : (stubConfig [.eurusd] timeframes h).fine ∈ frames) :
    ∃ outcome : DecisionOutcome,
      (overFirstBars timeframes h frames).run.trace.outcomes
        = (overFirstBars timeframes h frames).context.trace.outcomes ++
          [⟨.eurusd, (stubConfig [.eurusd] timeframes h).fine, 0, outcome⟩] ∧
      outcome.fused.preContextScore =
        if (parentContext (overFirstBars timeframes h frames).context.last .eurusd
          (stubConfig [.eurusd] timeframes h).fine timeframes 0).isSome then 4 / 5 else 0 := by
  set d := overFirstBars timeframes h frames with hd
  have hbars : d.loadBars .eurusd d.cfg.fine = [stubBar 0] := by
    rw [hd, overFirstBars_bars]
    exact if_pos hfine
  obtain ⟨-, htrace, -⟩ := d.runFine_fields .eurusd d.context
  have heffect := d.fineBar_effect .eurusd [stubBar 0] (i := 0) rfl d.context
  refine ⟨d.outcomeAt .eurusd [stubBar 0] 0 d.context.last
    (d.brokerAtClose .eurusd d.context (stubBar 0)) (stubBar 0), ?_, ?_⟩
  · show (d.runFine d.context .eurusd).trace.outcomes = _
    rw [htrace, hbars]
    exact heffect.outcomes
  · exact (decideOutcome_stub _ _ _ _ _ _ _ _ _ _).2.2.2

end

omit [Digest] in
/-- A fresh decision on a context frame is a parent context of the smallest one. -/
theorem parentContext_of_long (cfg : BacktestConfig) {last : RecentDecisions} {symbol : Symbol}
    {tf : Timeframe} {now : Time} (htf : tf ∈ cfg.timeframes) (hne : tf ≠ cfg.fine)
    {recent : RecentDecision} (hlast : last symbol tf = some recent)
    (hdirection : recent.direction = .long) (hconfidence : 0 < recent.confidence)
    (hfresh : now ≤ recent.validUntil) :
    (parentContext last symbol cfg.fine cfg.timeframes now).isSome = true := by
  obtain ⟨larger, hranked, hlarger⟩ := byRank_fine cfg
  obtain ⟨hmem, -⟩ := hlarger tf htf hne
  have hcontext : ((last symbol tf).bind fun recent => recent.context now).isSome = true := by
    rw [hlast]
    show (recent.context now).isSome = true
    unfold RecentDecision.context
    rw [if_neg (not_lt.mpr hfresh), if_neg]
    · rfl
    · rintro (hflat | hidle)
      · rw [hdirection] at hflat
        exact absurd hflat (by decide)
      · exact absurd hconfidence (not_lt.mpr hidle)
  unfold parentContext
  rw [hranked]
  simp only [List.idxOf?_cons, beq_self_eq_true, if_true, List.drop_succ_cons, List.drop_zero]
  rw [List.findSome?_isSome_iff]
  exact ⟨tf, hmem, hcontext⟩

omit [Digest] in
/-- Without decisions there is no parent context. -/
theorem parentContext_start (d : Driver) (symbol : Symbol) (timeframe : Timeframe) (now : Time) :
    (parentContext d.start.last symbol timeframe d.cfg.timeframes now).isSome = false := by
  unfold parentContext
  simp only
  split
  · rfl
  · rw [Bool.eq_false_iff, Ne, List.findSome?_isSome_iff]
    rintro ⟨tf, -, htf⟩
    exact absurd htf (by simp [start])

/-- **With a larger timeframe a run looks ahead**: the first bar of the smallest one is decided
in the context of the first of the larger, which is not over by then. -/
theorem not_noLookAhead {timeframes : List Timeframe} {a b : Timeframe} (ha : a ∈ timeframes)
    (hb : b ∈ timeframes) (hne : a ≠ b) : ¬ NoLookAhead timeframes := by
  intro hlook
  have hcfg : timeframes ≠ [] := List.ne_nil_of_mem ha
  set cfg := stubConfig [.eurusd] timeframes hcfg with hcfgdef
  obtain ⟨larger, hlarger, hother⟩ : ∃ tf ∈ timeframes, tf ≠ cfg.fine := by
    by_cases hfine : a = cfg.fine
    · exact ⟨b, hb, fun h => hne (hfine.trans h.symm)⟩
    · exact ⟨a, ha, hfine⟩
  obtain ⟨rest, -, hrest⟩ := byRank_fine cfg
  obtain ⟨-, hlong⟩ := hrest larger hlarger hother
  set d := overFirstBars timeframes hcfg [cfg.fine] with hd
  set d' := overFirstBars timeframes hcfg [cfg.fine, larger] with hd'
  -- The bar of the larger timeframe is the only difference, and it is not closed.
  have hagree : d.history.AgreeUpTo cfg.fine.length d'.history :=
    @overFirstBars_agree timeframes hcfg cfg.fine larger hother hlong
  obtain ⟨outcome, houtcomes, hscore⟩ := @run_overFirstBars _ timeframes hcfg [cfg.fine]
    List.mem_cons_self
  obtain ⟨outcome', houtcomes', hscore'⟩ := @run_overFirstBars _ timeframes hcfg
    [cfg.fine, larger] List.mem_cons_self
  rw [← hcfgdef, ← hd] at houtcomes hscore
  rw [← hcfgdef, ← hd'] at houtcomes' hscore'
  have hcontext : d.context = d.start := by
    refine context_empty fun tf htf hmem => ?_
    exact ((mem_contextFrames _).mp htf).2 (List.mem_singleton.mp hmem)
  have hwithout : outcome.fused.preContextScore = 0 := by
    rw [hscore, hcontext, if_neg]
    rw [Bool.not_eq_true]
    exact parentContext_start d .eurusd cfg.fine 0
  have hwith : outcome'.fused.preContextScore = 4 / 5 := by
    obtain ⟨recent, hlast, hdirection, hconfidence, hfresh⟩ :=
      @context_long timeframes hcfg [cfg.fine, larger] larger
        ((mem_contextFrames _).mpr ⟨hlarger, hother⟩) (by simp)
    rw [hscore', if_pos]
    exact parentContext_of_long cfg hlarger hother hlast hdirection hconfidence hfresh
  have hclosed : closedBy cfg.fine.length cfg.fine 0 = true := by
    unfold closedBy
    rw [decide_eq_true_eq, zero_add]
  have hequal : d'.run.upTo cfg.fine.length cfg.fine = d.run.upTo cfg.fine.length cfg.fine :=
    hlook d .eurusd d'.history cfg.fine.length rfl rfl hagree
  have hmem : (⟨.eurusd, cfg.fine, 0, outcome'⟩ : DecisionRecord)
      ∈ (d.run.upTo cfg.fine.length cfg.fine).outcomes := by
    rw [← hequal]
    refine List.mem_filter.mpr ⟨?_, hclosed⟩
    rw [houtcomes']
    exact List.mem_append_right _ List.mem_cons_self
  have hrecord := (List.mem_filter.mp hmem).1
  rw [houtcomes, hcontext] at hrecord
  have hsame : outcome' = outcome := congrArg DecisionRecord.outcome (List.mem_singleton.mp hrecord)
  rw [hsame, hwithout] at hwith
  exact absurd hwith (by norm_num)

/-- **A backtest does not look ahead exactly when it has one timeframe.** -/
theorem noLookAhead_iff (timeframes : List Timeframe) :
    NoLookAhead timeframes ↔ ∀ a ∈ timeframes, ∀ b ∈ timeframes, a = b := by
  refine ⟨fun hlook a ha b hb => ?_, noLookAhead_single⟩
  by_contra hne
  exact not_noLookAhead ha hb hne hlook

omit [Digest]

/-- A runner that follows the last close: long from 1.10 on, short below. -/
def followClose (r : RunRequest) : Signals :=
  stubRunner (if (r.candles.getLast?.map (·.close)).any fun c => decide (11 / 10 ≤ c) then .long
    else .short) r

/-- Four hours whose last close is at `stop`, as hours and as one bar of four. -/
def fourHours (stop : ℚ) : History := fun _ tf =>
  match tf with
  | .H1 =>
      { rows := [stubBar 0, stubBar (seconds 3600), stubBar (seconds 7200),
          { stubBar (seconds 10800) with close := stop }]
        ascending := by simp [stubBar, seconds] }
  | .H4 => { rows := [{ stubBar 0 with close := stop }], ascending := by simp }
  | _ => .empty

/-- An hour into the day, on hours in the context of four hours. -/
def hourInContext (stop : ℚ) : Driver where
  cfg := stubConfig [.eurusd] [.H1, .H4] (by decide)
  risk := .default
  history := fourHours stop
  runner := followClose

theorem fourHours_agree (stop stop' : ℚ) :
    (fourHours stop).AgreeUpTo (seconds 3600) (fourHours stop') := by
  intro symbol tf
  cases tf <;> rfl

/-- The decision on the first hour tells what the close three hours later will be. -/
theorem tells_the_close : ¬ ∀ (_ : Digest) (timeframes : List Timeframe),
    NoLookAhead timeframes := by
  intro h
  have hequal := h Digest.zero [.H1, .H4] (hourInContext (109 / 100)) .eurusd
    (fourHours (111 / 100)) (seconds 3600) rfl rfl (fourHours_agree _ _)
  have hscores := congrArg (fun o => o.outcomes.map fun r => r.outcome.fused.score) hequal
  exact absurd hscores (by decide +kernel)

end Driver

end ForexAi
