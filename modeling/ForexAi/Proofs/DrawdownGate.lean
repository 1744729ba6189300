/-
The drawdown the gates are fed.

Both gates, the backtest's and the live account's, take the broker's `max_drawdown_pct`, and
`state` only ever raises that: it is the deepest drawdown any state call of the run has seen
(`run_maxDrawdown`).  So it is the drawdown of the moment only while the account is at its
lowest against its peak, and a gate it has shut stays shut when the account is back at its
peak (`drawdown_gate_iff`).

What the account is worth at the moment is a parameter: the statements hold for the broker's
equity as of its last state call and for its equity at current marks alike.
-/
import ForexAi.Backtest.Driver
import ForexAi.Broker.Runs
import ForexAi.Broker.Watermarks
import ForexAi.Decisions.LedgerGate
import ForexAi.Backtest.Stub
import ForexAi.Proofs.Promotion

namespace ForexAi

namespace PaperBroker

/-- The drawdown of an account worth `equity`: how far it is below its peak. -/
def drawdownAt (b : PaperBroker) (equity : ℚ) : ℚ :=
  let peak := max b.peakEquity equity
  if 0 < peak then (peak - equity) / peak else 0

theorem drawdownAt_nonneg (b : PaperBroker) (equity : ℚ) : 0 ≤ b.drawdownAt equity := by
  unfold drawdownAt
  simp only
  split
  · rename_i hpeak
    exact div_nonneg (sub_nonneg.mpr (le_max_right _ _)) hpeak.le
  · exact le_refl 0

/-- A state call raises the maximum to the drawdown it sees. -/
theorem state_maxDrawdown {b : PaperBroker} (h : 0 ≤ b.maxDrawdownPct) (ts : Time) :
    (b.state ts).2.maxDrawdownPct = max b.maxDrawdownPct (b.drawdownAt b.totalEquity) := by
  rw [state_maxDrawdownPct]
  unfold drawdownAt
  simp only
  by_cases hpos : 0 < max b.peakEquity b.totalEquity
  · rw [if_pos hpos, if_pos hpos]
  · rw [if_neg hpos, if_neg hpos, max_eq_left h]

variable [Digest]

/-- The drawdowns the state calls of a run see. -/
def seenDrawdowns (b : PaperBroker) : List Op → List ℚ
  | [] => []
  | .state ts :: rest => b.drawdownAt b.totalEquity :: seenDrawdowns (Op.apply b (.state ts)) rest
  | op :: rest => seenDrawdowns (op.apply b) rest

/-- **The maximum is the deepest drawdown seen**: the one before the run, or one of the run. -/
theorem run_maxDrawdown {ops : List Op} {b : PaperBroker} (h : 0 ≤ b.maxDrawdownPct) :
    (b.run ops).maxDrawdownPct = (b.seenDrawdowns ops).foldl max b.maxDrawdownPct := by
  induction ops generalizing b with
  | nil => rfl
  | cons op rest ih =>
      rw [run_cons]
      by_cases hstate : ∃ ts, op = .state ts
      · obtain ⟨ts, rfl⟩ := hstate
        have hraised : (Op.apply b (.state ts)).maxDrawdownPct
            = max b.maxDrawdownPct (b.drawdownAt b.totalEquity) := state_maxDrawdown h ts
        rw [ih (by rw [hraised]; exact le_max_of_le_left h), hraised]
        rfl
      · push Not at hstate
        have hkept := (Prod.mk.inj (apply_watermarks hstate (b := b))).2
        rw [ih (by rw [hkept]; exact h), hkept]
        cases op with
        | state ts => exact absurd rfl (hstate ts)
        | _ => rfl

end PaperBroker

/-! ### The deepest of a list -/

theorem foldl_max_le_iff {l : List ℚ} {start x : ℚ} :
    l.foldl max start ≤ x ↔ start ≤ x ∧ ∀ y ∈ l, y ≤ x := by
  induction l generalizing start with
  | nil => simp
  | cons a rest ih =>
      rw [List.foldl_cons, ih, max_le_iff, List.forall_mem_cons, and_assoc]

theorem foldl_max_mem (l : List ℚ) (start : ℚ) :
    l.foldl max start = start ∨ l.foldl max start ∈ l := by
  induction l generalizing start with
  | nil => exact Or.inl rfl
  | cons a rest ih =>
      rw [List.foldl_cons]
      rcases ih (max start a) with hstart | hmem
      · rw [hstart]
        rcases max_choice start a with hkept | hraised
        · exact Or.inl hkept
        · exact Or.inr (by rw [hraised]; exact List.mem_cons_self)
      · exact Or.inr (List.mem_cons_of_mem a hmem)

/-- The largest is a number that bounds the list and is in it. -/
theorem foldl_max_eq_iff {l : List ℚ} {start x : ℚ} (h : start ≤ x) :
    l.foldl max start = x ↔ (∀ y ∈ l, y ≤ x) ∧ (x = start ∨ x ∈ l) := by
  have hle {x : ℚ} := @foldl_max_le_iff l start x
  constructor
  · rintro rfl
    exact ⟨(hle.mp (le_refl _)).2, foldl_max_mem l start⟩
  · rintro ⟨hbound, hreached⟩
    refine le_antisymm (hle.mpr ⟨h, hbound⟩) ?_
    have hself := hle.mp (le_refl (l.foldl max start))
    rcases hreached with rfl | hmem
    · exact hself.1
    · exact hself.2 x hmem

/-! ### The gates

A gate compares the maximum with its cap and knows nothing else of the account.  It tells the
drawdown of the moment only where the two are the same number.
-/

/-- The drawdown gate lets a candidate that can be sized through. -/
def LetsThrough (gate : GateState) (params : RiskParams) : Prop :=
  ∀ direction atr price, direction ≠ Direction.flat → 0 < atr → 0 < price →
    ∃ g, (assess direction ⟨some atr, some price⟩ gate params).gate .drawdown = some g ∧
      g.ok = true

/-- What a drawdown gate is for: it knows the drawdown of the moment, and opens when there is
none. -/
structure Releases (gate : GateState) (params : RiskParams) (current : ℚ) : Prop where
  used : gate.drawdownUsedPct = current
  opens : current = 0 → LetsThrough gate params

theorem letsThrough_iff {gate : GateState} {params : RiskParams} :
    LetsThrough gate params ↔
      gate.drawdownUsedPct + params.maxRiskPctAccount ≤ params.maxDrawdownPct := by
  have hgate {direction : Direction} {atr price : ℚ} (hdir : direction ≠ .flat) (hatr : 0 < atr)
      (hprice : 0 < price) : (assess direction ⟨some atr, some price⟩ gate params).gate .drawdown
        = some (usedGate .drawdown gate.drawdownUsedPct params.maxDrawdownPct params) := by
    unfold assess
    rw [if_neg hdir, sizable_of_pos rfl rfl hatr hprice]
    rfl
  constructor
  · intro h
    obtain ⟨g, hg, hok⟩ := h .long 1 1 (by decide) one_pos one_pos
    rw [hgate (by decide) one_pos one_pos] at hg
    rw [← Option.some.inj hg] at hok
    simpa [usedGate] using hok
  · intro hle direction atr price hdir hatr hprice
    exact ⟨_, hgate hdir hatr hprice, by simpa [usedGate] using hle⟩

namespace PaperBroker

variable [Digest]

/-- No state call of the run has seen a deeper drawdown than the current one, and one has seen
it, if there is one. -/
structure Deepest (b : PaperBroker) (ops : List Op) (current : ℚ) : Prop where
  bounds : ∀ x ∈ b.seenDrawdowns ops, x ≤ current
  seen : current = 0 ∨ current ∈ b.seenDrawdowns ops

variable (startEquity : ℚ) (seed : ℤ) (costParams : CostParams)

/-- A gate on the maximum of a run releases exactly while the account is at its deepest. -/
theorem releases_iff (ops : List Op) (equity : ℚ) {params : RiskParams}
    (hcap : params.maxRiskPctAccount ≤ params.maxDrawdownPct) {gate : GateState}
    (hgate : gate.drawdownUsedPct
      = ((new startEquity seed costParams).run ops).maxDrawdownPct) :
    Releases gate params (((new startEquity seed costParams).run ops).drawdownAt equity) ↔
      (new startEquity seed costParams).Deepest ops
        (((new startEquity seed costParams).run ops).drawdownAt equity) := by
  have hnonneg := drawdownAt_nonneg ((new startEquity seed costParams).run ops) equity
  have hfresh : 0 ≤ (new startEquity seed costParams).maxDrawdownPct := le_refl 0
  have hdeepest : gate.drawdownUsedPct
      = ((new startEquity seed costParams).seenDrawdowns ops).foldl max 0 :=
    hgate.trans (run_maxDrawdown hfresh)
  constructor
  · intro h
    obtain ⟨hbounds, hseen⟩ := (foldl_max_eq_iff hnonneg).mp (hdeepest.symm.trans h.used)
    exact ⟨hbounds, hseen⟩
  · intro h
    have hused := hdeepest.trans ((foldl_max_eq_iff hnonneg).mpr ⟨h.bounds, h.seen⟩)
    refine ⟨hused, fun hzero => letsThrough_iff.mpr ?_⟩
    rw [hused, hzero, zero_add]
    exact hcap

/-- **When the drawdown gate releases.**  Built after any run of the broker, either gate knows
the drawdown of the moment exactly while it is the deepest a state call of the run has seen;
and what a gate lets through is decided by the deepest, recovered or not. -/
theorem drawdown_gate_iff (ops : List Op) (equity : ℚ) {params : RiskParams}
    (hcap : params.maxRiskPctAccount ≤ params.maxDrawdownPct) :
    let fresh := new startEquity seed costParams
    let b := fresh.run ops
    let current := b.drawdownAt equity
    (∀ (d : Driver) symbol ts,
      Releases (d.gate b symbol ts) params current ↔ fresh.Deepest ops current) ∧
    (∀ (l : Ledger) symbol now, l.broker.paper = b →
      (Releases (buildLedgerGate l symbol now).gate params current ↔ fresh.Deepest ops current)) ∧
    ∀ gate : GateState, gate.drawdownUsedPct = b.maxDrawdownPct →
      (LetsThrough gate params ↔
        ∀ x ∈ fresh.seenDrawdowns ops, x + params.maxRiskPctAccount ≤ params.maxDrawdownPct) := by
  intro fresh b current
  refine ⟨fun d symbol ts => releases_iff _ _ _ ops equity hcap rfl, ?_, ?_⟩
  · intro l symbol now hpaper
    refine releases_iff _ _ _ ops equity hcap ?_
    show l.broker.paper.maxDrawdownPct = _
    rw [hpaper]
  · intro gate hgate
    have hfresh : 0 ≤ fresh.maxDrawdownPct := le_refl 0
    have hmax : b.maxDrawdownPct = (fresh.seenDrawdowns ops).foldl max 0 := run_maxDrawdown hfresh
    rw [letsThrough_iff, hgate, hmax, ← le_sub_iff_add_le, foldl_max_le_iff]
    constructor
    · exact fun h x hx => le_sub_iff_add_le.mp (h.2 x hx)
    · exact fun h => ⟨by linarith, fun x hx => le_sub_iff_add_le.mpr (h x hx)⟩

/-- A long position that falls by a fifth of the account. -/
def fall : List Op :=
  [.enterAtNextOpen .eurusd .H1 .long 1 0 none none (some 100000), .markPosition .eurusd (4 / 5),
    .state 0]

/-- And comes back. -/
def recovery : List Op := fall ++ [.markPosition .eurusd 1, .state 1]

omit [Digest] in
/-- A driver of one symbol; its gate reads the broker. -/
def oneSymbol : Driver where
  cfg := stubConfig [.eurusd] [.H1] hourly_ne_nil
  risk := .default
  history := fun _ _ => stubSeries [] List.Pairwise.nil
  runner := stubRunner .long

omit [Digest] in
/-- Back at its peak the account is still fed the old drawdown, and stays shut. -/
theorem recovery_blocked : ¬ ∀ (_ : Digest) (startEquity : ℚ) (seed : ℤ) (costParams : CostParams)
    (ops : List Op) (params : RiskParams) (d : Driver) (symbol : Symbol) (ts : Time),
    params.maxRiskPctAccount ≤ params.maxDrawdownPct →
      Releases (d.gate ((new startEquity seed costParams).run ops) symbol ts) params
        (((new startEquity seed costParams).run ops).drawdownAt
          ((new startEquity seed costParams).run ops).totalEquity) := by
  intro h
  have hreleases := h Digest.zero 100000 0 ⟨0, 0⟩ recovery .default oneSymbol .eurusd 1
    (by decide +kernel)
  exact absurd hreleases.used (by decide +kernel)

omit [Digest] in
/-- At the bottom of the fall it knows the drawdown. -/
theorem fall_known : Releases
    (oneSymbol.gate (@run Digest.zero (new 100000 0 ⟨0, 0⟩) fall) .eurusd 0) .default
    ((@run Digest.zero (new 100000 0 ⟨0, 0⟩) fall).drawdownAt 80000) := by
  have hdeepest : @Deepest Digest.zero (new 100000 0 ⟨0, 0⟩) fall
      ((@run Digest.zero (new 100000 0 ⟨0, 0⟩) fall).drawdownAt 80000) :=
    @Deepest.mk Digest.zero _ _ _ (by decide +kernel) (Or.inr (by decide +kernel))
  exact ((@drawdown_gate_iff Digest.zero 100000 0 ⟨0, 0⟩ fall 80000 .default
    (by decide +kernel)).1 oneSymbol .eurusd 0).mpr hdeepest

end PaperBroker

end ForexAi
