/-
Where the cash of a paper account comes from.

`CashConserved` is the law a cash account should satisfy: what is left is the start
equity, plus the net result of every closed round trip with each of its two fills
charged once, less the entries charged on positions still open.

The broker does not satisfy it.  `enterAtNextOpen` takes the entry cost from the
cash and keeps it on the position; `closePosition` adds it to the exit cost and
takes the sum from the cash, so a closed position has paid its entry twice.
`run_cash` is the law that does hold, with that second charge written out:

    cash = start + Σ net(closed) - Σ entry(open) - Σ entry(closed)

and it makes the failure exact: the account conserves cash on a run if and only if
the entries of the positions closed on it were free.

The induction is on the calls, and the invariant it carries is `EntriesRecorded`:
an open position's `costs` is what the cost model charged for its entry.
-/
import ForexAi.Broker.Runs
import Mathlib.Tactic.NormNum
import Mathlib.Algebra.BigOperators.Group.List.Basic

namespace ForexAi

namespace PaperBroker

variable [Digest]

/-! ### The law

Both sides of the law are sums over what an account did, written with the same rounding-free
figures.  The rounded ones of a trade are for its report and are never added up.
-/

/-- The gross result of a closed trade, before rounding. -/
def tradeGross (t : Trade) : ℚ :=
  if t.side = .long then t.units * (t.exitPrice - t.entryPrice)
  else t.units * (t.entryPrice - t.exitPrice)

/-- The net result of a closed trade, before rounding: gross, less one charge for
each of its two fills. -/
def tradeNet (b : PaperBroker) (t : Trade) : ℚ :=
  tradeGross t - b.fillCost t.symbol t.side t.units t.entryPrice
    - b.fillCost t.symbol t.side t.units t.exitPrice

/-- What the closed trades earned. -/
def closedNet (b : PaperBroker) : ℚ := (b.trades.map b.tradeNet).sum

omit [Digest] in
/-- What the open positions were charged at entry. -/
def openEntryCosts (b : PaperBroker) : ℚ := (b.positions.map (·.costs)).sum

/-- **Cash conservation.** -/
def CashConserved (b : PaperBroker) : Prop :=
  b.cash = b.startEquity + b.closedNet - b.openEntryCosts

/-- The entry cost recorded on the position a call closes, zero when it closes none. -/
def Op.closedEntryCost (b : PaperBroker) (op : Op) : ℚ :=
  match op.effect b with
  | .closed p _ _ _ => p.costs
  | _ => 0

/-- The entry costs of the positions closed along a run. -/
def closedEntryCosts (b : PaperBroker) : List Op → ℚ
  | [] => 0
  | op :: rest => op.closedEntryCost b + closedEntryCosts (op.apply b) rest

/-! ### What is recorded on an open position -/

/-- Every open position carries what its entry was charged. -/
def EntriesRecorded (b : PaperBroker) : Prop :=
  ∀ p ∈ b.positions, p.costs = b.fillCost p.symbol p.side p.units p.entryPrice

theorem entriesRecorded_new (startEquity : ℚ) (seed : ℤ) (costParams : CostParams) :
    EntriesRecorded (new startEquity seed costParams) := by
  intro p hp
  simp [new] at hp

theorem entriesRecorded_apply {b : PaperBroker} (h : EntriesRecorded b) (op : Op) :
    EntriesRecorded (op.apply b) := by
  intro p hp
  rw [fillCost_apply]
  cases heff : op.effect b with
  | idle =>
      rw [(apply_idle heff).2.1] at hp
      exact h p hp
  | opened q =>
      obtain ⟨-, hpos, -, hcost, -⟩ := apply_opened heff
      rw [hpos] at hp
      rcases List.mem_append.mp hp with hp | hp
      · exact h p hp
      · rw [List.mem_singleton.mp hp]
        exact hcost
  | closed q price reason ts =>
      rw [(apply_closed heff).2.1] at hp
      exact h p (PositionSet.close_subset hp)

/-! ### One call

A call is an entry, an exit, a mark or nothing.  Each moves the cash and the sums by known
amounts, and in all but an exit the balance stays.
-/

theorem tradeNet_apply (b : PaperBroker) (op : Op) : (op.apply b).tradeNet = b.tradeNet := by
  funext t
  simp [tradeNet, fillCost_apply]

omit [Digest] in
/-- Closing a symbol takes exactly its position's entry out of the sum. -/
theorem costs_close {ps : PositionSet} {symbol : Symbol} {p : Position}
    (h : ps.openFor symbol = some p) :
    (ps.map (·.costs)).sum = p.costs + ((ps.close symbol).map (·.costs)).sum := by
  have hperm := (PositionSet.close_perm h).map (·.costs)
  rw [hperm.sum_eq, List.map_cons, List.sum_cons]

/-- One call moves the balance by the entry cost of the position it closes. -/
theorem balance_apply {b : PaperBroker} (h : EntriesRecorded b) (op : Op) :
    (op.apply b).cash - (op.apply b).closedNet + (op.apply b).openEntryCosts
      = b.cash - b.closedNet + b.openEntryCosts - op.closedEntryCost b := by
  unfold closedNet openEntryCosts Op.closedEntryCost
  rw [tradeNet_apply]
  cases heff : op.effect b with
  | idle =>
      obtain ⟨hcash, hpos, htrades⟩ := apply_idle heff
      rw [hcash, hpos, htrades]
      simp
  | opened p =>
      obtain ⟨hcash, hpos, htrades, -, -⟩ := apply_opened heff
      rw [hcash, hpos, htrades]
      simp only [List.map_append, List.sum_append, List.map_cons, List.map_nil, List.sum_cons,
        List.sum_nil]
      ring
  | closed p price reason ts =>
      obtain ⟨hcash, hpos, htrades, hopen⟩ := apply_closed heff
      have hentry := h p (PositionSet.openFor_mem hopen)
      have hnet : b.tradeNet (b.closePosition p price reason ts).1
          = grossAt p price - p.costs - b.fillCost p.symbol p.side p.units price := by
        rw [hentry]
        rfl
      rw [hcash, hpos, htrades, costs_close hopen]
      simp only [List.map_append, List.sum_append, List.map_cons, List.map_nil, List.sum_cons,
        List.sum_nil, hnet]
      ring

/-! ### A whole run -/

theorem run_balance (ops : List Op) :
    ∀ b : PaperBroker, EntriesRecorded b →
      (b.run ops).cash - (b.run ops).closedNet + (b.run ops).openEntryCosts
        = b.cash - b.closedNet + b.openEntryCosts - closedEntryCosts b ops := by
  induction ops with
  | nil => intro b _; simp [closedEntryCosts]
  | cons op rest ih =>
      intro b h
      rw [run_cons, ih _ (entriesRecorded_apply h op), balance_apply h op, closedEntryCosts]
      ring

/-- **The cash of an account, exactly.**  A closed position has paid its entry twice. -/
theorem run_cash (startEquity : ℚ) (seed : ℤ) (costParams : CostParams) (ops : List Op) :
    ((new startEquity seed costParams).run ops).cash
      = startEquity + ((new startEquity seed costParams).run ops).closedNet
        - ((new startEquity seed costParams).run ops).openEntryCosts
        - closedEntryCosts (new startEquity seed costParams) ops := by
  have h := run_balance ops _ (entriesRecorded_new startEquity seed costParams)
  have hnew : (new startEquity seed costParams).cash - (new startEquity seed costParams).closedNet
      + (new startEquity seed costParams).openEntryCosts = startEquity := by
    simp [new, closedNet, openEntryCosts]
  rw [hnew] at h
  linarith

/-- **Cash is conserved on a run exactly when the entries of the positions it closed
were free.** -/
theorem cashConserved_iff (startEquity : ℚ) (seed : ℤ) (costParams : CostParams)
    (ops : List Op) :
    CashConserved ((new startEquity seed costParams).run ops) ↔
      closedEntryCosts (new startEquity seed costParams) ops = 0 := by
  have h := run_cash startEquity seed costParams ops
  unfold CashConserved
  rw [run_startEquity]
  show _ = startEquity + _ - _ ↔ _
  constructor
  · intro hc
    linarith
  · intro hz
    linarith

/-- One long round trip: in at 1.10, out at 1.11. -/
def roundTrip : List Op :=
  [.enterAtNextOpen .eurusd .H1 .long (11 / 10) 0 none none (some 1000),
    .markPosition .eurusd (111 / 100),
    .closeOnSignal .eurusd (111 / 100) 0]

omit [Digest] in
/-- The cash after one round trip under a spread and no slippage is short of the law by
the entry's half spread, whatever the draws. -/
theorem roundTrip_cash_lost : ¬ ∃ _ : Digest, ∀ (startEquity : ℚ) (seed : ℤ)
    (costParams : CostParams) (ops : List Op),
    CashConserved ((new startEquity seed costParams).run ops) := by
  rintro ⟨_, h⟩
  set params : CostParams := { spread := 1 / 10000, slippagePct := 0 } with hparams
  have hc := h 100000 0 params roundTrip
  have hlaw := run_cash 100000 0 params roundTrip
  have hentry : closedEntryCosts (new 100000 0 params) roundTrip = 1 / 20 := by
    simp [closedEntryCosts, roundTrip, Op.closedEntryCost, Op.effect, Op.apply, enterAtNextOpen,
      markPosition, new, PositionSet.openFor, fillCost,
      costPerUnit_of_slippage_off, hparams]
    norm_num
  unfold CashConserved at hc
  rw [run_startEquity] at hc
  have hstart : (new 100000 0 params).startEquity = 100000 := rfl
  linarith

end PaperBroker

end ForexAi
