/-
Runs of the paper broker.

A run is a list of operations, and what an operation does to the account is said
once here: `effect` reads off the state before the operation which position it
opens or closes, and the three `apply_*` lemmas say what becomes of the cash, the
position set and the trades.  Every law about a run is an induction over the list
with these three cases, and no proof above unfolds an operation again.
-/
import ForexAi.Broker.Paper

namespace ForexAi

namespace PaperBroker

/-- One call on the broker. -/
inductive Op where
  | enterAtNextOpen (symbol : Symbol) (timeframe : Timeframe) (direction : Direction)
      (refPrice : ℚ) (ts : Time) (stopLoss takeProfit units : Option ℚ)
  | evaluateExit (symbol : Symbol) (close : ℚ) (ts : Time)
  | closeOnSignal (symbol : Symbol) (price : ℚ) (ts : Time)
  | markPosition (symbol : Symbol) (price : ℚ)
  | state (ts : Time)

/-- What a call does to the account. -/
inductive Effect where
  | idle
  | opened (p : Position)
  | closed (p : Position) (price : ℚ) (reason : ExitReason) (ts : Time)

variable [Digest]

/-- The broker after a call. -/
def Op.apply (b : PaperBroker) : Op → PaperBroker
  | .enterAtNextOpen symbol timeframe direction refPrice ts stopLoss takeProfit units =>
      b.enterAtNextOpen symbol timeframe direction refPrice ts stopLoss takeProfit units
  | .evaluateExit symbol close ts => (b.evaluateExit symbol close ts).2
  | .closeOnSignal symbol price ts => (b.closeOnSignal symbol price ts).2
  | .markPosition symbol price => b.markPosition symbol price
  | .state ts => (b.state ts).2

/-- The broker after a sequence of calls. -/
def run (b : PaperBroker) (ops : List Op) : PaperBroker := ops.foldl Op.apply b

@[simp] theorem run_nil (b : PaperBroker) : b.run [] = b := rfl

@[simp] theorem run_cons (b : PaperBroker) (op : Op) (ops : List Op) :
    b.run (op :: ops) = (op.apply b).run ops := rfl

/-- What a call is about to do, read off the state before it. -/
def Op.effect (b : PaperBroker) : Op → Effect
  | .enterAtNextOpen symbol timeframe direction refPrice ts stopLoss takeProfit units =>
      match units with
      | none => .idle
      | some u =>
          if direction = .flat ∨ u ≤ 0 then .idle
          else if (b.positions.openFor symbol).isSome then .idle
          else .opened
            { symbol, timeframe, units := u, entryPrice := refPrice, entryTs := ts,
              side := direction, stopLoss, takeProfit,
              costs := b.fillCost symbol direction u refPrice }
  | .evaluateExit symbol close ts =>
      match b.positions.openFor symbol with
      | none => .idle
      | some pos =>
          let (exitPrice, reason, hit) := pos.exitPriceFor close pos.stopLoss pos.takeProfit
          if hit then .closed pos exitPrice reason ts else .idle
  | .closeOnSignal symbol price ts =>
      match b.positions.openFor symbol with
      | none => .idle
      | some pos => .closed pos price .signal ts
  | .markPosition _ _ => .idle
  | .state _ => .idle

/-! ### What a call leaves alone -/

@[simp] theorem apply_startEquity (b : PaperBroker) (op : Op) :
    (op.apply b).startEquity = b.startEquity := by
  cases op <;> simp only [Op.apply, enterAtNextOpen, evaluateExit, closeOnSignal, closePosition,
    markPosition, state] <;> repeat' (first | rfl | split)

theorem run_startEquity (ops : List Op) :
    ∀ b : PaperBroker, (b.run ops).startEquity = b.startEquity := by
  induction ops with
  | nil => intro b; rfl
  | cons op rest ih => intro b; rw [run_cons, ih, apply_startEquity]

@[simp] theorem apply_seed (b : PaperBroker) (op : Op) : (op.apply b).seed = b.seed := by
  cases op <;> simp only [Op.apply, enterAtNextOpen, evaluateExit, closeOnSignal, closePosition,
    markPosition, state] <;> repeat' (first | rfl | split)

@[simp] theorem apply_costParams (b : PaperBroker) (op : Op) :
    (op.apply b).costParams = b.costParams := by
  cases op <;> simp only [Op.apply, enterAtNextOpen, evaluateExit, closeOnSignal, closePosition,
    markPosition, state] <;> repeat' (first | rfl | split)

/-- Only `state` moves the watermarks. -/
theorem apply_watermarks {b : PaperBroker} {op : Op} (h : ∀ ts, op ≠ .state ts) :
    ((op.apply b).peakEquity, (op.apply b).maxDrawdownPct) = (b.peakEquity, b.maxDrawdownPct) := by
  cases op with
  | state ts => exact absurd rfl (h ts)
  | _ =>
      simp only [Op.apply, enterAtNextOpen, evaluateExit, closeOnSignal, closePosition,
        markPosition]
      repeat' (first | rfl | split)

theorem run_watermarks {ops : List Op} (h : ∀ op ∈ ops, ∀ ts, op ≠ .state ts) (b : PaperBroker) :
    ((b.run ops).peakEquity, (b.run ops).maxDrawdownPct) = (b.peakEquity, b.maxDrawdownPct) := by
  induction ops generalizing b with
  | nil => rfl
  | cons op rest ih =>
      rw [run_cons, ih fun op' hop' => h op' (List.mem_cons_of_mem op hop'),
        apply_watermarks (h op List.mem_cons_self)]

theorem fillCost_apply (b : PaperBroker) (op : Op) (symbol : Symbol) (side : Direction)
    (units price : ℚ) :
    (op.apply b).fillCost symbol side units price = b.fillCost symbol side units price := by
  simp [fillCost]

/-! ### The three cases of a call -/

/-- An idle call moves neither the cash nor a position nor a trade. -/
theorem apply_idle {b : PaperBroker} {op : Op} (h : op.effect b = .idle) :
    (op.apply b).cash = b.cash ∧ (op.apply b).positions = b.positions ∧
      (op.apply b).trades = b.trades := by
  cases op with
  | enterAtNextOpen symbol timeframe direction refPrice ts stopLoss takeProfit units =>
      simp only [Op.effect] at h
      simp only [Op.apply, enterAtNextOpen]
      cases units with
      | none => exact ⟨rfl, rfl, rfl⟩
      | some u =>
          simp only at h ⊢
          split
          · exact ⟨rfl, rfl, rfl⟩
          · rename_i hskip
            rw [if_neg hskip] at h
            split
            · exact ⟨rfl, rfl, rfl⟩
            · rename_i hopen
              rw [if_neg hopen] at h
              exact absurd h (by simp)
  | evaluateExit symbol close ts =>
      simp only [Op.effect] at h
      simp only [Op.apply, evaluateExit]
      cases hpos : b.positions.openFor symbol with
      | none => exact ⟨rfl, rfl, rfl⟩
      | some pos =>
          simp only [hpos] at h
          simp only
          split
          · rename_i hhit
            rw [if_pos hhit] at h
            exact absurd h (by simp)
          · exact ⟨rfl, rfl, rfl⟩
  | closeOnSignal symbol price ts =>
      simp only [Op.effect] at h
      simp only [Op.apply, closeOnSignal]
      cases hpos : b.positions.openFor symbol with
      | none => exact ⟨rfl, rfl, rfl⟩
      | some pos => rw [hpos] at h; exact absurd h (by simp)
  | markPosition symbol price => exact ⟨rfl, rfl, rfl⟩
  | state ts => exact ⟨rfl, rfl, rfl⟩

/-- An opening call charges the entry and appends the position it was charged for. -/
theorem apply_opened {b : PaperBroker} {op : Op} {p : Position}
    (h : op.effect b = .opened p) :
    (op.apply b).cash = b.cash - p.costs ∧ (op.apply b).positions = b.positions ++ [p] ∧
      (op.apply b).trades = b.trades ∧
      p.costs = b.fillCost p.symbol p.side p.units p.entryPrice ∧
      b.positions.openFor p.symbol = none := by
  cases op with
  | enterAtNextOpen symbol timeframe direction refPrice ts stopLoss takeProfit units =>
      simp only [Op.effect] at h
      simp only [Op.apply, enterAtNextOpen]
      cases units with
      | none => exact absurd h (by simp)
      | some u =>
          simp only at h ⊢
          split at h
          · exact absurd h (by simp)
          · rename_i hskip
            split at h
            · exact absurd h (by simp)
            · rename_i hopen
              rw [if_neg hskip, if_neg hopen]
              obtain rfl := Effect.opened.inj h
              exact ⟨rfl, rfl, rfl, rfl, by simpa using hopen⟩
  | evaluateExit symbol close ts =>
      simp only [Op.effect] at h
      split at h
      · exact absurd h (by simp)
      · split at h <;> exact absurd h (by simp)
  | closeOnSignal symbol price ts =>
      simp only [Op.effect] at h
      split at h <;> exact absurd h (by simp)
  | markPosition symbol price => exact absurd h (by simp [Op.effect])
  | state ts => exact absurd h (by simp [Op.effect])

/-- An entry closes nothing. -/
theorem effect_enter_ne_closed (b : PaperBroker) (symbol : Symbol) (timeframe : Timeframe)
    (direction : Direction) (refPrice : ℚ) (ts : Time) (stopLoss takeProfit units : Option ℚ)
    (p : Position) (price : ℚ) (reason : ExitReason) (ts' : Time) :
    (Op.enterAtNextOpen symbol timeframe direction refPrice ts stopLoss takeProfit units).effect b
      ≠ .closed p price reason ts' := by
  intro h
  simp only [Op.effect] at h
  split at h
  · exact absurd h (by simp)
  · split at h
    · exact absurd h (by simp)
    · split at h <;> exact absurd h (by simp)

/-- A closing call pays the gross result out, charges the exit and, once more, the
entry, and turns the symbol's position into a trade. -/
theorem apply_closed {b : PaperBroker} {op : Op} {p : Position} {price : ℚ}
    {reason : ExitReason} {ts : Time} (h : op.effect b = .closed p price reason ts) :
    (op.apply b).cash
        = b.cash + grossAt p price - (b.fillCost p.symbol p.side p.units price + p.costs) ∧
      (op.apply b).positions = b.positions.close p.symbol ∧
      (op.apply b).trades = b.trades ++ [(b.closePosition p price reason ts).1] ∧
      b.positions.openFor p.symbol = some p := by
  cases op with
  | enterAtNextOpen symbol timeframe direction refPrice ts' stopLoss takeProfit units =>
      exact absurd h (effect_enter_ne_closed b _ _ _ _ _ _ _ _ _ _ _ _)
  | evaluateExit symbol close ts' =>
      simp only [Op.effect] at h
      simp only [Op.apply, evaluateExit]
      cases hpos : b.positions.openFor symbol with
      | none => rw [hpos] at h; exact absurd h (by simp)
      | some pos =>
          simp only [hpos] at h
          simp only
          split at h
          · rename_i hhit
            rw [if_pos hhit]
            obtain ⟨rfl, rfl, rfl, rfl⟩ := Effect.closed.inj h
            exact ⟨rfl, rfl, rfl, by rw [PositionSet.openFor_symbol hpos]; exact hpos⟩
          · exact absurd h (by simp)
  | closeOnSignal symbol price' ts' =>
      simp only [Op.effect] at h
      simp only [Op.apply, closeOnSignal]
      cases hpos : b.positions.openFor symbol with
      | none => rw [hpos] at h; exact absurd h (by simp)
      | some pos =>
          simp only [hpos] at h
          simp only
          obtain ⟨rfl, rfl, rfl, rfl⟩ := Effect.closed.inj h
          exact ⟨rfl, rfl, rfl, by rw [PositionSet.openFor_symbol hpos]; exact hpos⟩
  | markPosition symbol price' => exact absurd h (by simp [Op.effect])
  | state ts' => exact absurd h (by simp [Op.effect])

/-- A call keeps the symbols of the positions distinct. -/
theorem distinct_apply {b : PaperBroker}
    (h : b.positions.Pairwise fun p q => p.symbol ≠ q.symbol) (op : Op) :
    (op.apply b).positions.Pairwise fun p q => p.symbol ≠ q.symbol := by
  cases heff : op.effect b with
  | idle =>
      rw [(apply_idle heff).2.1]
      exact h
  | opened p =>
      obtain ⟨-, hpositions, -, -, hfree⟩ := apply_opened heff
      rw [hpositions, List.pairwise_append]
      refine ⟨h, List.pairwise_singleton _ _, fun q hq q' hq' => ?_⟩
      rw [List.mem_singleton.mp hq']
      exact PositionSet.openFor_eq_none.mp hfree q hq
  | closed p price reason ts =>
      rw [(apply_closed heff).2.1]
      exact h.sublist List.eraseP_sublist

theorem distinct_run {b : PaperBroker}
    (h : b.positions.Pairwise fun p q => p.symbol ≠ q.symbol) (ops : List Op) :
    (b.run ops).positions.Pairwise fun p q => p.symbol ≠ q.symbol := by
  induction ops generalizing b with
  | nil => exact h
  | cons op rest ih => exact ih (distinct_apply h op)

/-! ### The stamps of a broker -/

/-- The stamp a call is made with. -/
def Op.stamp : Op → Option Time
  | .enterAtNextOpen _ _ _ _ ts _ _ _ => some ts
  | .evaluateExit _ _ ts => some ts
  | .closeOnSignal _ _ ts => some ts
  | .markPosition _ _ => none
  | .state ts => some ts

omit [Digest] in
/-- Every position was entered, and every trade left, at a stamp of `T`. -/
structure Stamped (T : Time → Prop) (b : PaperBroker) : Prop where
  entered : ∀ p ∈ b.positions, T p.entryTs
  left : ∀ t ∈ b.trades, T t.exitTs

omit [Digest] in
theorem Stamped.mono {T T' : Time → Prop} {b : PaperBroker} (h : b.Stamped T)
    (hsub : ∀ ts, T ts → T' ts) : b.Stamped T' :=
  ⟨fun p hp => hsub _ (h.entered p hp), fun t ht => hsub _ (h.left t ht)⟩

/-- What a call opens or closes carries the stamp of the call. -/
theorem effect_stamp {b : PaperBroker} {op : Op} :
    (∀ p, op.effect b = .opened p → op.stamp = some p.entryTs) ∧
      ∀ p price reason ts, op.effect b = .closed p price reason ts → op.stamp = some ts := by
  cases op with
  | enterAtNextOpen symbol timeframe direction refPrice ts stopLoss takeProfit units =>
      simp only [Op.effect]
      cases units with
      | none => simp
      | some u =>
          simp only
          split
          · simp
          · split
            · simp
            · refine ⟨fun p hp => ?_, fun p price reason ts hp => absurd hp (by simp)⟩
              obtain rfl := Effect.opened.inj hp
              rfl
  | evaluateExit symbol close ts =>
      simp only [Op.effect]
      cases hpos : b.positions.openFor symbol with
      | none => simp
      | some pos =>
          simp only
          split
          · refine ⟨fun p hp => absurd hp (by simp), fun p price reason ts' hp => ?_⟩
            obtain ⟨-, -, -, rfl⟩ := Effect.closed.inj hp
            rfl
          · simp
  | closeOnSignal symbol price ts =>
      simp only [Op.effect]
      cases hpos : b.positions.openFor symbol with
      | none => simp
      | some pos =>
          simp only
          refine ⟨fun p hp => absurd hp (by simp), fun p price reason ts' hp => ?_⟩
          obtain ⟨-, -, -, rfl⟩ := Effect.closed.inj hp
          rfl
  | markPosition symbol price => simp [Op.effect]
  | state ts => simp [Op.effect]

/-- A call keeps the stamps within `T` when its own is. -/
theorem Stamped.apply {T : Time → Prop} {b : PaperBroker} (h : b.Stamped T) {op : Op}
    (hop : ∀ ts, op.stamp = some ts → T ts) : (op.apply b).Stamped T := by
  cases heff : op.effect b with
  | idle =>
      obtain ⟨-, hpositions, htrades⟩ := apply_idle heff
      exact ⟨by rw [hpositions]; exact h.entered, by rw [htrades]; exact h.left⟩
  | opened p =>
      obtain ⟨-, hpositions, htrades, -⟩ := apply_opened heff
      refine ⟨?_, by rw [htrades]; exact h.left⟩
      intro q hq
      rw [hpositions, List.mem_append, List.mem_singleton] at hq
      rcases hq with hq | rfl
      · exact h.entered q hq
      · exact hop _ (effect_stamp.1 q heff)
  | closed p price reason ts =>
      obtain ⟨-, hpositions, htrades, -⟩ := apply_closed heff
      constructor
      · intro q hq
        rw [hpositions] at hq
        exact h.entered q (PositionSet.close_subset hq)
      · intro t ht
        rw [htrades, List.mem_append, List.mem_singleton] at ht
        rcases ht with ht | rfl
        · exact h.left t ht
        · exact hop _ (effect_stamp.2 p price reason ts heff)

/-- And so does a sequence of calls. -/
theorem Stamped.run {T : Time → Prop} {ops : List Op} {b : PaperBroker} (h : b.Stamped T)
    (hops : ∀ op ∈ ops, ∀ ts, op.stamp = some ts → T ts) : (b.run ops).Stamped T := by
  induction ops generalizing b with
  | nil => exact h
  | cons op rest ih =>
      rw [run_cons]
      refine ih (h.apply (hops op List.mem_cons_self)) ?_
      intro op' hop'
      exact hops op' (List.mem_cons_of_mem op hop')

/-- The trades that calls at one stamp add are left at that stamp. -/
theorem run_trades {ts : Time} {ops : List Op}
    (hops : ∀ op ∈ ops, ∀ t, op.stamp = some t → t = ts) (b : PaperBroker) :
    ∃ new, (b.run ops).trades = b.trades ++ new ∧ ∀ t ∈ new, t.exitTs = ts := by
  induction ops generalizing b with
  | nil => exact ⟨[], (List.append_nil _).symm, fun t ht => absurd ht (by simp)⟩
  | cons op rest ih =>
      obtain ⟨later, hlater, hstamps⟩ := ih (fun op' h => hops op' (List.mem_cons_of_mem op h))
        (op.apply b)
      rw [run_cons, hlater]
      cases heff : op.effect b with
      | idle =>
          rw [(apply_idle heff).2.2]
          exact ⟨later, rfl, hstamps⟩
      | opened p =>
          rw [(apply_opened heff).2.2.1]
          exact ⟨later, rfl, hstamps⟩
      | closed p price reason left =>
          rw [(apply_closed heff).2.2.1]
          refine ⟨(b.closePosition p price reason left).1 :: later, by simp, ?_⟩
          intro t ht
          rcases List.mem_cons.mp ht with rfl | ht
          · exact hops op List.mem_cons_self _ (effect_stamp.2 p price reason left heff)
          · exact hstamps t ht

end PaperBroker

end ForexAi
