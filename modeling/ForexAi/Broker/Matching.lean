/-
Two brokers of one account, and a book of one symbol.

`Matches` leaves out what a restore does not bring back: the marks and the last equity.
A call keeps two brokers matching; a mark followed by `state` does so when every position
is of the marked symbol, and moves nothing when nothing is open (`state_of_settled`).

`Filed` is the ledger's side: on a book of one symbol the table holds what the broker
holds, the trades as closed rows and the open position as the last row.
-/
import ForexAi.Broker.Runs
import ForexAi.Broker.Replay

namespace ForexAi

namespace PaperBroker

/-- The same account; the marks and the last equity may differ. -/
structure Matches (b b' : PaperBroker) : Prop where
  cash : b'.cash = b.cash
  peakEquity : b'.peakEquity = b.peakEquity
  maxDrawdownPct : b'.maxDrawdownPct = b.maxDrawdownPct
  positions : b'.positions = b.positions
  trades : b'.trades = b.trades
  seed : b'.seed = b.seed
  costParams : b'.costParams = b.costParams

theorem Matches.trans {b₁ b₂ b₃ : PaperBroker} (h : b₁.Matches b₂) (h' : b₂.Matches b₃) :
    b₁.Matches b₃ :=
  ⟨h'.cash.trans h.cash, h'.peakEquity.trans h.peakEquity,
    h'.maxDrawdownPct.trans h.maxDrawdownPct, h'.positions.trans h.positions,
    h'.trades.trans h.trades, h'.seed.trans h.seed, h'.costParams.trans h.costParams⟩

theorem Matches.symm {b b' : PaperBroker} (h : b.Matches b') : b'.Matches b :=
  ⟨h.cash.symm, h.peakEquity.symm, h.maxDrawdownPct.symm, h.positions.symm, h.trades.symm,
    h.seed.symm, h.costParams.symm⟩

/-! ### Marking and valuing -/

/-- Once its symbol is marked, a broker of one symbol is worth its positions at the mark. -/
theorem totalEquity_mark {b : PaperBroker} {symbol : Symbol}
    (hown : ∀ p ∈ b.positions, p.symbol = symbol) (price : ℚ) :
    (b.markPosition symbol price).totalEquity
      = b.cash + (b.positions.map fun p => p.unrealized price).sum := by
  show b.cash + (b.positions.map fun p =>
    p.unrealized ((b.markPosition symbol price).markOf p)).sum = _
  congr 2
  refine List.map_congr_left fun p hp => ?_
  unfold markOf markPosition
  rw [hown p hp]
  show p.unrealized ((Function.update b.lastMark symbol (some price) symbol).getD _) = _
  rw [Function.update_self]
  rfl

/-- The watermarks after `state` follow from those before and the equity. -/
theorem state_congr {b b' : PaperBroker} (hequity : b'.totalEquity = b.totalEquity)
    (hpeak : b'.peakEquity = b.peakEquity) (hdrawdown : b'.maxDrawdownPct = b.maxDrawdownPct)
    (ts : Time) :
    (b'.state ts).2.peakEquity = (b.state ts).2.peakEquity ∧
      (b'.state ts).2.maxDrawdownPct = (b.state ts).2.maxDrawdownPct := by
  unfold state
  simp only
  rw [hequity, hpeak, hdrawdown]
  exact ⟨rfl, rfl⟩

/-- **A mark and a valuation** keep brokers of one symbol matching. -/
theorem Matches.markState {b b' : PaperBroker} (h : b.Matches b') {symbol : Symbol}
    (hown : ∀ p ∈ b.positions, p.symbol = symbol) (price : ℚ) (ts : Time) :
    ((b.markPosition symbol price).state ts).2.Matches
      ((b'.markPosition symbol price).state ts).2 := by
  have hequity : (b'.markPosition symbol price).totalEquity
      = (b.markPosition symbol price).totalEquity := by
    rw [totalEquity_mark (by rw [h.positions]; exact hown), totalEquity_mark hown, h.cash,
      h.positions]
  obtain ⟨hpeak, hdrawdown⟩ := state_congr hequity h.peakEquity h.maxDrawdownPct ts
  exact ⟨h.cash, hpeak, hdrawdown, h.positions, h.trades, h.seed, h.costParams⟩

/-- The watermarks have seen the cash. -/
def Settled (b : PaperBroker) : Prop :=
  b.cash ≤ b.peakEquity ∧
    (0 < b.peakEquity → (b.peakEquity - b.cash) / b.peakEquity ≤ b.maxDrawdownPct)

theorem totalEquity_flat {b : PaperBroker} (hflat : b.positions = []) : b.totalEquity = b.cash := by
  unfold totalEquity
  rw [hflat]
  simp

/-- Valued with nothing open, a broker is settled. -/
theorem settled_state {b : PaperBroker} (hflat : b.positions = []) (ts : Time) :
    (b.state ts).2.Settled := by
  have hequity := totalEquity_flat hflat
  set peak := (b.state ts).2.peakEquity with hpeak
  have hseen : b.cash ≤ peak := by
    rw [hpeak]
    show b.cash ≤ if b.peakEquity < b.totalEquity then b.totalEquity else b.peakEquity
    rw [hequity]
    split
    · exact le_refl _
    · exact not_lt.mp ‹_›
  refine ⟨hseen, fun hpos => ?_⟩
  show (peak - b.cash) / peak ≤ if 0 < peak ∧ b.maxDrawdownPct < (peak - b.totalEquity) / peak
    then (peak - b.totalEquity) / peak else b.maxDrawdownPct
  rw [hequity]
  by_cases hdd : b.maxDrawdownPct < (peak - b.cash) / peak
  · rw [if_pos ⟨hpos, hdd⟩]
  · rw [if_neg fun hc => hdd hc.2]
    exact not_lt.mp hdd

/-- **Valued once more with nothing open**, a settled broker stays as it is. -/
theorem state_of_settled {b : PaperBroker} (hflat : b.positions = []) (h : b.Settled) (ts : Time) :
    b.Matches (b.state ts).2 := by
  have hequity := totalEquity_flat hflat
  have hpeak : (b.state ts).2.peakEquity = b.peakEquity := by
    show (if b.peakEquity < b.totalEquity then b.totalEquity else b.peakEquity) = _
    rw [hequity, if_neg (not_lt.mpr h.1)]
  refine ⟨rfl, hpeak, ?_, rfl, rfl, rfl, rfl⟩
  show (if 0 < (b.state ts).2.peakEquity ∧ b.maxDrawdownPct
      < ((b.state ts).2.peakEquity - b.totalEquity) / (b.state ts).2.peakEquity
    then _ else b.maxDrawdownPct) = _
  rw [hpeak, hequity]
  exact if_neg fun hc => not_lt.mpr (h.2 hc.1) hc.2

/-! ### Calls -/

variable [Digest]

/-- A call is about to do the same on both. -/
theorem Matches.effect {b b' : PaperBroker} (h : b.Matches b') (op : Op) :
    op.effect b' = op.effect b := by
  unfold Op.effect fillCost
  rw [h.positions, h.seed, h.costParams]

/-- **A call keeps two brokers matching**; only `state` looks at the marks. -/
theorem Matches.apply {b b' : PaperBroker} (h : b.Matches b') {op : Op}
    (hop : ∀ ts, op ≠ .state ts) : (op.apply b).Matches (op.apply b') := by
  have heff' := h.effect op
  obtain ⟨hpeak, hdrawdown⟩ := Prod.mk.inj (apply_watermarks (b := b) hop)
  obtain ⟨hpeak', hdrawdown'⟩ := Prod.mk.inj (apply_watermarks (b := b') hop)
  have hmoved : (op.apply b').cash = (op.apply b).cash ∧
      (op.apply b').positions = (op.apply b).positions ∧
      (op.apply b').trades = (op.apply b).trades := by
    cases heff : op.effect b with
    | idle =>
        obtain ⟨hcash, hpositions, htrades⟩ := apply_idle heff
        obtain ⟨hcash', hpositions', htrades'⟩ := apply_idle (heff'.trans heff)
        rw [hcash, hcash', hpositions, hpositions', htrades, htrades']
        exact ⟨h.cash, h.positions, h.trades⟩
    | opened p =>
        obtain ⟨hcash, hpositions, htrades, -⟩ := apply_opened heff
        obtain ⟨hcash', hpositions', htrades', -⟩ := apply_opened (heff'.trans heff)
        rw [hcash, hcash', hpositions, hpositions', htrades, htrades', h.cash, h.positions,
          h.trades]
        exact ⟨rfl, rfl, rfl⟩
    | closed p price reason ts =>
        obtain ⟨hcash, hpositions, htrades, -⟩ := apply_closed heff
        obtain ⟨hcash', hpositions', htrades', -⟩ := apply_closed (heff'.trans heff)
        have hcost : b'.fillCost p.symbol p.side p.units price
            = b.fillCost p.symbol p.side p.units price := by
          unfold fillCost
          rw [h.seed, h.costParams]
        rw [hcash, hcash', hpositions, hpositions', htrades, htrades', hcost, h.cash, h.positions,
          h.trades, Book.closePosition_trade h.seed h.costParams]
        exact ⟨rfl, rfl, rfl⟩
  exact ⟨hmoved.1, hpeak'.trans (h.peakEquity.trans hpeak.symm),
    hdrawdown'.trans (h.maxDrawdownPct.trans hdrawdown.symm), hmoved.2.1, hmoved.2.2,
    by rw [apply_seed, apply_seed, h.seed],
      by rw [apply_costParams, apply_costParams, h.costParams]⟩

theorem run_seed (ops : List Op) (b : PaperBroker) : (b.run ops).seed = b.seed := by
  induction ops generalizing b with
  | nil => rfl
  | cons op rest ih => rw [run_cons, ih, apply_seed]

/-- And so does a sequence of calls. -/
theorem Matches.run {ops : List Op} (hops : ∀ op ∈ ops, ∀ ts, op ≠ .state ts) {b b' : PaperBroker}
    (h : b.Matches b') : (b.run ops).Matches (b'.run ops) := by
  induction ops generalizing b b' with
  | nil => exact h
  | cons op rest ih =>
      rw [run_cons, run_cons]
      exact ih (fun op' hop' => hops op' (List.mem_cons_of_mem op hop'))
        (h.apply (hops op List.mem_cons_self))

end PaperBroker

/-! ### A table of one symbol -/

namespace PositionTable

/-- Rows of one symbol, one position at a time: only the last row may be open. -/
structure Serial (t : PositionTable) (symbol : Symbol) : Prop where
  own : ∀ r ∈ t.rows, r.symbol = symbol
  last : t.rows.Pairwise fun r _ => r.exit ≠ none

variable {t : PositionTable} {symbol : Symbol}

/-- The open row of a serial list of rows is its last one, and closing it adds its trade to
the end. -/
private theorem closeRow_serial {trade : Trade} {q : PaperPositionRow} :
    ∀ {rows : List PaperPositionRow}, (∀ r ∈ rows, r.symbol = symbol) →
      (rows.Pairwise fun r _ => r.exit ≠ none) → rows.find? (·.openOn symbol) = some q →
      ((closeRow symbol trade rows).Pairwise fun r _ => r.exit ≠ none) ∧
        (closeRow symbol trade rows).filterMap (·.toTrade)
          = rows.filterMap (·.toTrade) ++ (q.closeWith trade).toTrade.toList := by
  intro rows
  induction rows with
  | nil => intro _ _ hfind; exact absurd hfind (by simp)
  | cons r rest ih =>
      intro hown hlast hfind
      obtain ⟨hhead, hrest⟩ := List.pairwise_cons.mp hlast
      unfold closeRow
      by_cases hopen : r.openOn symbol = true
      · rw [List.find?_cons_of_pos hopen] at hfind
        obtain rfl := Option.some.inj hfind
        obtain ⟨-, hexit⟩ := PaperPositionRow.openOn_iff.mp hopen
        have hnil : rest = [] := by
          cases rest with
          | nil => rfl
          | cons r' rest => exact absurd hexit (hhead r' List.mem_cons_self)
        have hnone : r.toTrade = none := by
          unfold PaperPositionRow.toTrade
          rw [hexit]
          rfl
        rw [if_pos hopen, hnil, List.filterMap_cons_none hnone]
        exact ⟨List.pairwise_singleton _ _, rfl⟩
      · rw [List.find?_cons_of_neg hopen] at hfind
        have hclosed : r.exit ≠ none := fun hexit =>
          hopen (PaperPositionRow.openOn_iff.mpr ⟨hown r List.mem_cons_self, hexit⟩)
        obtain ⟨hpairwise, htrades⟩ :=
          ih (fun r' hr' => hown r' (List.mem_cons_of_mem r hr')) hrest hfind
        rw [if_neg hopen]
        refine ⟨List.pairwise_cons.mpr ⟨fun _ _ => hclosed, hpairwise⟩, ?_⟩
        cases htrade : r.toTrade with
        | none => rw [List.filterMap_cons_none htrade, List.filterMap_cons_none htrade, htrades]
        | some trade' =>
            rw [List.filterMap_cons_some htrade, List.filterMap_cons_some htrade, htrades,
              List.cons_append]

/-- **A close adds its trade to the end.** -/
theorem Serial.close (h : t.Serial symbol) {trade : Trade} (hsymbol : trade.symbol = symbol)
    {q : PaperPositionRow} (hopen : t.openRow symbol = some q)
    (htrade : (q.closeWith trade).toTrade = some trade) :
    (t.close trade).Serial symbol ∧
      (t.close trade).closedTrades = t.closedTrades ++ [trade] := by
  subst hsymbol
  obtain ⟨hlast, htrades⟩ := @closeRow_serial trade.symbol trade q t.rows h.own h.last hopen
  refine ⟨⟨fun r hr => ?_, hlast⟩, ?_⟩
  · rcases mem_close hr with hr | ⟨q', hq', rfl⟩
    · exact h.own r hr
    · exact (openRow_spec hq').2.1
  · rw [htrade] at htrades
    exact htrades

/-- A row inserted on a free table is the open one, and no trade. -/
theorem Serial.insert {t' : PositionTable} (h : t.Serial symbol) (hfree : t.openRow symbol = none)
    {row : PaperPositionRow} (hrows : t'.rows = t.rows ++ [row]) (hsymbol : row.symbol = symbol)
    (hexit : row.exit = none) :
    t'.Serial symbol ∧ t'.closedTrades = t.closedTrades := by
  have hclosed : ∀ r ∈ t.rows, r.exit ≠ none := fun r hr hnone =>
    List.find?_eq_none.mp hfree r hr (PaperPositionRow.openOn_iff.mpr ⟨h.own r hr, hnone⟩)
  refine ⟨⟨fun r hr => ?_, ?_⟩, ?_⟩
  · rw [hrows, List.mem_append, List.mem_singleton] at hr
    rcases hr with hr | rfl
    · exact h.own r hr
    · exact hsymbol
  · rw [hrows, List.pairwise_append]
    exact ⟨h.last, List.pairwise_singleton _ _, fun r hr _ _ => hclosed r hr⟩
  · unfold closedTrades
    rw [hrows, List.filterMap_append]
    have hnone : row.toTrade = none := by
      unfold PaperPositionRow.toTrade
      rw [hexit]
      rfl
    rw [List.filterMap_cons_none hnone, List.filterMap_nil, List.append_nil]

theorem Serial.openPositions_own (h : t.Serial symbol) :
    ∀ p ∈ t.openPositions, p.symbol = symbol := by
  intro p hp
  obtain ⟨r, hr, rfl⟩ := List.mem_map.mp hp
  exact h.own r (List.mem_of_mem_filter hr)

end PositionTable

/-! ### A book of one symbol -/

namespace Book

/-- The table holds the account of the broker. -/
structure Filed (b : Book) (symbol : Symbol) : Prop where
  agrees : b.Agrees
  trades : b.paper.trades = b.table.closedTrades
  serial : b.table.Serial symbol

/-- A restore files the account, when the trades were left one after the other. -/
theorem filed_restore {b : Book} {symbol : Symbol} (hserial : b.table.Serial symbol)
    (hsorted : b.table.closedTrades.Pairwise LedgerStore.EarlierExit) : b.restore.Filed symbol :=
  ⟨rfl, hsorted.insertionSort_eq, hserial⟩

/-- A mark and a snapshot touch neither the trades nor the table. -/
theorem Filed.mark {b : Book} {symbol : Symbol} (h : b.Filed symbol) (price : ℚ) :
    (b.markPosition symbol price).Filed symbol := ⟨h.agrees, h.trades, h.serial⟩

theorem Filed.snapshot {b : Book} {symbol : Symbol} (h : b.Filed symbol) (ts : Time) :
    (b.snapshot ts).Filed symbol := ⟨h.agrees, h.trades, h.serial⟩

variable [Digest]

theorem Filed.close {b : Book} {symbol : Symbol} (h : b.Filed symbol) {pos : Position}
    (hpos : b.paper.positions.openFor symbol = some pos) (price : ℚ) (reason : ExitReason)
    (ts : Time) :
    (b.persist (some (b.paper.closePosition pos price reason ts).1,
      (b.paper.closePosition pos price reason ts).2)).Filed symbol := by
  have hrow : (b.table.openRow symbol).map (·.toPosition) = some pos := by
    rw [← PositionTable.openFor_openPositions, ← show b.paper.positions = b.table.openPositions
      from h.agrees]
    exact hpos
  obtain ⟨row, hopen, rfl⟩ := Option.map_eq_some_iff.mp hrow
  have htrade : (row.closeWith (b.paper.closePosition row.toPosition price reason ts).1).toTrade
      = some (b.paper.closePosition row.toPosition price reason ts).1 := rfl
  obtain ⟨hserial, htrades⟩ := h.serial.close (PositionTable.openRow_spec hopen).2.1 hopen htrade
  refine ⟨agrees_persist_close h.agrees _ price reason ts, ?_, hserial⟩
  show b.paper.trades ++ [(b.paper.closePosition row.toPosition price reason ts).1] = _
  rw [h.trades]
  exact htrades.symm

theorem Filed.evaluateExit {b : Book} {symbol : Symbol} (h : b.Filed symbol) (close : ℚ)
    (ts : Time) : (b.evaluateExit symbol close ts).Filed symbol := by
  unfold Book.evaluateExit
  rcases b.paper.evaluateExit_cases symbol close ts with
    heq | ⟨pos, price, reason, hpos, -, heq⟩
  · rw [heq]
    exact h
  · rw [heq]
    exact h.close hpos price reason ts

theorem Filed.closeOnSignal {b : Book} {symbol : Symbol} (h : b.Filed symbol) (price : ℚ)
    (ts : Time) : (b.closeOnSignal symbol price ts).Filed symbol := by
  unfold Book.closeOnSignal
  cases hpos : b.paper.positions.openFor symbol with
  | none =>
      rw [PaperBroker.closeOnSignal_none hpos]
      exact h
  | some pos =>
      rw [PaperBroker.closeOnSignal_some hpos]
      exact h.close hpos price .signal ts

/-- A fill files its position, and the broker makes it as it is told. -/
theorem Filed.fill {b : Book} {symbol : Symbol} (h : b.Filed symbol) {order : PaperOrderRow}
    (hsymbol : order.symbol = symbol) (hfree : b.paper.positions.openFor symbol = none) (price : ℚ)
    (ts : Time) :
    (b.fill order price ts).Filed symbol ∧
      (b.fill order price ts).paper = b.paper.fillOrder order price ts := by
  subst hsymbol
  obtain ⟨table, -, hrows, heq⟩ := fill_eq h.agrees price ts hfree
  have hopen : b.table.openRow order.symbol = none := by
    rw [PositionTable.openRow_eq_none_iff, ← show b.paper.positions = b.table.openPositions
      from h.agrees]
    exact hfree
  obtain ⟨hserial, htrades⟩ := h.serial.insert hopen hrows rfl rfl
  refine ⟨⟨agrees_fill h.agrees price ts hfree, ?_, ?_⟩, by rw [heq]⟩
  · rw [heq]
    show (b.paper.fillOrder order price ts).trades = table.closedTrades
    rw [PaperBroker.fillOrder_eq price ts hfree, htrades]
    exact h.trades
  · rw [heq]
    exact hserial

/-! ### A bar of the book as calls -/

/-- The calls an order acts with at an open: close what is open, then enter. -/
def openCalls (isOpen : Bool) (order : PaperOrderRow) (bar : Bar) : List PaperBroker.Op :=
  (if isOpen then [.closeOnSignal order.symbol bar.openPrice bar.ts] else []) ++
    [.enterAtNextOpen order.symbol order.timeframe order.side bar.openPrice bar.ts order.stopLoss
      order.takeProfit (some order.units)]

/-- **The open of a bar as calls.**  An order of the broker's own seed makes the broker go
through its calls, and the account stays filed. -/
theorem Filed.actAtOpen {b : Book} {symbol : Symbol} (h : b.Filed symbol) {order : PaperOrderRow}
    (hsymbol : order.symbol = symbol) (hseed : order.seed = b.paper.seed) (bar : Bar) :
    (b.actAtOpen symbol bar (some order)).Filed symbol ∧
      (b.actAtOpen symbol bar (some order)).paper
        = b.paper.run (openCalls (b.paper.positions.openFor symbol).isSome order bar) := by
  have hreseed : ∀ paper : PaperBroker, paper.seed = b.paper.seed →
      paper.fillOrder order bar.openPrice bar.ts
        = paper.enterAtNextOpen order.symbol order.timeframe order.side bar.openPrice bar.ts
            order.stopLoss order.takeProfit (some order.units) := by
    intro paper hpaper
    have hsame : paper.reseed order.seed = paper := by
      rw [hseed, ← hpaper]
      rfl
    unfold PaperBroker.fillOrder
    rw [hsame]
  unfold Book.actAtOpen openCalls
  simp only
  cases hpos : b.paper.positions.openFor symbol with
  | none =>
      obtain ⟨hfiled, hpaper⟩ := h.fill hsymbol hpos bar.openPrice bar.ts
      refine ⟨hfiled, ?_⟩
      show (b.fill order bar.openPrice bar.ts).paper = _
      rw [hpaper, hreseed _ rfl]
      rfl
  | some pos =>
      have hclosed := h.closeOnSignal bar.openPrice bar.ts
      have hfree := free_closeOnSignal h.agrees hpos bar.openPrice bar.ts
      obtain ⟨hfiled, hpaper⟩ := hclosed.fill hsymbol hfree bar.openPrice bar.ts
      refine ⟨hfiled, ?_⟩
      have hbroker : (b.closeOnSignal symbol bar.openPrice bar.ts).paper
          = (b.paper.closeOnSignal symbol bar.openPrice bar.ts).2 := persist_paper b _
      have hkept : (b.closeOnSignal symbol bar.openPrice bar.ts).paper.seed = b.paper.seed := by
        rw [hbroker]
        exact PaperBroker.apply_seed b.paper (.closeOnSignal symbol bar.openPrice bar.ts)
      show ((b.closeOnSignal symbol bar.openPrice bar.ts).fill order bar.openPrice bar.ts).paper = _
      rw [hpaper, hreseed _ hkept, hbroker, hsymbol]
      rfl

/-- The calls of a bar up to its mark. -/
def barCalls (b : Book) (symbol : Symbol) (bar : Bar) (acting : Option PaperOrderRow) :
    List PaperBroker.Op :=
  (acting.elim [] fun order => openCalls (b.table.openRow symbol).isSome order bar) ++
    [.evaluateExit symbol bar.close bar.ts]

omit [Digest] in
theorem openCalls_spec {isOpen : Bool} {order : PaperOrderRow} {bar : Bar} :
    ∀ op ∈ openCalls isOpen order bar, op.stamp = some bar.ts ∧ ∀ ts, op ≠ .state ts := by
  intro op hop
  unfold openCalls at hop
  rcases List.mem_append.mp hop with hclose | henter
  · split at hclose
    · rw [List.mem_singleton.mp hclose]
      exact ⟨rfl, fun ts hc => absurd hc (by simp)⟩
    · exact absurd hclose (by simp)
  · rw [List.mem_singleton.mp henter]
    exact ⟨rfl, fun ts hc => absurd hc (by simp)⟩

omit [Digest] in
/-- Every call of a bar carries its stamp, and none is a valuation. -/
theorem barCalls_spec {b : Book} {symbol : Symbol} {bar : Bar} {acting : Option PaperOrderRow} :
    ∀ op ∈ b.barCalls symbol bar acting, op.stamp = some bar.ts ∧ ∀ ts, op ≠ .state ts := by
  intro op hop
  unfold barCalls at hop
  rcases List.mem_append.mp hop with hopen | hexit
  · cases acting with
    | none => exact absurd hopen (by simp)
    | some order => exact openCalls_spec op hopen
  · rw [List.mem_singleton.mp hexit]
    exact ⟨rfl, fun ts hc => absurd hc (by simp)⟩

/-- **A bar as calls**, on a book of one symbol whose restore is filed. -/
theorem settleBar_run {b : Book} {symbol : Symbol} (h : b.restore.Filed symbol) (bar : Bar)
    {acting : Option PaperOrderRow}
    (hacting : ∀ o, acting = some o → o.symbol = symbol ∧ o.seed = b.paper.seed) :
    (b.settleBar symbol bar acting).Filed symbol ∧
      (b.settleBar symbol bar acting).paper
        = (b.restore.paper.run (b.barCalls symbol bar acting)).markPosition symbol bar.close := by
  have hopened : (b.restore.actAtOpen symbol bar acting).Filed symbol ∧
      (b.restore.actAtOpen symbol bar acting).paper
        = b.restore.paper.run
            (acting.elim [] fun order => openCalls (b.table.openRow symbol).isSome order bar) := by
    cases acting with
    | none => exact ⟨h, rfl⟩
    | some order =>
        obtain ⟨hsymbol, hseed⟩ := hacting order rfl
        have hcalls := h.actAtOpen hsymbol (hseed.trans b.restore_seed.1.symm) bar
        rw [b.openFor_restore, Option.isSome_map] at hcalls
        exact hcalls
  refine ⟨(hopened.1.evaluateExit bar.close bar.ts).mark bar.close, ?_⟩
  show (((b.restore.actAtOpen symbol bar acting).evaluateExit symbol bar.close
    bar.ts).paper).markPosition symbol bar.close = _
  congr 1
  unfold barCalls PaperBroker.run
  rw [List.foldl_append]
  show (Book.persist _ _).paper = _
  rw [persist_paper, hopened.2]
  rfl

end Book

end ForexAi
