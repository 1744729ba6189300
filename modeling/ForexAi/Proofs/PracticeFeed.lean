/-
What the practice feed puts into the tables.

A candle the adapter returns is a complete bar of a page: in the window, closed by its end, its
prices rounded and in order (`BarOf`).  The service puts nothing else into its tables, so that
holds of every row, whatever the server answers and whatever else goes wrong
(`practice_tables`); and what is stored are the buckets of the pages that were committed, each
with all of its bars.
-/
import ForexAi.Data.Oanda
import ForexAi.Proofs.NewBars

namespace ForexAi

open Json (Value)
open Rounding

namespace Oanda

variable {N : Type}

/-! ### Attempts -/

/-- A page is the answer of an attempt, after some that were to be tried again. -/
theorem retried_page {answers : ℕ → HttpAnswer N} {n : ℕ} {body : Value N}
    (h : retried answers n = .page body) :
    ∃ k ≤ n, answers k = .response 200 (some body) := by
  have hanswer : ∀ a : HttpAnswer N, getCandlesPage a = .page body →
      a = .response 200 (some body) := by
    intro a ha
    cases a with
    | timeout text => exact absurd ha (by simp [getCandlesPage])
    | transport text => exact absurd ha (by simp [getCandlesPage])
    | raised name => exact absurd ha (by simp [getCandlesPage])
    | response status found =>
        by_cases hstatus : status = 200
        · cases found with
          | none => exact absurd ha (by simp [getCandlesPage, hstatus])
          | some found => simpa [getCandlesPage, hstatus] using ha
        · refine absurd ha ?_
          simp only [getCandlesPage, ne_eq, hstatus, not_false_eq_true, if_true, classifyStatus]
          split <;> simp
  induction n generalizing answers with
  | zero => exact ⟨0, le_rfl, hanswer _ h⟩
  | succ n ih =>
      unfold retried at h
      cases hfirst : getCandlesPage (answers 0) with
      | transient text =>
          rw [hfirst] at h
          obtain ⟨k, hk, hpage⟩ := ih h
          exact ⟨k + 1, Nat.succ_le_succ hk, hpage⟩
      | page found =>
          rw [hfirst] at h
          exact ⟨0, Nat.zero_le _, hanswer _ (hfirst.trans h)⟩
      | provider text => exact absurd h (by simp [hfirst])
      | unexpected name => exact absurd h (by simp [hfirst])

/-! ### One bar

Reading a bar is a chain of checks, each of which can refuse it.  What comes out at the end
has passed them all, and is read off here once (`BarOf`).
-/

variable (r : Readers N)

/-- A price is what stands under a key, rounded. -/
def Quoted (symbol : Symbol) (mid : Value N) (key : String) (p : ℚ) : Prop :=
  ∃ value x, item mid key = .ok value ∧ r.decimal value = .ok x ∧
    p = roundTo (decimals symbol) x ∧ |halfEven (x * 10 ^ decimals symbol)| < 10 ^ 28

/-- A candle is a bar of a page: complete, of the bucket its time falls in, and with its prices,
which are in order. -/
structure BarOf (symbol : Symbol) (tf : Timeframe) (raw : Value N) (c : Candle) : Prop where
  complete : ∃ flag, get raw "complete" (.bool false) = .ok flag ∧ truthy r flag = true
  time : ∃ stamp t, item raw "time" = .ok stamp ∧ parseOandaTime r stamp = .ok t ∧
    c.ts = alignToBucket t tf
  prices : ∃ mid, get raw "mid" (.obj []) = .ok mid ∧ Quoted r symbol mid "o" c.openPrice ∧
    Quoted r symbol mid "h" c.high ∧ Quoted r symbol mid "l" c.low ∧
    Quoted r symbol mid "c" c.close
  valid : c.Valid

variable {r}

/-- What succeeds does so step by step. -/
theorem bind_ok {ε α β : Type} {x : Except ε α} {f : α → Except ε β} {b : β}
    (h : (x >>= f) = .ok b) : ∃ a, x = .ok a ∧ f a = .ok b := by
  cases x with
  | error e => exact absurd h (by simp [bind, Except.bind])
  | ok a => exact ⟨a, rfl, h⟩

theorem price_ok {symbol : Symbol} {mid : Value N} {key : String} {p : ℚ}
    (h : price r symbol mid key = .ok p) : Quoted r symbol mid key p := by
  obtain ⟨value, hvalue, h⟩ := bind_ok h
  obtain ⟨x, hx, h⟩ := bind_ok h
  unfold quantize at h
  split at h
  · exact absurd h (by simp)
  · rename_i hfits
    exact ⟨value, x, hvalue, hx, (Except.ok.inj h).symm, not_le.mp hfits⟩

theorem readCandle_ok {symbol : Symbol} {bucket : Time} {raw : Value N} {c : ProviderCandle}
    (h : readCandle r symbol bucket raw = .ok c) :
    c.complete = true ∧ c.bar.ts = bucket ∧ c.bar.Valid ∧
      ∃ mid, get raw "mid" (.obj []) = .ok mid ∧ Quoted r symbol mid "o" c.bar.openPrice ∧
        Quoted r symbol mid "h" c.bar.high ∧ Quoted r symbol mid "l" c.bar.low ∧
        Quoted r symbol mid "c" c.bar.close := by
  obtain ⟨mid, hmid, h⟩ := bind_ok h
  obtain ⟨o, ho, h⟩ := bind_ok h
  obtain ⟨hi, hhi, h⟩ := bind_ok h
  obtain ⟨lo, hlo, h⟩ := bind_ok h
  obtain ⟨cl, hcl, h⟩ := bind_ok h
  obtain ⟨volume, -, h⟩ := bind_ok h
  obtain ⟨-, -, h⟩ := bind_ok h
  by_cases hvalid : (⟨bucket, o, hi, lo, cl⟩ : Candle).Valid
  · simp only at h
    rw [if_pos hvalid] at h
    obtain rfl := Except.ok.inj h
    exact ⟨rfl, rfl, hvalid, mid, hmid, price_ok ho, price_ok hhi, price_ok hlo, price_ok hcl⟩
  · simp only at h
    rw [if_neg hvalid] at h
    exact absurd h (by simp [throw, throwThe, MonadExceptOf.throw])

/-- The bucket of a bar that is owed: it is complete, its time falls into the bucket, and the
bucket closes in the window. -/
theorem owedBucket_some {tf : Timeframe} {start stop bucket : Time} {raw : Value N}
    (h : owedBucket r tf start stop raw = .ok (some bucket)) :
    (∃ flag, get raw "complete" (.bool false) = .ok flag ∧ truthy r flag = true) ∧
      (∃ stamp t, item raw "time" = .ok stamp ∧ parseOandaTime r stamp = .ok t ∧
        bucket = alignToBucket t tf) ∧
      bucket + tf.length ≤ stop ∧ start ≤ bucket := by
  obtain ⟨flag, hflag, h⟩ := bind_ok h
  by_cases htrue : truthy r flag = true
  · rw [if_pos htrue] at h
    obtain ⟨stamp, hstamp, h⟩ := bind_ok h
    obtain ⟨t, ht, h⟩ := bind_ok h
    simp only at h
    split at h
    · exact absurd h (by simp [throw, throwThe, MonadExceptOf.throw])
    · split at h
      · rename_i hwindow
        obtain rfl := Option.some.inj (Except.ok.inj h)
        exact ⟨⟨flag, hflag, htrue⟩, ⟨stamp, t, hstamp, ht, rfl⟩, hwindow.1, hwindow.2.1⟩
      · exact absurd h (by simp [pure, Except.pure])
  · rw [if_neg htrue] at h
    exact absurd h (by simp [pure, Except.pure])

/-! ### One page -/

/-- **A page is taken whole**: its candles are the bars it owes, each read. -/
theorem readBars_ok {symbol : Symbol} {tf : Timeframe} {start stop : Time} {bars : List (Value N)}
    {candles : List ProviderCandle}
    (h : readBars r symbol tf start stop bars = .ok candles) :
    (∀ c ∈ candles, ∃ raw ∈ bars, ∃ bucket,
      owedBucket r tf start stop raw = .ok (some bucket) ∧ readCandle r symbol bucket raw = .ok c) ∧
    ∀ raw ∈ bars, ∃ owed, owedBucket r tf start stop raw = .ok owed ∧ ∀ bucket ∈ owed,
      ∃ c ∈ candles, readCandle r symbol bucket raw = .ok c := by
  induction bars generalizing candles with
  | nil =>
      obtain rfl := Except.ok.inj h
      exact ⟨fun c hc => absurd hc List.not_mem_nil, fun raw hraw => absurd hraw List.not_mem_nil⟩
  | cons raw rest ih =>
      unfold readBars at h
      obtain ⟨owed, howed, h⟩ := bind_ok h
      cases owed with
      | none =>
          obtain ⟨hfrom, hall⟩ := ih h
          constructor
          · intro c hc
            obtain ⟨raw', hraw', hread⟩ := hfrom c hc
            exact ⟨raw', List.mem_cons_of_mem raw hraw', hread⟩
          · intro raw' hraw'
            rcases List.mem_cons.mp hraw' with rfl | hrest
            · exact ⟨none, howed, fun bucket hb => absurd hb (by simp)⟩
            · exact hall raw' hrest
      | some bucket =>
          obtain ⟨c, hc, h⟩ := bind_ok h
          obtain ⟨others, hothers, h⟩ := bind_ok h
          obtain rfl := Except.ok.inj h
          obtain ⟨hfrom, hall⟩ := ih hothers
          constructor
          · intro d hd
            rcases List.mem_cons.mp hd with rfl | hd
            · exact ⟨raw, List.mem_cons_self, bucket, howed, hc⟩
            · obtain ⟨raw', hraw', hread⟩ := hfrom d hd
              exact ⟨raw', List.mem_cons_of_mem raw hraw', hread⟩
          · intro raw' hraw'
            rcases List.mem_cons.mp hraw' with rfl | hrest
            · refine ⟨some bucket, howed, fun b hb => ?_⟩
              obtain rfl := Option.mem_some.mp hb
              exact ⟨c, List.mem_cons_self, hc⟩
            · obtain ⟨owed, hread, hstored⟩ := hall raw' hrest
              refine ⟨owed, hread, fun b hb => ?_⟩
              obtain ⟨d, hd, hcandle⟩ := hstored b hb
              exact ⟨d, List.mem_cons_of_mem c hd, hcandle⟩

/-! ### One call

A call makes some attempts, takes the first page that is an answer, reads it whole or not at
all, and commits it.  Each of these has its own lemma, from the page to the rows.
-/

variable (r)

/-- The bars of a page. -/
def pageBars (body : Value N) : Except String (List (Value N)) :=
  get body "candles" (.arr []) >>= iterate

/-- The candles a call commits are those of one page: one of the attempts was answered with it,
its window ends at the latest when the call was made or where the backfill was to end, every
candle is a bar of it, and none of the bars it owes is missing. -/
structure Taken (c : SeriesCall) (server : CandlesRequest → ℕ → HttpAnswer N)
    (candles : List Candle) (start stop : Time) (bars : List (Value N)) : Prop where
  closed : stop ≤ c.forcedEnd.getD c.windowAt
  answered : ∃ k ≤ retries, ∃ body, pageBars body = .ok bars ∧
    server (candlesRequest c.symbol c.timeframe start stop) k = .response 200 (some body)
  drawn : ∀ bar ∈ candles, start ≤ bar.ts ∧ bar.ts + c.timeframe.length ≤ stop ∧
    ∃ raw ∈ bars, BarOf r c.symbol c.timeframe raw bar
  whole : ∀ raw ∈ bars, ∃ owed, owedBucket r c.timeframe start stop raw = .ok owed ∧
    ∀ bucket ∈ owed, ∃ bar ∈ candles, bar.ts = bucket ∧ BarOf r c.symbol c.timeframe raw bar

variable {r}

/-- What is read of a bar that is owed is that bar. -/
theorem barOf_owed {symbol : Symbol} {tf : Timeframe} {start stop bucket : Time} {raw : Value N}
    {c : ProviderCandle} (howed : owedBucket r tf start stop raw = .ok (some bucket))
    (hread : readCandle r symbol bucket raw = .ok c) : BarOf r symbol tf raw c.bar := by
  obtain ⟨hcomplete, ⟨stamp, t, hstamp, ht, hbucket⟩, -, -⟩ := owedBucket_some howed
  obtain ⟨-, hts, hvalid, hprices⟩ := readCandle_ok hread
  exact ⟨hcomplete, ⟨stamp, t, hstamp, ht, hts.trans hbucket⟩, hprices, hvalid⟩

theorem fetchCandles_candles {server : CandlesRequest → ℕ → HttpAnswer N} {symbol : Symbol}
    {tf : Timeframe} {start stop : Time} {returned : List ProviderCandle}
    (h : fetchCandles r server symbol tf start stop = .candles returned) :
    ∃ k ≤ retries, ∃ body bars, pageBars body = .ok bars ∧
      server (candlesRequest symbol tf start stop) k = .response 200 (some body) ∧
      readBars r symbol tf start stop bars = .ok returned := by
  unfold fetchCandles at h
  split at h
  · exact absurd h (by simp)
  · exact absurd h (by simp)
  · exact absurd h (by simp)
  · rename_i body hpage
    split at h
    · rename_i read hread
      obtain rfl := Fetch.candles.inj h
      obtain ⟨found, hget, hread⟩ := bind_ok hread
      obtain ⟨bars, hbars, hread⟩ := bind_ok hread
      obtain ⟨k, hk, hserver⟩ := retried_page hpage
      have hpageBars : pageBars body = .ok bars := by
        unfold pageBars
        rw [hget]
        exact hbars
      exact ⟨k, hk, body, bars, hpageBars, hserver, hread⟩
    · exact absurd h (by simp)

/-- A window ends where a backfill says, or with the bucket the call is made in. -/
theorem windowOf_stop (svc : IngestService) (st : IngestState) (c : SeriesCall) :
    (svc.windowOf st c).2 = c.forcedEnd.getD (alignToBucket c.windowAt c.timeframe) := by
  unfold IngestService.windowOf IngestService.fetchWindow previousClosedBucket
  cases c.forcedStart with
  | some start => simp
  | none => simp

theorem arrivals_some {svc : IngestService} {st : IngestState} {c : SeriesCall}
    {candles : List Candle} (h : svc.arrivals st c = some candles) :
    ∃ returned, c.answer (svc.windowOf st c).1 (svc.windowOf st c).2 = .candles returned ∧
      candles = (returned.filter (·.complete)).map (·.bar) := by
  unfold IngestService.arrivals at h
  split at h
  · exact absurd h (by simp)
  · simp only at h
    split at h
    · exact absurd h (by simp)
    · split at h
      · rename_i returned hanswer
        split at h
        · exact absurd h (by simp)
        · exact ⟨returned, hanswer, (Option.some.inj h).symm⟩
      · exact absurd h (by simp)

/-- **What a call commits is a page, taken whole.** -/
theorem taken_of_arrivals {svc : IngestService} {st : IngestState} {c : SeriesCall}
    {server : CandlesRequest → ℕ → HttpAnswer N} {candles : List Candle}
    (h : svc.arrivals st (call r c server) = some candles) :
    ∃ start stop bars, Taken r c server candles start stop bars := by
  obtain ⟨returned, hanswer, hreturned⟩ := arrivals_some h
  obtain ⟨k, hk, body, bars, hbars, hserver, hread⟩ := fetchCandles_candles hanswer
  obtain ⟨hfrom, hall⟩ := readBars_ok hread
  have hcandles : candles = returned.map (·.bar) := by
    rw [hreturned, List.filter_eq_self.mpr fun p hp => ?_]
    obtain ⟨raw, -, bucket, -, hcandle⟩ := hfrom p hp
    exact (readCandle_ok hcandle).1
  have hclosed : (svc.windowOf st (call r c server)).2 ≤ c.forcedEnd.getD c.windowAt := by
    rw [windowOf_stop]
    show c.forcedEnd.getD (alignToBucket c.windowAt c.timeframe) ≤ _
    cases c.forcedEnd with
    | some stop => exact le_rfl
    | none => exact Grid.floor_le c.timeframe.length_pos c.windowAt
  refine ⟨_, _, bars, hclosed, ⟨k, hk, body, hbars, hserver⟩, ?_, ?_⟩
  · intro bar hbar
    rw [hcandles] at hbar
    obtain ⟨p, hp, rfl⟩ := List.mem_map.mp hbar
    obtain ⟨raw, hraw, bucket, howed, hcandle⟩ := hfrom p hp
    obtain ⟨-, -, hcloses, hstarts⟩ := owedBucket_some howed
    rw [← (readCandle_ok hcandle).2.1] at hcloses hstarts
    exact ⟨hstarts, hcloses, raw, hraw, barOf_owed howed hcandle⟩
  · intro raw hraw
    obtain ⟨owed, howed, hstored⟩ := hall raw hraw
    refine ⟨owed, howed, fun bucket hb => ?_⟩
    obtain ⟨p, hp, hcandle⟩ := hstored bucket hb
    rw [Option.mem_def.mp hb] at howed
    refine ⟨p.bar, ?_, (readCandle_ok hcandle).2.1, barOf_owed howed hcandle⟩
    rw [hcandles]
    exact List.mem_map_of_mem hp

/-! ### The tables

A call is the only event that writes candles, and an upsert never takes a stamp out of a
table.  From this what every row is, and what is never lost, follow by induction on the run.
-/

theorem candles_other (svc : IngestService) (st : IngestState) (c : SeriesCall) {symbol : Symbol}
    {tf : Timeframe} (h : ¬ (c.symbol = symbol ∧ c.timeframe = tf)) :
    (svc.ingestSeries st c).2.candles symbol tf = st.candles symbol tf := by
  have hupdate : ∀ (tables : Symbol → Timeframe → Series) (s : Series),
      Function.update tables c.symbol (Function.update (tables c.symbol) c.timeframe s) symbol tf
        = tables symbol tf := by
    intro tables s
    by_cases hsymbol : symbol = c.symbol
    · rw [hsymbol, Function.update_self, Function.update_of_ne]
      exact fun htf => h ⟨hsymbol.symm, htf.symm⟩
    · rw [Function.update_of_ne hsymbol]
  have hsave : ∀ (st : IngestState) (start stop : Time) (returned : List ProviderCandle),
      (IngestService.saveCandles st c start stop returned).2.candles symbol tf
        = st.candles symbol tf := by
    intro st start stop returned
    unfold IngestService.saveCandles
    simp only
    split
    · rfl
    · split
      · rfl
      · split
        · exact hupdate _ _
        · exact hupdate _ _
  unfold IngestService.ingestSeries
  simp only
  split
  · rfl
  · split
    · rfl
    · split
      · rfl
      · split
        · rw [IngestService.candles_providerFailed]
        · rw [IngestService.candles_providerFailed]
        · rfl
        · exact hsave _ _ _ _

/-- The rows of an upsert of starts of buckets are rows that were there, or some of these. -/
theorem row_of_upsert {s : Series} {candles : List Candle} {tf : Timeframe} {row : Candle}
    (hstarts : ∀ c ∈ candles, IsBucket tf c.ts) (h : row ∈ (s.upsertCandles candles tf).1.rows) :
    row ∈ s.rows ∨ row ∈ candles := by
  rcases (mem_foldl_upsertRow (uniqueCandles_nodup candles tf) s.ascending).mp h with hnew | hold
  · obtain ⟨c, hc, rfl⟩ := uniqueCandles_of_mem hnew
    refine Or.inr ?_
    rw [align_of_isBucket (hstarts c hc)]
    exact hc
  · exact Or.inl hold.1

variable (r)

/-- The call that follows the first events of a run commits these candles. -/
def Commits (svc : IngestService) (st : IngestState) (events : List (Event N)) (c : SeriesCall)
    (server : CandlesRequest → ℕ → HttpAnswer N) (candles : List Candle) : Prop :=
  ∃ before later, events = before ++ .series c server :: later ∧
    svc.arrivals (after r svc st before) (call r c server) = some candles

/-- A row is one of the candles some call of the run has committed into its table. -/
def Deposited (svc : IngestService) (st : IngestState) (events : List (Event N)) (symbol : Symbol)
    (tf : Timeframe) (row : Candle) : Prop :=
  ∃ c server candles, Commits r svc st events c server candles ∧ c.symbol = symbol ∧
    c.timeframe = tf ∧ row ∈ candles

variable {r}

theorem Commits.concat {svc : IngestService} {st : IngestState} {events : List (Event N)}
    {c : SeriesCall} {server : CandlesRequest → ℕ → HttpAnswer N} {candles : List Candle}
    (h : Commits r svc st events c server candles) (e : Event N) :
    Commits r svc st (events ++ [e]) c server candles := by
  obtain ⟨before, later, hsplit, hcommit⟩ := h
  exact ⟨before, later ++ [e], by rw [hsplit]; simp, hcommit⟩

theorem after_concat (svc : IngestService) (st : IngestState) (events : List (Event N))
    (e : Event N) : after r svc st (events ++ [e]) =
      svc.step (after r svc st events) (e.ingest r) := by
  unfold after
  rw [List.map_append, Runs.run_append]
  rfl

theorem Commits.of_concat {svc : IngestService} {st : IngestState} {events : List (Event N)}
    {e : Event N} {c : SeriesCall} {server : CandlesRequest → ℕ → HttpAnswer N}
    {candles : List Candle} (h : Commits r svc st (events ++ [e]) c server candles) :
    Commits r svc st events c server candles ∨
      (e = .series c server ∧
        svc.arrivals (after r svc st events) (call r c server) = some candles) := by
  obtain ⟨before, later, hsplit, hcommit⟩ := h
  rcases List.eq_nil_or_concat later with rfl | ⟨later, last, rfl⟩
  · obtain ⟨rfl, hlast⟩ := List.append_inj' hsplit rfl
    exact Or.inr ⟨(List.cons.inj hlast).1, hcommit⟩
  · rw [List.concat_eq_append, ← List.cons_append, ← List.append_assoc] at hsplit
    obtain ⟨rfl, -⟩ := List.append_inj' hsplit rfl
    exact Or.inl ⟨before, later, rfl, hcommit⟩

/-- A call that commits puts its candles into its table. -/
theorem table_commit {svc : IngestService} {st : IngestState} {c : SeriesCall}
    {server : CandlesRequest → ℕ → HttpAnswer N} {candles : List Candle}
    (h : svc.arrivals st (call r c server) = some candles) :
    (svc.step st ((Event.series c server).ingest r)).candles c.symbol c.timeframe =
      ((st.candles c.symbol c.timeframe).upsertCandles candles c.timeframe).1 := by
  refine (IngestService.candles_ingestSeries st (call r c server)).trans ?_
  rw [h]
  rfl

/-- **What one event does to a table.**  A call that commits puts its candles in; nothing else
touches a table. -/
theorem table_step (svc : IngestService) (st : IngestState) (e : Event N) (symbol : Symbol)
    (tf : Timeframe) :
    (svc.step st (e.ingest r)).candles symbol tf = st.candles symbol tf ∨
      ∃ c server candles, e = .series c server ∧ c.symbol = symbol ∧ c.timeframe = tf ∧
        svc.arrivals st (call r c server) = some candles ∧
        (svc.step st (e.ingest r)).candles symbol tf =
          ((st.candles symbol tf).upsertCandles candles tf).1 := by
  cases e with
  | persist now => exact Or.inl rfl
  | restart => exact Or.inl rfl
  | series c server =>
      by_cases hpair : c.symbol = symbol ∧ c.timeframe = tf
      · obtain ⟨rfl, rfl⟩ := hpair
        cases harrivals : svc.arrivals st (call r c server) with
        | none =>
            left
            refine (IngestService.candles_ingestSeries st (call r c server)).trans ?_
            rw [harrivals]
            rfl
        | some candles =>
            exact Or.inr ⟨c, server, candles, rfl, rfl, rfl, harrivals, table_commit harrivals⟩
      · exact Or.inl (candles_other svc st (call r c server) hpair)

theorem stamps_step (svc : IngestService) (st : IngestState) (e : Event N) {symbol : Symbol}
    {tf : Timeframe} {t : Time} (h : t ∈ (st.candles symbol tf).stamps) :
    t ∈ ((svc.step st (e.ingest r)).candles symbol tf).stamps := by
  rcases table_step (r := r) svc st e symbol tf with hsame | ⟨c, server, candles, -, -, -, -, hnew⟩
  · rw [hsame]
    exact h
  · rw [hnew]
    exact (Series.mem_upsertCandles _ candles tf).mpr (Or.inl h)

/-- A candle that is committed starts its bucket, and its prices are in order. -/
theorem bar_of_commit {svc : IngestService} {st : IngestState} {c : SeriesCall}
    {server : CandlesRequest → ℕ → HttpAnswer N} {candles : List Candle} {bar : Candle}
    (h : svc.arrivals st (call r c server) = some candles) (hbar : bar ∈ candles) :
    IsBucket c.timeframe bar.ts ∧ bar.Valid := by
  obtain ⟨start, stop, bars, htaken⟩ := taken_of_arrivals h
  obtain ⟨-, -, raw, -, hof⟩ := htaken.drawn bar hbar
  obtain ⟨stamp, t, -, -, hts⟩ := hof.time
  refine ⟨?_, hof.valid⟩
  rw [hts]
  exact isBucket_align t c.timeframe

/-- Every row of a run is a candle that was committed into its table. -/
theorem deposited_run (svc : IngestService) {st : IngestState}
    (hempty : ∀ symbol tf, (st.candles symbol tf).rows = []) (events : List (Event N))
    {symbol : Symbol} {tf : Timeframe} {row : Candle}
    (h : row ∈ ((after r svc st events).candles symbol tf).rows) :
    Deposited r svc st events symbol tf row := by
  induction events using List.reverseRecOn with
  | nil =>
      have hrow : row ∈ (st.candles symbol tf).rows := h
      rw [hempty] at hrow
      exact absurd hrow List.not_mem_nil
  | append_singleton events e ih =>
      have hkept : row ∈ ((after r svc st events).candles symbol tf).rows →
          Deposited r svc st (events ++ [e]) symbol tf row := by
        intro hrow
        obtain ⟨c, server, candles, hcommits, hpair⟩ := ih hrow
        exact ⟨c, server, candles, hcommits.concat e, hpair⟩
      rw [after_concat] at h
      rcases table_step (r := r) svc (after r svc st events) e symbol tf with
        hsame | ⟨c, server, candles, rfl, rfl, rfl, harrivals, hnew⟩
      · rw [hsame] at h
        exact hkept h
      · rw [hnew] at h
        rcases row_of_upsert (fun bar hbar => (bar_of_commit harrivals hbar).1) h with hold | hrow
        · exact hkept hold
        · exact ⟨c, server, candles, ⟨events, [], rfl, harrivals⟩, rfl, rfl, hrow⟩

/-- What was committed stays, by its stamps. -/
theorem kept_run (svc : IngestService) {st : IngestState} (events : List (Event N))
    {c : SeriesCall} {server : CandlesRequest → ℕ → HttpAnswer N} {candles : List Candle}
    (h : Commits r svc st events c server candles) {bar : Candle} (hbar : bar ∈ candles) :
    bar.ts ∈ ((after r svc st events).candles c.symbol c.timeframe).stamps := by
  induction events using List.reverseRecOn with
  | nil =>
      obtain ⟨before, later, hsplit, -⟩ := h
      exact absurd hsplit (by simp)
  | append_singleton events e ih =>
      rw [after_concat]
      rcases h.of_concat with hearlier | ⟨rfl, harrivals⟩
      · exact stamps_step svc _ e (ih hearlier)
      · rw [table_commit harrivals]
        exact (Series.mem_upsertCandles _ candles c.timeframe).mpr
          (Or.inr ⟨bar, hbar, align_of_isBucket (bar_of_commit harrivals hbar).1⟩)

/-- **What the practice feed puts into the tables.**  In every run of the service behind the
adapter, whatever the server answers to whichever attempt and whatever else goes wrong: the
candles a call commits are one page that an attempt of it was answered with, taken whole, each a
complete bar in order that had closed; every row of a table is one of them, under the bucket it
starts; and no bucket that was committed is ever gone. -/
theorem practice_tables (svc : IngestService) (r : Readers N) {st : IngestState}
    (hempty : ∀ symbol tf, (st.candles symbol tf).rows = []) (events : List (Event N)) :
    (∀ symbol tf, ∀ row ∈ ((after r svc st events).candles symbol tf).rows,
      Deposited r svc st events symbol tf row ∧ IsBucket tf row.ts ∧ row.Valid) ∧
    ∀ c server candles, Commits r svc st events c server candles →
      (∃ start stop bars, Taken r c server candles start stop bars) ∧
      ∀ bar ∈ candles, bar.ts ∈ ((after r svc st events).candles c.symbol c.timeframe).stamps := by
  constructor
  · intro symbol tf row hrow
    refine ⟨deposited_run svc hempty events hrow, ?_⟩
    obtain ⟨c, server, candles, ⟨before, later, -, harrivals⟩, rfl, rfl, hmem⟩ :=
      deposited_run svc hempty events hrow
    exact bar_of_commit harrivals hmem
  · intro c server candles hcommits
    refine ⟨?_, fun bar hbar => kept_run svc events hcommits hbar⟩
    obtain ⟨before, later, -, harrivals⟩ := hcommits
    exact taken_of_arrivals harrivals

/-! ### One page -/

/-- Readers of whole pages of one stamp, whose prices are numbers. -/
def oneStamp : Readers ℚ where
  zero := 0
  strip := id
  fromisoformat s :=
    if s = "2026-08-21T10:15:00.123456+00:00" then .ok 1787307300123456 else .error "ValueError"
  truth q := decide (q ≠ 0)
  decimal
    | .num q => .ok q
    | _ => .error "TypeError"
  int
    | .num q => .ok q.floor
    | _ => .error "TypeError"

/-- A page of a complete bar and one that is still forming. -/
def twoBars : Value ℚ :=
  .obj [("candles", .arr
    [.obj [("time", .str "2026-08-21T10:15:00.123456789Z"), ("complete", .bool true),
        ("mid", .obj [("o", .num (108560 / 100000)), ("h", .num (1087004 / 1000000)),
          ("l", .num (108550 / 100000)), ("c", .num (108680 / 100000))])],
      .obj [("complete", .bool false)]])]

/-- A quarter past eleven; the second attempt is answered. -/
def quarterCall : SeriesCall where
  symbol := .eurusd
  timeframe := .M15
  admitAt := 1787310900000000
  windowAt := 1787310900000000
  failAt := 1787310900000000
  persistAt := 1787310900000000
  answer _ _ := .candles []

def secondTry : CandlesRequest → ℕ → HttpAnswer ℚ := fun _ k =>
  if k = 0 then .response 500 none else .response 200 (some twoBars)

def nothingStored : IngestState where
  breaker := .new
  health := none
  candles := fun _ _ => .empty
  calls := []

/-- The bar that had closed is stored, at the start of its quarter and rounded. -/
theorem practice_tables_quarter :
    let st := after oneStamp IngestService.defaultService nothingStored
      [.series quarterCall secondTry]
    let row : Candle := ⟨1787307300000000, 108560 / 100000, 108700 / 100000, 108550 / 100000,
      108680 / 100000⟩
    row ∈ (st.candles .eurusd .M15).rows ∧
      Deposited oneStamp IngestService.defaultService nothingStored
        [.series quarterCall secondTry] .eurusd .M15 row := by
  have hrow : (⟨1787307300000000, 108560 / 100000, 108700 / 100000, 108550 / 100000,
      108680 / 100000⟩ : Candle) ∈ ((after oneStamp IngestService.defaultService nothingStored
        [.series quarterCall secondTry]).candles .eurusd .M15).rows := by
    decide +kernel
  obtain ⟨hrows, -⟩ := practice_tables IngestService.defaultService oneStamp
    (fun _ _ => rfl : ∀ symbol tf, (nothingStored.candles symbol tf).rows = [])
    [.series quarterCall secondTry]
  exact ⟨hrow, (hrows _ _ _ hrow).1⟩

end Oanda

end ForexAi
