/-
Holes behind the newest stored bar.

A cycle fetches from the bar after the newest stored one on, to the last bucket that is
closed.  When that is more than a cycle may fetch, it fetches the latest part of it:
the bars before that part are behind the newest stored bar from then on, where no later
cycle looks.

`noHole_iff` is one cycle: whatever it stores, it stores every bucket from the newest
bar up to it, exactly when no more buckets are outstanding than a cycle may fetch.
`drained` is many: cycles that all keep to that leave every closed bucket stored.
-/
import ForexAi.Data.Ingest
import Mathlib.Tactic.Linarith

namespace ForexAi

/-- Every stored stamp is the start of a bucket; `upsert_candles` aligns what it writes. -/
def Series.Aligned (tf : Timeframe) (s : Series) : Prop := ∀ t ∈ s.stamps, IsBucket tf t

/-- The provider returns every bar of the range it is asked for, and nothing else. -/
def SeriesCall.Complete (c : SeriesCall) : Prop :=
  ∀ start stop, ∃ returned, c.answer start stop = .candles returned ∧
    (∀ p ∈ returned, start ≤ p.bar.ts ∧ p.bar.ts < stop) ∧
    ∀ t, IsBucket c.timeframe t → start ≤ t → t < stop →
      ∃ p ∈ returned, p.complete = true ∧ p.bar.ts = t

/-- A call of a cycle in which nothing fails. -/
structure SeriesCall.Undisturbed (c : SeriesCall) : Prop where
  unforced : c.forcedStart = none ∧ c.forcedEnd = none
  read : c.readFault = none
  complete : c.Complete
  saved : c.upsertFault = none ∧ c.commitFault = none
  published : c.publishFault = none

namespace IngestService

variable (svc : IngestService)

/-- The series a call is about. -/
def seriesOf (st : IngestState) (c : SeriesCall) : Series := st.candles c.symbol c.timeframe

/-- No more closed buckets are outstanding than a cycle may fetch. -/
def Covered (st : IngestState) (c : SeriesCall) : Prop :=
  ∀ last, (seriesOf st c).lastClosedTs = some last →
    alignToBucket c.windowAt c.timeframe - (last + c.timeframe.length)
      ≤ c.timeframe.length * svc.settings.maxBarsPerCycle

/-- Whatever the call stores after the newest bar, it stores every bucket up to it. -/
def NoHole (st st' : IngestState) (c : SeriesCall) : Prop :=
  ∀ last, (seriesOf st c).lastClosedTs = some last →
    ∀ b ∈ (seriesOf st' c).stamps, last < b →
      ∀ t, IsBucket c.timeframe t → last < t → t < b → t ∈ (seriesOf st' c).stamps

/-! ### What an undisturbed call does

Undisturbed means that the provider returns what it was asked for and that nothing fails.
What is stored then is the window, and the window is computed from the newest stamp and the
clock.
-/

/-- The window of a call with bars stored: after the newest one, or the latest part. -/
theorem windowOf_unforced {st : IngestState} {c : SeriesCall}
    (hunforced : c.forcedStart = none ∧ c.forcedEnd = none) {last : Time}
    (hlast : (seriesOf st c).lastClosedTs = some last) :
    svc.windowOf st c =
      (if c.timeframe.length * svc.settings.maxBarsPerCycle
            < alignToBucket c.windowAt c.timeframe - (last + c.timeframe.length)
        then alignToBucket c.windowAt c.timeframe
          - c.timeframe.length * svc.settings.maxBarsPerCycle
        else last + c.timeframe.length,
      alignToBucket c.windowAt c.timeframe) := by
  have hstop : previousClosedBucket c.windowAt c.timeframe + c.timeframe.length
      = alignToBucket c.windowAt c.timeframe := sub_add_cancel _ _
  unfold windowOf fetchWindow
  rw [hunforced.1, hunforced.2]
  unfold seriesOf at hlast
  simp only [hlast, Option.getD_none, hstop]

/-- What an undisturbed call leaves, when it is let through. -/
structure Stored (st st' : IngestState) (c : SeriesCall) : Prop where
  breaker : st'.breaker.state = .closed
  keeps : ∀ t ∈ (seriesOf st c).stamps, t ∈ (seriesOf st' c).stamps
  covers : ∀ t, IsBucket c.timeframe t → (svc.windowOf st c).1 ≤ t → t < (svc.windowOf st c).2 →
    t ∈ (seriesOf st' c).stamps
  only : ∀ t ∈ (seriesOf st' c).stamps, t ∈ (seriesOf st c).stamps ∨
    ∃ u, (svc.windowOf st c).1 ≤ u ∧ u < (svc.windowOf st c).2 ∧ alignToBucket u c.timeframe = t
  others : ∀ symbol tf, (symbol, tf) ≠ (c.symbol, c.timeframe) →
    (st'.candles symbol tf) = st.candles symbol tf

/-- **An undisturbed call stores its window**, or is refused. -/
theorem ingestSeries_undisturbed (st : IngestState) {c : SeriesCall} (h : c.Undisturbed) :
    (∃ e, st.breaker.beforeCall svc.breaker c.admitAt = .error e ∧
      (svc.ingestSeries st c).2 = st) ∨
    ((∃ b, st.breaker.beforeCall svc.breaker c.admitAt = .ok b) ∧
      svc.Stored st (svc.ingestSeries st c).2 c) := by
  unfold ingestSeries
  cases hgate : st.breaker.beforeCall svc.breaker c.admitAt with
  | error e => exact Or.inl ⟨e, rfl, rfl⟩
  | ok b =>
      refine Or.inr ⟨⟨b, rfl⟩, ?_⟩
      have hwindow : svc.windowOf { st with breaker := b } c = svc.windowOf st c := rfl
      simp only [h.read, hwindow]
      rcases hspan : svc.windowOf st c with ⟨start, stop⟩
      simp only
      by_cases hempty : stop ≤ start
      · rw [if_pos hempty]
        refine ⟨rfl, fun t ht => ht, ?_, fun t ht => Or.inl ht, fun _ _ _ => rfl⟩
        rw [hspan]
        intro t _ hstart hstop
        exact absurd (hstart.trans_lt hstop) (not_lt.mpr hempty)
      · rw [if_neg hempty]
        obtain ⟨returned, hanswer, hrange, hall⟩ := h.complete start stop
        rw [hanswer]
        simp only
        unfold saveCandles
        simp only [h.saved.1, h.saved.2, h.published, ite_self]
        set candles := (returned.filter (·.complete)).map (·.bar) with hcandles
        set series := ((st.candles c.symbol c.timeframe).upsertCandles candles c.timeframe).1
          with hseries
        set st' : IngestState :=
          { breaker := b.recordSuccess
            health := st.health
            candles := Function.update st.candles c.symbol
              (Function.update (st.candles c.symbol) c.timeframe series)
            calls := st.calls ++ [.returned] } with hst'
        have hafter : seriesOf st' c = series := by
          show (Function.update st.candles c.symbol
            (Function.update (st.candles c.symbol) c.timeframe series)) c.symbol c.timeframe = _
          rw [Function.update_self, Function.update_self]
        have hmem : ∀ t, t ∈ series.stamps ↔ t ∈ (seriesOf st c).stamps ∨
            ∃ d ∈ candles, alignToBucket d.ts c.timeframe = t := fun t =>
          Series.mem_upsertCandles _ _ _
        refine ⟨rfl, ?_, ?_, ?_, ?_⟩
        · intro t ht
          rw [hafter]
          exact (hmem t).mpr (Or.inl ht)
        · rw [hspan]
          intro t hbucket hstart hstop
          obtain ⟨p, hp, hcomplete, hts⟩ := hall t hbucket hstart hstop
          rw [hafter]
          refine (hmem t).mpr (Or.inr ⟨p.bar, ?_, ?_⟩)
          · exact List.mem_map.mpr ⟨p, List.mem_filter.mpr ⟨hp, hcomplete⟩, rfl⟩
          · rw [hts]
            exact align_of_isBucket hbucket
        · rw [hspan]
          intro t ht
          rw [hafter] at ht
          rcases (hmem t).mp ht with hold | ⟨d, hd, halign⟩
          · exact Or.inl hold
          · obtain ⟨p, hp, rfl⟩ := List.mem_map.mp hd
            obtain ⟨hstart, hstop⟩ := hrange p (List.mem_filter.mp hp).1
            exact Or.inr ⟨p.bar.ts, hstart, hstop, halign⟩
        · intro symbol tf hne
          show (Function.update st.candles c.symbol _) symbol tf = _
          by_cases hsymbol : symbol = c.symbol
          · subst hsymbol
            have htf : tf ≠ c.timeframe := fun heq => hne (by rw [heq])
            rw [Function.update_self, Function.update_of_ne htf]
          · rw [Function.update_of_ne hsymbol]

/-! ### One cycle -/

/-- **When a cycle leaves no hole**: the call is refused, or no more buckets are outstanding than
it may fetch. -/
theorem noHole_iff {st : IngestState} {c : SeriesCall} (h : c.Undisturbed)
    (haligned : (seriesOf st c).Aligned c.timeframe) :
    NoHole st (svc.ingestSeries st c).2 c ↔
      (∃ e, st.breaker.beforeCall svc.breaker c.admitAt = .error e) ∨ svc.Covered st c := by
  have hbefore : ∀ last, (seriesOf st c).lastClosedTs = some last →
      ∀ t ∈ (seriesOf st c).stamps, t ≤ last := by
    intro last hlast t ht
    obtain ⟨row, hrow, rfl⟩ := List.mem_map.mp ht
    exact Series.le_lastClosedTs hlast hrow
  rcases svc.ingestSeries_undisturbed st h with ⟨e, hgate, hsame⟩ | ⟨⟨b, hgate⟩, hstored⟩
  · rw [hsame]
    refine ⟨fun _ => Or.inl ⟨e, hgate⟩, fun _ last hlast b hb hlt => ?_⟩
    exact absurd hlt (not_lt.mpr (hbefore last hlast b hb))
  · have hpos := c.timeframe.length_pos
    set width := c.timeframe.length with hwidth
    set stop := alignToBucket c.windowAt c.timeframe with hstop
    have hbucketStop : IsBucket c.timeframe stop := isBucket_align _ _
    have hcap : width ≤ width * svc.settings.maxBarsPerCycle := by
      have hone : (1 : ℤ) ≤ svc.settings.maxBarsPerCycle :=
        Int.toNat_le.mp svc.settings.maxBarsPerCycle_pos
      exact le_mul_of_one_le_right hpos.le hone
    constructor
    · intro hhole
      refine Or.inr fun last hlast => ?_
      by_contra hover
      rw [not_le] at hover
      have hbucketLast := haligned last (Series.lastClosedTs_mem hlast)
      have hwindow := svc.windowOf_unforced h.unforced hlast
      rw [if_pos hover] at hwindow
      have hstart : IsBucket c.timeframe (stop - width * svc.settings.maxBarsPerCycle) :=
        Int.dvd_sub hbucketStop (Int.dvd_mul_right _ _)
      -- The last closed bucket is fetched, the one after the newest bar is not.
      have hnewest : stop - width ∈ (seriesOf (svc.ingestSeries st c).2 c).stamps := by
        refine hstored.covers _ (Int.dvd_sub hbucketStop (Int.dvd_refl _)) ?_ ?_
        · rw [hwindow]
          exact sub_le_sub_left hcap stop
        · rw [hwindow]
          exact sub_lt_self stop hpos
      have hmissed := hhole last hlast _ hnewest (by linarith) (last + width)
        hbucketLast.add_length (by linarith) (by linarith)
      rcases hstored.only _ hmissed with hold | ⟨u, hu, -, halign⟩
      · have hle := hbefore last hlast _ hold
        linarith
      · rw [hwindow] at hu
        have hfloor := Grid.le_floor hpos hstart hu
        have heq : Grid.floor width u = last + width := halign
        rw [heq] at hfloor
        linarith
    · rintro (⟨e, he⟩ | hcovered)
      · rw [hgate] at he
        exact absurd he (by simp)
      · intro last hlast b hb hlt t hbucket hlast_t htb
        have hwindow := svc.windowOf_unforced h.unforced hlast
        rw [if_neg (not_lt.mpr (hcovered last hlast))] at hwindow
        have hbucketLast := haligned last (Series.lastClosedTs_mem hlast)
        rcases hstored.only b hb with hold | ⟨u, -, hu, halign⟩
        · exact absurd hlt (not_lt.mpr (hbefore last hlast b hold))
        · refine hstored.covers t hbucket ?_ ?_
          · rw [hwindow]
            exact Grid.add_le_of_lt hbucketLast hbucket hlast_t
          · have hfloor : b ≤ u := halign ▸ Grid.floor_le hpos u
            exact (htb.trans_le hfloor).trans hu

/-! ### Many cycles

The newest stored bar only moves forward, and what is behind it stays.  Without a hole behind
it now, a covered cycle leaves none.
-/

/-- The state of a series from a first newest bar on: stored without a hole, on a closed
breaker, every stamp of every series a bucket. -/
structure Gapless (symbol : Symbol) (tf : Timeframe) (last : Time) (st : IngestState) : Prop where
  breaker : st.breaker.state = .closed
  aligned : ∀ symbol tf, (st.candles symbol tf).Aligned tf
  newest : ∃ newest, (st.candles symbol tf).lastClosedTs = some newest ∧ last ≤ newest ∧
    ∀ t, IsBucket tf t → last < t → t ≤ newest → t ∈ (st.candles symbol tf).stamps

theorem Stored.aligned {svc : IngestService} {st st' : IngestState} {c : SeriesCall}
    (h : svc.Stored st st' c) (haligned : ∀ symbol tf, (st.candles symbol tf).Aligned tf) :
    ∀ symbol tf, (st'.candles symbol tf).Aligned tf := by
  intro symbol tf
  by_cases hsame : (symbol, tf) = (c.symbol, c.timeframe)
  · obtain ⟨rfl, rfl⟩ := Prod.mk.inj hsame
    intro t ht
    rcases h.only t ht with hold | ⟨u, -, -, halign⟩
    · exact haligned _ _ t hold
    · rw [← halign]
      exact isBucket_align _ _
  · rw [h.others symbol tf hsame]
    exact haligned symbol tf

/-- **What a covered call leaves of a series without a hole**: no hole, and every bucket that is
closed by then. -/
theorem gapless_series {symbol : Symbol} {tf : Timeframe} {last : Time} {st : IngestState}
    {c : SeriesCall} (hgapless : Gapless symbol tf last st) (h : c.Undisturbed)
    (hcovered : svc.Covered st c) :
    Gapless symbol tf last (svc.ingestSeries st c).2 ∧
      (∀ t ∈ (st.candles symbol tf).stamps,
        t ∈ ((svc.ingestSeries st c).2.candles symbol tf).stamps) ∧
      (c.symbol = symbol → c.timeframe = tf → ∀ t, IsBucket tf t → last < t →
        t + tf.length ≤ c.windowAt →
        t ∈ ((svc.ingestSeries st c).2.candles symbol tf).stamps) := by
  set st' := (svc.ingestSeries st c).2 with hst'
  have hstored : svc.Stored st st' c := by
    rcases svc.ingestSeries_undisturbed st h with ⟨e, hgate, -⟩ | ⟨-, hstored⟩
    · unfold CircuitBreaker.beforeCall at hgate
      rw [hgapless.breaker] at hgate
      exact absurd hgate (by simp)
    · exact hstored
  have hhole : NoHole st st' c :=
    (svc.noHole_iff h (hgapless.aligned c.symbol c.timeframe)).mpr (Or.inr hcovered)
  have haligned := hstored.aligned hgapless.aligned
  obtain ⟨newest, hnewest, hle, hfull⟩ := hgapless.newest
  by_cases hsame : (symbol, tf) = (c.symbol, c.timeframe)
  · obtain ⟨rfl, rfl⟩ := Prod.mk.inj hsame
    have hmem : newest ∈ (seriesOf st' c).stamps :=
      hstored.keeps newest (Series.lastClosedTs_mem hnewest)
    obtain ⟨newest', hnewest', hafter⟩ := Series.exists_lastClosedTs hmem
    -- Up to the old newest bar nothing was missing; from there on the call leaves no hole.
    have hall : ∀ t, IsBucket c.timeframe t → last < t → t ≤ newest' →
        t ∈ (seriesOf st' c).stamps := by
      intro t hbucket hlast ht
      by_cases hold : t ≤ newest
      · exact hstored.keeps t (hfull t hbucket hlast hold)
      · rcases lt_or_eq_of_le ht with hlt | rfl
        · exact hhole newest hnewest newest' (Series.lastClosedTs_mem hnewest')
            ((not_le.mp hold).trans hlt) t hbucket (not_le.mp hold) hlt
        · exact Series.lastClosedTs_mem hnewest'
    refine ⟨⟨hstored.breaker, haligned, newest', hnewest', hle.trans hafter, hall⟩,
      hstored.keeps, fun _ _ t hbucket hlast hclosed => ?_⟩
    by_cases hold : t ≤ newest
    · exact hstored.keeps t (hfull t hbucket hlast hold)
    · have hwindow := svc.windowOf_unforced h.unforced hnewest
      rw [if_neg (not_lt.mpr (hcovered newest hnewest))] at hwindow
      refine hstored.covers t hbucket ?_ ?_
      · rw [hwindow]
        exact Grid.add_le_of_lt (hgapless.aligned _ _ newest (Series.lastClosedTs_mem hnewest))
          hbucket (not_le.mp hold)
      · rw [hwindow]
        have hfloor := Grid.le_floor c.timeframe.length_pos hbucket.add_length hclosed
        exact (lt_add_of_pos_right t c.timeframe.length_pos).trans_le hfloor
  · have hother : st'.candles symbol tf = st.candles symbol tf := hstored.others symbol tf hsame
    rw [hother]
    refine ⟨⟨hstored.breaker, haligned, newest, ?_, hle, ?_⟩, fun t ht => ht, ?_⟩
    · rw [hother]
      exact hnewest
    · rw [hother]
      exact hfull
    · intro hsymbol htf
      exact absurd (by rw [hsymbol, htf]) hsame

/-- The same over the calls of any number of cycles. -/
theorem gapless_run {symbol : Symbol} {tf : Timeframe} {last : Time} :
    ∀ (cs : List SeriesCall) (st : IngestState), Gapless symbol tf last st →
      (∀ c ∈ cs, c.Undisturbed) →
      Runs.Along (fun st c => (svc.ingestSeries st c).2) svc.Covered st cs →
      Gapless symbol tf last (Runs.run (fun st c => (svc.ingestSeries st c).2) st cs) ∧
      (∀ t ∈ (st.candles symbol tf).stamps,
        t ∈ ((Runs.run (fun st c => (svc.ingestSeries st c).2) st cs).candles symbol tf).stamps) ∧
      ∀ c ∈ cs, c.symbol = symbol → c.timeframe = tf → ∀ t, IsBucket tf t → last < t →
        t + tf.length ≤ c.windowAt →
        t ∈ ((Runs.run (fun st c => (svc.ingestSeries st c).2) st cs).candles symbol
          tf).stamps := by
  intro cs
  induction cs with
  | nil => intro st hst _ _; exact ⟨hst, fun t ht => ht, fun c hc => absurd hc (by simp)⟩
  | cons c rest ih =>
      intro st hst hcalls halong
      obtain ⟨hnow, hkeeps, hclosed⟩ :=
        svc.gapless_series hst (hcalls c List.mem_cons_self) halong.1
      obtain ⟨hend, hgrow, hlater⟩ :=
        ih _ hnow (fun d hd => hcalls d (List.mem_cons_of_mem c hd)) halong.2
      rw [Runs.run_cons]
      refine ⟨hend, fun t ht => hgrow t (hkeeps t ht), ?_⟩
      intro d hd hsymbol htf t hbucket hlast hover
      rcases List.mem_cons.mp hd with rfl | hd
      · exact hgrow t (hclosed hsymbol htf t hbucket hlast hover)
      · exact hlater d hd hsymbol htf t hbucket hlast hover

/-- **When ingestion leaves no hole.**  A cycle stores every bucket up to what it stores exactly
when it is refused or no more buckets are outstanding than it may fetch; and when that holds of
every call of a run of cycles, each call finds the backlog drained: every bucket after the
first newest bar that is closed by the time of a call is stored. -/
theorem gapless_iff :
    (∀ (st : IngestState) (c : SeriesCall), c.Undisturbed →
      (seriesOf st c).Aligned c.timeframe →
      (NoHole st (svc.ingestSeries st c).2 c ↔
        (∃ e, st.breaker.beforeCall svc.breaker c.admitAt = .error e) ∨ svc.Covered st c)) ∧
    ∀ (st : IngestState) (cs : List SeriesCall), st.breaker.state = .closed →
      (∀ symbol tf, (st.candles symbol tf).Aligned tf) → (∀ c ∈ cs, c.Undisturbed) →
      Runs.Along (fun st c => (svc.ingestSeries st c).2) svc.Covered st cs →
      ∀ symbol tf last, (st.candles symbol tf).lastClosedTs = some last →
        (∀ b ∈ ((Runs.run (fun st c => (svc.ingestSeries st c).2) st cs).candles symbol
            tf).stamps, ∀ t, IsBucket tf t → last < t → t < b →
          t ∈ ((Runs.run (fun st c => (svc.ingestSeries st c).2) st cs).candles symbol
            tf).stamps) ∧
        ∀ c ∈ cs, c.symbol = symbol → c.timeframe = tf → ∀ t, IsBucket tf t → last < t →
          t + tf.length ≤ c.windowAt →
          t ∈ ((Runs.run (fun st c => (svc.ingestSeries st c).2) st cs).candles symbol
            tf).stamps := by
  refine ⟨fun st c h haligned => svc.noHole_iff h haligned, ?_⟩
  intro st cs hbreaker haligned hcalls halong symbol tf last hlast
  have hstart : Gapless symbol tf last st :=
    ⟨hbreaker, haligned, last, hlast, le_rfl, fun t _ hlt hle => absurd hlt (not_lt.mpr hle)⟩
  obtain ⟨hend, -, hclosed⟩ := svc.gapless_run cs st hstart hcalls halong
  obtain ⟨newest, hnewest, -, hfull⟩ := hend.newest
  refine ⟨fun b hb t hbucket hlt htb => hfull t hbucket hlt ?_, hclosed⟩
  obtain ⟨row, hrow, rfl⟩ := List.mem_map.mp hb
  exact htb.le.trans (Series.le_lastClosedTs hnewest hrow)

/-! ### The first hole -/

/-- A provider that has a bar for every bucket. -/
def everyBar (tf : Timeframe) (start stop : Time) : Fetch :=
  .candles (((iterateBuckets start stop tf).filter fun t => decide (start ≤ t)).map fun t =>
    { bar := { ts := t, openPrice := 1, high := 1, low := 1, close := 1 } })

/-- A call for EURUSD at the given time. -/
def hourlyCall (now : Time) : SeriesCall where
  symbol := .eurusd
  timeframe := .H1
  admitAt := now
  windowAt := now
  failAt := now
  persistAt := now
  answer := everyBar .H1

theorem hourlyCall_undisturbed (now : Time) : (hourlyCall now).Undisturbed := by
  refine ⟨⟨rfl, rfl⟩, rfl, ?_, ⟨rfl, rfl⟩, rfl⟩
  intro start stop
  refine ⟨_, rfl, ?_, ?_⟩
  · intro p hp
    obtain ⟨t, ht, rfl⟩ := List.mem_map.mp hp
    obtain ⟨hmem, hstart⟩ := List.mem_filter.mp ht
    exact ⟨of_decide_eq_true hstart, (mem_iterateBuckets.mp hmem).2.2.2⟩
  · intro t hbucket hstart hstop
    refine ⟨_, List.mem_map.mpr ⟨t, List.mem_filter.mpr ⟨?_, decide_eq_true hstart⟩, rfl⟩, rfl,
      rfl⟩
    refine mem_iterateBuckets.mpr ⟨not_lt.mpr (hstart.trans hstop.le), hbucket, ?_, hstop⟩
    exact (Grid.floor_le (Timeframe.length_pos _) start).trans hstart

/-- A service that fetches one bar a cycle. -/
def oneBarService : IngestService where
  settings := { maxBarsPerCycle := 1 }
  breaker := defaultService.breaker

/-- The bar at midnight is stored. -/
def midnightStored : IngestState where
  breaker := .new
  health := none
  candles := fun _ _ => ⟨[{ ts := 0, openPrice := 1, high := 1, low := 1, close := 1 }],
    List.pairwise_singleton _ _⟩
  calls := []

/-- Three hours after midnight a cycle fetches the third bar, and the second is lost. -/
theorem cycle_skips_a_bar : ¬ ∀ (svc : IngestService) (st : IngestState) (c : SeriesCall),
    c.Undisturbed → (seriesOf st c).Aligned c.timeframe →
    NoHole st (svc.ingestSeries st c).2 c := by
  intro h
  have haligned : (seriesOf midnightStored (hourlyCall (seconds 10800))).Aligned .H1 := by
    intro t ht
    rw [List.mem_singleton.mp ht]
    exact Int.dvd_zero _
  have hhole := h oneBarService midnightStored (hourlyCall (seconds 10800))
    (hourlyCall_undisturbed _) haligned 0 rfl (seconds 7200) (by decide +kernel) (by decide)
    (seconds 3600) (dvd_refl _) (by decide) (by decide)
  exact absurd hhole (by decide +kernel)

end IngestService

end ForexAi
