/-
Every admission is answered, or not.

The ingest service asks the breaker before a series and answers it after, on most ways
out: a provider error is a failure, the rest a success.  Two ways out are different.

An unexpected exception answers nothing.  With the breaker closed that is harmless, but
the call let through after the cooldown is the probe, the breaker is half open until it
is answered, and a half-open breaker refuses every call: `probe_answered_iff`.

A series that is up to date answers with a success, though no call was made.  It closes
an open breaker, and it resets the count of failures: `reflects_calls_iff`.
-/
import ForexAi.Data.Ingest

namespace ForexAi

/-- An unexpected exception ends the call, given the window it asks for. -/
def SeriesCall.Raises (c : SeriesCall) (start stop : Time) : Prop :=
  c.readFault.isSome = true ∨ (start < stop ∧
    match c.answer start stop with
    | .unexpected _ => True
    | .candles returned =>
        c.upsertFault.isSome = true ∨ c.commitFault.isSome = true ∨
          (((returned.filter (·.complete)).map (·.bar)).isEmpty = false ∧
            c.publishFault.isSome = true)
    | _ => False)

namespace IngestService

variable (svc : IngestService)

/-! ### What a series does to the breaker

The ways out of a series are few as far as the breaker is concerned: refused, idle, answered
with success or failure, or not answered.  Everything below goes through these and not through
the service.
-/

/-- The ways out of a series, as the breaker sees them. -/
inductive SeriesEffect (st : IngestState) (c : SeriesCall) (st' : IngestState) : Prop where
  /-- refused at the gate -/
  | refused (e : BreakerOpenError) (hgate : st.breaker.beforeCall svc.breaker c.admitAt = .error e)
      (hstate : st' = st)
  /-- let through, and left by an unexpected exception -/
  | unanswered (b : CircuitBreaker) (hgate : st.breaker.beforeCall svc.breaker c.admitAt = .ok b)
      (hraises : c.Raises (svc.windowOf st c).1 (svc.windowOf st c).2)
      (hbreaker : st'.breaker = b) (hhealth : st'.health = st.health)
      (hcalls : st'.calls = st.calls ∨ ∃ r ≠ .providerError, st'.calls = st.calls ++ [r])
  /-- nothing to fetch -/
  | upToDate (b : CircuitBreaker) (hgate : st.breaker.beforeCall svc.breaker c.admitAt = .ok b)
      (hread : c.readFault = none) (hempty : (svc.windowOf st c).2 ≤ (svc.windowOf st c).1)
      (hbreaker : st'.breaker = b.recordSuccess) (hhealth : st'.health = st.health)
      (hcalls : st'.calls = st.calls)
  /-- a provider error -/
  | failed (b : CircuitBreaker) (hgate : st.breaker.beforeCall svc.breaker c.admitAt = .ok b)
      (hquiet : ¬ c.Raises (svc.windowOf st c).1 (svc.windowOf st c).2)
      (hwindow : (svc.windowOf st c).1 < (svc.windowOf st c).2)
      (hbreaker : st'.breaker = (b.recordFailure svc.breaker c.failAt).2)
      (hhealth : st'.health = st.health ∨
        ∃ row, st'.health = some row ∧ row.breakerState = st'.breaker.state.value)
      (hcalls : st'.calls = st.calls ++ [.providerError])
  /-- the candles are saved -/
  | saved (b : CircuitBreaker) (hgate : st.breaker.beforeCall svc.breaker c.admitAt = .ok b)
      (hquiet : ¬ c.Raises (svc.windowOf st c).1 (svc.windowOf st c).2)
      (hwindow : (svc.windowOf st c).1 < (svc.windowOf st c).2)
      (hbreaker : st'.breaker = b.recordSuccess) (hhealth : st'.health = st.health)
      (hcalls : st'.calls = st.calls ++ [.returned])

/-- What follows the provider's candles answers the breaker, unless something raises. -/
theorem saveCandles_cases (st : IngestState) (c : SeriesCall) (start stop : Time)
    (returned : List ProviderCandle) :
    (saveCandles st c start stop returned).2.health = st.health ∧
      (saveCandles st c start stop returned).2.calls = st.calls ∧
      (((c.upsertFault.isSome = true ∨ c.commitFault.isSome = true ∨
          (((returned.filter (·.complete)).map (·.bar)).isEmpty = false ∧
            c.publishFault.isSome = true)) ∧
        (saveCandles st c start stop returned).2.breaker = st.breaker) ∨
      (¬ (c.upsertFault.isSome = true ∨ c.commitFault.isSome = true ∨
          (((returned.filter (·.complete)).map (·.bar)).isEmpty = false ∧
            c.publishFault.isSome = true)) ∧
        (saveCandles st c start stop returned).2.breaker = st.breaker.recordSuccess)) := by
  unfold saveCandles
  cases hupsert : c.upsertFault with
  | some text => exact ⟨rfl, rfl, Or.inl ⟨Or.inl rfl, rfl⟩⟩
  | none =>
      simp only
      cases hcommit : c.commitFault with
      | some text => exact ⟨rfl, rfl, Or.inl ⟨Or.inr (Or.inl rfl), rfl⟩⟩
      | none =>
          simp only
          by_cases hempty : ((returned.filter (·.complete)).map (·.bar)).isEmpty = true
          · rw [if_pos hempty]
            exact ⟨rfl, rfl, Or.inr ⟨by simp [hempty], rfl⟩⟩
          · rw [if_neg hempty]
            simp only [Bool.not_eq_true] at hempty
            cases hpublish : c.publishFault with
            | some text => exact ⟨rfl, rfl, Or.inl ⟨Or.inr (Or.inr ⟨hempty, rfl⟩), rfl⟩⟩
            | none => exact ⟨rfl, rfl, Or.inr ⟨by simp, rfl⟩⟩

/-- The handler of a provider error counts the failure, and may write the snapshot. -/
theorem providerFailed_fields (st : IngestState) (c : SeriesCall) :
    (svc.providerFailed st c).2.breaker = (st.breaker.recordFailure svc.breaker c.failAt).2 ∧
      (svc.providerFailed st c).2.calls = st.calls ++ [.providerError] ∧
      ((svc.providerFailed st c).2.health = st.health ∨
        ∃ row, (svc.providerFailed st c).2.health = some row ∧
          row.breakerState = (svc.providerFailed st c).2.breaker.state.value) := by
  unfold providerFailed
  cases hsnapshot : c.snapshot with
  | false => exact ⟨rfl, rfl, Or.inl rfl⟩
  | true => exact ⟨rfl, rfl, Or.inr ⟨_, rfl, rfl⟩⟩

/-- **Every series takes one of the ways out.** -/
theorem ingestSeries_effect (st : IngestState) (c : SeriesCall) :
    SeriesEffect svc st c (svc.ingestSeries st c).2 := by
  unfold ingestSeries
  cases hgate : st.breaker.beforeCall svc.breaker c.admitAt with
  | error e => exact .refused e hgate rfl
  | ok b =>
      simp only
      cases hread : c.readFault with
      | some text =>
          exact .unanswered b hgate (Or.inl (by rw [hread]; rfl)) rfl rfl (Or.inl rfl)
      | none =>
          simp only
          have hwindow : svc.windowOf { st with breaker := b } c = svc.windowOf st c := rfl
          rw [hwindow]
          rcases hspan : svc.windowOf st c with ⟨start, stop⟩
          have hstart : (svc.windowOf st c).1 = start := by rw [hspan]
          have hstop : (svc.windowOf st c).2 = stop := by rw [hspan]
          simp only
          by_cases hempty : stop ≤ start
          · rw [if_pos hempty]
            exact .upToDate b hgate hread (by rw [hstart, hstop]; exact hempty) rfl rfl rfl
          · rw [if_neg hempty]
            have hlt : start < stop := not_le.mp hempty
            have hopen : (svc.windowOf st c).1 < (svc.windowOf st c).2 := by
              rw [hstart, hstop]
              exact hlt
            -- With a window to fetch, only the answer and what follows it can raise.
            have hraises : c.Raises (svc.windowOf st c).1 (svc.windowOf st c).2 ↔
                match c.answer start stop with
                | .unexpected _ => True
                | .candles returned =>
                    c.upsertFault.isSome = true ∨ c.commitFault.isSome = true ∨
                      (((returned.filter (·.complete)).map (·.bar)).isEmpty = false ∧
                        c.publishFault.isSome = true)
                | _ => False := by
              unfold SeriesCall.Raises
              rw [hstart, hstop, hread]
              simp [hlt]
            cases hanswer : c.answer start stop with
            | transient text =>
                rw [hanswer] at hraises
                obtain ⟨hbreaker, hcalls, hhealth⟩ :=
                  svc.providerFailed_fields { st with breaker := b } c
                exact .failed b hgate (fun h => hraises.mp h) hopen hbreaker hhealth hcalls
            | provider text =>
                rw [hanswer] at hraises
                obtain ⟨hbreaker, hcalls, hhealth⟩ :=
                  svc.providerFailed_fields { st with breaker := b } c
                exact .failed b hgate (fun h => hraises.mp h) hopen hbreaker hhealth hcalls
            | unexpected text =>
                rw [hanswer] at hraises
                exact .unanswered b hgate (hraises.mpr trivial) rfl rfl
                  (Or.inr ⟨.unexpected, by decide, rfl⟩)
            | candles returned =>
                rw [hanswer] at hraises
                obtain ⟨hhealth, hcalls, hout⟩ := saveCandles_cases
                  { st with breaker := b, calls := st.calls ++ [.returned] } c start stop returned
                rcases hout with ⟨hfault, hbreaker⟩ | ⟨hquiet, hbreaker⟩
                · exact .unanswered b hgate (hraises.mpr hfault) hbreaker hhealth
                    (Or.inr ⟨.returned, by decide, hcalls⟩)
                · exact .saved b hgate (fun h => hquiet (hraises.mp h)) hopen hbreaker
                    hhealth hcalls

/-! ### The probe

Only an answer ends the half-open phase, and the way out without one leaves it for good,
because nobody is let through any more.
-/

/-- Nobody is waiting for an answer: neither the breaker nor its snapshot is half open. -/
structure Answered (st : IngestState) : Prop where
  breaker : st.breaker.state ≠ .halfOpen
  health : ∀ row, st.health = some row → BreakerState.fromValue (some row.breakerState) ≠ .halfOpen

/-- The probe is let through and ends in an unexpected exception. -/
def ProbeRaises (st : IngestState) (c : SeriesCall) : Prop :=
  st.breaker.ProbeDue svc.breaker c.admitAt ∧ c.Raises (svc.windowOf st c).1 (svc.windowOf st c).2

/-- A series leaves the breaker half open when it finds it so, or when it is the probe and
raises. -/
theorem ingestSeries_halfOpen (st : IngestState) (c : SeriesCall) :
    (svc.ingestSeries st c).2.breaker.state ≠ .halfOpen ↔
      st.breaker.state ≠ .halfOpen ∧ ¬ svc.ProbeRaises st c := by
  have hadmitted : ∀ b, st.breaker.beforeCall svc.breaker c.admitAt = .ok b →
      st.breaker.state ≠ .halfOpen := by
    intro b hgate hhalf
    rw [CircuitBreaker.beforeCall_halfOpen svc.breaker hhalf] at hgate
    exact absurd hgate (by simp)
  cases svc.ingestSeries_effect st c with
  | refused e hgate hstate =>
      rw [hstate]
      refine ⟨fun h => ⟨h, fun hprobe => ?_⟩, fun h => h.1⟩
      -- A probe that is due is not refused.
      obtain ⟨⟨hopen, hsome, hdue⟩, -⟩ := hprobe
      obtain ⟨opened, hopened⟩ := Option.isSome_iff_exists.mp hsome
      unfold CircuitBreaker.beforeCall at hgate
      rw [hopen, hopened] at hgate
      simp only [if_pos hdue] at hgate
      exact absurd hgate (by simp)
  | unanswered b hgate hraises hbreaker hhealth hcalls =>
      rw [hbreaker]
      rcases CircuitBreaker.beforeCall_ok svc.breaker hgate with ⟨hdue, rfl⟩ | ⟨hdue, hstate, rfl⟩
      · refine ⟨fun h => absurd rfl h, fun h => absurd ⟨hdue, hraises⟩ h.2⟩
      · exact ⟨fun h => ⟨h, fun hprobe => hdue hprobe.1⟩, fun h => h.1⟩
  | upToDate b hgate hread hempty hbreaker hhealth hcalls =>
      rw [hbreaker]
      refine ⟨fun _ => ⟨hadmitted b hgate, ?_⟩, fun _ => by simp [CircuitBreaker.recordSuccess]⟩
      rintro ⟨-, hfault | ⟨hlt, -⟩⟩
      · rw [hread] at hfault
        exact absurd hfault (by simp)
      · exact absurd hlt (not_lt.mpr hempty)
  | failed b hgate hquiet hwindow hbreaker hhealth hcalls =>
      rw [hbreaker]
      exact ⟨fun _ => ⟨hadmitted b hgate, fun hprobe => hquiet hprobe.2⟩,
        fun _ => CircuitBreaker.recordFailure_not_halfOpen svc.breaker b c.failAt⟩
  | saved b hgate hquiet hwindow hbreaker hhealth hcalls =>
      rw [hbreaker]
      exact ⟨fun _ => ⟨hadmitted b hgate, fun hprobe => hquiet hprobe.2⟩,
        fun _ => by simp [CircuitBreaker.recordSuccess]⟩

/-- **What keeps the probe answered** over a step of the service. -/
theorem answered_step {st : IngestState} {e : Event} (h : Answered st)
    (hprobe : ∀ c, e = .series c → ¬ svc.ProbeRaises st c) : Answered (svc.step st e) := by
  cases e with
  | series c =>
      have hbreaker := (svc.ingestSeries_halfOpen st c).mpr ⟨h.breaker, hprobe c rfl⟩
      refine ⟨hbreaker, ?_⟩
      have hkept : (svc.ingestSeries st c).2.health = st.health ∨
          ∃ row, (svc.ingestSeries st c).2.health = some row ∧
            row.breakerState = (svc.ingestSeries st c).2.breaker.state.value := by
        cases svc.ingestSeries_effect st c with
        | refused e hgate hstate => exact Or.inl (by rw [hstate])
        | unanswered b hgate hraises hbreaker hhealth hcalls => exact Or.inl hhealth
        | upToDate b hgate hread hempty hbreaker hhealth hcalls => exact Or.inl hhealth
        | failed b hgate hquiet hwindow hbreaker hhealth hcalls => exact hhealth
        | saved b hgate hquiet hwindow hbreaker hhealth hcalls => exact Or.inl hhealth
      intro row hrow
      rcases hkept with hsame | ⟨row', hrow', hvalue⟩
      · exact h.health row (hsame ▸ hrow)
      · have hrow'' : some row' = some row := hrow'.symm.trans hrow
        obtain rfl := Option.some.inj hrow''
        rw [hvalue, BreakerState.fromValue_value]
        exact hbreaker
  | persist now =>
      refine ⟨h.breaker, fun row hrow => ?_⟩
      obtain rfl := Option.some.inj hrow
      show BreakerState.fromValue (some st.breaker.state.value) ≠ .halfOpen
      rw [BreakerState.fromValue_value]
      exact h.breaker
  | restart =>
      refine ⟨?_, h.health⟩
      show (loadBreakerSnapshot st).breaker.state ≠ .halfOpen
      unfold loadBreakerSnapshot
      cases hhealth : st.health with
      | none => simp [CircuitBreaker.new]
      | some row => exact h.health row hhealth

/-- **When the probe is answered.**  A series leaves the breaker half open exactly when it finds
it so or is the probe and raises; and as long as no probe raises, after any cycles, snapshots
and restarts the breaker is not half open and lets a call through once the cooldown is over. -/
theorem probe_answered_iff :
    (∀ (st : IngestState) (c : SeriesCall), (svc.ingestSeries st c).2.breaker.state ≠ .halfOpen ↔
      st.breaker.state ≠ .halfOpen ∧ ¬ svc.ProbeRaises st c) ∧
    ∀ (st : IngestState) (events : List Event), Answered st →
      Runs.Along svc.step (fun st e => ∀ c, e = .series c → ¬ svc.ProbeRaises st c) st events →
      (Runs.run svc.step st events).breaker.state ≠ .halfOpen ∧
      ∀ now : Time, (∀ openedAt, (Runs.run svc.step st events).breaker.openedAt = some openedAt →
          openedAt + seconds svc.breaker.cooldownSeconds ≤ now) →
        ∃ b, (Runs.run svc.step st events).breaker.beforeCall svc.breaker now = .ok b := by
  refine ⟨svc.ingestSeries_halfOpen, fun st events hstart halong => ?_⟩
  have hanswered := Runs.invariant (fun s e hs hp => svc.answered_step hs hp) hstart halong
  exact ⟨hanswered.breaker, fun now hover =>
    CircuitBreaker.beforeCall_isOk svc.breaker hanswered.breaker hover⟩

/-- A service that was never called, on the given candles. -/
def fresh (candles : Symbol → Timeframe → Series) : IngestState where
  breaker := .new
  health := none
  candles := candles
  calls := []

/-- No candles. -/
def noCandles : Symbol → Timeframe → Series := fun _ _ => .empty

/-- An hourly call for EURUSD in the first minute of the second day that fails at the provider. -/
def failingCall (at' : Time) : SeriesCall where
  symbol := .eurusd
  timeframe := .H1
  admitAt := at'
  windowAt := at'
  failAt := at'
  persistAt := at'
  answer := fun _ _ => .transient "timeout"

/-- Five failures open the breaker, and a minute later the probe meets a lost session. -/
def lostProbe : List Event :=
  List.replicate 5 (.series (failingCall (seconds 86400))) ++
    [.series { failingCall (seconds 86460) with readFault := some "OperationalError" }]

/-- After the lost probe the breaker is half open, and refuses every call from then on. -/
theorem probe_left_in_flight : ¬ ∀ (svc : IngestService) (events : List Event),
    (Runs.run svc.step (fresh noCandles) events).breaker.state ≠ .halfOpen := by
  intro h
  exact absurd (h defaultService lostProbe) (by decide +kernel)

/-! ### The count of failures

Failures are counted in a row.  What interrupts the row should be a call that succeeded; a
series that made no call does it as well.
-/

/-- The count of failures is reset, or the breaker closed. -/
def Closes (b b' : CircuitBreaker) : Prop :=
  (b.consecutiveFailures ≠ 0 ∧ b'.consecutiveFailures = 0) ∨
    (b.state ≠ .closed ∧ b'.state = .closed)

/-- A series is up to date while the breaker remembers a failure. -/
def IdleSuccess (st : IngestState) (c : SeriesCall) : Prop :=
  (∃ b, st.breaker.beforeCall svc.breaker c.admitAt = .ok b) ∧ c.readFault = none ∧
    (svc.windowOf st c).2 ≤ (svc.windowOf st c).1 ∧
    (st.breaker.consecutiveFailures ≠ 0 ∨ st.breaker.state ≠ .closed)

theorem not_closes_beforeCall {b b' : CircuitBreaker} {now : Time}
    (h : b.beforeCall svc.breaker now = .ok b') :
    b'.consecutiveFailures = b.consecutiveFailures ∧ (b'.state = .closed → b.state = .closed) := by
  rcases CircuitBreaker.beforeCall_ok svc.breaker h with ⟨-, rfl⟩ | ⟨-, -, rfl⟩
  · exact ⟨rfl, fun hc => absurd hc (by simp)⟩
  · exact ⟨rfl, id⟩

theorem recordFailure_counts (b : CircuitBreaker) (now : Time) :
    (b.recordFailure svc.breaker now).2.consecutiveFailures = b.consecutiveFailures + 1 ∧
      ((b.recordFailure svc.breaker now).2.state = .closed →
        b.state = .closed ∧ b.consecutiveFailures + 1 < svc.breaker.failureThreshold) := by
  unfold CircuitBreaker.recordFailure
  simp only
  by_cases hopen : b.state = .halfOpen ∨ svc.breaker.failureThreshold ≤ b.consecutiveFailures + 1
  · rw [if_pos hopen]
    exact ⟨rfl, fun hc => absurd hc (by simp)⟩
  · rw [if_neg hopen]
    exact ⟨rfl, fun hc => ⟨hc, not_le.mp fun hle => hopen (Or.inr hle)⟩⟩

/-- Beside a call that succeeded, only an idle success resets or closes. -/
theorem ingestSeries_closes (st : IngestState) (c : SeriesCall) :
    (Closes st.breaker (svc.ingestSeries st c).2.breaker →
        (svc.ingestSeries st c).2.calls = st.calls ++ [.returned]) ↔
      ¬ svc.IdleSuccess st c := by
  have hbusy : (svc.windowOf st c).1 < (svc.windowOf st c).2 → ¬ svc.IdleSuccess st c :=
    fun hlt hidle => absurd hidle.2.2.1 (not_le.mpr hlt)
  cases svc.ingestSeries_effect st c with
  | refused e hgate hstate =>
      rw [hstate]
      refine ⟨fun _ hidle => ?_, fun _ hcloses => ?_⟩
      · obtain ⟨⟨b, hb⟩, -⟩ := hidle
        rw [hgate] at hb
        exact absurd hb (by simp)
      · rcases hcloses with ⟨hne, heq⟩ | ⟨hne, heq⟩ <;> exact absurd heq hne
  | unanswered b hgate hraises hbreaker hhealth hcalls =>
      obtain ⟨hfailures, hclosed⟩ := svc.not_closes_beforeCall hgate
      rw [hbreaker]
      refine ⟨fun _ hidle => ?_, fun _ hcloses => ?_⟩
      · rcases hraises with hfault | ⟨hlt, -⟩
        · rw [hidle.2.1] at hfault
          exact absurd hfault (by simp)
        · exact hbusy hlt hidle
      · rcases hcloses with ⟨hne, heq⟩ | ⟨hne, heq⟩
        · exact absurd (hfailures.symm.trans heq) hne
        · exact absurd (hclosed heq) hne
  | upToDate b hgate hread hempty hbreaker hhealth hcalls =>
      have hcloses : Closes st.breaker (svc.ingestSeries st c).2.breaker ↔
          st.breaker.consecutiveFailures ≠ 0 ∨ st.breaker.state ≠ .closed := by
        rw [hbreaker]
        unfold Closes CircuitBreaker.recordSuccess
        simp
      have hnone : ¬ (svc.ingestSeries st c).2.calls = st.calls ++ [.returned] := by
        rw [hcalls]
        simp
      rw [hcloses]
      refine ⟨fun h hidle => hnone (h hidle.2.2.2), fun h hmemory => ?_⟩
      exact absurd ⟨⟨b, hgate⟩, hread, hempty, hmemory⟩ h
  | failed b hgate hquiet hwindow hbreaker hhealth hcalls =>
      obtain ⟨hfailures, hclosed⟩ := svc.not_closes_beforeCall hgate
      obtain ⟨hcount, hstate⟩ := svc.recordFailure_counts b c.failAt
      rw [hbreaker]
      refine ⟨fun _ => hbusy hwindow, fun _ hcloses => ?_⟩
      rcases hcloses with ⟨-, heq⟩ | ⟨hne, heq⟩
      · rw [hcount] at heq
        omega
      · exact absurd (hclosed (hstate heq).1) hne
  | saved b hgate hquiet hwindow hbreaker hhealth hcalls =>
      exact ⟨fun _ => hbusy hwindow, fun _ _ => hcalls⟩

/-- The breaker has counted the failures at the end of the calls, and is closed only below the
threshold. -/
structure Counted (st : IngestState) : Prop where
  failures : ∀ n earlier, st.calls = earlier ++ List.replicate n .providerError →
    n ≤ st.breaker.consecutiveFailures
  below : st.breaker.state = .closed →
    st.breaker.consecutiveFailures < svc.breaker.failureThreshold

omit svc in
theorem no_failures_after {calls earlier : List CallResult} {r : CallResult} {n : ℕ}
    (hr : r ≠ .providerError) (h : calls ++ [r] = earlier ++ List.replicate n .providerError) :
    n = 0 := by
  cases n with
  | zero => rfl
  | succ n =>
      rw [List.replicate_succ', ← List.append_assoc] at h
      have hlast := (List.append_inj' h rfl).2
      exact absurd (List.singleton_inj.mp hlast) hr

/-- **What keeps the failures counted** over a series. -/
theorem counted_series {st : IngestState} {c : SeriesCall} (h : svc.Counted st)
    (hidle : ¬ svc.IdleSuccess st c) : svc.Counted (svc.ingestSeries st c).2 := by
  have hpos := svc.breaker.failureThreshold_pos
  cases svc.ingestSeries_effect st c with
  | refused e hgate hstate =>
      rw [hstate]
      exact h
  | unanswered b hgate hraises hbreaker hhealth hcalls =>
      obtain ⟨hfailures, hclosed⟩ := svc.not_closes_beforeCall hgate
      refine ⟨fun n earlier hn => ?_, fun hstate => ?_⟩
      · rw [hbreaker, hfailures]
        rcases hcalls with hsame | ⟨r, hr, hcalls⟩
        · exact h.failures n earlier (hsame ▸ hn)
        · rw [hcalls] at hn
          rw [no_failures_after hr hn]
          exact Nat.zero_le _
      · rw [hbreaker] at hstate ⊢
        rw [hfailures]
        exact h.below (hclosed hstate)
  | upToDate b hgate hread hempty hbreaker hhealth hcalls =>
      -- The success is not idle, so there was no failure to forget.
      have hclean : st.breaker.consecutiveFailures = 0 := by
        by_contra hne
        exact hidle ⟨⟨b, hgate⟩, hread, hempty, Or.inl hne⟩
      refine ⟨fun n earlier hn => ?_, fun _ => ?_⟩
      · rw [hcalls] at hn
        have hle := h.failures n earlier hn
        omega
      · rw [hbreaker]
        exact hpos
  | failed b hgate hquiet hwindow hbreaker hhealth hcalls =>
      obtain ⟨hfailures, -⟩ := svc.not_closes_beforeCall hgate
      obtain ⟨hcount, hstate⟩ := svc.recordFailure_counts b c.failAt
      refine ⟨fun n earlier hn => ?_, fun hclosed => ?_⟩
      · rw [hbreaker, hcount, hfailures]
        cases n with
        | zero => exact Nat.zero_le _
        | succ n =>
            rw [hcalls, List.replicate_succ', ← List.append_assoc] at hn
            have hle := h.failures n earlier (List.append_inj' hn rfl).1
            omega
      · rw [hbreaker] at hclosed ⊢
        rw [hcount]
        exact (hstate hclosed).2
  | saved b hgate hquiet hwindow hbreaker hhealth hcalls =>
      refine ⟨fun n earlier hn => ?_, fun _ => ?_⟩
      · rw [hcalls] at hn
        rw [no_failures_after (by decide) hn]
        exact Nat.zero_le _
      · rw [hbreaker]
        exact hpos

/-- **When the breaker reflects the calls.**  Beside a call that succeeded only an idle success
resets the count or closes the breaker; and in cycles without one, whatever their series, the
breaker is not closed when the last calls, as many as the threshold, all failed. -/
theorem reflects_calls_iff :
    (∀ (st : IngestState) (c : SeriesCall),
      (Closes st.breaker (svc.ingestSeries st c).2.breaker →
          (svc.ingestSeries st c).2.calls = st.calls ++ [.returned]) ↔
        ¬ svc.IdleSuccess st c) ∧
    ∀ (candles : Symbol → Timeframe → Series) (cs : List SeriesCall),
      Runs.Along (fun st c => (svc.ingestSeries st c).2) (fun st c => ¬ svc.IdleSuccess st c)
        (fresh candles) cs →
      ∀ earlier, (Runs.run (fun st c => (svc.ingestSeries st c).2) (fresh candles) cs).calls
          = earlier ++ List.replicate svc.breaker.failureThreshold .providerError →
        (Runs.run (fun st c => (svc.ingestSeries st c).2) (fresh candles) cs).breaker.state
          ≠ .closed := by
  refine ⟨svc.ingestSeries_closes, fun candles cs halong earlier hcalls hclosed => ?_⟩
  have hfresh : svc.Counted (fresh candles) := by
    refine ⟨fun n earlier hn => ?_, fun _ => svc.breaker.failureThreshold_pos⟩
    have hlength := congrArg List.length hn
    rw [List.length_append, List.length_replicate] at hlength
    have hzero : ([] : List CallResult).length = 0 := rfl
    have hn' : n ≤ 0 := by
      have hlen : (fresh candles).calls.length = 0 := rfl
      omega
    exact hn'.trans (Nat.zero_le _)
  have hcounted := Runs.invariant (fun s c hs hp => svc.counted_series hs hp) hfresh halong
  exact absurd (hcounted.below hclosed) (not_lt.mpr (hcounted.failures _ earlier hcalls))

/-- A call for GBPUSD that is up to date. -/
def idleCall (at' : Time) : SeriesCall :=
  { failingCall at' with symbol := .gbpusd }

/-- GBPUSD has the last hour of the first day. -/
def gbpusdCurrent : Symbol → Timeframe → Series := fun symbol _ =>
  if symbol = .gbpusd then
    ⟨[{ ts := seconds 82800, openPrice := 1, high := 1, low := 1, close := 1 }],
      List.pairwise_singleton _ _⟩
  else .empty

/-- Five failing calls for EURUSD, each followed by an idle series, leave the breaker closed. -/
theorem idle_series_hide_failures : ¬ ∀ (svc : IngestService)
    (candles : Symbol → Timeframe → Series) (cs : List SeriesCall) (earlier : List CallResult),
    (Runs.run (fun st c => (svc.ingestSeries st c).2) (fresh candles) cs).calls
        = earlier ++ List.replicate svc.breaker.failureThreshold .providerError →
      (Runs.run (fun st c => (svc.ingestSeries st c).2) (fresh candles) cs).breaker.state
        ≠ .closed := by
  intro h
  have hfive := h defaultService gbpusdCurrent
    (List.replicate 5 [failingCall (seconds 86400), idleCall (seconds 86400)]).flatten []
    (by decide +kernel)
  exact absurd hfive (by decide +kernel)

end IngestService

end ForexAi
