/-
Whom the breaker lets through.

Callers may overlap, so an outcome can be recorded long after its call, with the breaker
in another state by then.  The rules the breaker is to follow are `BreakerRules`: cooling down
it lets nobody through, after that one call, the probe, and nobody else until the probe's
own outcome is there.

The code follows them in every run that is orderly (`by_the_rules`).  Two things make
a run disorderly.  The remaining time is cut to whole seconds, so a call in the last second
of the cooldown is let through already.  And an outcome does not say which call it is of,
so a late success closes a breaker that cools down, and a half-open one takes any outcome
for the probe's.
-/
import ForexAi.Data.Breaker
import ForexAi.Lib.Runs
import Mathlib.Tactic.Linarith

namespace ForexAi

/-- What happens at a breaker.  The calls are numbered, and an outcome names its call. -/
inductive BreakerEvent where
  | call (now : Time)
  | success (ticket : ℕ)
  | failure (ticket : ℕ) (now : Time)
  deriving DecidableEq

/-- A breaker and its callers: how many calls were made, which were let through and have no
outcome yet, which was the last probe, and what the clock showed last. -/
structure GuardedCalls where
  breaker : CircuitBreaker
  calls : ℕ
  pending : List ℕ
  probe : Option ℕ
  clock : Time

namespace GuardedCalls

/-- Before the first call. -/
def start (clock : Time) : GuardedCalls := ⟨.new, 0, [], none, clock⟩

variable (cfg : BreakerConfig)

def step (g : GuardedCalls) : BreakerEvent → GuardedCalls
  | .call now =>
      match g.breaker.beforeCall cfg now with
      | .error _ => { g with calls := g.calls + 1, clock := now }
      | .ok breaker =>
          { breaker
            calls := g.calls + 1
            pending := g.calls :: g.pending
            probe := if breaker.state = .halfOpen then some g.calls else g.probe
            clock := now }
  | .success ticket =>
      { g with breaker := g.breaker.recordSuccess, pending := g.pending.erase ticket }
  | .failure ticket now =>
      { g with
        breaker := (g.breaker.recordFailure cfg now).2
        pending := g.pending.erase ticket
        clock := now }

/-- Whether a call is let through, and whether a failure opens the breaker. -/
def answer (g : GuardedCalls) : BreakerEvent → Bool
  | .call now => (g.breaker.beforeCall cfg now).isOk
  | .success _ => true
  | .failure _ now => (g.breaker.recordFailure cfg now).1

/-- The clock does not go back, and an outcome is that of a call that was let through. -/
def Proper (g : GuardedCalls) : BreakerEvent → Prop
  | .call now => g.clock ≤ now
  | .success ticket => ticket ∈ g.pending
  | .failure ticket now => ticket ∈ g.pending ∧ g.clock ≤ now

instance (g : GuardedCalls) (e : BreakerEvent) : Decidable (g.Proper e) :=
  match e with
  | .call now => inferInstanceAs (Decidable (g.clock ≤ now))
  | .success ticket => inferInstanceAs (Decidable (ticket ∈ g.pending))
  | .failure ticket now => inferInstanceAs (Decidable (ticket ∈ g.pending ∧ g.clock ≤ now))

/-- No call in the last second of a cooldown, no success while the breaker is open, and while it
is half open only the probe's outcome. -/
def Orderly (g : GuardedCalls) : BreakerEvent → Prop
  | .call now => g.breaker.state = .open → ∀ opened, g.breaker.openedAt = some opened →
      opened + seconds cfg.cooldownSeconds < now + seconds 1 →
        opened + seconds cfg.cooldownSeconds ≤ now
  | .success ticket => g.breaker.state ≠ .open ∧
      (g.breaker.state = .halfOpen → g.probe = some ticket)
  | .failure ticket _ => g.breaker.state = .halfOpen → g.probe = some ticket

end GuardedCalls

/-! ### The rules

The rules are a machine of three phases.  They say what a breaker is for, and are no
translation of the code.
-/

/-- Where a breaker is by the rules. -/
inductive BreakerPhase where
  | closed (failures : ℕ)
  | cooling (opened : Time)
  | probing (ticket : ℕ)
  deriving DecidableEq

/-- The rules a breaker is to follow: its phase, and how many calls were made. -/
structure BreakerRules where
  phase : BreakerPhase
  calls : ℕ

namespace BreakerRules

def start : BreakerRules := ⟨.closed 0, 0⟩

variable (cfg : BreakerConfig)

/-- Whether a call is let through, and whether a failure opens the breaker. -/
def answer (r : BreakerRules) : BreakerEvent → Bool
  | .call now =>
      match r.phase with
      | .closed _ => true
      | .cooling opened => decide (opened + seconds cfg.cooldownSeconds ≤ now)
      | .probing _ => false
  | .success _ => true
  | .failure ticket _ =>
      match r.phase with
      | .closed failures => decide (cfg.failureThreshold ≤ failures + 1)
      | .cooling _ => true
      | .probing probe => decide (ticket = probe)

def step (r : BreakerRules) : BreakerEvent → BreakerRules
  | .call now =>
      match r.phase with
      | .cooling opened =>
          if opened + seconds cfg.cooldownSeconds ≤ now then ⟨.probing r.calls, r.calls + 1⟩
          else ⟨.cooling opened, r.calls + 1⟩
      | .closed _ | .probing _ => { r with calls := r.calls + 1 }
  | .success ticket =>
      match r.phase with
      | .closed _ => { r with phase := .closed 0 }
      -- The success of a call from before the opening changes nothing.
      | .cooling _ => r
      | .probing probe => { r with phase := if ticket = probe then .closed 0 else .probing probe }
  | .failure ticket now =>
      match r.phase with
      | .closed failures =>
          { r with
            phase := if cfg.failureThreshold ≤ failures + 1 then .cooling now
              else .closed (failures + 1) }
      -- One more failure opens the breaker anew.
      | .cooling _ => { r with phase := .cooling now }
      | .probing probe =>
          { r with phase := if ticket = probe then .cooling now else .probing probe }

end BreakerRules

/-! ### What the code does at the gate

The gate computes how many whole seconds are left until the probe.  Cut to whole seconds, less
than one is none.
-/

namespace CircuitBreaker

variable (cfg : BreakerConfig)

/-- The remaining seconds are down to nought in the last second of the cooldown. -/
theorem secondsUntilProbe_le_iff {b : CircuitBreaker} {opened : Time} (hstate : b.state = .open)
    (hopened : b.openedAt = some opened) (now : Time) :
    b.secondsUntilProbe cfg now ≤ 0 ↔ opened + seconds cfg.cooldownSeconds < now + seconds 1 := by
  unfold secondsUntilProbe
  rw [hstate, hopened]
  have hcut : ∀ x : ℤ, x.tdiv (seconds 1) ≤ 0 ↔ x < seconds 1 := by
    intro x
    have hone : seconds 1 = 1000000 := rfl
    rw [hone]
    constructor
    · intro hle
      by_contra hlt
      rw [Int.tdiv_eq_ediv_of_nonneg (by omega)] at hle
      omega
    · intro hlt
      by_cases hneg : x ≤ 0
      · have hopposite := Int.tdiv_nonneg (neg_nonneg.mpr hneg) (seconds_nonneg 1)
        rw [Int.neg_tdiv] at hopposite
        exact neg_nonneg.mp hopposite
      · rw [Int.tdiv_eq_ediv_of_nonneg (by omega)]
        omega
  rw [max_le_iff, hcut]
  constructor
  · rintro ⟨-, hlt⟩
    linarith
  · intro hlt
    exact ⟨le_rfl, by linarith⟩

theorem beforeCall_open {b : CircuitBreaker} {opened : Time} (hstate : b.state = .open)
    (hopened : b.openedAt = some opened) (now : Time) :
    b.beforeCall cfg now =
      if opened + seconds cfg.cooldownSeconds < now + seconds 1 then
        .ok { b with state := .halfOpen }
      else .error (.cooling (b.secondsUntilProbe cfg now)) := by
  have hdue := secondsUntilProbe_le_iff cfg hstate hopened now
  unfold beforeCall
  rw [hstate, hopened]
  simp only [hdue]

theorem beforeCall_closed {b : CircuitBreaker} (hstate : b.state = .closed) (now : Time) :
    b.beforeCall cfg now = .ok b := by
  unfold beforeCall
  rw [hstate]

/-- Half open, or with failures enough, one more failure opens. -/
theorem recordFailure_opens {b : CircuitBreaker}
    (h : b.state = .halfOpen ∨ cfg.failureThreshold ≤ b.consecutiveFailures + 1) (now : Time) :
    b.recordFailure cfg now = (true, ⟨.open, b.consecutiveFailures + 1, some now⟩) := by
  unfold recordFailure
  exact if_pos h

theorem recordFailure_counts {b : CircuitBreaker} (hstate : b.state ≠ .halfOpen)
    (h : ¬ cfg.failureThreshold ≤ b.consecutiveFailures + 1) (now : Time) :
    b.recordFailure cfg now
      = (false, { b with consecutiveFailures := b.consecutiveFailures + 1 }) := by
  unfold recordFailure
  exact if_neg (not_or.mpr ⟨hstate, h⟩)

end CircuitBreaker

/-! ### The code follows the rules

In an orderly event the cut makes no difference and an outcome is that of the call the phase
is about, so both machines go the same way.
-/

/-- The breaker is in the phase the rules say.  Once it has opened, the failures stay at the
threshold until a success. -/
inductive Follows (cfg : BreakerConfig) : GuardedCalls → BreakerRules → Prop where
  | closed {g : GuardedCalls} (hstate : g.breaker.state = .closed) :
      Follows cfg g ⟨.closed g.breaker.consecutiveFailures, g.calls⟩
  | cooling {g : GuardedCalls} {opened : Time} (hstate : g.breaker.state = .open)
      (hopened : g.breaker.openedAt = some opened)
      (hfailures : cfg.failureThreshold ≤ g.breaker.consecutiveFailures) :
      Follows cfg g ⟨.cooling opened, g.calls⟩
  | probing {g : GuardedCalls} {probe : ℕ} (hstate : g.breaker.state = .halfOpen)
      (hprobe : g.probe = some probe)
      (hfailures : cfg.failureThreshold ≤ g.breaker.consecutiveFailures) :
      Follows cfg g ⟨.probing probe, g.calls⟩

namespace Follows

variable {cfg : BreakerConfig} {g : GuardedCalls} {r : BreakerRules}

theorem start (clock : Time) : Follows cfg (.start clock) .start :=
  .closed rfl

/-- In an orderly run the whole seconds make no difference. -/
theorem due_iff {opened now : Time} (hstate : g.breaker.state = .open)
    (hopened : g.breaker.openedAt = some opened) (horderly : g.Orderly cfg (.call now)) :
    opened + seconds cfg.cooldownSeconds < now + seconds 1 ↔
      opened + seconds cfg.cooldownSeconds ≤ now := by
  constructor
  · intro hlast
    exact horderly hstate opened hopened hlast
  · intro hover
    exact hover.trans_lt (lt_add_of_pos_right now (by decide))

/-- The decision is that of the rules, and so is the phase after it. -/
structure Agrees (cfg : BreakerConfig) (g : GuardedCalls) (r : BreakerRules) (e : BreakerEvent) :
    Prop where
  answer : g.answer cfg e = r.answer cfg e
  step : Follows cfg (g.step cfg e) (r.step cfg e)

theorem call (h : Follows cfg g r) {now : Time} (horderly : g.Orderly cfg (.call now)) :
    Agrees cfg g r (.call now) := by
  cases h with
  | closed hstate =>
      have hgate := CircuitBreaker.beforeCall_closed cfg hstate now
      constructor
      · simp only [GuardedCalls.answer, BreakerRules.answer, hgate]
        rfl
      · simp only [GuardedCalls.step, BreakerRules.step, hgate]
        exact .closed hstate
  | @cooling opened hstate hopened hfailures =>
      have hgate := CircuitBreaker.beforeCall_open cfg hstate hopened now
      simp only [due_iff hstate hopened horderly] at hgate
      by_cases hover : opened + seconds cfg.cooldownSeconds ≤ now
      · rw [if_pos hover] at hgate
        constructor
        · simp only [GuardedCalls.answer, BreakerRules.answer, hgate, decide_eq_true hover]
          rfl
        · simp only [GuardedCalls.step, BreakerRules.step, hgate, if_pos hover]
          exact .probing rfl rfl hfailures
      · rw [if_neg hover] at hgate
        constructor
        · simp only [GuardedCalls.answer, BreakerRules.answer, hgate, decide_eq_false hover]
          rfl
        · simp only [GuardedCalls.step, BreakerRules.step, hgate, if_neg hover]
          exact .cooling hstate hopened hfailures
  | probing hstate hprobe hfailures =>
      have hgate := CircuitBreaker.beforeCall_halfOpen cfg hstate now
      constructor
      · simp only [GuardedCalls.answer, BreakerRules.answer, hgate]
        rfl
      · simp only [GuardedCalls.step, BreakerRules.step, hgate]
        exact .probing hstate hprobe hfailures

theorem success (h : Follows cfg g r) {ticket : ℕ} (horderly : g.Orderly cfg (.success ticket)) :
    Agrees cfg g r (.success ticket) := by
  refine ⟨rfl, ?_⟩
  cases h with
  | closed hstate => exact .closed rfl
  | cooling hstate hopened hfailures => exact absurd hstate horderly.1
  | @probing probe hstate hprobe hfailures =>
      have hticket : ticket = probe :=
        Option.some.inj ((horderly.2 hstate).symm.trans hprobe)
      simp only [BreakerRules.step, if_pos hticket]
      exact .closed rfl

theorem failure (h : Follows cfg g r) {ticket : ℕ} {now : Time}
    (horderly : g.Orderly cfg (.failure ticket now)) : Agrees cfg g r (.failure ticket now) := by
  cases h with
  | closed hstate =>
      by_cases hmany : cfg.failureThreshold ≤ g.breaker.consecutiveFailures + 1
      · have hopens := CircuitBreaker.recordFailure_opens cfg (Or.inr hmany) now
        constructor
        · simp only [GuardedCalls.answer, BreakerRules.answer, hopens, decide_eq_true hmany]
        · simp only [GuardedCalls.step, BreakerRules.step, hopens, if_pos hmany]
          exact .cooling rfl rfl hmany
      · have hcounts := CircuitBreaker.recordFailure_counts cfg (by simp [hstate]) hmany now
        constructor
        · simp only [GuardedCalls.answer, BreakerRules.answer, hcounts, decide_eq_false hmany]
        · simp only [GuardedCalls.step, BreakerRules.step, hcounts, if_neg hmany]
          exact .closed hstate
  | cooling hstate hopened hfailures =>
      have hmany := Nat.le_succ_of_le hfailures
      have hopens := CircuitBreaker.recordFailure_opens cfg (Or.inr hmany) now
      constructor
      · simp only [GuardedCalls.answer, BreakerRules.answer, hopens]
      · simp only [GuardedCalls.step, BreakerRules.step, hopens]
        exact .cooling rfl rfl hmany
  | @probing probe hstate hprobe hfailures =>
      have hticket : ticket = probe := Option.some.inj ((horderly hstate).symm.trans hprobe)
      have hopens := CircuitBreaker.recordFailure_opens cfg (Or.inl hstate) now
      constructor
      · simp only [GuardedCalls.answer, BreakerRules.answer, hopens, decide_eq_true hticket]
      · simp only [GuardedCalls.step, BreakerRules.step, hopens, if_pos hticket]
        exact .cooling rfl rfl (Nat.le_succ_of_le hfailures)

/-- **In an orderly event the code agrees with the rules.** -/
theorem agrees (h : Follows cfg g r) {e : BreakerEvent} (horderly : g.Orderly cfg e) :
    Agrees cfg g r e := by
  cases e with
  | call now => exact h.call horderly
  | success ticket => exact h.success horderly
  | failure ticket now => exact h.failure horderly

/-- An open breaker knows when it opened. -/
theorem isSome_openedAt (h : Follows cfg g r) (hopen : g.breaker.state = .open) :
    g.breaker.openedAt.isSome = true := by
  cases h with
  | closed hstate => exact absurd (hstate.symm.trans hopen) (by simp)
  | cooling hstate hopened hfailures => exact Option.isSome_iff_exists.mpr ⟨_, hopened⟩
  | probing hstate hprobe hfailures => exact absurd (hstate.symm.trans hopen) (by simp)

end Follows

namespace GuardedCalls

variable (cfg : BreakerConfig)

/-- An event is the outcome of a call. -/
def OutcomeOf (ticket : ℕ) : BreakerEvent → Prop
  | .call _ => False
  | .success other => other = ticket
  | .failure other _ => other = ticket

/-- What the breaker promises of a run from its start. -/
structure ByTheRules (clock : Time) (es : List BreakerEvent) : Prop where
  /-- Every decision is that of the rules. -/
  decisions : ∀ before e after, es = before ++ e :: after →
    (Runs.run (step cfg) (start clock) before).answer cfg e
      = (Runs.run (BreakerRules.step cfg) .start before).answer cfg e
  /-- From an opening on nobody is let through before the cooldown is over. -/
  cooldown : ∀ before ticket opened mid now after,
    es = before ++ .failure ticket opened :: (mid ++ .call now :: after) →
    (Runs.run (step cfg) (start clock) before).answer cfg (.failure ticket opened) = true →
    (Runs.run (step cfg) (start clock) (before ++ .failure ticket opened :: mid)).answer cfg
      (.call now) = true →
    opened + seconds cfg.cooldownSeconds ≤ now
  /-- From the probe on nobody is let through before its outcome. -/
  single : ∀ before probed mid now after,
    es = before ++ .call probed :: (mid ++ .call now :: after) →
    (Runs.run (step cfg) (start clock) before).breaker.state = .open →
    (Runs.run (step cfg) (start clock) before).answer cfg (.call probed) = true →
    (∀ e ∈ mid, ¬ OutcomeOf (Runs.run (step cfg) (start clock) before).calls e) →
    (Runs.run (step cfg) (start clock) (before ++ .call probed :: mid)).answer cfg
      (.call now) = false

variable {cfg}

/-- The breaker opened at `opened` or later, or that cooldown is over. -/
def Cooled (cfg : BreakerConfig) (opened : Time) (g : GuardedCalls) : Prop :=
  opened ≤ g.clock ∧
    ((g.breaker.state = .open ∧ ∃ later, g.breaker.openedAt = some later ∧ opened ≤ later) ∨
      opened + seconds cfg.cooldownSeconds ≤ g.clock)

theorem cooled_of_opening {g : GuardedCalls} {ticket : ℕ} {opened : Time}
    (h : g.answer cfg (.failure ticket opened) = true) :
    Cooled cfg opened (g.step cfg (.failure ticket opened)) := by
  refine ⟨le_rfl, Or.inl ?_⟩
  show (g.breaker.recordFailure cfg opened).2.state = .open ∧
    ∃ later, (g.breaker.recordFailure cfg opened).2.openedAt = some later ∧ opened ≤ later
  change (g.breaker.recordFailure cfg opened).1 = true at h
  by_cases hopens : g.breaker.state = .halfOpen ∨
      cfg.failureThreshold ≤ g.breaker.consecutiveFailures + 1
  · rw [CircuitBreaker.recordFailure_opens cfg hopens]
    exact ⟨rfl, opened, rfl, le_rfl⟩
  · obtain ⟨hstate, hfew⟩ := not_or.mp hopens
    rw [CircuitBreaker.recordFailure_counts cfg hstate hfew] at h
    exact absurd h (by simp)

theorem Cooled.due {g : GuardedCalls} {opened now : Time} (h : Cooled cfg opened g)
    (hclock : g.clock ≤ now) (horderly : g.Orderly cfg (.call now))
    (hanswer : g.answer cfg (.call now) = true) : opened + seconds cfg.cooldownSeconds ≤ now := by
  rcases h.2 with ⟨hstate, later, hlater, hle⟩ | hover
  · have hlast : later + seconds cfg.cooldownSeconds < now + seconds 1 := by
      by_contra hearly
      change (g.breaker.beforeCall cfg now).isOk = true at hanswer
      rw [CircuitBreaker.beforeCall_open cfg hstate hlater, if_neg hearly] at hanswer
      exact absurd hanswer (by simp [Except.isOk, Except.toBool])
    exact (add_le_add_left hle _).trans (horderly hstate later hlater hlast)
  · exact hover.trans hclock

theorem Cooled.step {g : GuardedCalls} {opened : Time} {e : BreakerEvent} (h : Cooled cfg opened g)
    (hproper : g.Proper e) (horderly : g.Orderly cfg e) : Cooled cfg opened (g.step cfg e) := by
  cases e with
  | call now =>
      have hclock : g.clock ≤ now := hproper
      have hdue := h.due hclock horderly
      simp only [GuardedCalls.answer] at hdue
      simp only [GuardedCalls.step]
      cases hgate : g.breaker.beforeCall cfg now with
      | error error => exact ⟨h.1.trans hclock, h.2.imp_right fun hover => hover.trans hclock⟩
      | ok b =>
          rw [hgate] at hdue
          exact ⟨h.1.trans hclock, Or.inr (hdue rfl)⟩
  | success ticket =>
      refine ⟨h.1, Or.inr (h.2.resolve_left fun hopen => ?_)⟩
      exact horderly.1 hopen.1
  | failure ticket now =>
      have hclock : g.clock ≤ now := hproper.2
      refine ⟨h.1.trans hclock, ?_⟩
      rcases h.2 with ⟨hstate, later, hlater, hle⟩ | hover
      · left
        by_cases hmany : cfg.failureThreshold ≤ g.breaker.consecutiveFailures + 1
        · simp only [GuardedCalls.step, CircuitBreaker.recordFailure_opens cfg (Or.inr hmany)]
          exact ⟨trivial, now, rfl, h.1.trans hclock⟩
        · simp only [GuardedCalls.step,
            CircuitBreaker.recordFailure_counts cfg (by simp [hstate]) hmany]
          exact ⟨hstate, later, hlater, hle⟩
      · exact Or.inr (hover.trans hclock)

/-- The probe is out. -/
def ProbeOut (ticket : ℕ) (g : GuardedCalls) : Prop :=
  g.breaker.state = .halfOpen ∧ g.probe = some ticket

theorem probeOut_of_call {g : GuardedCalls} {now : Time} (hstate : g.breaker.state = .open)
    (hopened : g.breaker.openedAt.isSome = true) (h : g.answer cfg (.call now) = true) :
    ProbeOut g.calls (g.step cfg (.call now)) := by
  obtain ⟨opened, hopened⟩ := Option.isSome_iff_exists.mp hopened
  simp only [answer, CircuitBreaker.beforeCall_open cfg hstate hopened] at h
  simp only [GuardedCalls.step, CircuitBreaker.beforeCall_open cfg hstate hopened]
  by_cases hdue : opened + seconds cfg.cooldownSeconds < now + seconds 1
  · rw [if_pos hdue]
    exact ⟨rfl, rfl⟩
  · rw [if_neg hdue] at h
    exact absurd h (by simp [Except.isOk, Except.toBool])

/-- Until its outcome the probe stays out. -/
theorem ProbeOut.step {g : GuardedCalls} {ticket : ℕ} {e : BreakerEvent} (h : ProbeOut ticket g)
    (horderly : g.Orderly cfg e) (hother : ¬ OutcomeOf ticket e) :
    ProbeOut ticket (g.step cfg e) := by
  cases e with
  | call now =>
      simp only [GuardedCalls.step, CircuitBreaker.beforeCall_halfOpen cfg h.1]
      exact h
  | success other =>
      exact absurd (Option.some.inj ((horderly.2 h.1).symm.trans h.2)) hother
  | failure other now =>
      exact absurd (Option.some.inj ((horderly h.1).symm.trans h.2)) hother

/-- **A breaker keeps its promise in every orderly run.** -/
theorem by_the_rules (cfg : BreakerConfig) (clock : Time) (es : List BreakerEvent)
    (hproper : Runs.Along (step cfg) Proper (start clock) es)
    (horderly : Runs.Along (step cfg) (Orderly cfg) (start clock) es) :
    ByTheRules cfg clock es := by
  have hstep : ∀ g r e, Follows cfg g r → g.Orderly cfg e →
      Follows cfg (g.step cfg e) (r.step cfg e) :=
    fun g r e h horderly => (h.agrees horderly).step
  have hfollows : ∀ before after, es = before ++ after →
      Follows cfg (Runs.run (step cfg) (start clock) before)
        (Runs.run (BreakerRules.step cfg) .start before) := by
    rintro before after rfl
    exact Runs.simulation hstep (.start clock) (Runs.along_append.mp horderly).1
  have hboth := Runs.along_and.mpr ⟨hproper, horderly⟩
  refine ⟨?_, ?_, ?_⟩
  · rintro before e after rfl
    exact ((hfollows before _ rfl).agrees (Runs.along_append.mp horderly).2.1).answer
  · rintro before ticket opened mid now after rfl hopens hadmitted
    obtain ⟨-, hlater⟩ := Runs.along_append.mp hboth
    obtain ⟨hmid, hcall, -⟩ := Runs.along_append.mp hlater.2
    rw [Runs.run_append, Runs.run_cons] at hadmitted
    have hcooled := Runs.invariant (I := Cooled cfg opened)
      (fun g e h hboth => h.step hboth.1 hboth.2) (cooled_of_opening hopens) hmid
    exact hcooled.due hcall.1 hcall.2 hadmitted
  · rintro before probed mid now after rfl hstate hadmitted hquiet
    obtain ⟨-, hlater⟩ := Runs.along_append.mp horderly
    obtain ⟨hmid, -⟩ := Runs.along_append.mp hlater.2
    have hopened := (hfollows before _ rfl).isSome_openedAt hstate
    have hout := Runs.invariant (I := ProbeOut _)
      (fun g e h hboth => h.step hboth.1 (hquiet e hboth.2))
      (probeOut_of_call hstate hopened hadmitted)
      (Runs.along_and.mpr ⟨hmid, Runs.along_mem⟩)
    rw [Runs.run_append, Runs.run_cons]
    simp only [answer, CircuitBreaker.beforeCall_halfOpen cfg hout.1]
    rfl

theorem one_failure_pos : 1 ≤ 1 := le_rfl

theorem minute_pos : 1 ≤ 60 := by decide

/-- A breaker that one failure opens, for a minute. -/
def touchy : BreakerConfig where
  providerName := "synthetic"
  failureThreshold := 1
  cooldownSeconds := 60
  failureThreshold_pos := one_failure_pos
  cooldownSeconds_pos := minute_pos

/-- A call and its failure, and a call half a second before the cooldown is over. -/
def halfSecondEarly : List BreakerEvent := [.call 0, .failure 0 0, .call 59500000]

/-- That call is let through. -/
theorem early_probe : ¬ ∀ (cfg : BreakerConfig) (clock : Time) (es : List BreakerEvent),
    Runs.Along (step cfg) Proper (start clock) es → ByTheRules cfg clock es := by
  intro h
  have hproper : Runs.Along (step touchy) Proper (start 0) halfSecondEarly :=
    ⟨le_rfl, ⟨by decide, le_rfl⟩, by decide, trivial⟩
  have hdue := (h touchy 0 halfSecondEarly hproper).cooldown [.call 0] 0 0 [] 59500000 [] rfl
    (by decide) (by decide)
  exact absurd hdue (by decide)

/-- With the probe on time the breaker keeps its promise. -/
theorem probe_on_time :
    ByTheRules touchy 0 [.call 0, .failure 0 0, .call 60000000, .success 1] := by
  refine by_the_rules touchy 0 _ ?_ ?_
  · exact ⟨le_rfl, ⟨by decide, le_rfl⟩, by decide, by decide, trivial⟩
  · refine ⟨fun h => absurd h (by decide), fun h => absurd h (by decide), ?_,
      ⟨by decide, fun _ => rfl⟩, trivial⟩
    intro _ opened hopened _
    obtain rfl : 0 = opened := Option.some.inj hopened
    decide

end GuardedCalls

end ForexAi
