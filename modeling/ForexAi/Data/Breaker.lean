/-
The circuit breaker in front of a provider.

Closed it lets every call through and counts failures; open it refuses until the
cooldown is over; then one probe decides.  `beforeCall` asks, `recordSuccess` and
`recordFailure` answer, and a caller is expected to answer every time it was let
through: a half-open breaker refuses everything until somebody does.

The clock is read inside the calls; each takes what it reads as an argument.
-/
import ForexAi.Data.Timeframes

namespace ForexAi

inductive BreakerState where
  | closed | open | halfOpen
  deriving DecidableEq, Repr

namespace BreakerState

/-- The enumeration's string value. -/
def value : BreakerState → String
  | closed => "closed"
  | «open» => "open"
  | halfOpen => "half_open"

/-- `from_value`: anything unknown is closed. -/
def fromValue (value : Option String) : BreakerState :=
  match value with
  | some "open" => .open
  | some "half_open" => .halfOpen
  | _ => .closed

theorem fromValue_value (s : BreakerState) : fromValue (some s.value) = s := by
  cases s <;> rfl

end BreakerState

/-- The two thresholds of a breaker; the settings keep both from one on. -/
structure BreakerConfig where
  providerName : String
  failureThreshold : ℕ := 5
  cooldownSeconds : ℕ := 60
  failureThreshold_pos : 1 ≤ failureThreshold := by decide
  cooldownSeconds_pos : 1 ≤ cooldownSeconds := by decide

structure CircuitBreaker where
  state : BreakerState
  consecutiveFailures : ℕ
  openedAt : Option Time
  deriving DecidableEq

/-- Why a breaker refuses a call. -/
inductive BreakerOpenError where
  | cooling (probeIn : ℤ)
  | probeInFlight
  deriving DecidableEq, Repr

/-- The text of the error. -/
def BreakerOpenError.text (cfg : BreakerConfig) : BreakerOpenError → String
  | cooling probeIn =>
      "provider '" ++ cfg.providerName ++ "' breaker open; probe allowed in " ++
        toString probeIn ++ "s"
  | probeInFlight => "provider '" ++ cfg.providerName ++ "' probe already in flight"

namespace CircuitBreaker

/-- A breaker before its first call. -/
def new : CircuitBreaker where
  state := .closed
  consecutiveFailures := 0
  openedAt := none

variable (cfg : BreakerConfig)

/-- `seconds_until_probe`; `int` cuts the fraction off. -/
def secondsUntilProbe (b : CircuitBreaker) (now : Time) : ℤ :=
  match b.state, b.openedAt with
  | .open, some openedAt =>
      max 0 ((seconds cfg.cooldownSeconds - (now - openedAt)).tdiv (seconds 1))
  | _, _ => 0

/-- `before_call`. -/
def beforeCall (b : CircuitBreaker) (now : Time) : Except BreakerOpenError CircuitBreaker :=
  match b.state, b.openedAt with
  | .open, some _ =>
      if b.secondsUntilProbe cfg now ≤ 0 then .ok { b with state := .halfOpen }
      else .error (.cooling (b.secondsUntilProbe cfg now))
  | .halfOpen, _ => .error .probeInFlight
  | _, _ => .ok b

/-- `record_success`. -/
def recordSuccess (_ : CircuitBreaker) : CircuitBreaker where
  state := .closed
  consecutiveFailures := 0
  openedAt := none

/-- `record_failure`: whether this failure opened the breaker, and the breaker after it. -/
def recordFailure (b : CircuitBreaker) (now : Time) : Bool × CircuitBreaker :=
  let failures := b.consecutiveFailures + 1
  if b.state = .halfOpen ∨ cfg.failureThreshold ≤ failures then
    (true, { state := .open, consecutiveFailures := failures, openedAt := some now })
  else (false, { b with consecutiveFailures := failures })

/-- `load`. -/
def load (state : String) (consecutiveFailures : ℕ) (openedAt : Option Time) : CircuitBreaker where
  state := .fromValue (some state)
  consecutiveFailures := consecutiveFailures
  openedAt := openedAt

/-- The next call would be let through as the probe. -/
def ProbeDue (b : CircuitBreaker) (now : Time) : Prop :=
  b.state = .open ∧ b.openedAt.isSome = true ∧ b.secondsUntilProbe cfg now ≤ 0

instance (b : CircuitBreaker) (now : Time) : Decidable (b.ProbeDue cfg now) := by
  unfold ProbeDue
  infer_instance

/-! ### What a call at the gate does -/

/-- A breaker that lets a call through either becomes half open, because the probe is due, or
stays as it is and is not half open. -/
theorem beforeCall_ok {b b' : CircuitBreaker} {now : Time} (h : b.beforeCall cfg now = .ok b') :
    (b.ProbeDue cfg now ∧ b' = { b with state := .halfOpen }) ∨
      (¬ b.ProbeDue cfg now ∧ b.state ≠ .halfOpen ∧ b' = b) := by
  obtain ⟨state, failures, openedAt⟩ := b
  unfold beforeCall at h
  cases state with
  | closed =>
      obtain rfl := Except.ok.inj h
      exact Or.inr ⟨fun hdue => absurd hdue.1 (by simp), by simp, rfl⟩
  | halfOpen => exact absurd h (by simp)
  | «open» =>
      cases openedAt with
      | none =>
          obtain rfl := Except.ok.inj h
          exact Or.inr ⟨fun hdue => absurd hdue.2.1 (by simp), by simp, rfl⟩
      | some opened =>
          simp only at h
          by_cases hdue : secondsUntilProbe cfg ⟨.open, failures, some opened⟩ now ≤ 0
          · rw [if_pos hdue] at h
            obtain rfl := Except.ok.inj h
            exact Or.inl ⟨⟨rfl, rfl, hdue⟩, rfl⟩
          · rw [if_neg hdue] at h
            exact absurd h (by simp)

/-- A half-open breaker refuses every call. -/
theorem beforeCall_halfOpen {b : CircuitBreaker} (h : b.state = .halfOpen) (now : Time) :
    b.beforeCall cfg now = .error .probeInFlight := by
  unfold beforeCall
  rw [h]

/-- A breaker that is not half open lets a call through once the cooldown is over. -/
theorem beforeCall_isOk {b : CircuitBreaker} {now : Time} (hstate : b.state ≠ .halfOpen)
    (hover : ∀ openedAt, b.openedAt = some openedAt →
      openedAt + seconds cfg.cooldownSeconds ≤ now) :
    ∃ b', b.beforeCall cfg now = .ok b' := by
  obtain ⟨state, failures, openedAt⟩ := b
  unfold beforeCall
  cases state with
  | closed => exact ⟨_, rfl⟩
  | halfOpen => exact absurd rfl hstate
  | «open» =>
      cases openedAt with
      | none => exact ⟨_, rfl⟩
      | some opened =>
          have hpassed := hover opened rfl
          have hle : secondsUntilProbe cfg ⟨.open, failures, some opened⟩ now ≤ 0 := by
            unfold secondsUntilProbe
            refine max_le le_rfl ?_
            have hneg : seconds cfg.cooldownSeconds - (now - opened) ≤ 0 :=
              sub_nonpos_of_le (le_sub_iff_add_le'.mpr hpassed)
            have hleft := Int.tdiv_nonneg (neg_nonneg.mpr hneg) (seconds_nonneg 1)
            rw [Int.neg_tdiv] at hleft
            exact neg_nonneg.mp hleft
          simp only [if_pos hle]
          exact ⟨_, rfl⟩

/-- No answer leaves the breaker half open. -/
theorem recordFailure_not_halfOpen (b : CircuitBreaker) (now : Time) :
    (b.recordFailure cfg now).2.state ≠ .halfOpen := by
  unfold recordFailure
  simp only
  by_cases hopen : b.state = .halfOpen ∨ cfg.failureThreshold ≤ b.consecutiveFailures + 1
  · rw [if_pos hopen]
    simp
  · rw [if_neg hopen]
    exact fun hhalf => hopen (Or.inl hhalf)

end CircuitBreaker

end ForexAi
