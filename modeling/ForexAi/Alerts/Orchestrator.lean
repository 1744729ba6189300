/-
The alerts an orchestrator worker publishes.

The worker stamps every event with the time it was made at, not the time the event is made
at.  Three moments of a lifecycle cycle raise an alert, and so does a decision that was
persisted as blocked; publishing is best effort.
-/
import ForexAi.Alerts.Translate
import ForexAi.Decisions.Engine

namespace ForexAi

/-- What `DecideResult` tells about the alert of a decision. -/
structure DecideResult where
  symbol : Symbol
  timeframe : Timeframe
  bucketTs : Time
  action : DecisionAction
  status : Option DecisionStatus
  direction : Option Direction
  vetoCode : Option String

/-- The part of an `OrchestratorWorker` its alerts depend on: `_now`, set when it is made. -/
structure AlertSource where
  now : Time

/-- A moment of a worker's run that may raise an alert. -/
inductive Moment where
  /-- `process_pair` decided; publishing the decision may raise. -/
  | decided (r : DecideResult) (decisionUnpublished : Bool)
  /-- The restored broker disagrees with the ledger. -/
  | reconcileFailed
  /-- The processing of one unit raised. -/
  | unitFailed (symbol : Symbol) (timeframe : Timeframe) (error : String)
  /-- The expiry sweep raised. -/
  | sweepFailed (error : String)

namespace AlertSource

variable (w : AlertSource)

/-- `_emit_paper_alert`. -/
def emitPaperAlert (eventType subject detail : String) : Event where
  eventType := eventType
  payload :=
    [("source", .text "orchestrator"), ("severity", .text "warning"), ("subject", .text subject),
      ("message", .text detail)]
  producer := "orchestrator"
  producedAt := w.now

/-- `_emit_risk_brake_alert`. -/
def emitRiskBrakeAlert (r : DecideResult) : Event where
  eventType := "alert.risk_brake"
  payload :=
    [("source", .text "risk"), ("severity", .text "warning"), ("symbol", .text r.symbol.code),
      ("timeframe", .text r.timeframe.code), ("bucket_ts", .text (isoformat r.bucketTs)),
      ("veto_code", .text (orElse (r.vetoCode.getD "") "blocked")),
      ("direction", .text ((r.direction.map Direction.value).getD "FLAT"))]
  producer := "orchestrator"
  producedAt := w.now

/-- The alert of a moment. -/
def alertAt : Moment → Option Event
  | .decided r decisionUnpublished =>
      if r.action = .persist ∧ decisionUnpublished = false ∧ r.status = some .blocked then
        some (w.emitRiskBrakeAlert r)
      else none
  | .reconcileFailed =>
      some (w.emitPaperAlert "alert.paper_reconcile" "paper ledger/broker reconciliation failed"
        "cycle aborted (fail closed)")
  | .unitFailed symbol timeframe error =>
      some (w.emitPaperAlert "alert.paper_lifecycle_degraded" "paper lifecycle unit failed"
        (symbol.code ++ " " ++ timeframe.code ++ ": " ++ error))
  | .sweepFailed error =>
      some (w.emitPaperAlert "alert.paper_lifecycle_degraded"
        "paper lifecycle expiry sweep failed" error)

/-- What a run publishes: the alerts of its moments, less those `publish_alert` raised for. -/
def published (run : List (Moment × Bool)) : List Event :=
  run.filterMap fun (moment, unpublished) => if unpublished then none else w.alertAt moment

/-- An alert of a worker is one of its two kinds. -/
inductive Kind (e : Event) : Prop where
  | riskBrake (r : DecideResult) (h : e = w.emitRiskBrakeAlert r)
  | paper (eventType subject detail : String)
      (htype : eventType = "alert.paper_reconcile" ∨ eventType = "alert.paper_lifecycle_degraded")
      (h : e = w.emitPaperAlert eventType subject detail)

theorem kind_of_alertAt {moment : Moment} {e : Event} (h : w.alertAt moment = some e) :
    w.Kind e := by
  cases moment with
  | decided r decisionUnpublished =>
      simp only [alertAt] at h
      by_cases hraised : r.action = .persist ∧ decisionUnpublished = false ∧
          r.status = some .blocked
      · rw [if_pos hraised] at h
        exact .riskBrake r (Option.some.inj h).symm
      · rw [if_neg hraised] at h
        exact absurd h (by simp)
  | reconcileFailed => exact .paper _ _ _ (Or.inl rfl) (Option.some.inj h).symm
  | unitFailed symbol timeframe error =>
      exact .paper _ _ _ (Or.inr rfl) (Option.some.inj h).symm
  | sweepFailed error => exact .paper _ _ _ (Or.inr rfl) (Option.some.inj h).symm

theorem kind_of_published {run : List (Moment × Bool)} {e : Event} (h : e ∈ w.published run) :
    w.Kind e := by
  obtain ⟨⟨moment, unpublished⟩, -, he⟩ := List.mem_filterMap.mp h
  cases unpublished with
  | true => exact absurd he (by simp)
  | false => exact w.kind_of_alertAt he

end AlertSource

end ForexAi
