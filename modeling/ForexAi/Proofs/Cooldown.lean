/-
What the cooldown looks at.

The cooldown is meant to keep paper decisions of a pair apart.  What `decide` asks is the
question of the parent context, with the clock turned back: the last decision made of those
that were still valid then, and whether it has a direction.  So a decision of any status
holds a paper trade back, for as long as it is valid and the cooldown after it, and a later
flat one lets it through (`HeldBack`); when a paper decision was made is never looked at
(`PaperWithin`).  `cooldown_iff` says when the two come to the same.
-/
import ForexAi.Decisions.Decide
import ForexAi.Lib.Newest
import ForexAi.Proofs.Sponsorship

namespace ForexAi

/-- `load_latest_decision` picks the first of the decisions that were made last. -/
theorem loadLatestDecision_eq (rows : List DecisionRow) (symbol : Symbol) (timeframe : Timeframe)
    (t : Time) :
    loadLatestDecision rows symbol timeframe (some t)
      = Newest.pick (fun a b : DecisionRow => a.decisionAt < b.decisionAt)
          (rows.filter fun d => decide (d.symbol = symbol ∧ d.timeframe = timeframe) &&
            decide (t ≤ d.validUntil)) := by
  have hkeep : laterDecision
      = Newest.keep (fun a b : DecisionRow => a.decisionAt < b.decisionAt) := by
    funext best row
    cases best <;> rfl
  unfold loadLatestDecision Newest.pick
  rw [hkeep]
  rfl

/-- A paper outcome is one that is stored. -/
theorem computeDecision_paper {inputs : DecisionInputs} {orch : OrchParams} {risk : RiskParams}
    {outcome : DecisionOutcome} (h : computeDecision inputs orch risk = some outcome)
    (hpaper : outcome.status = some .paper) : outcome.action ≠ .skip := by
  obtain ⟨fused, -, rfl⟩ := Option.map_eq_some_iff.mp h
  revert hpaper
  unfold decideFused
  simp only
  split_ifs <;> simp

namespace PairCall

variable (call : PairCall) (orch : OrchParams) (db : Database)

/-- When the cooldown began that is not over now. -/
def cooldownStart : Time := call.now - seconds orch.cooldownSeconds

/-- The decisions of the pair that were still valid when the cooldown began. -/
def validThen : List DecisionRow :=
  db.decisions.filter fun d => decide (d.symbol = call.symbol ∧ d.timeframe = call.timeframe) &&
    decide (call.cooldownStart orch ≤ d.validUntil)

/-- A paper decision of the pair was made within the cooldown. -/
def PaperWithin : Prop :=
  ∃ d ∈ db.decisions, d.symbol = call.symbol ∧ d.timeframe = call.timeframe ∧
    d.status = .paper ∧ call.cooldownStart orch ≤ d.decisionAt ∧ d.decisionAt ≤ call.now

/-- The last decision made, of those valid when the cooldown began, has a direction. -/
def HeldBack : Prop :=
  ∃ d, Newest.First DecisionRow.decisionAt (call.validThen orch db) d ∧ d.fusedDirection ≠ .flat

/-- The outcome before the cooldown. -/
def wouldBe (gate : Option GateState) : Option DecisionOutcome :=
  let votes := loadLatestPerAgent call.signals call.symbol call.timeframe (some call.now)
  (latestBucket votes).bind fun bucketTs =>
    computeDecision (call.inputs db votes bucketTs gate) orch call.risk

variable {call orch db}

/-- **What the cooldown does to a paper outcome.** -/
theorem coolDown_iff {outcome cooled : DecisionOutcome} (hpaper : outcome.storedStatus = .paper)
    (hlength : 0 < orch.cooldownSeconds) (h : call.coolDown orch db outcome = some cooled) :
    (cooled.storedStatus = .analysis ∧ cooled.veto.map (·.1) = some "cooldown") ↔
      call.HeldBack orch db := by
  have hheld : call.HeldBack orch db ↔ ((loadLatestDecision db.decisions call.symbol
      call.timeframe (some (call.cooldownStart orch))).any fun d =>
        decide (d.fusedDirection ≠ .flat)) = true := by
    rw [loadLatestDecision_eq, Option.any_eq_true]
    unfold HeldBack validThen
    simp only [← Newest.pick_lt_iff, decide_eq_true_eq]
  unfold coolDown at h
  rw [if_pos ⟨hpaper, hlength⟩] at h
  obtain ⟨_, -, h⟩ := Option.bind_eq_some_iff.mp h
  simp only at h
  rw [hheld]
  split at h
  · rename_i hrecent
    obtain rfl := Option.some.inj h
    exact iff_of_true ⟨rfl, rfl⟩ hrecent
  · rename_i hrecent
    obtain rfl := Option.some.inj h
    refine iff_of_false (fun hdown => ?_) hrecent
    rw [hpaper] at hdown
    exact absurd hdown.1 (by simp)

/-- The report of a call is about the outcome after the cooldown. -/
theorem decidePair_cooled {gate : Option GateState} {db' : Database} {r : DecideReport}
    {outcome : DecisionOutcome} (h : call.decidePair orch gate db = some (r, db'))
    (hwould : call.wouldBe orch db gate = some outcome) (hstored : outcome.action ≠ .skip) :
    ∃ cooled, call.coolDown orch db outcome = some cooled ∧
      r.status = some cooled.storedStatus ∧ r.vetoCode = cooled.veto.map (·.1) := by
  unfold decidePair at h
  unfold wouldBe at hwould
  obtain ⟨_, -, h⟩ := Option.bind_eq_some_iff.mp h
  simp only at h hwould
  split at h
  · rename_i hnone
    rw [hnone] at hwould
    exact absurd hwould (by simp)
  · rename_i bucketTs hbucket
    rw [hbucket, Option.bind_some] at hwould
    obtain ⟨_, -, h⟩ := Option.bind_eq_some_iff.mp h
    obtain ⟨computed, hcomputed, h⟩ := Option.bind_eq_some_iff.mp h
    obtain rfl := Option.some.inj (hwould.symm.trans hcomputed)
    rw [if_neg hstored] at h
    obtain ⟨cooled, hcooled, h⟩ := Option.bind_eq_some_iff.mp h
    obtain ⟨written, -, h⟩ := Option.bind_eq_some_iff.mp h
    obtain ⟨_, -, h⟩ := Option.bind_eq_some_iff.mp h
    obtain ⟨rfl, -⟩ := Prod.mk.inj (Option.some.inj h)
    exact ⟨cooled, hcooled, rfl, rfl⟩

/-- The two questions have one answer: where a paper decision was made within the cooldown, the
last one made of those valid when it began has a direction; where none was, it has none, or
there is no such decision. -/
structure Spaced (call : PairCall) (orch : OrchParams) (db : Database) : Prop where
  holds : call.PaperWithin orch db →
    ∃ d, Newest.First DecisionRow.decisionAt (call.validThen orch db) d ∧ d.fusedDirection ≠ .flat
  releases : ¬ call.PaperWithin orch db →
    ∀ d, Newest.First DecisionRow.decisionAt (call.validThen orch db) d → d.fusedDirection = .flat

/-- **When the cooldown keeps paper decisions apart**, and nothing else. -/
theorem cooldown_iff {gate : Option GateState} {db' : Database} {r : DecideReport}
    {outcome : DecisionOutcome} (h : call.decidePair orch gate db = some (r, db'))
    (hwould : call.wouldBe orch db gate = some outcome) (hpaper : outcome.status = some .paper)
    (hlength : 0 < orch.cooldownSeconds) :
    ((r.status = some .analysis ∧ r.vetoCode = some "cooldown") ↔ call.PaperWithin orch db) ↔
      call.Spaced orch db := by
  have hstored : outcome.action ≠ .skip := by
    obtain ⟨bucketTs, -, hcomputed⟩ := Option.bind_eq_some_iff.mp hwould
    exact computeDecision_paper hcomputed hpaper
  obtain ⟨cooled, hcooled, hstatus, hveto⟩ := decidePair_cooled h hwould hstored
  have hdown : (r.status = some .analysis ∧ r.vetoCode = some "cooldown") ↔
      call.HeldBack orch db := by
    rw [hstatus, hveto, Option.some_inj]
    refine coolDown_iff ?_ hlength hcooled
    unfold DecisionOutcome.storedStatus
    rw [hpaper]
    rfl
  rw [hdown]
  constructor
  · intro hiff
    refine ⟨hiff.mpr, fun hnone d hlast => ?_⟩
    by_contra hdirection
    exact hnone (hiff.mp ⟨d, hlast, hdirection⟩)
  · intro hspaced
    refine ⟨?_, hspaced.holds⟩
    rintro ⟨d, hlast, hdirection⟩
    by_contra hnone
    exact hdirection (hspaced.releases hnone d hlast)

end PairCall

/-! ### A decision that was blocked -/

/-- A decision of the hour before the last, made at the start of the last one. -/
def decisionBefore (status : DecisionStatus) (decisionAt : Time) : DecisionRow where
  id := 7
  symbol := .eurusd
  timeframe := .H1
  bucketTs := -seconds 7200
  fusedDirection := .long
  confidence := 1 / 2
  agreement := 1
  status := status
  veto := none
  decisionAt := decisionAt
  validUntil := seconds 7200

/-- The tables with one decision. -/
def afterDecision (d : DecisionRow) : Database := { Database.empty with decisions := [d] }

/-- A blocked decision, made an hour ago, holds a paper trade back for half an hour. -/
theorem blocked_cools : ¬ ∀ (call : PairCall) (orch : OrchParams) (gate : Option GateState)
    (db db' : Database) (r : DecideReport) (outcome : DecisionOutcome),
    0 < orch.cooldownSeconds → call.decidePair orch gate db = some (r, db') →
      call.wouldBe orch db gate = some outcome → outcome.status = some .paper →
      ((r.status = some .analysis ∧ r.vetoCode = some "cooldown") ↔ call.PaperWithin orch db) := by
  intro h
  have hcalled : ((longCall 1 fun _ => false).decidePair {} none
      (afterDecision (decisionBefore .blocked (-seconds 3540)))).map (fun p =>
        (p.1.status, p.1.vetoCode)) = some (some .analysis, some "cooldown") := by
    decide +kernel
  have hwould : ((longCall 1 fun _ => false).wouldBe {}
      (afterDecision (decisionBefore .blocked (-seconds 3540))) none).map (·.status)
        = some (some .paper) := by
    decide +kernel
  obtain ⟨⟨r, db'⟩, hr, hfields⟩ := Option.map_eq_some_iff.mp hcalled
  obtain ⟨outcome, houtcome, hpaper⟩ := Option.map_eq_some_iff.mp hwould
  obtain ⟨d, hd, -, -, hstatus, -⟩ :=
    (h _ _ _ _ _ _ _ (by decide) hr houtcome hpaper).mp (Prod.mk.inj hfields)
  rw [List.mem_singleton.mp hd] at hstatus
  exact absurd hstatus (by decide)

/-- A paper decision of eleven minutes ago holds one back, as it should. -/
theorem paper_cools : ∃ r db', (longCall 1 fun _ => false).decidePair {} none
      (afterDecision (decisionBefore .paper (-seconds 600))) = some (r, db') ∧
    ((r.status = some .analysis ∧ r.vetoCode = some "cooldown") ↔
      (longCall 1 fun _ => false).PaperWithin {}
        (afterDecision (decisionBefore .paper (-seconds 600)))) := by
  have hcalled : ((longCall 1 fun _ => false).decidePair {} none
      (afterDecision (decisionBefore .paper (-seconds 600)))).isSome = true := by
    decide +kernel
  have hwould : ((longCall 1 fun _ => false).wouldBe {}
      (afterDecision (decisionBefore .paper (-seconds 600))) none).map (·.status)
        = some (some .paper) := by
    decide +kernel
  obtain ⟨⟨r, db'⟩, hr⟩ := Option.isSome_iff_exists.mp hcalled
  obtain ⟨outcome, houtcome, hpaper⟩ := Option.map_eq_some_iff.mp hwould
  refine ⟨r, db', hr, (PairCall.cooldown_iff hr houtcome hpaper (by decide)).mpr ⟨fun _ => ?_, ?_⟩⟩
  · exact ⟨_, ⟨[], [], rfl, by simp, by simp⟩, by decide⟩
  · intro hnone
    refine absurd ⟨_, List.mem_singleton.mpr rfl, rfl, rfl, rfl, ?_, ?_⟩ hnone
    · decide +kernel
    · decide +kernel

end ForexAi
