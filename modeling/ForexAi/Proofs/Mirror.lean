/-
A decision and its mirror image.

Swapping LONG and SHORT in every signal and in the parent context turns every vote around, and
with the votes their weighted mean (`weightedVote_mirror`), the nudge of the context
(`contextNudge_mirror`) and the stop against the target (`computeSizing_mirror`).  The shares,
the units and the gates do not look at the side.

One place does: `direction_for_score` asks for LONG first.  Below zero and above it that makes
no difference, since a positive threshold keeps the two sides apart; at a threshold of zero
both sides claim a score of zero, and LONG gets it on either side of the mirror
(`directionForScore_neg`).  That is the whole condition of `mirror_iff`: the threshold is
positive, or no direction is read off a score of zero.
-/
import ForexAi.Proofs.Fusion

namespace ForexAi

open Rounding

/-! ### Turning the sides around -/

/-- LONG for SHORT and SHORT for LONG. -/
def Direction.mirror : Direction → Direction
  | .long => .short
  | .short => .long
  | .flat => .flat

def AgentSignal.mirror (s : AgentSignal) : AgentSignal := { s with direction := s.direction.mirror }

def mirrorSignals (signals : Signals) : Signals := fun agent => (signals agent).map (·.mirror)

def ContextInput.mirror (c : ContextInput) : ContextInput :=
  { c with direction := c.direction.mirror }

def DecisionInputs.mirror (inputs : DecisionInputs) : DecisionInputs :=
  { inputs with
    signals := mirrorSignals inputs.signals
    parentContext := inputs.parentContext.map (·.mirror) }

@[simp] theorem Direction.mirror_mirror (d : Direction) : d.mirror.mirror = d := by
  cases d <;> rfl

@[simp] theorem mirror_eq_flat {d : Direction} : d.mirror = .flat ↔ d = .flat := by
  cases d <;> simp [Direction.mirror]

@[simp] theorem signOf_mirror (d : Direction) : signOf d.mirror = -signOf d := by
  cases d <;> rfl

/-- The sides of a score and of its negation mirror each other, but for a zero score at the
threshold of zero. -/
theorem directionForScore_neg {threshold : ℚ} (h : 0 ≤ threshold) (score : ℚ) :
    directionForScore (-score) threshold = (directionForScore score threshold).mirror ↔
      0 < threshold ∨ score ≠ 0 := by
  unfold directionForScore
  rcases lt_trichotomy score 0 with hneg | rfl | hpos
  · refine iff_of_true ?_ (Or.inr hneg.ne)
    rw [if_neg (not_le.mpr (lt_of_lt_of_le hneg h))]
    by_cases hshort : score ≤ -threshold
    · rw [if_pos (le_neg.mp hshort), if_pos hshort]
      rfl
    · rw [if_neg (fun hc => hshort (le_neg.mpr hc)), if_neg hshort, if_neg (by linarith)]
      rfl
  · rw [neg_zero]
    rcases lt_or_eq_of_le h with hpos | rfl
    · refine iff_of_true ?_ (Or.inl hpos)
      rw [if_neg (not_le.mpr hpos), if_neg (by linarith)]
      rfl
    · exact iff_of_false (by simp [Direction.mirror]) (by simp)
  · refine iff_of_true ?_ (Or.inr hpos.ne')
    by_cases hlong : threshold ≤ score
    · rw [if_neg (by linarith), if_pos (neg_le_neg hlong), if_pos hlong]
      rfl
    · rw [if_neg (by linarith), if_neg (fun hc => hlong (neg_le_neg_iff.mp hc)), if_neg hlong,
        if_neg (by linarith)]
      rfl

/-! ### The votes

A vote is a number, and turned around it is its negation.  The shares and the weights do not
see the side, so the weighted mean is negated and the aligned share is counted for the other
side.
-/

/-- A vote turned around. -/
def turned (v : AgentId × ℚ) : AgentId × ℚ := (v.1, -v.2)

theorem votesOf_mirror (signals : Signals) :
    votesOf (mirrorSignals signals) = (votesOf signals).map turned := by
  unfold votesOf
  rw [List.map_filterMap]
  refine List.filterMap_congr fun agent _ => ?_
  unfold voteOf mirrorSignals
  cases signals agent with
  | none => rfl
  | some signal =>
      simp only [Option.map_some, Option.bind_some, AgentSignal.mirror, signOf_mirror, neg_eq_zero]
      split
      · rfl
      · simp [turned]

theorem signOf_signsOf_neg (x : ℚ) : signOf (signsOf (-x)) = -signOf (signsOf x) := by
  unfold signsOf
  rcases lt_trichotomy x 0 with hneg | rfl | hpos
  · simp [hneg, not_lt.mpr hneg.le, signOf]
  · simp [signOf]
  · simp [hpos, not_lt.mpr hpos.le, signOf]

section Weighed

variable (w : Weights) (votes : List (AgentId × ℚ))

@[simp] theorem share_turned (agent : AgentId) :
    share w (votes.map turned) agent = share w votes agent := by
  unfold share totalWeight
  rw [List.map_map]
  rfl

theorem weightedVote_mirror : weightedVote w (votes.map turned) = -weightedVote w votes := by
  unfold weightedVote
  rw [List.map_map, List.sum_neg, List.map_map]
  refine congrArg List.sum (List.map_congr_left fun v _ => ?_)
  simp [turned]

theorem alignedShare_mirror (direction : Direction) :
    alignedShare w (votes.map turned) direction = alignedShare w votes direction.mirror := by
  unfold alignedShare
  rw [List.filter_map, List.map_map]
  have hside : ((fun v : AgentId × ℚ => decide (signOf (signsOf v.2) = signOf direction)) ∘ turned)
      = fun v => decide (signOf (signsOf v.2) = signOf direction.mirror) := by
    funext v
    simp only [Function.comp_apply, turned, signOf_signsOf_neg, signOf_mirror]
    refine decide_eq_decide.mpr ⟨fun h => ?_, fun h => ?_⟩ <;> omega
  rw [hside]
  refine congrArg List.sum (List.map_congr_left fun v _ => ?_)
  simp [turned]

end Weighed

/-! ### The context

The nudge goes by whether the context agrees with the side at hand.  Mirrored on both sides it
moves the score as far, the other way.
-/

theorem contextNudge_mirror (context : Option ContextInput) :
    contextNudge (context.map (·.mirror)) = -contextNudge context := by
  unfold contextNudge
  cases context with
  | none => simp
  | some c =>
      simp only [Option.map_some, ContextInput.mirror, signOf_mirror]
      split
      · simp
      · push_cast
        ring

/-- A context that nudges. -/
def Nudges (context : Option ContextInput) : Prop := ∃ c, context = some c ∧ 0 < c.confidence

theorem nudges_mirror {context : Option ContextInput} :
    Nudges (context.map (·.mirror)) ↔ Nudges context := by
  cases context with
  | none => simp [Nudges]
  | some c => simp [Nudges, ContextInput.mirror]

theorem applyContext_idle {context : Option ContextInput} (h : ¬ Nudges context) (r : FusedResult) :
    applyContext r context = r := by
  unfold applyContext
  cases context with
  | none => rfl
  | some c => exact if_pos (not_lt.mp fun hpos => h ⟨c, rfl, hpos⟩)

theorem applyContext_nudged {context : Option ContextInput} (h : Nudges context)
    (r : FusedResult) : applyContext r context =
      { r with
        score := roundTo 6 (r.score + contextNudge context)
        direction := directionForScore (r.score + contextNudge context) r.threshold
        confidence := min 1 |r.score + contextNudge context|
        preContextScore := r.score } := by
  obtain ⟨c, rfl, hpos⟩ := h
  unfold applyContext contextNudge
  simp only [if_neg (not_le.mpr hpos)]

/-! ### Sizing and the gates

The distances of the stop and the target are the same, and they are laid off from the price in
the two directions.  The thresholds are then rounded, each by itself: they reflect each other
exactly where the price has eight digits, and up to the last of these otherwise.
-/

/-- Two thresholds that reflect each other at a price: exactly where the price has eight digits,
and to the last of the eight digits elsewhere. -/
def Reflects (price x x' : ℚ) : Prop :=
  |x + x' - 2 * price| ≤ 1 / 10 ^ 8 ∧ ∀ n : ℤ, price * 10 ^ 8 = n → x + x' = 2 * price

/-- The size of a candidate and of its mirror image. -/
structure SizingMirrored (s s' : SizingResult) : Prop where
  units : s'.positionSizeUnits = s.positionSizeUnits
  rr : s'.rrRatio = s.rrRatio
  stop : Reflects s.price s.stopLoss s'.stopLoss
  target : Reflects s.price s.takeProfit s'.takeProfit

theorem Reflects.symm {price x x' : ℚ} (h : Reflects price x x') : Reflects price x' x := by
  unfold Reflects at h ⊢
  rw [add_comm x' x]
  exact h

theorem reflects_roundTo (price distance : ℚ) :
    Reflects price (roundTo 8 (price - distance)) (roundTo 8 (price + distance)) := by
  refine ⟨?_, fun n hn => roundTo_reflect 8 hn distance⟩
  have hbelow := abs_le.mp (abs_roundTo_sub_le 8 (price - distance))
  have habove := abs_le.mp (abs_roundTo_sub_le 8 (price + distance))
  rw [abs_le]
  constructor <;> linarith [hbelow.1, hbelow.2, habove.1, habove.2]

theorem computeSizing_mirror (price atr : ℚ) (direction : Direction) (params : RiskParams) :
    SizingMirrored (computeSizing price atr direction params)
      (computeSizing price atr direction.mirror params) where
  units := rfl
  rr := rfl
  stop := by
    have h := reflects_roundTo price (signOf direction * (params.slAtrMultiple * atr))
    simpa [computeSizing] using h
  target := by
    have h := (reflects_roundTo price (signOf direction * (params.tpAtrMultiple * atr))).symm
    simpa [computeSizing, sub_eq_add_neg] using h

/-- The risk pass of the mirror image. -/
structure RiskMirrored (r r' : RiskOutcome) : Prop where
  passed : r'.passed = r.passed
  paper : r'.paper = r.paper
  gates : r'.gates = r.gates
  sizing : Option.Rel SizingMirrored r.sizing r'.sizing

theorem assess_mirror (direction : Direction) (deps : RiskDeps) (gate : GateState)
    (params : RiskParams) : RiskMirrored (assess direction deps gate params)
      (assess direction.mirror deps gate params) := by
  unfold assess
  simp only [mirror_eq_flat]
  split
  · exact ⟨rfl, rfl, rfl, .none⟩
  · cases deps.sizable with
    | none => exact ⟨rfl, rfl, rfl, .none⟩
    | some pair => exact ⟨rfl, rfl, rfl, .some (computeSizing_mirror _ _ _ _)⟩

/-! ### The outcome

What is written down of a decision is mirrored field by field.  The gates compare sizes,
exposures and confidences, and none of them asks for the side.
-/

/-- A fused result and its mirror image. -/
structure FusedMirrored (f f' : FusedResult) : Prop where
  score : f'.score = -f.score
  direction : f'.direction = f.direction.mirror
  confidence : f'.confidence = f.confidence
  agreement : f'.agreement = f.agreement

/-- An outcome and its mirror image. -/
structure Mirrored (o o' : DecisionOutcome) : Prop where
  fused : FusedMirrored o.fused o'.fused
  status : o'.status = o.status
  veto : o'.veto = o.veto
  sizing : Option.Rel SizingMirrored (o.risk.bind (·.sizing)) (o'.risk.bind (·.sizing))

theorem blockedVeto_congr {r r' : RiskOutcome} (h : r'.gates = r.gates) :
    blockedVeto r' = blockedVeto r := by
  unfold blockedVeto firstFailing RiskOutcome.gate
  rw [h]

/-- What is decided on mirrored results is mirrored. -/
theorem decideFused_mirrored (inputs : DecisionInputs) (orch : OrchParams) (risk : RiskParams)
    {f f' : FusedResult} (hvotes : f'.hasVotes = f.hasVotes) (h : FusedMirrored f f') :
    Mirrored (decideFused inputs orch risk f) (decideFused inputs.mirror orch risk f') := by
  have hfused : FusedMirrored (decideFused inputs orch risk f).fused
      (decideFused inputs.mirror orch risk f').fused := by
    rw [decideFused_fused, decideFused_fused]
    exact h
  have hassess := assess_mirror f.direction ⟨inputs.atr, inputs.price⟩ inputs.gate risk
  suffices hrest : _ ∧ _ ∧ _ from ⟨hfused, hrest.1, hrest.2.1, hrest.2.2⟩
  show (decideFused inputs orch risk f').status = _ ∧ (decideFused inputs orch risk f').veto = _ ∧
    Option.Rel _ _ ((decideFused inputs orch risk f').risk.bind _)
  unfold decideFused
  simp only [hvotes, h.direction, h.agreement, mirror_eq_flat, hassess.passed, hassess.paper,
    blockedVeto_congr hassess.gates]
  split_ifs
  · exact ⟨rfl, rfl, .none⟩
  · exact ⟨rfl, rfl, .none⟩
  · exact ⟨rfl, rfl, .none⟩
  · exact ⟨rfl, rfl, hassess.sizing⟩
  · exact ⟨rfl, rfl, hassess.sizing⟩
  · exact ⟨rfl, rfl, hassess.sizing⟩
  · exact ⟨rfl, rfl, hassess.sizing⟩

/-! ### Where the sides are told apart

The one comparison that prefers a side is reached at a score of zero, with a threshold of
zero.  Whether a decision comes to it, with the votes or after a context, is what `SidesApart`
rules out.
-/

/-- The rounded weighted vote; zero where no voter has weight. -/
def voteScore (inputs : DecisionInputs) (orch : OrchParams) : ℚ :=
  let w := orch.fusion.weightsFor inputs.regime
  if ∃ v ∈ votesOf inputs.signals, 0 < w v.1 then
    roundTo 6 (weightedVote w (votesOf inputs.signals))
  else 0

/-- The threshold keeps the sides apart, or no direction is read off a score of zero: not the
votes' one, unless a context moves it and the two sides have the same share, and not the one
after a context. -/
def SidesApart (inputs : DecisionInputs) (orch : OrchParams) : Prop :=
  let votes := votesOf inputs.signals
  let w := orch.fusion.weightsFor inputs.regime
  0 < orch.threshold ∨
    ((∃ v ∈ votes, 0 < w v.1) → voteScore inputs orch ≠ 0 ∨
      (Nudges inputs.parentContext ∧
        roundTo 4 (alignedShare w votes .long) = roundTo 4 (alignedShare w votes .short))) ∧
    (Nudges inputs.parentContext →
      voteScore inputs orch + contextNudge inputs.parentContext ≠ 0)

section Agreement

variable (w : Weights) (votes : List (AgentId × ℚ))

/-- The agreement of a score and of its negation. -/
theorem agreement_mirror {threshold : ℚ} (h : 0 ≤ threshold) (score : ℚ) :
    roundTo 4 (alignedShare w (votes.map turned) (directionForScore (-score) threshold))
        = roundTo 4 (alignedShare w votes (directionForScore score threshold)) ↔
      0 < threshold ∨ score ≠ 0 ∨
        roundTo 4 (alignedShare w votes .long) = roundTo 4 (alignedShare w votes .short) := by
  rw [alignedShare_mirror]
  by_cases hapart : 0 < threshold ∨ score ≠ 0
  · rw [(directionForScore_neg h score).mpr hapart, Direction.mirror_mirror]
    exact iff_of_true rfl (hapart.imp_right Or.inl)
  · push Not at hapart
    obtain ⟨hthreshold, rfl⟩ := hapart
    obtain rfl := le_antisymm hthreshold h
    have hlong : directionForScore (-0) 0 = .long ∧ directionForScore 0 0 = .long := by
      simp [directionForScore]
    rw [hlong.1, hlong.2]
    constructor
    · exact fun heq => Or.inr (Or.inr heq.symm)
    · rintro (hlt | hne | heq)
      · exact absurd hlt (lt_irrefl 0)
      · exact absurd rfl hne
      · exact heq.symm

end Agreement

/-- Two results with opposite scores after a context: the directions mirror each other unless
the nudged score is zero, and the agreements stay what they were. -/
theorem nudged_mirrored {r r' : FusedResult} {context : Option ContextInput}
    (hnudges : Nudges context) (hthreshold : 0 ≤ r.threshold) (hsame : r'.threshold = r.threshold)
    (hscore : r'.score = -r.score) :
    FusedMirrored (applyContext r context) (applyContext r' (context.map (·.mirror))) ↔
      (0 < r.threshold ∨ r.score + contextNudge context ≠ 0) ∧ r'.agreement = r.agreement := by
  have hsum : r'.score + contextNudge (context.map (·.mirror))
      = -(r.score + contextNudge context) := by
    rw [hscore, contextNudge_mirror]
    ring
  rw [applyContext_nudged hnudges, applyContext_nudged (nudges_mirror.mpr hnudges), hsum, hsame,
    ← directionForScore_neg hthreshold]
  constructor
  · exact fun h => ⟨h.direction, h.agreement⟩
  · rintro ⟨hdirection, hagreement⟩
    exact ⟨roundTo_neg 6 _, hdirection, by rw [abs_neg], hagreement⟩

theorem noVotes_mirrored {threshold : ℚ} (h : 0 ≤ threshold) (context : Option ContextInput) :
    FusedMirrored (applyContext (.noVotes threshold) context)
        (applyContext (.noVotes threshold) (context.map (·.mirror))) ↔
      0 < threshold ∨ (Nudges context → contextNudge context ≠ 0) := by
  by_cases hnudges : Nudges context
  · rw [nudged_mirrored hnudges h rfl (by simp [FusedResult.noVotes])]
    simp [hnudges, FusedResult.noVotes]
  · rw [applyContext_idle hnudges, applyContext_idle (mt nudges_mirror.mp hnudges)]
    exact iff_of_true ⟨by simp [FusedResult.noVotes], rfl, rfl, rfl⟩
      (Or.inr fun hc => absurd hc hnudges)

/-- The weighted mean of votes and of the votes turned around. -/
theorem weighed_mirrored (w : Weights) (votes : List (AgentId × ℚ)) {threshold : ℚ}
    (h : 0 ≤ threshold) (context : Option ContextInput) :
    FusedMirrored (applyContext (weighedResult w votes roundTo threshold) context)
        (applyContext (weighedResult w (votes.map turned) roundTo threshold)
          (context.map (·.mirror))) ↔
      0 < threshold ∨
        (roundTo 6 (weightedVote w votes) ≠ 0 ∨ (Nudges context ∧
          roundTo 4 (alignedShare w votes .long) = roundTo 4 (alignedShare w votes .short))) ∧
        (Nudges context → roundTo 6 (weightedVote w votes) + contextNudge context ≠ 0) := by
  have hscore : roundTo 6 (weightedVote w (votes.map turned)) =
      -roundTo 6 (weightedVote w votes) := by
    rw [weightedVote_mirror, roundTo_neg]
  have hagreement : (weighedResult w (votes.map turned) roundTo threshold).agreement
        = (weighedResult w votes roundTo threshold).agreement ↔
      0 < threshold ∨ roundTo 6 (weightedVote w votes) ≠ 0 ∨
        roundTo 4 (alignedShare w votes .long) = roundTo 4 (alignedShare w votes .short) := by
    rw [← agreement_mirror w votes h, ← hscore]
    rfl
  by_cases hnudges : Nudges context
  · have hnudged : FusedMirrored (applyContext (weighedResult w votes roundTo threshold) context)
        (applyContext (weighedResult w (votes.map turned) roundTo threshold)
          (context.map (·.mirror))) ↔
        (0 < threshold ∨ roundTo 6 (weightedVote w votes) + contextNudge context ≠ 0) ∧
          (weighedResult w (votes.map turned) roundTo threshold).agreement
            = (weighedResult w votes roundTo threshold).agreement :=
      nudged_mirrored hnudges h rfl hscore
    rw [hnudged, hagreement]
    simp only [hnudges, true_and, forall_const]
    rw [← or_and_left, and_comm]
  · rw [applyContext_idle hnudges, applyContext_idle (mt nudges_mirror.mp hnudges)]
    simp only [hnudges, false_and, or_false, IsEmpty.forall_iff, and_true]
    rw [← directionForScore_neg h, ← hscore]
    constructor
    · exact fun hmirrored => hmirrored.direction
    · intro hdirection
      have happart := (directionForScore_neg h _).mp (hscore ▸ hdirection)
      refine ⟨hscore, hdirection, ?_, hagreement.mpr (happart.imp_right Or.inl)⟩
      show min 1 |roundTo 6 (weightedVote w (votes.map turned))| = _
      rw [hscore, abs_neg]
      rfl

theorem mem_turned {votes : List (AgentId × ℚ)} {v : AgentId × ℚ} (h : v ∈ votes.map turned) :
    ∃ u ∈ votes, u.1 = v.1 := by
  obtain ⟨u, hu, rfl⟩ := List.mem_map.mp h
  exact ⟨u, hu, rfl⟩

/-- The fused results of a bar and of its mirror image. -/
theorem fused_mirror_iff {inputs : DecisionInputs} {orch : OrchParams}
    (hthreshold : 0 ≤ orch.threshold) {r : FusedResult}
    (hfused : fuse inputs.signals inputs.regime orch.fusion = some r) :
    ∃ r', fuse (mirrorSignals inputs.signals) inputs.regime orch.fusion = some r' ∧
      r'.hasVotes = r.hasVotes ∧
      (FusedMirrored (applyContext r inputs.parentContext)
        (applyContext r' (inputs.parentContext.map (·.mirror))) ↔ SidesApart inputs orch) := by
  have hmirror := votesOf_mirror inputs.signals
  rw [← fuseWith_roundTo] at hfused ⊢
  unfold SidesApart
  simp only
  rcases weight_cases (orch.fusion.weightsFor inputs.regime) (votesOf inputs.signals) with
    hnone | ⟨hne, hpos⟩ | ⟨⟨v, hv, hweight⟩, u, hu, hlight⟩
  · rw [fuseWith_light roundTo hnone] at hfused
    obtain rfl := Option.some.inj hfused
    refine ⟨_, fuseWith_light roundTo fun v hv => ?_, rfl, ?_⟩
    · obtain ⟨u, hu, hsame⟩ := mem_turned (hmirror ▸ hv)
      exact hsame ▸ hnone u hu
    have hlight : ¬ ∃ v ∈ votesOf inputs.signals,
        0 < orch.fusion.weightsFor inputs.regime v.1 := by
      rintro ⟨v, hv, hweight⟩
      exact absurd hweight (not_lt.mpr (hnone v hv))
    have hzero : voteScore inputs orch = 0 := if_neg hlight
    simp only [hlight, IsEmpty.forall_iff, true_and, hzero, zero_add]
    exact noVotes_mirrored hthreshold inputs.parentContext
  · rw [fuseWith_weighed roundTo hne hpos] at hfused
    obtain rfl := Option.some.inj hfused
    refine ⟨_, fuseWith_weighed roundTo ?_ fun v hv => ?_, ?_, ?_⟩
    · rw [hmirror]
      simpa using hne
    · obtain ⟨u, hu, hsame⟩ := mem_turned (hmirror ▸ hv)
      exact hsame ▸ hpos u hu
    · simp [FusedResult.hasVotes, weighedResult, hmirror]
    obtain ⟨v, hv⟩ := List.exists_mem_of_ne_nil _ hne
    have hheavy : ∃ v ∈ votesOf inputs.signals, 0 < orch.fusion.weightsFor inputs.regime v.1 :=
      ⟨v, hv, hpos v hv⟩
    have hscore : voteScore inputs orch
        = roundTo 6 (weightedVote (orch.fusion.weightsFor inputs.regime)
            (votesOf inputs.signals)) := if_pos hheavy
    rw [hmirror, hscore]
    simp only [hheavy, forall_const]
    exact weighed_mirrored _ _ hthreshold inputs.parentContext
  · rw [fuseWith_mixed roundTo hv hweight hu hlight] at hfused
    exact absurd hfused (by simp)

/-- **When a decision mirrors**: exactly when no direction is read off a score of zero at the
threshold of zero. -/
theorem mirror_iff {inputs : DecisionInputs} {orch : OrchParams} {risk : RiskParams}
    (hthreshold : 0 ≤ orch.threshold) {outcome : DecisionOutcome}
    (h : computeDecision inputs orch risk = some outcome) :
    ∃ outcome', computeDecision inputs.mirror orch risk = some outcome' ∧
      (Mirrored outcome outcome' ↔ SidesApart inputs orch) := by
  obtain ⟨r, hfused, rfl⟩ := Option.map_eq_some_iff.mp h
  obtain ⟨r', hfused', hvotes, hiff⟩ := fused_mirror_iff hthreshold hfused
  refine ⟨_, Option.map_eq_some_iff.mpr ⟨r', hfused', rfl⟩, ?_⟩
  rw [← hiff]
  constructor
  · intro hmirrored
    have hparts := hmirrored.fused
    rw [decideFused_fused, decideFused_fused] at hparts
    exact hparts
  · refine decideFused_mirrored inputs orch risk ?_
    rw [applyContext_hasVotes, applyContext_hasVotes, hvotes]

/-- A threshold the settings admit that keeps nothing apart. -/
def noThreshold : OrchParams where
  threshold := 0

/-- Fundamentals and sentiment of one strength and opposite sides. -/
def balanced : DecisionInputs where
  symbol := .eurusd
  timeframe := .H1
  bucketTs := 0
  now := 0
  signals := hourlySignals fun
    | .fundamental => (.long, 1 / 2)
    | .sentiment => (.short, 1 / 2)
    | _ => (.flat, 0)
  regime := "unknown"
  atr := some (1 / 1000)
  price := some (11 / 10)
  coverage := 1
  gate := {}
  parentContext := none

/-- At a threshold of zero balanced votes are long, and so are the votes turned around. -/
theorem balanced_not_mirrored : ¬ ∀ (inputs : DecisionInputs) (orch : OrchParams)
    (risk : RiskParams) (outcome outcome' : DecisionOutcome),
    0 ≤ orch.threshold → orch.threshold ≤ 1 → computeDecision inputs orch risk = some outcome →
      computeDecision inputs.mirror orch risk = some outcome' → Mirrored outcome outcome' := by
  intro h
  have hside : (computeDecision balanced noThreshold .default).map (·.fused.direction)
      = some .long := by decide +kernel
  have hside' : (computeDecision balanced.mirror noThreshold .default).map (·.fused.direction)
      = some .long := by decide +kernel
  obtain ⟨outcome, houtcome, hlong⟩ := Option.map_eq_some_iff.mp hside
  obtain ⟨outcome', houtcome', hlong'⟩ := Option.map_eq_some_iff.mp hside'
  have hmirrored := h balanced noThreshold .default outcome outcome' (le_refl 0) zero_le_one
    houtcome houtcome'
  have hdirection := hmirrored.fused.direction
  rw [hlong, hlong'] at hdirection
  exact absurd hdirection (by decide)

/-- At the default threshold a long decision with a bracket mirrors into a short one. -/
theorem clearLong_mirrored :
    ∃ outcome outcome', computeDecision clearLong {} .default = some outcome ∧
      computeDecision clearLong.mirror {} .default = some outcome' ∧
      outcome.fused.direction = .long ∧ outcome.status = some .paper ∧
      (outcome.risk.bind (·.sizing)).map (·.stopLoss) = some (2197 / 2000) ∧
      Mirrored outcome outcome' := by
  have hvalues : (computeDecision clearLong {} .default).map (fun o =>
      (o.fused.direction, o.status, (o.risk.bind (·.sizing)).map (·.stopLoss)))
        = some (.long, some .paper, some (2197 / 2000)) := by decide +kernel
  obtain ⟨outcome, houtcome, hparts⟩ := Option.map_eq_some_iff.mp hvalues
  obtain ⟨hlong, hpaper, hstop⟩ := And.imp_right Prod.mk.inj (Prod.mk.inj hparts)
  have hpos : 0 < ({} : OrchParams).threshold := by decide +kernel
  obtain ⟨outcome', houtcome', hiff⟩ := mirror_iff hpos.le houtcome
  exact ⟨outcome, outcome', houtcome, houtcome', hlong, hpaper, hstop, hiff.mpr (Or.inl hpos)⟩

end ForexAi
