/-
Signal fusion: the directional agents' votes as one decision.

A voter is a directional agent whose signal is not flat and has a positive
confidence.  The regime picks the weights, which are scaled over the voters to sum
to one; the weighted sum of the signed votes is the score, and the score against
the threshold is the direction.

`fuse` can fail: a voter whose weight is not positive is dropped from the scaled
weights and looked up in them all the same, which is a `KeyError`.  With the
default weights it does not (`fuse_default`): every directional agent has a
positive weight in every regime.
-/
import ForexAi.Agents.Base
import ForexAi.Lib.Rounding
import Mathlib.Data.Rat.Floor
import Mathlib.Algebra.BigOperators.Group.List.Basic
import Mathlib.Algebra.Order.BigOperators.Group.List
import Mathlib.Algebra.Order.Field.Rat

namespace ForexAi

open Rounding

/-- `str` of a feature.  A number's or a dictionary's text is no regime's name; all that is
kept of it is that. -/
def Feature.str : Feature → String
  | .text s => s
  | .null => "None"
  | .num q => toString q
  | .dict _ => "\x7b\x7d"

/-- The directional agents, in the order they vote. -/
def directionalAgents : List AgentId := [.technical, .fundamental, .sentiment]

/-- One regime's weights, as `.get(agent, 0.0)` reads them. -/
abbrev Weights := AgentId → ℚ

/-- A row of the weight matrix. -/
def weightRow (technical fundamental sentiment : ℚ) : Weights
  | .technical => technical
  | .fundamental => fundamental
  | .sentiment => sentiment
  | .regime => 0

/-- `DEFAULT_WEIGHTS["unknown"]`. -/
def unknownWeights : Weights := weightRow (2 / 5) (3 / 10) (3 / 10)

/-- `DEFAULT_WEIGHTS`. -/
def defaultWeights : List (String × Weights) :=
  [("trending", weightRow (11 / 20) (1 / 5) (1 / 4)),
    ("weakening_trend", weightRow (9 / 20) (3 / 10) (1 / 4)),
    ("transitional", weightRow (1 / 2) (1 / 4) (1 / 4)),
    ("range", weightRow (3 / 5) (1 / 5) (1 / 5)),
    ("unknown", unknownWeights)]

structure FusionParams where
  threshold : ℚ := 3 / 20
  hysteresis : ℚ := 1 / 25
  weights : List (String × Weights) := defaultWeights

/-- Optional higher-timeframe context. -/
structure ContextInput where
  direction : Direction
  confidence : ℚ
  weight : ℚ := 3 / 20

structure FusedResult where
  score : ℚ
  direction : Direction
  confidence : ℚ
  agreement : ℚ
  weights : List (AgentId × ℚ)
  votingAgents : List AgentId
  threshold : ℚ
  preContextScore : ℚ

def FusedResult.hasVotes (r : FusedResult) : Bool := !r.votingAgents.isEmpty

/-- `sign_of`. -/
def signOf : Direction → ℤ
  | .flat => 0
  | .long => 1
  | .short => -1

/-- `direction_for_score`. -/
def directionForScore (score threshold : ℚ) : Direction :=
  if threshold ≤ score then .long
  else if score ≤ -threshold then .short
  else .flat

/-- `signs_of`: the direction of a signed vote. -/
def signsOf (vote : ℚ) : Direction :=
  if 0 < vote then .long else if vote < 0 then .short else .flat

/-- `_renormalized`: the positive weights of the voters, scaled to sum to one. -/
def renormalized (weights : Weights) (voting : List AgentId) : List (AgentId × ℚ) :=
  let chosen := voting.filter fun a => decide (0 < weights a)
  let total : ℚ := (chosen.map weights).sum
  if total ≤ 0 then [] else chosen.map fun a => (a, weights a / total)

/-- The signed vote of an agent; `none` when it does not vote. -/
def voteOf (signals : Signals) (agent : AgentId) : Option ℚ :=
  (signals agent).bind fun signal =>
    if signOf signal.direction = 0 ∨ signal.confidence ≤ 0 then none
    else some (signOf signal.direction * signal.confidence)

/-- The voters with their votes. -/
def votesOf (signals : Signals) : List (AgentId × ℚ) :=
  directionalAgents.filterMap fun agent => (voteOf signals agent).map fun v => (agent, v)

/-- The result when nobody votes. -/
def FusedResult.noVotes (threshold : ℚ) : FusedResult where
  score := 0
  direction := .flat
  confidence := 0
  agreement := 0
  weights := []
  votingAgents := []
  threshold := threshold
  preContextScore := 0

/-- The weights a regime selects. -/
def FusionParams.weightsFor (p : FusionParams) (regime : String) : Weights :=
  (p.weights.lookup regime).getD unknownWeights

/-- `weights[a]` beside the vote of each voter; `none` is the `KeyError`. -/
def weighted (weights : List (AgentId × ℚ)) (votes : List (AgentId × ℚ)) : Option (List (ℚ × ℚ)) :=
  votes.mapM fun v => (weights.lookup v.1).map fun w => (w, v.2)

/-- `fuse`; `none` is the `KeyError`. -/
def fuse (signals : Signals) (regime : String) (params : FusionParams) : Option FusedResult :=
  let votes := votesOf signals
  if votes.isEmpty then some (.noVotes params.threshold)
  else
    let weights := renormalized (params.weightsFor regime) (votes.map (·.1))
    if weights.isEmpty then some (.noVotes params.threshold)
    else (weighted weights votes).map fun pairs =>
      let score := roundTo 6 (pairs.map fun (w, v) => w * v).sum
      let direction := directionForScore score params.threshold
      let aligning :=
        ((pairs.filter fun (_, v) => signOf (signsOf v) = signOf direction).map (·.1)).sum
      { score, direction, confidence := min 1 |score|, agreement := roundTo 4 aligning, weights,
        votingAgents := votes.map (·.1), threshold := params.threshold, preContextScore := 0 }

/-- `apply_context`: nudge the score toward a higher timeframe's direction. -/
def applyContext (result : FusedResult) (context : Option ContextInput) : FusedResult :=
  match context with
  | none => result
  | some c =>
      if c.confidence ≤ 0 then result
      else
        let newScore := result.score + c.weight * signOf c.direction * min 1 c.confidence
        { result with
          score := roundTo 6 newScore
          direction := directionForScore newScore result.threshold
          confidence := min 1 |newScore|
          preContextScore := result.score }

theorem applyContext_hasVotes (result : FusedResult) (context : Option ContextInput) :
    (applyContext result context).hasVotes = result.hasVotes := by
  unfold applyContext
  cases context with
  | none => rfl
  | some c =>
      simp only
      by_cases hidle : c.confidence ≤ 0
      · rw [if_pos hidle]
      · rw [if_neg hidle]
        rfl

/-! ### The default weights cover every voter -/

theorem weightRow_pos {t f s : ℚ} (ht : 0 < t) (hf : 0 < f) (hs : 0 < s) :
    ∀ a ∈ directionalAgents, 0 < weightRow t f s a := by
  intro a ha
  simp only [directionalAgents, List.mem_cons, List.not_mem_nil, or_false] at ha
  rcases ha with rfl | rfl | rfl
  · exact ht
  · exact hf
  · exact hs

/-- In every regime every directional agent has a positive default weight. -/
theorem defaultWeights_pos (regime : String) :
    ∀ a ∈ directionalAgents, 0 < ({} : FusionParams).weightsFor regime a := by
  have hunknown : ∀ a ∈ directionalAgents, 0 < unknownWeights a :=
    weightRow_pos (by norm_num) (by norm_num) (by norm_num)
  unfold FusionParams.weightsFor
  cases hrow : List.lookup regime ({} : FusionParams).weights with
  | none => exact hunknown
  | some row =>
      obtain ⟨before, after, hsplit, -⟩ := List.lookup_eq_some_iff.mp hrow
      have hmem : (regime, row) ∈ defaultWeights := by
        show (regime, row) ∈ ({} : FusionParams).weights
        rw [hsplit]
        simp
      simp only [defaultWeights, List.mem_cons, Prod.mk.injEq, List.not_mem_nil, or_false] at hmem
      rcases hmem with ⟨-, rfl⟩ | ⟨-, rfl⟩ | ⟨-, rfl⟩ | ⟨-, rfl⟩ | ⟨-, rfl⟩
      · exact weightRow_pos (by norm_num) (by norm_num) (by norm_num)
      · exact weightRow_pos (by norm_num) (by norm_num) (by norm_num)
      · exact weightRow_pos (by norm_num) (by norm_num) (by norm_num)
      · exact weightRow_pos (by norm_num) (by norm_num) (by norm_num)
      · exact hunknown

theorem votesOf_directional (signals : Signals) {v : AgentId × ℚ} (h : v ∈ votesOf signals) :
    v.1 ∈ directionalAgents := by
  unfold votesOf at h
  obtain ⟨agent, hagent, hv⟩ := List.mem_filterMap.mp h
  obtain ⟨w, -, rfl⟩ := Option.map_eq_some_iff.mp hv
  exact hagent

/-- When every voter's weight is positive, every voter is in the scaled weights. -/
theorem lookup_renormalized {weights : Weights} {voting : List AgentId}
    (hpos : ∀ a ∈ voting, 0 < weights a) {a : AgentId} (hvoter : a ∈ voting) :
    ((renormalized weights voting).lookup a).isSome = true := by
  have hall : (voting.filter fun a => decide (0 < weights a)) = voting :=
    List.filter_eq_self.mpr fun b hb => by simpa using hpos b hb
  have hsum : 0 < (voting.map weights).sum := by
    refine List.sum_pos _ ?_ ?_
    · intro x hx
      obtain ⟨b, hb, rfl⟩ := List.mem_map.mp hx
      exact hpos b hb
    · intro hnil
      rw [List.map_eq_nil_iff] at hnil
      rw [hnil] at hvoter
      exact absurd hvoter (by simp)
  unfold renormalized
  simp only [hall, if_neg (not_le.mpr hsum)]
  rw [List.lookup_isSome_iff]
  exact ⟨_, List.mem_map.mpr ⟨a, hvoter, rfl⟩, by simp⟩

/-- **With the default weights fusion does not fail.** -/
theorem fuse_default (signals : Signals) (regime : String) {params : FusionParams}
    (h : params.weights = defaultWeights) : (fuse signals regime params).isSome = true := by
  have hweights : params.weightsFor regime = ({} : FusionParams).weightsFor regime := by
    unfold FusionParams.weightsFor
    rw [h]
  have hpos : ∀ a ∈ (votesOf signals).map (·.1), 0 < params.weightsFor regime a := by
    intro a ha
    obtain ⟨v, hv, rfl⟩ := List.mem_map.mp ha
    rw [hweights]
    exact defaultWeights_pos regime v.1 (votesOf_directional signals hv)
  have hlookup : ∀ votes : List (AgentId × ℚ), votes ⊆ votesOf signals →
      (weighted (renormalized (params.weightsFor regime) ((votesOf signals).map (·.1)))
        votes).isSome = true := by
    intro votes
    induction votes with
    | nil => intro _; rfl
    | cons v rest ih =>
        intro hsub
        obtain ⟨pairs, hpairs⟩ := Option.isSome_iff_exists.mp (ih fun x hx => hsub (by simp [hx]))
        obtain ⟨w, hw⟩ := Option.isSome_iff_exists.mp
          (lookup_renormalized hpos (List.mem_map.mpr ⟨v, hsub List.mem_cons_self, rfl⟩))
        unfold weighted at hpairs ⊢
        rw [List.mapM_cons, hpairs, hw]
        rfl
  unfold fuse
  simp only
  split
  · rfl
  · split
    · rfl
    · rw [Option.isSome_map]
      exact hlookup _ (List.Subset.refl _)

end ForexAi
