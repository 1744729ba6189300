/-
What fusion returns.

The scaled weights hold the voters of positive weight and the loop over the votes looks every
voter up in them.  So there are three cases: no voter has weight and nobody votes
(`fuseWith_light`); every voter has weight and the result is the weighted mean of the votes
(`fuseWith_weighed`); or some have and some have not, and the look-up of one that has not is a
`KeyError` (`fuseWith_mixed`).  In the second case the shares are positive and sum to one,
which bounds everything the result reports (`weighed_normalised`).

The agreement is summed once, for the direction of the votes alone.  A context that moves the
direction leaves it as it was (`agreement_iff`).
-/
import ForexAi.Decisions.Engine
import Mathlib.Algebra.BigOperators.Ring.List
import Mathlib.Algebra.Order.BigOperators.Group.Multiset

namespace ForexAi

open Rounding

/-- `fuse` with its two roundings done by `round`: `roundTo` is the code's, and the identity
is exact arithmetic. -/
def fuseWith (round : ℕ → ℚ → ℚ) (signals : Signals) (regime : String) (params : FusionParams) :
    Option FusedResult :=
  let votes := votesOf signals
  if votes.isEmpty then some (.noVotes params.threshold)
  else
    let weights := renormalized (params.weightsFor regime) (votes.map (·.1))
    if weights.isEmpty then some (.noVotes params.threshold)
    else (weighted weights votes).map fun pairs =>
      let score := round 6 (pairs.map fun (w, v) => w * v).sum
      let direction := directionForScore score params.threshold
      let aligning :=
        ((pairs.filter fun (_, v) => signOf (signsOf v) = signOf direction).map (·.1)).sum
      { score, direction, confidence := min 1 |score|, agreement := round 4 aligning, weights,
        votingAgents := votes.map (·.1), threshold := params.threshold, preContextScore := 0 }

theorem fuseWith_roundTo : fuseWith roundTo = fuse := rfl

/-- `fuse` in exact arithmetic. -/
def fuseExact : Signals → String → FusionParams → Option FusedResult := fuseWith fun _ x => x

/-! ### The weighted mean of the votes

A voter's share is its weight over the weights of all voters, so shares are positive and sum
to one where every voter has weight.
-/

section Weighed

variable (w : Weights) (votes : List (AgentId × ℚ))

def totalWeight : ℚ := (votes.map fun v => w v.1).sum

/-- The share of an agent among the voters. -/
def share (agent : AgentId) : ℚ := w agent / totalWeight w votes

def weightedVote : ℚ := (votes.map fun v => share w votes v.1 * v.2).sum

/-- The share of the voters on the side of a direction. -/
def alignedShare (direction : Direction) : ℚ :=
  ((votes.filter fun v => decide (signOf (signsOf v.2) = signOf direction)).map
    fun v => share w votes v.1).sum

/-- The result of voters that all have weight. -/
def weighedResult (round : ℕ → ℚ → ℚ) (threshold : ℚ) : FusedResult where
  score := round 6 (weightedVote w votes)
  direction := directionForScore (round 6 (weightedVote w votes)) threshold
  confidence := min 1 |round 6 (weightedVote w votes)|
  agreement := round 4
    (alignedShare w votes (directionForScore (round 6 (weightedVote w votes)) threshold))
  weights := votes.map fun v => (v.1, share w votes v.1)
  votingAgents := votes.map (·.1)
  threshold := threshold
  preContextScore := 0

variable {w votes}

theorem totalWeight_pos (hne : votes ≠ []) (hpos : ∀ v ∈ votes, 0 < w v.1) :
    0 < totalWeight w votes := by
  refine List.sum_pos _ ?_ ?_
  · intro x hx
    obtain ⟨v, hv, rfl⟩ := List.mem_map.mp hx
    exact hpos v hv
  · exact fun hnil => hne (List.map_eq_nil_iff.mp hnil)

theorem share_pos (hpos : ∀ v ∈ votes, 0 < w v.1) {v : AgentId × ℚ} (hv : v ∈ votes) :
    0 < share w votes v.1 :=
  div_pos (hpos v hv) (totalWeight_pos (List.ne_nil_of_mem hv) hpos)

/-- The shares sum to one. -/
theorem sum_shares (hne : votes ≠ []) (hpos : ∀ v ∈ votes, 0 < w v.1) :
    (votes.map fun v => share w votes v.1).sum = 1 := by
  have htotal := totalWeight_pos hne hpos
  have hsum : (votes.map fun v => share w votes v.1).sum
      = (votes.map fun v => w v.1).sum / totalWeight w votes := by
    unfold share
    simp only [div_eq_mul_inv]
    rw [List.sum_map_mul_right]
  rw [hsum]
  exact div_self htotal.ne'

/-! ### The three cases

Which of them applies depends on the regime's row of the matrix and on who votes, and on
nothing the agents said.
-/

/-- Where every voter has weight, the scaled weights are the shares. -/
theorem renormalized_of_pos (hne : votes ≠ []) (hpos : ∀ v ∈ votes, 0 < w v.1) :
    renormalized w (votes.map (·.1)) = votes.map fun v => (v.1, share w votes v.1) := by
  have hall : ((votes.map (·.1)).filter fun a => decide (0 < w a)) = votes.map (·.1) := by
    refine List.filter_eq_self.mpr fun a ha => ?_
    obtain ⟨v, hv, rfl⟩ := List.mem_map.mp ha
    simpa using hpos v hv
  have htotal : ((votes.map (·.1)).map w).sum = totalWeight w votes := by
    rw [List.map_map]
    rfl
  unfold renormalized
  simp only [hall, htotal]
  rw [if_neg (not_le.mpr (totalWeight_pos hne hpos)), List.map_map]
  rfl

/-- Where no voter has weight, there are none. -/
theorem renormalized_of_nonpos (h : ∀ v ∈ votes, w v.1 ≤ 0) :
    renormalized w (votes.map (·.1)) = [] := by
  have hnone : ((votes.map (·.1)).filter fun a => decide (0 < w a)) = [] := by
    refine List.filter_eq_nil_iff.mpr fun a ha => ?_
    obtain ⟨v, hv, rfl⟩ := List.mem_map.mp ha
    simpa using h v hv
  unfold renormalized
  simp only [hnone]
  exact if_pos (le_refl _)

theorem lookup_renormalized_none {voting : List AgentId} {agent : AgentId} (h : w agent ≤ 0) :
    (renormalized w voting).lookup agent = none := by
  unfold renormalized
  simp only
  split
  · rfl
  · rw [List.lookup_eq_none_iff]
    intro p hp
    obtain ⟨a, ha, rfl⟩ := List.mem_map.mp hp
    have hweight : 0 < w a := by simpa using (List.mem_filter.mp ha).2
    have hne : agent ≠ a := fun heq => absurd hweight (not_lt.mpr (heq ▸ h))
    simpa using hne

theorem renormalized_ne_nil {v : AgentId × ℚ} (hv : v ∈ votes) (hweight : 0 < w v.1) :
    renormalized w (votes.map (·.1)) ≠ [] := by
  set chosen := (votes.map (·.1)).filter fun a => decide (0 < w a) with hchosen
  have hmem : v.1 ∈ chosen :=
    List.mem_filter.mpr ⟨List.mem_map.mpr ⟨v, hv, rfl⟩, by simpa using hweight⟩
  have hsum : 0 < (chosen.map w).sum := by
    refine List.sum_pos _ ?_ ?_
    · intro x hx
      obtain ⟨a, ha, rfl⟩ := List.mem_map.mp hx
      simpa using (List.mem_filter.mp ha).2
    · exact fun hnil => absurd hmem (by rw [List.map_eq_nil_iff.mp hnil]; simp)
  unfold renormalized
  simp only [← hchosen]
  rw [if_neg (not_le.mpr hsum)]
  exact fun hnil => absurd hmem (by rw [List.map_eq_nil_iff.mp hnil]; simp)

theorem weighted_missing {weights : List (AgentId × ℚ)} {v : AgentId × ℚ} (hv : v ∈ votes)
    (hnone : weights.lookup v.1 = none) : weighted weights votes = none := by
  induction votes with
  | nil => exact absurd hv (by simp)
  | cons u rest ih =>
      unfold weighted at ih ⊢
      rw [List.mapM_cons]
      rcases List.mem_cons.mp hv with rfl | hrest
      · rw [hnone]
        rfl
      · rw [ih hrest]
        cases (weights.lookup u.1).map fun x => (x, u.2) <;> rfl

theorem lookup_shares {v : AgentId × ℚ} (hv : v ∈ votes) :
    (votes.map fun v => (v.1, share w votes v.1)).lookup v.1 = some (share w votes v.1) := by
  have hfound : ((votes.map fun v => (v.1, share w votes v.1)).lookup v.1).isSome = true :=
    List.lookup_isSome_iff.mpr ⟨_, List.mem_map.mpr ⟨v, hv, rfl⟩, by simp⟩
  obtain ⟨x, hx⟩ := Option.isSome_iff_exists.mp hfound
  obtain ⟨before, after, hsplit, -⟩ := List.lookup_eq_some_iff.mp hx
  have hmem : (v.1, x) ∈ votes.map fun v => (v.1, share w votes v.1) := by
    rw [hsplit]
    simp
  obtain ⟨u, -, hu⟩ := List.mem_map.mp hmem
  obtain ⟨hagent, hshare⟩ := Prod.mk.inj hu
  rw [hx, ← hshare, hagent]

theorem weighted_shares : weighted (votes.map fun v => (v.1, share w votes v.1)) votes
    = some (votes.map fun v => (share w votes v.1, v.2)) := by
  have hpart (part : List (AgentId × ℚ)) (hsub : part ⊆ votes) :
      weighted (votes.map fun v => (v.1, share w votes v.1)) part
        = some (part.map fun v => (share w votes v.1, v.2)) := by
    induction part with
    | nil => rfl
    | cons v rest ih =>
        have hrest := ih fun u hu => hsub (List.mem_cons_of_mem v hu)
        unfold weighted at hrest ⊢
        rw [List.mapM_cons, hrest, lookup_shares (hsub List.mem_cons_self)]
        rfl
  exact hpart votes (List.Subset.refl _)

end Weighed

section Cases

variable (round : ℕ → ℚ → ℚ) {signals : Signals} {regime : String} {params : FusionParams}

/-- Where no voter has weight nobody votes. -/
theorem fuseWith_light (h : ∀ v ∈ votesOf signals, params.weightsFor regime v.1 ≤ 0) :
    fuseWith round signals regime params = some (.noVotes params.threshold) := by
  unfold fuseWith
  simp only [List.isEmpty_iff]
  by_cases hempty : votesOf signals = []
  · rw [if_pos hempty]
  · rw [if_neg hempty, if_pos (renormalized_of_nonpos h)]

/-- Where every voter has weight the result is the weighted mean. -/
theorem fuseWith_weighed (hne : votesOf signals ≠ [])
    (hpos : ∀ v ∈ votesOf signals, 0 < params.weightsFor regime v.1) :
    fuseWith round signals regime params
      = some (weighedResult (params.weightsFor regime) (votesOf signals) round
        params.threshold) := by
  obtain ⟨v, hv⟩ := List.exists_mem_of_ne_nil _ hne
  unfold fuseWith
  simp only [List.isEmpty_iff]
  rw [if_neg hne, if_neg (renormalized_ne_nil hv (hpos v hv)), renormalized_of_pos hne hpos,
    weighted_shares, Option.map_some]
  unfold weighedResult weightedVote alignedShare
  simp only [List.filter_map, List.map_map]
  rfl

/-- One voter with weight and one without are a `KeyError`. -/
theorem fuseWith_mixed {v u : AgentId × ℚ} (hv : v ∈ votesOf signals)
    (hweight : 0 < params.weightsFor regime v.1) (hu : u ∈ votesOf signals)
    (hlight : params.weightsFor regime u.1 ≤ 0) :
    fuseWith round signals regime params = none := by
  unfold fuseWith
  simp only [List.isEmpty_iff]
  rw [if_neg (List.ne_nil_of_mem hv), if_neg (renormalized_ne_nil hv hweight),
    weighted_missing hu (lookup_renormalized_none hlight)]
  rfl

end Cases

/-- There are no other cases. -/
theorem weight_cases (w : Weights) (votes : List (AgentId × ℚ)) :
    (∀ v ∈ votes, w v.1 ≤ 0) ∨ (votes ≠ [] ∧ ∀ v ∈ votes, 0 < w v.1) ∨
      ((∃ v ∈ votes, 0 < w v.1) ∧ ∃ v ∈ votes, w v.1 ≤ 0) := by
  by_cases hnone : ∀ v ∈ votes, w v.1 ≤ 0
  · exact Or.inl hnone
  · push Not at hnone
    obtain ⟨v, hv, hweight⟩ := hnone
    by_cases hpos : ∀ v ∈ votes, 0 < w v.1
    · exact Or.inr (Or.inl ⟨List.ne_nil_of_mem hv, hpos⟩)
    · push Not at hpos
      exact Or.inr (Or.inr ⟨⟨v, hv, hweight⟩, hpos⟩)

/-! ### Totality and normalisation

Bounds on the score and the confidence are bounds on a mean of numbers in an interval.  They
are stated for any rounding that respects the interval, so that exact arithmetic and the
code's four digits are one proof.
-/

/-- What a fused result promises its readers. -/
structure Normalised (signals : Signals) (r : FusedResult) : Prop where
  /-- there are no weights, or positive ones that sum to one -/
  weights : r.weights = [] ∨ (∀ p ∈ r.weights, 0 < p.2) ∧ (r.weights.map (·.2)).sum = 1
  /-- only voters have a weight -/
  voters : ∀ p ∈ r.weights, p.1 ∈ (votesOf signals).map (·.1)
  score : |r.score| ≤ 1
  agreement : 0 ≤ r.agreement ∧ r.agreement ≤ 1
  confidence : 0 ≤ r.confidence ∧ r.confidence ≤ 1

/-- The signals of the agents that have weight, the others silenced. -/
def weighing (w : Weights) (signals : Signals) : Signals := fun agent =>
  if 0 < w agent then signals agent else none

/-- Fusion returns a normalised result, and the agents without weight contribute nothing to
it: silenced, they leave it as it is. -/
def FusesNormalised (fusion : Signals → String → FusionParams → Option FusedResult)
    (signals : Signals) (regime : String) (params : FusionParams) : Prop :=
  ∃ r, fusion signals regime params = some r ∧ Normalised signals r ∧
    fusion (weighing (params.weightsFor regime) signals) regime params = some r

/-- A rounding that leaves `[-1, 1]` and `[0, 1]` as they are. -/
def KeepsUnit (round : ℕ → ℚ → ℚ) : Prop :=
  ∀ digits x, (x ≤ 1 → round digits x ≤ 1) ∧ (0 ≤ x → 0 ≤ round digits x) ∧
    (-1 ≤ x → -1 ≤ round digits x)

theorem keepsUnit_exact : KeepsUnit fun _ x => x := fun _ _ => ⟨id, id, id⟩

theorem keepsUnit_roundTo : KeepsUnit roundTo := by
  intro digits x
  refine ⟨roundTo_le_of_le digits (n := 10 ^ digits) ?_, le_roundTo_of_le digits (n := 0) ?_,
    le_roundTo_of_le digits (n := -10 ^ digits) ?_⟩ <;> push_cast <;> ring

theorem votesOf_weighing (w : Weights) (signals : Signals) :
    votesOf (weighing w signals) = (votesOf signals).filter fun v => decide (0 < w v.1) := by
  unfold votesOf
  rw [List.filter_filterMap]
  refine List.filterMap_congr fun agent _ => ?_
  unfold voteOf weighing
  by_cases hweight : 0 < w agent
  · rw [if_pos hweight]
    cases signals agent with
    | none => rfl
    | some signal =>
        simp only [Option.bind_some]
        split
        · rfl
        · simp [Option.filter, hweight]
  · rw [if_neg hweight]
    cases signals agent with
    | none => rfl
    | some signal =>
        simp only [Option.bind_some, Option.bind_none]
        split
        · rfl
        · simp [Option.filter, hweight]

/-- Fusion reads the votes and nothing else of the signals. -/
theorem fuseWith_congr (round : ℕ → ℚ → ℚ) {signals signals' : Signals} (regime : String)
    (params : FusionParams) (h : votesOf signals = votesOf signals') :
    fuseWith round signals regime params = fuseWith round signals' regime params := by
  unfold fuseWith
  rw [h]

theorem abs_vote_le {signals : Signals}
    (hconf : ∀ agent signal, signals agent = some signal → signal.confidence ≤ 1)
    {v : AgentId × ℚ} (hv : v ∈ votesOf signals) : |v.2| ≤ 1 := by
  unfold votesOf at hv
  obtain ⟨agent, -, hvote⟩ := List.mem_filterMap.mp hv
  obtain ⟨x, hx, rfl⟩ := Option.map_eq_some_iff.mp hvote
  unfold voteOf at hx
  obtain ⟨signal, hsignal, hx⟩ := Option.bind_eq_some_iff.mp hx
  split at hx
  · exact absurd hx (by simp)
  · rename_i hvotes
    push Not at hvotes
    have hle := hconf agent signal hsignal
    rw [← Option.some.inj hx]
    cases signal.direction <;> simp [signOf, abs_of_pos hvotes.2, hle]

theorem weightsFor_nonneg {params : FusionParams}
    (h : ∀ row ∈ params.weights, ∀ agent, 0 ≤ row.2 agent) (regime : String) (agent : AgentId) :
    0 ≤ params.weightsFor regime agent := by
  unfold FusionParams.weightsFor
  cases hrow : List.lookup regime params.weights with
  | none => cases agent <;> simp [unknownWeights, weightRow] <;> norm_num
  | some row =>
      obtain ⟨before, after, hsplit, -⟩ := List.lookup_eq_some_iff.mp hrow
      exact h (regime, row) (by rw [hsplit]; simp) agent

section Bounds

variable {w : Weights} {votes : List (AgentId × ℚ)}

/-- A weighted mean of votes in `[-1, 1]` is in `[-1, 1]`. -/
theorem abs_weightedVote_le (hne : votes ≠ []) (hpos : ∀ v ∈ votes, 0 < w v.1)
    (hvote : ∀ v ∈ votes, |v.2| ≤ 1) : |weightedVote w votes| ≤ 1 := by
  have hterm : ∀ v ∈ votes, |share w votes v.1 * v.2| ≤ share w votes v.1 := by
    intro v hv
    have hshare := share_pos hpos hv
    rw [abs_mul, abs_of_pos hshare]
    exact mul_le_of_le_one_right hshare.le (hvote v hv)
  calc |weightedVote w votes|
      ≤ (votes.map fun v => |share w votes v.1 * v.2|).sum := by
        unfold weightedVote
        have habs := Multiset.abs_sum_le_sum_abs
          (s := Multiset.ofList (votes.map fun v => share w votes v.1 * v.2))
        rwa [Multiset.map_coe, Multiset.sum_coe, Multiset.sum_coe, List.map_map] at habs
    _ ≤ (votes.map fun v => share w votes v.1).sum := List.sum_le_sum hterm
    _ = 1 := sum_shares hne hpos

theorem alignedShare_nonneg (hpos : ∀ v ∈ votes, 0 < w v.1) (direction : Direction) :
    0 ≤ alignedShare w votes direction := by
  refine List.sum_nonneg fun x hx => ?_
  obtain ⟨v, hv, rfl⟩ := List.mem_map.mp hx
  exact (share_pos hpos (List.mem_filter.mp hv).1).le

theorem alignedShare_le_one (hne : votes ≠ []) (hpos : ∀ v ∈ votes, 0 < w v.1)
    (direction : Direction) : alignedShare w votes direction ≤ 1 := by
  rw [← sum_shares hne hpos]
  refine List.Sublist.sum_le_sum (List.filter_sublist.map _) fun x hx => ?_
  obtain ⟨v, hv, rfl⟩ := List.mem_map.mp hx
  exact (share_pos hpos hv).le

end Bounds

theorem normalised_noVotes (signals : Signals) (threshold : ℚ) :
    Normalised signals (.noVotes threshold) where
  weights := Or.inl rfl
  voters := fun p hp => absurd hp (by simp [FusedResult.noVotes])
  score := by simp [FusedResult.noVotes]
  agreement := ⟨le_refl _, zero_le_one⟩
  confidence := ⟨le_refl _, zero_le_one⟩

/-- Voters that all have weight make a normalised result. -/
theorem weighed_normalised {round : ℕ → ℚ → ℚ} (hround : KeepsUnit round) {signals : Signals}
    {w : Weights} (threshold : ℚ) (hne : votesOf signals ≠ [])
    (hpos : ∀ v ∈ votesOf signals, 0 < w v.1)
    (hconf : ∀ agent signal, signals agent = some signal → signal.confidence ≤ 1) :
    Normalised signals (weighedResult w (votesOf signals) round threshold) where
  weights := by
    refine Or.inr ⟨?_, ?_⟩
    · intro p hp
      obtain ⟨v, hv, rfl⟩ := List.mem_map.mp hp
      exact share_pos hpos hv
    · show ((List.map _ _).map _).sum = 1
      rw [List.map_map]
      exact sum_shares hne hpos
  voters := by
    intro p hp
    obtain ⟨v, hv, rfl⟩ := List.mem_map.mp hp
    exact List.mem_map.mpr ⟨v, hv, rfl⟩
  score := by
    obtain ⟨hlow, hhigh⟩ := abs_le.mp (abs_weightedVote_le hne hpos fun v => abs_vote_le hconf)
    exact abs_le.mpr ⟨(hround _ _).2.2 hlow, (hround _ _).1 hhigh⟩
  agreement :=
    ⟨(hround _ _).2.1 (alignedShare_nonneg hpos _), (hround _ _).1 (alignedShare_le_one hne hpos _)⟩
  confidence := ⟨le_min zero_le_one (abs_nonneg _), min_le_left _ _⟩

/-- Fusion is total and normalised exactly when all voters have weight or none has. -/
theorem fusesNormalised_iff {round : ℕ → ℚ → ℚ} (hround : KeepsUnit round) {signals : Signals}
    (regime : String) {params : FusionParams}
    (hconf : ∀ agent signal, signals agent = some signal → signal.confidence ≤ 1)
    (hweights : ∀ row ∈ params.weights, ∀ agent, 0 ≤ row.2 agent) :
    FusesNormalised (fuseWith round) signals regime params ↔
      (∀ v ∈ votesOf signals, 0 < params.weightsFor regime v.1) ∨
        ∀ v ∈ votesOf signals, params.weightsFor regime v.1 = 0 := by
  have hzero {v : AgentId × ℚ} (h : params.weightsFor regime v.1 ≤ 0) :
      params.weightsFor regime v.1 = 0 :=
    le_antisymm h (weightsFor_nonneg hweights regime v.1)
  have hsilent := votesOf_weighing (params.weightsFor regime) signals
  rcases weight_cases (params.weightsFor regime) (votesOf signals) with
    hnone | ⟨hne, hpos⟩ | ⟨⟨v, hv, hweight⟩, u, hu, hlight⟩
  · refine iff_of_true ⟨_, fuseWith_light round hnone, normalised_noVotes signals _, ?_⟩
      (Or.inr fun v hv => hzero (hnone v hv))
    have hempty : votesOf (weighing (params.weightsFor regime) signals) = [] := by
      rw [hsilent]
      exact List.filter_eq_nil_iff.mpr fun v hv => by simpa using hnone v hv
    unfold fuseWith
    rw [hempty]
    rfl
  · have hfuse := fuseWith_weighed round hne hpos
    refine iff_of_true ⟨_, hfuse, weighed_normalised hround _ hne hpos hconf, ?_⟩ (Or.inl hpos)
    rw [← hfuse]
    refine fuseWith_congr round regime params ?_
    rw [hsilent]
    exact List.filter_eq_self.mpr fun v hv => by simpa using hpos v hv
  · refine iff_of_false ?_ ?_
    · rintro ⟨r, hr, -⟩
      rw [fuseWith_mixed round hv hweight hu hlight] at hr
      exact absurd hr (by simp)
    · rintro (hall | hall)
      · exact absurd (hall u hu) (not_lt.mpr hlight)
      · exact absurd hweight (by rw [hall v hv]; exact lt_irrefl 0)

/-- **When fusion is total and normalised**, in exact arithmetic and as it rounds: when every
voter has weight or none has.  One of each is a `KeyError`. -/
theorem fuse_normalised_iff {signals : Signals} (regime : String) {params : FusionParams}
    (hconf : ∀ agent signal, signals agent = some signal →
      0 ≤ signal.confidence ∧ signal.confidence ≤ 1)
    (hweights : ∀ row ∈ params.weights, ∀ agent, 0 ≤ row.2 agent) :
    (FusesNormalised fuseExact signals regime params ↔
      (∀ v ∈ votesOf signals, 0 < params.weightsFor regime v.1) ∨
        ∀ v ∈ votesOf signals, params.weightsFor regime v.1 = 0) ∧
    (FusesNormalised fuse signals regime params ↔
      (∀ v ∈ votesOf signals, 0 < params.weightsFor regime v.1) ∨
        ∀ v ∈ votesOf signals, params.weightsFor regime v.1 = 0) := by
  have hle := fun agent signal h => (hconf agent signal h).2
  refine ⟨fusesNormalised_iff keepsUnit_exact regime hle hweights, ?_⟩
  rw [← fuseWith_roundTo]
  exact fusesNormalised_iff keepsUnit_roundTo regime hle hweights

/-- Signals of an hourly bar: each agent's direction and confidence. -/
def hourlySignals (opinion : AgentId → Direction × ℚ) : Signals := fun agent =>
  some
    { agentId := agent
      symbol := .eurusd
      timeframe := .H1
      direction := (opinion agent).1
      confidence := (opinion agent).2
      bucketTs := 0
      features := []
      createdAt := 0
      validUntil := seconds 7200 }

/-- Everybody half sure of the long side. -/
def halfLong : Signals := hourlySignals fun _ => (.long, 1 / 2)

theorem halfLong_confidence (agent : AgentId) (signal : AgentSignal)
    (h : halfLong agent = some signal) : 0 ≤ signal.confidence ∧ signal.confidence ≤ 1 := by
  unfold halfLong hourlySignals at h
  rw [← Option.some.inj h]
  norm_num

/-- A matrix that leaves a trend to the technical agent. -/
def technicalOnly : FusionParams where
  weights := [("trending", weightRow 1 0 0)]

theorem technicalOnly_nonneg : ∀ row ∈ technicalOnly.weights, ∀ agent, 0 ≤ row.2 agent := by
  intro row hrow agent
  rw [List.mem_singleton.mp hrow]
  cases agent <;> simp [weightRow]

/-- With a matrix that leaves a trend to the technical agent, one other vote is a `KeyError`. -/
theorem fuse_not_normalised : ¬ ∀ (signals : Signals) (regime : String) (params : FusionParams),
    (∀ agent signal, signals agent = some signal →
      0 ≤ signal.confidence ∧ signal.confidence ≤ 1) →
    (∀ row ∈ params.weights, ∀ agent, 0 ≤ row.2 agent) →
    FusesNormalised fuseExact signals regime params := by
  intro h
  obtain ⟨r, hr, -⟩ := h halfLong "trending" technicalOnly halfLong_confidence technicalOnly_nonneg
  have hnone : (fuseExact halfLong "trending" technicalOnly).isNone = true := by decide +kernel
  rw [hr] at hnone
  exact absurd hnone (by simp)

/-- With the default matrix the same votes fuse. -/
theorem halfLong_normalised : FusesNormalised fuseExact halfLong "trending" {} := by
  refine (fuse_normalised_iff "trending" halfLong_confidence ?_).1.mpr (Or.inl ?_)
  · intro row hrow agent
    simp only [defaultWeights, List.mem_cons, List.not_mem_nil, or_false] at hrow
    rcases hrow with rfl | rfl | rfl | rfl | rfl <;> cases agent <;>
      simp [unknownWeights, weightRow] <;> norm_num
  · exact fun v hv => defaultWeights_pos "trending" v.1 (votesOf_directional halfLong hv)

/-! ### The agreement and the context

The agreement is a sum over the voters on one side, taken before the context has spoken.
Whether it is the share of the final side is a comparison of two such sums.
-/

/-- The sum of the weights of the voting agents whose vote has the sign of the direction the
result ends with. -/
def FusedResult.aligning (r : FusedResult) (signals : Signals) : ℚ :=
  ((r.votingAgents.filter fun agent =>
      (voteOf signals agent).any fun v => decide (signOf (signsOf v) = signOf r.direction)).map
    fun agent => (r.weights.lookup agent).getD 0).sum

/-- What a context adds to the score. -/
def contextNudge : Option ContextInput → ℚ
  | none => 0
  | some c => if c.confidence ≤ 0 then 0 else c.weight * signOf c.direction * min 1 c.confidence

theorem applyContext_kept (r : FusedResult) (context : Option ContextInput) :
    (applyContext r context).agreement = r.agreement ∧
      (applyContext r context).weights = r.weights ∧
      (applyContext r context).votingAgents = r.votingAgents := by
  unfold applyContext
  cases context with
  | none => exact ⟨rfl, rfl, rfl⟩
  | some c =>
      simp only
      split <;> exact ⟨rfl, rfl, rfl⟩

/-- The direction after a context is the direction of the nudged score. -/
theorem applyContext_direction {r : FusedResult} (context : Option ContextInput)
    (h : r.direction = directionForScore r.score r.threshold) :
    (applyContext r context).direction
      = directionForScore (r.score + contextNudge context) r.threshold := by
  unfold applyContext contextNudge
  cases context with
  | none => rw [add_zero, h]
  | some c =>
      simp only
      split
      · rw [add_zero, h]
      · rfl

theorem voteOf_of_mem {signals : Signals} {v : AgentId × ℚ} (h : v ∈ votesOf signals) :
    voteOf signals v.1 = some v.2 := by
  unfold votesOf at h
  obtain ⟨agent, -, hvote⟩ := List.mem_filterMap.mp h
  obtain ⟨x, hx, rfl⟩ := Option.map_eq_some_iff.mp hvote
  exact hx

/-- The share of the voters on the side of a result's direction, read off the result. -/
theorem aligning_weighed (round : ℕ → ℚ → ℚ) (signals : Signals) {w : Weights} (threshold : ℚ)
    {r : FusedResult}
    (hweights : r.weights = (weighedResult w (votesOf signals) round threshold).weights)
    (hvoting : r.votingAgents = (votesOf signals).map (·.1)) :
    r.aligning signals = alignedShare w (votesOf signals) r.direction := by
  unfold FusedResult.aligning alignedShare
  rw [hweights, hvoting, List.filter_map, List.map_map]
  have hsame : (votesOf signals).filter ((fun agent => (voteOf signals agent).any fun v =>
        decide (signOf (signsOf v) = signOf r.direction)) ∘ Prod.fst)
      = (votesOf signals).filter fun v => decide (signOf (signsOf v.2) = signOf r.direction) := by
    refine List.filter_congr fun v hv => ?_
    simp only [Function.comp_apply, voteOf_of_mem hv, Option.any_some]
  rw [hsame]
  refine congrArg List.sum (List.map_congr_left fun v hv => ?_)
  simp only [Function.comp_apply, weighedResult]
  rw [lookup_shares (List.mem_filter.mp hv).1]
  rfl

/-- **When the agreement is the share of the final direction**: when no voter has weight, when
the context leaves the votes' direction as it was, or when the side it moves to has the same
share, to four digits. -/
theorem agreement_iff {inputs : DecisionInputs} {orch : OrchParams} {risk : RiskParams}
    {outcome : DecisionOutcome} (h : computeDecision inputs orch risk = some outcome) :
    let votes := votesOf inputs.signals
    let w := orch.fusion.weightsFor inputs.regime
    let mean := roundTo 6 (weightedVote w votes)
    let before := directionForScore mean orch.threshold
    let after := directionForScore (mean + contextNudge inputs.parentContext) orch.threshold
    outcome.fused.agreement = roundTo 4 (outcome.fused.aligning inputs.signals) ↔
      (∀ v ∈ votes, w v.1 ≤ 0) ∨ before = after ∨
        roundTo 4 (alignedShare w votes before) = roundTo 4 (alignedShare w votes after) := by
  intro votes w mean before after
  obtain ⟨fused, hfused, rfl⟩ := Option.map_eq_some_iff.mp h
  rw [decideFused_fused]
  obtain ⟨hagreement, hweights, hvoting⟩ := applyContext_kept fused inputs.parentContext
  rw [← fuseWith_roundTo] at hfused
  rcases weight_cases w votes with hnone | ⟨hne, hpos⟩ | ⟨⟨v, hv, hweight⟩, u, hu, hlight⟩
  · rw [fuseWith_light roundTo hnone] at hfused
    rw [← Option.some.inj hfused] at hagreement hvoting ⊢
    refine iff_of_true ?_ (Or.inl hnone)
    unfold FusedResult.aligning
    rw [hagreement, hvoting]
    simp [FusedResult.noVotes, roundTo, halfEven]
  · rw [fuseWith_weighed roundTo hne hpos] at hfused
    have hresult := (Option.some.inj hfused).symm
    have hdirection : (applyContext fused inputs.parentContext).direction = after := by
      rw [applyContext_direction inputs.parentContext (by rw [hresult]; rfl), hresult]
      rfl
    rw [aligning_weighed roundTo inputs.signals orch.threshold (w := w)
        (by rw [hweights, hresult]; rfl) (by rw [hvoting, hresult]; rfl),
      hagreement, hdirection, hresult]
    show roundTo 4 (alignedShare w votes before) = roundTo 4 (alignedShare w votes after) ↔ _
    obtain ⟨v, hv⟩ := List.exists_mem_of_ne_nil votes hne
    constructor
    · exact fun hsame => Or.inr (Or.inr hsame)
    · rintro (hnone | hkept | hsame)
      · exact absurd (hpos v hv) (not_lt.mpr (hnone v hv))
      · rw [hkept]
      · exact hsame
  · rw [fuseWith_mixed roundTo hv hweight hu hlight] at hfused
    exact absurd hfused (by simp)

/-- A bar at which the technical agent is a little long and its parent timeframe surely is. -/
def faintLong : DecisionInputs where
  symbol := .eurusd
  timeframe := .H1
  bucketTs := 0
  now := 0
  signals := hourlySignals fun
    | .technical => (.long, 1 / 10)
    | _ => (.flat, 0)
  regime := "trending"
  atr := some (1 / 1000)
  price := some (11 / 10)
  coverage := 1
  gate := {}
  parentContext := some { direction := .long, confidence := 1 }

/-- The context makes the decision long, and the agreement stays that of a flat one: 0 where
every voter agrees. -/
theorem agreement_before_context : ¬ ∀ (inputs : DecisionInputs) (orch : OrchParams)
    (risk : RiskParams) (outcome : DecisionOutcome),
      computeDecision inputs orch risk = some outcome →
      outcome.fused.agreement = roundTo 4 (outcome.fused.aligning inputs.signals) := by
  intro h
  have hvalues : ((computeDecision faintLong {} .default).map fun o =>
      (o.fused.direction, o.fused.agreement, o.fused.aligning faintLong.signals))
        = some (.long, 0, 1) := by decide +kernel
  obtain ⟨outcome, houtcome, hparts⟩ := Option.map_eq_some_iff.mp hvalues
  obtain ⟨-, hagreement, haligning⟩ :=
    And.imp_right Prod.mk.inj (Prod.mk.inj hparts)
  have hclaim := h faintLong {} .default outcome houtcome
  rw [hagreement, haligning] at hclaim
  exact absurd hclaim (by decide +kernel)

/-- Two agents surely long and one a little short, under the same parent. -/
def clearLong : DecisionInputs :=
  { faintLong with
    signals := hourlySignals fun
      | .technical => (.long, 9 / 10)
      | .fundamental => (.short, 3 / 10)
      | .sentiment => (.long, 7 / 10)
      | .regime => (.flat, 0) }

/-- A context that keeps the direction leaves the agreement its share. -/
theorem agreement_under_context :
    ∃ outcome, computeDecision clearLong {} .default = some outcome ∧
      outcome.fused.agreement = roundTo 4 (outcome.fused.aligning clearLong.signals) := by
  have hweights : ({} : OrchParams).weights = [] := rfl
  obtain ⟨outcome, houtcome⟩ := Option.isSome_iff_exists.mp
    (computeDecision_default clearLong hweights .default)
  have hkept : directionForScore (roundTo 6 (weightedVote
        (({} : OrchParams).fusion.weightsFor clearLong.regime) (votesOf clearLong.signals)))
        ({} : OrchParams).threshold
      = directionForScore (roundTo 6 (weightedVote
        (({} : OrchParams).fusion.weightsFor clearLong.regime) (votesOf clearLong.signals))
          + contextNudge clearLong.parentContext) ({} : OrchParams).threshold := by
    decide +kernel
  exact ⟨outcome, houtcome, (agreement_iff houtcome).mpr (Or.inr (Or.inl hkept))⟩

end ForexAi
