/-
The bucket a decision is made on.

Three queries have to agree.  The newest row of each agent is the one created last; of these
the ones that are still valid vote, on the latest bucket among them; and the ATR is read from
the technical row created last, valid or not.  Where buckets are analysed in order, what was
created last is on the latest bucket, and all three are about it.

An old bucket analysed after a newer one breaks each of them.  `fresh_bucket_iff` says that
nothing else does: the decision is on the greatest bucket with a valid signal, on all its
valid signals and with its ATR, exactly when each of those signals is the one its agent
created last and the technical row created last is on that bucket or has no ATR.
-/
import ForexAi.Proofs.Cooldown

namespace ForexAi

/-- The rows of an agent for a pair. -/
def agentRows (rows : List AgentSignal) (symbol : Symbol) (timeframe : Timeframe)
    (agent : AgentId) : List AgentSignal :=
  rows.filter fun r => decide (r.symbol = symbol ∧ r.timeframe = timeframe ∧ r.agentId = agent)

/-- `load_latest_per_agent` gives the row an agent created last, if it is still valid. -/
theorem loadLatestPerAgent_iff {rows : List AgentSignal} {symbol : Symbol} {timeframe : Timeframe}
    {now : Option Time} {agent : AgentId} {s : AgentSignal} :
    loadLatestPerAgent rows symbol timeframe now agent = some s ↔
      Newest.Last AgentSignal.createdAt (agentRows rows symbol timeframe agent) s ∧
        ∀ t ∈ now, t ≤ s.validUntil := by
  unfold loadLatestPerAgent
  rw [newestSignal_eq, Option.filter_eq_some_iff, Newest.pick_le_iff]
  simp [agentRows, Option.all_eq_true]

theorem mem_agentFamilies (agent : AgentId) : agent ∈ agentFamilies := by
  cases agent <;> decide

/-- The latest bucket of some votes is one of theirs, and none is later. -/
theorem latestBucket_iff {votes : Signals} {b : Time} :
    latestBucket votes = some b ↔
      (∃ agent s, votes agent = some s ∧ s.bucketTs = b) ∧
        ∀ agent s, votes agent = some s → s.bucketTs ≤ b := by
  have hmem : ∀ t, t ∈ (agentFamilies.filterMap votes).map (·.bucketTs) ↔
      ∃ agent s, votes agent = some s ∧ s.bucketTs = t := by
    intro t
    simp only [List.mem_map, List.mem_filterMap]
    constructor
    · rintro ⟨s, ⟨agent, -, hs⟩, ht⟩
      exact ⟨agent, s, hs, ht⟩
    · rintro ⟨agent, s, hs, ht⟩
      exact ⟨s, ⟨agent, mem_agentFamilies agent, hs⟩, ht⟩
  unfold latestBucket
  rw [List.max?_eq_some_iff, hmem]
  refine and_congr_right fun _ => ⟨fun h agent s hs => h _ ((hmem _).mpr ⟨agent, s, hs, rfl⟩), ?_⟩
  intro h t ht
  obtain ⟨agent, s, hs, rfl⟩ := (hmem t).mp ht
  exact h agent s hs

namespace PairCall

variable (call : PairCall) (db : Database) (gate : Option GateState)

/-- The signals of the pair that are still valid. -/
def validSignals : List AgentSignal :=
  call.signals.filter fun r =>
    decide (r.symbol = call.symbol ∧ r.timeframe = call.timeframe ∧ call.now ≤ r.validUntil)

/-- The greatest bucket for which an agent has a valid signal. -/
def NewestFresh (b : Time) : Prop :=
  IsGreatest {t | ∃ s ∈ call.validSignals, s.bucketTs = t} b

/-- The inputs of the decision, where there is one. -/
def decidedOn : Option DecisionInputs :=
  let votes := loadLatestPerAgent call.signals call.symbol call.timeframe (some call.now)
  (latestBucket votes).map fun bucketTs => call.inputs db votes bucketTs gate

/-- The row the ATR is read from. -/
def atrSignal : Option AgentSignal :=
  loadLatestPerAgent call.signals call.symbol call.timeframe none .technical

/-- The decision is on a bucket: on all its valid signals, and with no other ATR than its. -/
structure DecidesOn (inputs : DecisionInputs) (b : Time) : Prop where
  bucket : inputs.bucketTs = b
  fused : ∀ agent s, inputs.signals agent = some s ↔
    s ∈ call.validSignals ∧ s.agentId = agent ∧ s.bucketTs = b
  sized : ∀ s, call.atrSignal = some s → (s.features.getNumber "atr14").isSome = true →
    s.bucketTs = b

/-- What has to have been created last: each valid signal of the bucket, of those of its agent,
and no technical signal of another bucket that has an ATR. -/
structure CreatedLast (b : Time) : Prop where
  fused : ∀ s ∈ call.validSignals, s.bucketTs = b → Newest.Last AgentSignal.createdAt
    (agentRows call.signals call.symbol call.timeframe s.agentId) s
  sized : ∀ s, Newest.Last AgentSignal.createdAt
      (agentRows call.signals call.symbol call.timeframe .technical) s →
    (s.features.getNumber "atr14").isSome = true → s.bucketTs = b

variable {call db gate}

theorem wouldBe_eq (orch : OrchParams) :
    call.wouldBe orch db gate
      = (call.decidedOn db gate).bind fun inputs => computeDecision inputs orch call.risk := by
  unfold wouldBe decidedOn
  rw [Option.bind_map]
  rfl

/-- The ATR of a decision is the one of its row. -/
theorem decidedOn_atr {inputs : DecisionInputs} (h : call.decidedOn db gate = some inputs) :
    inputs.atr = call.atrSignal.bind fun s => s.features.getNumber "atr14" := by
  obtain ⟨bucketTs, -, rfl⟩ := Option.map_eq_some_iff.mp h
  rfl

/-- A report is about the bucket that was decided on. -/
theorem decidePair_bucket {orch : OrchParams} {db' : Database} {r : DecideReport}
    {inputs : DecisionInputs} (h : call.decidePair orch gate db = some (r, db'))
    (hinputs : call.decidedOn db gate = some inputs) : r.bucketTs = inputs.bucketTs := by
  obtain ⟨bucketTs, hbucket, rfl⟩ := Option.map_eq_some_iff.mp hinputs
  unfold decidePair at h
  obtain ⟨_, -, h⟩ := Option.bind_eq_some_iff.mp h
  simp only [hbucket] at h
  obtain ⟨_, -, h⟩ := Option.bind_eq_some_iff.mp h
  obtain ⟨outcome, -, h⟩ := Option.bind_eq_some_iff.mp h
  split at h
  · obtain ⟨rfl, -⟩ := Prod.mk.inj (Option.some.inj h)
    rfl
  · obtain ⟨cooled, -, h⟩ := Option.bind_eq_some_iff.mp h
    obtain ⟨written, -, h⟩ := Option.bind_eq_some_iff.mp h
    obtain ⟨_, -, h⟩ := Option.bind_eq_some_iff.mp h
    obtain ⟨rfl, -⟩ := Prod.mk.inj (Option.some.inj h)
    rfl

theorem mem_validSignals {s : AgentSignal} :
    s ∈ call.validSignals ↔ s ∈ agentRows call.signals call.symbol call.timeframe s.agentId ∧
      call.now ≤ s.validUntil := by
  simp only [validSignals, agentRows, List.mem_filter, decide_eq_true_eq, and_true, and_assoc]

/-- The vote of an agent: the row it created last, if that one is valid. -/
theorem vote_iff {agent : AgentId} {s : AgentSignal} :
    loadLatestPerAgent call.signals call.symbol call.timeframe (some call.now) agent = some s ↔
      Newest.Last AgentSignal.createdAt
        (agentRows call.signals call.symbol call.timeframe agent) s ∧ s ∈ call.validSignals ∧
        s.agentId = agent := by
  rw [loadLatestPerAgent_iff]
  refine and_congr_right fun hlast => ?_
  have hagent : s.agentId = agent := by
    have hmem := hlast.mem
    simp only [agentRows, List.mem_filter, decide_eq_true_eq] at hmem
    exact hmem.2.2.2
  rw [mem_validSignals, hagent]
  simp [hlast.mem]

/-- **When a decision is made on the newest fresh bucket**, and only on it. -/
theorem fresh_bucket_iff {b : Time} (hb : call.NewestFresh b) :
    (∃ inputs, call.decidedOn db gate = some inputs ∧ call.DecidesOn inputs b) ↔
      call.CreatedLast b := by
  have hsized : (∀ s, call.atrSignal = some s → (s.features.getNumber "atr14").isSome = true →
      s.bucketTs = b) ↔ ∀ s, Newest.Last AgentSignal.createdAt
        (agentRows call.signals call.symbol call.timeframe .technical) s →
      (s.features.getNumber "atr14").isSome = true → s.bucketTs = b := by
    unfold atrSignal
    simp only [loadLatestPerAgent_iff, Option.mem_def, reduceCtorEq, false_implies, implies_true,
      and_true]
  constructor
  · rintro ⟨inputs, hinputs, hon⟩
    refine ⟨fun s hs hbucket => ?_, hsized.mp hon.sized⟩
    obtain ⟨bucketTs, -, rfl⟩ := Option.map_eq_some_iff.mp hinputs
    have hvote := (hon.fused s.agentId s).mpr ⟨hs, rfl, hbucket⟩
    exact (vote_iff.mp (Option.filter_eq_some_iff.mp hvote).1).1
  · intro hlast
    have hbucket : latestBucket (loadLatestPerAgent call.signals call.symbol call.timeframe
        (some call.now)) = some b := by
      obtain ⟨⟨s, hs, hat⟩, hgreatest⟩ := hb
      refine latestBucket_iff.mpr ⟨⟨s.agentId, s, ?_, hat⟩, fun agent s' hs' => ?_⟩
      · exact vote_iff.mpr ⟨hlast.fused s hs hat, hs, rfl⟩
      · exact hgreatest ⟨s', (vote_iff.mp hs').2.1, rfl⟩
    refine ⟨_, Option.map_eq_some_iff.mpr ⟨b, hbucket, rfl⟩, rfl, fun agent s => ?_,
      hsized.mpr hlast.sized⟩
    show atBucket _ b agent = some s ↔ _
    unfold atBucket
    rw [Option.filter_eq_some_iff, vote_iff, decide_eq_true_eq]
    constructor
    · rintro ⟨⟨-, hvalid, hagent⟩, hat⟩
      exact ⟨hvalid, hagent, hat⟩
    · rintro ⟨hvalid, rfl, hat⟩
      exact ⟨⟨hlast.fused s hvalid hat, hvalid, rfl⟩, hat⟩

end PairCall

/-! ### A backfill

A row created later is a newer one for two of the queries, and its bucket is never asked.
-/

/-- A technical signal of an hourly bar, with an ATR. -/
def technicalAt (bucketTs createdAt : Time) : AgentSignal where
  agentId := .technical
  symbol := .eurusd
  timeframe := .H1
  direction := .long
  confidence := 1 / 2
  bucketTs := bucketTs
  features := [("atr14", .num (1 / 1000))]
  createdAt := createdAt
  validUntil := validUntilFor .technical bucketTs .H1

/-- A call a minute after the bar of one o'clock has begun. -/
def callAtOne (signals : List AgentSignal) : PairCall :=
  { longCall 1 fun _ => false with now := seconds 3660, signals := signals }

/-- The bar of midnight was analysed after the one of one o'clock. -/
def backfilled : PairCall :=
  callAtOne [technicalAt (seconds 3600) (seconds 3610), technicalAt 0 (seconds 3620)]

/-- After a backfill the decision is on the old bucket. -/
theorem backfill_decides_old : ¬ ∀ (call : PairCall) (db : Database) (gate : Option GateState)
    (b : Time), call.NewestFresh b →
      ∃ inputs, call.decidedOn db gate = some inputs ∧ call.DecidesOn inputs b := by
  intro h
  have hnewest : backfilled.NewestFresh (seconds 3600) := by
    refine ⟨⟨technicalAt (seconds 3600) (seconds 3610), List.mem_cons_self .., rfl⟩, ?_⟩
    rintro t ⟨s, hs, rfl⟩
    have hbuckets : ∀ r ∈ backfilled.validSignals, r.bucketTs ≤ seconds 3600 := by decide +kernel
    exact hbuckets s hs
  obtain ⟨inputs, hinputs, hon⟩ := h backfilled .empty none (seconds 3600) hnewest
  have hbucket : (backfilled.decidedOn .empty none).map (·.bucketTs) = some 0 := by decide +kernel
  rw [hinputs] at hbucket
  have hzero : inputs.bucketTs = 0 := Option.some.inj hbucket
  rw [hon.bucket] at hzero
  exact absurd hzero (by decide)

/-- A signal of the sentiment agent, which has no ATR. -/
def sentimentAt (bucketTs createdAt : Time) : AgentSignal :=
  { technicalAt bucketTs createdAt with
    agentId := .sentiment
    features := []
    validUntil := validUntilFor .sentiment bucketTs .H1 }

/-- Both agents on the bar of midnight, and then both on that of one o'clock. -/
def inOrder : PairCall :=
  callAtOne [technicalAt 0 (seconds 10), sentimentAt 0 (seconds 20),
    technicalAt (seconds 3600) (seconds 3610), sentimentAt (seconds 3600) (seconds 3620)]

theorem inOrder_valid : inOrder.validSignals = inOrder.signals := rfl

theorem inOrder_technical : Newest.Last AgentSignal.createdAt
    (agentRows inOrder.signals inOrder.symbol inOrder.timeframe .technical)
    (technicalAt (seconds 3600) (seconds 3610)) :=
  ⟨[technicalAt 0 (seconds 10)], [], rfl, by simp [technicalAt, seconds], by simp⟩

theorem inOrder_sentiment : Newest.Last AgentSignal.createdAt
    (agentRows inOrder.signals inOrder.symbol inOrder.timeframe .sentiment)
    (sentimentAt (seconds 3600) (seconds 3620)) :=
  ⟨[sentimentAt 0 (seconds 20)], [], rfl, by simp [sentimentAt, technicalAt, seconds], by simp⟩

/-- Analysed in order, the decision is on the new one, with both signals. -/
theorem inOrder_decides :
    ∃ inputs, inOrder.decidedOn .empty none = some inputs ∧
      inOrder.DecidesOn inputs (seconds 3600) := by
  refine (PairCall.fresh_bucket_iff ?_).mpr ⟨fun s hs hat => ?_, fun s hs _ => ?_⟩
  · refine ⟨⟨technicalAt (seconds 3600) (seconds 3610), ?_, rfl⟩, ?_⟩
    · rw [inOrder_valid]
      exact List.mem_cons_of_mem _ (List.mem_cons_of_mem _ List.mem_cons_self)
    · rintro t ⟨s, hs, rfl⟩
      have hbuckets : ∀ r ∈ inOrder.signals, r.bucketTs ≤ seconds 3600 := by decide
      exact hbuckets s (inOrder_valid ▸ hs)
  · rw [inOrder_valid] at hs
    simp only [inOrder, callAtOne, List.mem_cons, List.not_mem_nil, or_false] at hs
    rcases hs with rfl | rfl | rfl | rfl
    · exact absurd hat (by decide)
    · exact absurd hat (by decide)
    · exact inOrder_technical
    · exact inOrder_sentiment
  · obtain rfl := Option.some.inj
      (((Newest.pick_le_iff _).mpr hs).symm.trans ((Newest.pick_le_iff _).mpr inOrder_technical))
    rfl

end ForexAi
