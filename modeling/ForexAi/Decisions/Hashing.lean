/-
The hash over what a decision consumed.

`inputs_hash` writes the identity set of a decision as JSON with its keys in order and takes
the digest.  Two decisions have the same text exactly when they have the same symbol, series
and bucket, the same version of each agent and the same weights to six places
(`hashedText_eq_iff`); in which order the agents voted makes no difference.

The argument reads the text back.  A dictionary is written sorted, so what is read is its
entries in the order of their keys, and these say which entries it has.
-/
import ForexAi.Data.Content
import ForexAi.Lib.Json

namespace ForexAi

open Json (Value Distinct DistinctFields)

/-- The arguments of `inputs_hash`; the keys of a dictionary are distinct. -/
structure HashInputs (N : Type) where
  symbol : String
  timeframe : String
  bucketTs : String
  agentVersions : List (String × String)
  weights : List (String × N)
  agents_nodup : (agentVersions.map Prod.fst).Nodup
  weighted_nodup : (weights.map Prod.fst).Nodup

namespace HashInputs

section

variable [PyText] {N : Type} (fmt : Json.NumberFormat N) (round : N → N)

/-- The agents' versions as a JSON object. -/
def versions (a : HashInputs N) : List (String × Value N) :=
  ByKey.sort (a.agentVersions.map fun e => (e.1, .str e.2))

/-- The weights as a JSON object, to six places; `round` stands for `round(…, 6)`. -/
def rounded (a : HashInputs N) : List (String × Value N) :=
  ByKey.sort (a.weights.map fun e => (e.1, .num (round e.2)))

/-- `payload` of `inputs_hash`. -/
def payload (a : HashInputs N) : Value N :=
  .obj [("symbol", .str (PyText.upper a.symbol)), ("timeframe", .str (PyText.upper a.timeframe)),
    ("bucket_ts", .str a.bucketTs), ("agent_versions", .obj a.versions),
    ("weights", .obj (a.rounded round))]

/-- The text whose digest is taken. -/
def hashedText (a : HashInputs N) : String := Json.dumps fmt false (Json.sortKeys (a.payload round))

/-- `inputs_hash`. -/
def inputsHash (a : HashInputs N) : String := PyText.sha256 (a.hashedText fmt round)

/-- The same identity set: what `inputs_hash` is to tell apart. -/
structure SameIdentity (a b : HashInputs N) : Prop where
  symbol : PyText.upper a.symbol = PyText.upper b.symbol
  timeframe : PyText.upper a.timeframe = PyText.upper b.timeframe
  bucketTs : a.bucketTs = b.bucketTs
  agentVersions : a.agentVersions.Perm b.agentVersions
  weights : (a.weights.map fun e => (e.1, round e.2)).Perm
    (b.weights.map fun e => (e.1, round e.2))

/-! ### The text -/

omit [PyText] in
theorem sortKeys_sorted {V : Type} (leaf : V → Value N)
    (hleaf : ∀ v, Json.sortKeys (leaf v) = leaf v) {fs : List (String × V)}
    (h : (fs.map Prod.fst).Nodup) :
    Json.sortKeys (.obj (ByKey.sort (fs.map fun e => (e.1, leaf e.2)))) =
      .obj (ByKey.sort (fs.map fun e => (e.1, leaf e.2))) := by
  show Value.obj (ByKey.sort (Json.sortFields _)) = _
  rw [ByKey.sort_map leaf h, Json.sortFields_leaves hleaf, ← ByKey.sort_map leaf h,
    ByKey.sort_sort (by rw [ByKey.map_fst]; exact h)]

/-- What is written: the five fields in the order of their names. -/
theorem sortKeys_payload (a : HashInputs N) :
    Json.sortKeys (a.payload round) =
      .obj [("agent_versions", .obj a.versions), ("bucket_ts", .str a.bucketTs),
        ("symbol", .str (PyText.upper a.symbol)), ("timeframe", .str (PyText.upper a.timeframe)),
        ("weights", .obj (a.rounded round))] := by
  have hversions : Json.sortKeys (.obj a.versions : Value N) = .obj a.versions :=
    sortKeys_sorted _ (fun _ => rfl) a.agents_nodup
  have hrounded : Json.sortKeys (.obj (a.rounded round)) = .obj (a.rounded round) :=
    sortKeys_sorted (fun n => .num (round n)) (fun _ => rfl) a.weighted_nodup
  show Value.obj (ByKey.sort [("symbol", Value.str (PyText.upper a.symbol)),
    ("timeframe", .str (PyText.upper a.timeframe)), ("bucket_ts", .str a.bucketTs),
    ("agent_versions", Json.sortKeys (.obj a.versions)),
    ("weights", Json.sortKeys (.obj (a.rounded round)))]) = _
  rw [hversions, hrounded]
  refine congrArg _ (ByKey.eq_of_perm (by simp) (ByKey.pairwise_sort _) ?_
    ((ByKey.perm_sort _).trans ?_))
  · simp only [List.pairwise_cons, List.mem_cons, List.not_mem_nil, or_false, forall_eq_or_imp,
      forall_eq, List.Pairwise.nil, and_true, IsEmpty.forall_iff, implies_true]
    decide
  -- The versions go to the front, then the bucket goes before the symbol.
  · exact (@List.perm_middle _ _ [_, _, _] _).trans ((@List.perm_middle _ _ [_, _] _).cons _)

omit [PyText] in
/-- What is written has distinct keys throughout. -/
theorem distinct_leaves {V : Type} (leaf : V → Value N) (hleaf : ∀ v, Distinct (leaf v))
    {fs : List (String × V)} (h : (fs.map Prod.fst).Nodup) :
    Distinct (.obj (ByKey.sort (fs.map fun e => (e.1, leaf e.2)))) := by
  have hfields : ∀ gs : List (String × V), DistinctFields (gs.map fun e => (e.1, leaf e.2)) := by
    intro gs
    induction gs with
    | nil => trivial
    | cons e rest ih => exact ⟨hleaf e.2, ih⟩
  refine ⟨ByKey.nodup_sort (by rw [ByKey.map_fst]; exact h), ?_⟩
  rw [ByKey.sort_map leaf h]
  exact hfields _

theorem distinct_payload (a : HashInputs N) : Distinct (Json.sortKeys (a.payload round)) := by
  rw [sortKeys_payload]
  refine ⟨by simp, ?_⟩
  exact ⟨distinct_leaves Value.str (fun _ => trivial) a.agents_nodup, trivial, trivial, trivial,
    distinct_leaves (fun n => .num (round n)) (fun _ => trivial) a.weighted_nodup, trivial⟩

omit [PyText] in
theorem versions_eq_iff (a b : HashInputs N) :
    a.versions = b.versions ↔ a.agentVersions.Perm b.agentVersions := by
  unfold versions
  rw [ByKey.sort_eq_iff (by rw [ByKey.map_fst]; exact b.agents_nodup)]
  refine List.map_perm_map_iff ?_
  intro e f h
  simpa [Prod.ext_iff] using h

omit [PyText] in
theorem rounded_eq_iff (a b : HashInputs N) :
    a.rounded round = b.rounded round ↔
      (a.weights.map fun e => (e.1, round e.2)).Perm (b.weights.map fun e => (e.1, round e.2)) := by
  have hnum : ∀ c : HashInputs N, (c.weights.map fun e => (e.1, (.num (round e.2) : Value N))) =
      (c.weights.map fun e => (e.1, round e.2)).map fun e => (e.1, .num e.2) := by
    intro c
    rw [List.map_map]
    rfl
  unfold rounded
  rw [ByKey.sort_eq_iff (by rw [hnum b, ByKey.map_fst, ByKey.map_fst]; exact b.weighted_nodup),
    hnum a, hnum b]
  refine List.map_perm_map_iff ?_
  intro e f h
  simpa [Prod.ext_iff] using h

/-- **The text that is hashed says what the identity set is, and nothing else**: it is the same
for two decisions exactly when they have the same identity set. -/
theorem hashedText_eq_iff (a b : HashInputs N) :
    a.hashedText fmt round = b.hashedText fmt round ↔ SameIdentity round a b := by
  have htext : a.hashedText fmt round = b.hashedText fmt round ↔
      Json.sortKeys (a.payload round) = Json.sortKeys (b.payload round) := by
    constructor
    · exact Json.dumps_injective fmt false (distinct_payload round a) (distinct_payload round b)
    · exact congrArg (Json.dumps fmt false)
  rw [htext, sortKeys_payload, sortKeys_payload]
  constructor
  · intro h
    simp only [Value.obj.injEq, List.cons.injEq, Prod.mk.injEq, Value.str.injEq, true_and,
      and_true] at h
    obtain ⟨hversions, hbucket, hsymbol, htimeframe, hweights⟩ := h
    exact ⟨hsymbol, htimeframe, hbucket, (versions_eq_iff a b).mp hversions,
      (rounded_eq_iff round a b).mp hweights⟩
  · intro h
    rw [(versions_eq_iff a b).mpr h.agentVersions, (rounded_eq_iff round a b).mpr h.weights,
      h.symbol, h.timeframe, h.bucketTs]

end

end HashInputs

end ForexAi
