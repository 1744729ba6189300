/-
The alert worker: one batch of `alerts.stream` into `alert_events`.

A poll reads what the group was not handed yet, saves every entry it can decode in one
transaction, commits, and then acknowledges.  Three things can fail on the way and each is
an input of the poll: the read, the saving of an entry, the commit.

A statement that fails aborts its transaction: every later statement of it fails as well,
and `COMMIT` ends it as a rollback without an error.  An exception raised before the
statement reaches the server leaves the transaction alone.  A commit that raises may have
been carried out all the same.
-/
import ForexAi.Alerts.Translate
import ForexAi.Lib.Runs
import ForexAi.Lib.Streams

namespace ForexAi

/-! ### The table -/

/-- `alert_events`: one row an `event_id`. -/
structure AlertTable where
  rows : List AlertIn
  unique : (rows.map (·.eventId)).Nodup

namespace AlertTable

/-- The table before the first alert. -/
def empty : AlertTable := ⟨[], List.nodup_nil⟩

/-- There is a row of that identifier. -/
def Has (t : AlertTable) (eventId : String) : Prop := eventId ∈ t.rows.map (·.eventId)

instance (t : AlertTable) (eventId : String) : Decidable (t.Has eventId) := by
  unfold Has
  infer_instance

/-- `save_alert`: `ON CONFLICT DO NOTHING`; whether a row was inserted, and the table. -/
def save (t : AlertTable) (a : AlertIn) : Bool × AlertTable :=
  if h : t.Has a.eventId then (false, t)
  else (true,
    { rows := t.rows ++ [a]
      unique := by
        rw [List.map_append]
        refine List.nodup_append.mpr ⟨t.unique, by simp, ?_⟩
        intro x hx y hy heq
        rw [List.map_singleton, List.mem_singleton] at hy
        exact h (hy ▸ heq ▸ hx) })

theorem has_save {t : AlertTable} {a : AlertIn} {eventId : String} :
    (t.save a).2.Has eventId ↔ t.Has eventId ∨ a.eventId = eventId := by
  unfold save
  by_cases h : t.Has a.eventId
  · rw [dif_pos h]
    exact ⟨Or.inl, fun hor => hor.elim id fun heq => heq ▸ h⟩
  · rw [dif_neg h]
    unfold Has
    rw [List.map_append, List.mem_append]
    exact or_congr_right (by rw [List.map_singleton, List.mem_singleton, eq_comm])

theorem mem_save {t : AlertTable} {a row : AlertIn} (h : row ∈ (t.save a).2.rows) :
    row ∈ t.rows ∨ row = a := by
  unfold save at h
  by_cases hdup : t.Has a.eventId
  · rw [dif_pos hdup] at h
    exact Or.inl h
  · rw [dif_neg hdup] at h
    exact (List.mem_append.mp h).imp id List.mem_singleton.mp

/-- Saving an alert again changes nothing. -/
theorem save_again {t : AlertTable} {a : AlertIn} (h : t.Has a.eventId) :
    t.save a = (false, t) := by
  unfold save
  rw [dif_pos h]

end AlertTable

/-! ### One poll -/

/-- How saving an entry can fail. -/
inductive SaveFault where
  /-- Before the statement reaches the server. -/
  | raised
  /-- At the server. -/
  | statement
  deriving DecidableEq

/-- How the commit can end. -/
inductive CommitFate where
  | done
  /-- It raises and nothing is stored. -/
  | lost
  /-- It raises though everything is stored. -/
  | unheard
  deriving DecidableEq

/-- The commit takes effect. -/
def CommitFate.durable : CommitFate → Bool
  | .lost => false
  | _ => true

/-- What a poll meets: how much it asks for and what fails, entry by entry. -/
structure Poll where
  count : ℕ := 100
  readFails : Bool := false
  saveFault : ℕ → Option SaveFault := fun _ => none
  commit : CommitFate := .done
  ackFails : ℕ → Bool := fun _ => false

/-- `AlertBatchResult`. -/
structure AlertBatchResult where
  processed : ℕ := 0
  replayed : ℕ := 0
  errors : ℕ := 0
  inserted : List (String × ℕ) := []

/-- `inserted[src] = inserted.get(src, 0) + 1`. -/
def bump (counts : List (String × ℕ)) (src : String) : List (String × ℕ) :=
  match counts with
  | [] => [(src, 1)]
  | (key, n) :: rest => if key = src then (key, n + 1) :: rest else (key, n) :: bump rest src

/-- A stream entry: its identifier and its event, `none` where `_decode_event` gives none. -/
abbrev AlertEntry := ℕ × Option Event

/-- The stream, its group, and the table. -/
structure AlertBus where
  stream : LogStream (Option Event)
  group : ConsumerGroup
  table : AlertTable

/-- A pass over a batch: what the transaction sees, whether it is aborted, the counters and
the entries to acknowledge. -/
structure AlertPass where
  table : AlertTable
  aborted : Bool
  result : AlertBatchResult
  acks : List ℕ

/-- The handler of an exception: count it, and acknowledge the entry. -/
def AlertPass.failed (st : AlertPass) (id : ℕ) (aborted : Bool) : AlertPass :=
  { st with
    aborted := aborted
    result := { st.result with errors := st.result.errors + 1 }
    acks := st.acks ++ [id] }

namespace AlertWorker

variable (sha256 : String → String)

/-- The alert of an event. -/
def alertOf (e : Event) : AlertIn := translate sha256 e (orElse e.producer "monitor")

/-- The insert of an entry fails at the server: by a fault, or because the row does not fit. -/
def Aborts (p : Poll) (entry : AlertEntry) : Prop :=
  ∃ e, entry.2 = some e ∧ (p.saveFault entry.1 = some .statement ∨
    p.saveFault entry.1 = none ∧ ¬ (alertOf sha256 e).Storable)

/-- One entry of the batch. -/
def handle (p : Poll) (st : AlertPass) (entry : AlertEntry) : AlertPass :=
  match entry.2 with
  | none =>
      { st with
        result := { st.result with replayed := st.result.replayed + 1 }
        acks := st.acks ++ [entry.1] }
  | some e =>
      let alert := alertOf sha256 e
      match p.saveFault entry.1 with
      | some .raised => st.failed entry.1 st.aborted
      | some .statement => st.failed entry.1 true
      | none =>
          if st.aborted ∨ ¬ alert.Storable then st.failed entry.1 true
          else
            let (inserted, table) := st.table.save alert
            let src := orElse alert.source "unknown"
            let counted := { st.result with inserted := bump st.result.inserted src }
            { st with
              table := table
              result :=
                if inserted then { counted with processed := counted.processed + 1 }
                else { counted with replayed := counted.replayed + 1 }
              acks := st.acks ++ [entry.1] }

/-- What a poll is handed: nothing when the read raises, as it does without a positive count. -/
def handed (w : AlertBus) (p : Poll) : List AlertEntry :=
  if p.readFails ∨ p.count = 0 then [] else w.stream.readNew w.group p.count

/-- The pass over what a poll is handed. -/
def passOver (w : AlertBus) (p : Poll) : AlertPass :=
  (handed w p).foldl (handle sha256 p) ⟨w.table, false, {}, []⟩

/-- `poll_once`; no result where the exception of the commit escapes. -/
def pollOnce (w : AlertBus) (p : Poll) : Option AlertBatchResult × AlertBus :=
  match handed w p with
  | [] => (some {}, w)
  | batch =>
      let st := passOver sha256 w p
      let group := w.group.deliver batch
      let stored := if st.aborted then w.table else st.table
      match p.commit with
      | .done =>
          (some st.result,
            { w with
              table := stored
              group := group.ack (st.acks.filter fun id => !p.ackFails id) })
      | .lost => (none, { w with group })
      | .unheard => (none, { w with table := stored, group })

/-- What happens on the stream: a producer appends, the worker polls. -/
inductive Step where
  | publish (trimmed : ℕ) (entry : Option Event)
  | poll (p : Poll)

/-- One step. -/
def step (w : AlertBus) : Step → AlertBus
  | .publish trimmed entry => { w with stream := w.stream.add trimmed entry }
  | .poll p => (pollOnce sha256 w p).2

end AlertWorker

end ForexAi
