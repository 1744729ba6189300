/-
The alerts as the API shows them: the listing and the acknowledgements.

The worker's rows get an identifier of their own here, and who acknowledged them when.  An
acknowledgement is one update of the rows that are still open, then the row is looked up and an
entry goes to the audit log with what the row says.  A request that finds no row raises, and
nothing of it is kept.

Identifiers are random numbers; one that is taken already makes the insert fail.
-/
import ForexAi.Alerts.Worker
import Mathlib.Data.List.Sort

namespace ForexAi

/-- A row of `alert_events`. -/
structure DeskRow where
  id : ℕ
  alert : AlertIn
  acknowledged : Option (Time × String) := none

/-- An `alert.acknowledged` row of the audit log. -/
structure AlertAudit where
  actor : String
  entityId : String
  acknowledgedAt : Option Time
  deriving DecidableEq

/-- `alert_events`: one row an `event_id` and one an `id`; and the log. -/
structure AlertDesk where
  rows : List DeskRow
  audit : List AlertAudit
  uniqueEvent : (rows.map (·.alert.eventId)).Nodup
  uniqueId : (rows.map (·.id)).Nodup

namespace AlertDesk

def empty : AlertDesk := ⟨[], [], List.nodup_nil, List.nodup_nil⟩

/-- The alerts without what the desk adds. -/
def table (t : AlertDesk) : AlertTable where
  rows := t.rows.map (·.alert)
  unique := by
    rw [List.map_map]
    exact t.uniqueEvent

/-- `get_alert`. -/
def get (t : AlertDesk) (eventId : String) : Option DeskRow :=
  t.rows.find? fun r => r.alert.eventId = eventId

/-- `save_alert` under a new identifier; `none` where the identifier is taken. -/
def save (t : AlertDesk) (id : ℕ) (a : AlertIn) : Option (Bool × AlertDesk) :=
  if hevent : a.eventId ∈ t.rows.map (·.alert.eventId) then some (false, t)
  else if hid : id ∈ t.rows.map (·.id) then none
  else some (true,
    { rows := t.rows ++ [⟨id, a, none⟩]
      audit := t.audit
      uniqueEvent := by
        rw [List.map_append, List.map_singleton, ← List.concat_eq_append]
        exact t.uniqueEvent.concat hevent
      uniqueId := by
        rw [List.map_append, List.map_singleton, ← List.concat_eq_append]
        exact t.uniqueId.concat hid })

/-- What `ack_alert` makes of a row. -/
def ackRow (eventId acknowledgedBy : String) (at' : Time) (r : DeskRow) : DeskRow :=
  if r.alert.eventId = eventId ∧ r.acknowledged = none then
    { r with acknowledged := some (at', acknowledgedBy) }
  else r

@[simp] theorem ackRow_alert (eventId acknowledgedBy : String) (at' : Time) (r : DeskRow) :
    (ackRow eventId acknowledgedBy at' r).alert = r.alert := by
  unfold ackRow
  split_ifs <;> rfl

@[simp] theorem ackRow_id (eventId acknowledgedBy : String) (at' : Time) (r : DeskRow) :
    (ackRow eventId acknowledgedBy at' r).id = r.id := by
  unfold ackRow
  split_ifs <;> rfl

/-- `ack_alert`: the rows that are still open under the identifier are closed. -/
def ackAlert (t : AlertDesk) (eventId acknowledgedBy : String) (at' : Time) : AlertDesk where
  rows := t.rows.map (ackRow eventId acknowledgedBy at')
  audit := t.audit
  uniqueEvent := by
    have halert : (t.rows.map (ackRow eventId acknowledgedBy at')).map (·.alert.eventId) =
        t.rows.map (·.alert.eventId) := by simp [List.map_map, Function.comp_def]
    rw [halert]
    exact t.uniqueEvent
  uniqueId := by
    have hid : (t.rows.map (ackRow eventId acknowledgedBy at')).map (·.id) =
        t.rows.map (·.id) := by simp [List.map_map, Function.comp_def]
    rw [hid]
    exact t.uniqueId

/-- `count_pending`. -/
def countPending (t : AlertDesk) : ℕ := (t.rows.filter fun r => r.acknowledged.isNone).length

/-- The order of the listing: newest first, and by identifier among equals. -/
def Before (a b : DeskRow) : Prop :=
  b.alert.occurredAt < a.alert.occurredAt ∨
    (b.alert.occurredAt = a.alert.occurredAt ∧ b.id ≤ a.id)

instance : DecidableRel Before := fun a b => by
  unfold Before
  infer_instance

/-- The filters of the listing; a text that is empty filters nothing. -/
structure ListingFilter where
  source : Option String := none
  eventType : Option String := none
  acknowledged : Option Bool := none

/-- The row passes the filters. -/
def ListingFilter.passes (f : ListingFilter) (r : DeskRow) : Bool :=
  (f.source.all fun s => s = "" || r.alert.source = s) &&
    (f.eventType.all fun s => s = "" || r.alert.eventType = s) &&
    f.acknowledged.all fun wanted => r.acknowledged.isSome = wanted

/-- Every row that passes, in the order of the listing. -/
def listing (t : AlertDesk) (f : ListingFilter) : List DeskRow :=
  (t.rows.filter f.passes).insertionSort Before

/-- `list_alerts`. -/
def listAlerts (t : AlertDesk) (f : ListingFilter) (limit offset : ℕ) : List DeskRow :=
  ((t.listing f).drop offset).take limit

/-- `read_alerts`: the page, or the error. -/
def readAlerts (t : AlertDesk) (f : ListingFilter) (limit offset : ℤ) :
    Except String (List DeskRow) :=
  if limit < 1 ∨ 500 < limit then .error "limit must be between 1 and 500"
  else if offset < 0 then .error "offset must be non-negative"
  else .ok (t.listAlerts f limit.toNat offset.toNat)

/-- `acknowledge_alert` by an admin: the row as it is answered, and the desk after it; `repr`
quotes a text. -/
def acknowledge (repr : String → String) (t : AlertDesk) (eventId admin : String) (at' : Time) :
    Except String DeskRow × AlertDesk :=
  match (t.ackAlert eventId admin at').get eventId with
  | none => (.error ("alert " ++ repr eventId ++ " not found"), t)
  | some row =>
      (.ok row, { t.ackAlert eventId admin at' with
        audit := t.audit ++ [⟨admin, eventId, row.acknowledged.map Prod.fst⟩] })

/-- What may happen at the desk. -/
inductive DeskEvent where
  | save (id : ℕ) (a : AlertIn)
  | acknowledge (eventId admin : String) (at' : Time)

/-- One event; an insert that fails leaves the desk as it is. -/
def step (repr : String → String) (t : AlertDesk) : DeskEvent → AlertDesk
  | .save id a => ((t.save id a).map Prod.snd).getD t
  | .acknowledge eventId admin at' => (acknowledge repr t eventId admin at').2

end AlertDesk

end ForexAi
