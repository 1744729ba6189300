/-
News items, and what their keys are made of.

A stamp enters as it was written and is moved to the host's zone when the item is built; the
keys of news and of events then print it there.  `HostZone.text` is the text library of a host.
-/
import ForexAi.Data.Content
import ForexAi.Data.HostZone
import ForexAi.Lib.Joined

namespace ForexAi

/-- One normalized story. -/
structure NormalizedNewsItem where
  provider : String
  headline : String
  publishedUtc : Time
  url : Option String := none
  summary : Option String := none
  symbols : List String := []
  externalId : Option String := none

/-- `NormalizedNewsItem.__post_init__`, for a stamp as it was written. -/
def NormalizedNewsItem.postInit (z : HostZone) (item : NormalizedNewsItem) (published : Datetime) :
    Except String NormalizedNewsItem := do
  let publishedUtc ← ensureUtc z published "published_utc"
  pure { item with publishedUtc }

/-- `NormalizedEconomicEvent.__post_init__`; the importance is one of the levels by its type. -/
def NormalizedEconomicEvent.postInit (z : HostZone) (e : NormalizedEconomicEvent)
    (timestamp : Datetime) : Except String NormalizedEconomicEvent := do
  let timestampUtc ← ensureUtc z timestamp "timestamp_utc"
  pure { e with timestampUtc }

/-- What is made of a stamp that `ensure_utc` lets through. -/
theorem ensureUtc_then {α : Type} {z : HostZone} {ts : Datetime} {what : String} {f : Time → α}
    {a : α} (h : (do let t ← ensureUtc z ts what; pure (f t)) = Except.ok a) :
    ∃ t, Representable (z.wall t) ∧ f t = a := by
  cases hstamp : ensureUtc z ts what with
  | error text =>
      rw [hstamp] at h
      exact absurd h (by simp [bind, Except.bind])
  | ok t =>
      rw [hstamp] at h
      exact ⟨t, (ensureUtc_ok hstamp).2, Except.ok.inj h⟩

theorem NormalizedNewsItem.postInit_ok {z : HostZone} {item a : NormalizedNewsItem}
    {published : Datetime} (h : item.postInit z published = .ok a) :
    Representable (z.wall a.publishedUtc) := by
  obtain ⟨t, hwall, rfl⟩ := ensureUtc_then h
  exact hwall

theorem NormalizedEconomicEvent.postInit_ok {z : HostZone} {e a : NormalizedEconomicEvent}
    {timestamp : Datetime} (h : e.postInit z timestamp = .ok a) :
    Representable (z.wall a.timestampUtc) := by
  obtain ⟨t, hwall, rfl⟩ := ensureUtc_then h
  exact hwall

section Keys

variable [PyText]

/-- `news_item_hash`. -/
def newsItemHash (item : NormalizedNewsItem) : String :=
  let headline := PyText.lower (PyText.strip item.headline)
  let url := PyText.lower (PyText.strip (item.url.getD ""))
  let ts := PyText.isoformat item.publishedUtc
  hashCanonical ["news", PyText.lower item.provider, item.externalId.getD "", url, headline, ts]

/-- The text library with another way to print stamps. -/
@[reducible] def PyText.printing (isoformat : Time → String) : PyText :=
  { ‹PyText› with isoformat }

/-- The text library of a host: stamps print in its zone. -/
@[reducible] def HostZone.text (z : HostZone) : PyText := PyText.printing z.isoformat

/-- `news_item_hash` on a host. -/
def HostZone.newsItemHash (z : HostZone) (item : NormalizedNewsItem) : String :=
  @ForexAi.newsItemHash z.text item

/-- `calendar_dedup_key` on a host. -/
def HostZone.calendarDedupKey (z : HostZone) (e : NormalizedEconomicEvent) : String :=
  @ForexAi.calendarDedupKey z.text e

/-! ### What the keys are for -/

/-- Two items are the same record: their normalized fields and the instants agree. -/
structure NormalizedNewsItem.SameNews (a b : NormalizedNewsItem) : Prop where
  provider : PyText.lower a.provider = PyText.lower b.provider
  externalId : a.externalId.getD "" = b.externalId.getD ""
  url : PyText.lower (PyText.strip (a.url.getD "")) = PyText.lower (PyText.strip (b.url.getD ""))
  headline : PyText.lower (PyText.strip a.headline) = PyText.lower (PyText.strip b.headline)
  publishedUtc : a.publishedUtc = b.publishedUtc

/-- The provider's identifier, if there is one. -/
def NormalizedEconomicEvent.extId (e : NormalizedEconomicEvent) : Option String :=
  e.externalId.filter fun id => decide (id ≠ "")

/-- Two events are the same record: one provider has one identifier for them, or has none and
the fields that identify an event and the instants agree. -/
def NormalizedEconomicEvent.SameIdentity (a b : NormalizedEconomicEvent) : Prop :=
  PyText.lower a.provider = PyText.lower b.provider ∧ a.extId = b.extId ∧
    (a.extId = none → PyText.lower (PyText.strip a.title) = PyText.lower (PyText.strip b.title) ∧
      a.timestampUtc = b.timestampUtc ∧ PyText.upper a.currency = PyText.upper b.currency)

/-- The texts a key of news is made of. -/
def HostZone.newsParts (z : HostZone) (item : NormalizedNewsItem) : List String :=
  ["news", PyText.lower item.provider, item.externalId.getD "",
    PyText.lower (PyText.strip (item.url.getD "")), PyText.lower (PyText.strip item.headline),
    z.isoformat item.publishedUtc]

/-- The texts a key of an event is made of. -/
def HostZone.eventParts (z : HostZone) (e : NormalizedEconomicEvent) : List String :=
  match e.extId with
  | some id => ["ext", PyText.lower e.provider, id]
  | none => ["fields", PyText.lower e.provider, PyText.lower (PyText.strip e.title),
      z.isoformat e.timestampUtc, PyText.upper e.currency]

theorem newsItemHash_printing (isoformat : Time → String) (item : NormalizedNewsItem) :
    @newsItemHash (PyText.printing isoformat) item = hashCanonical
      ["news", PyText.lower item.provider, item.externalId.getD "",
        PyText.lower (PyText.strip (item.url.getD "")), PyText.lower (PyText.strip item.headline),
        isoformat item.publishedUtc] := rfl

theorem calendarDedupKey_printing (isoformat : Time → String) (e : NormalizedEconomicEvent) :
    @calendarDedupKey (PyText.printing isoformat) e = hashCanonical
      (match e.extId with
        | some id => ["ext", PyText.lower e.provider, id]
        | none => ["fields", PyText.lower e.provider, PyText.lower (PyText.strip e.title),
            isoformat e.timestampUtc, PyText.upper e.currency]) := by
  unfold calendarDedupKey NormalizedEconomicEvent.extId
  cases e.externalId.filter fun id => decide (id ≠ "") with
  | some id => rfl
  | none => rfl

theorem HostZone.newsItemHash_eq (z : HostZone) (item : NormalizedNewsItem) :
    z.newsItemHash item = hashCanonical (z.newsParts item) :=
  newsItemHash_printing z.isoformat item

theorem HostZone.calendarDedupKey_eq (z : HostZone) (e : NormalizedEconomicEvent) :
    z.calendarDedupKey e = hashCanonical (z.eventParts e) :=
  calendarDedupKey_printing z.isoformat e

end Keys

end ForexAi
