/-
The frame of a live event, and the identifier in it.

`_event_frame` completes the payload: what is missing it fills in, the identifier from the
digest the alerts worker stores the row under.  What is there already stays, and so does an
`event_id` the payload came with, which the digest would have printed, cut or replaced by
a hash (`live_identity_iff`).
-/
import ForexAi.Alerts.Translate

namespace ForexAi

namespace Payload

/-- `payload.setdefault(key, value)`. -/
def setDefault (p : Payload) (key : String) (value : PayloadValue) : Payload :=
  if (p.lookup key).isSome then p else p ++ [(key, value)]

/-- `payload[key] = value`. -/
def put (p : Payload) (key : String) (value : PayloadValue) : Payload :=
  if (p.lookup key).isSome then p.map fun e => if e.1 = key then (key, value) else e
  else p ++ [(key, value)]

theorem lookup_concat (p : Payload) (key other : String) (value : PayloadValue) :
    List.lookup other (p ++ [(key, value)])
      = (p.lookup other).or (if other = key then some value else none) := by
  induction p with
  | nil =>
      by_cases h : other = key
      · simp [h]
      · have hne : (other == key) = false := by simpa using h
        rw [List.nil_append, List.lookup_cons, hne, if_neg h]
        rfl
  | cons e rest ih =>
      rw [List.cons_append, List.lookup_cons, List.lookup_cons, ih]
      cases other == e.1
      · rfl
      · rfl

theorem lookup_setDefault_self (p : Payload) (key : String) (value : PayloadValue) :
    (p.setDefault key value).lookup key = some ((p.lookup key).getD value) := by
  unfold setDefault
  by_cases h : (p.lookup key).isSome = true
  · rw [if_pos h]
    obtain ⟨found, hfound⟩ := Option.isSome_iff_exists.mp h
    rw [hfound, Option.getD_some]
  · rw [if_neg h, lookup_concat]
    have hnone : p.lookup key = none := Option.not_isSome_iff_eq_none.mp h
    simp [hnone]

theorem lookup_setDefault_ne (p : Payload) {key other : String} (value : PayloadValue)
    (h : other ≠ key) : (p.setDefault key value).lookup other = p.lookup other := by
  unfold setDefault
  by_cases hkey : (p.lookup key).isSome = true
  · rw [if_pos hkey]
  · rw [if_neg hkey, lookup_concat, if_neg h, Option.or_none]

theorem lookup_put_ne (p : Payload) {key other : String} (value : PayloadValue)
    (h : other ≠ key) : (p.put key value).lookup other = p.lookup other := by
  unfold put
  by_cases hkey : (p.lookup key).isSome = true
  · rw [if_pos hkey]
    clear hkey
    induction p with
    | nil => rfl
    | cons e rest ih =>
        by_cases he : e.1 = key
        · have hne : (other == key) = false := by simpa using h
          have hne' : (other == e.1) = false := by rw [he]; exact hne
          rw [List.map_cons, if_pos he, List.lookup_cons, hne, List.lookup_cons, hne']
          exact ih
        · rw [List.map_cons, if_neg he, List.lookup_cons, List.lookup_cons, ih]
  · rw [if_neg hkey, lookup_concat, if_neg h, Option.or_none]

end Payload

/-! ### The frame -/

/-- A frame of the socket, `{"type": "event", …}`. -/
structure EventFrame where
  topic : String
  data : Payload

variable (sha256 : String → String)

/-- `_event_frame`. -/
def eventFrame (topic : String) (e : Event) : EventFrame where
  topic := topic
  data :=
    (((e.payload.setDefault "event_type" (.text e.eventType)).setDefault "produced_at"
        -- The `datetime` itself; the last line overwrites it.
        (.other (isoformat e.producedAt) false)).setDefault "event_id"
        (.text (digestEventId sha256 e))).put "produced_at" (.text (isoformat e.producedAt))

/-- The identifier of a frame is the payload's where it has one, else the digest. -/
theorem eventFrame_id (topic : String) (e : Event) :
    (eventFrame sha256 topic e).data.get "event_id"
      = (e.payload.lookup "event_id").getD (.text (digestEventId sha256 e)) := by
  unfold eventFrame Payload.get
  rw [Payload.lookup_put_ne _ _ (by decide), Payload.lookup_setDefault_self,
    Payload.lookup_setDefault_ne _ _ (by decide), Payload.lookup_setDefault_ne _ _ (by decide),
    Option.getD_some]

/-! ### One identifier, live and stored -/

/-- The frame of an alert and the row it is stored as carry one identifier. -/
def SameIdentity (topic defaultSource : String) (e : Event) : Prop :=
  (eventFrame sha256 topic e).data.get "event_id"
    = .text (translate sha256 e defaultSource).eventId

/-- The payload names no identifier, or one the column takes as it is. -/
def PlainIdentity (p : Payload) : Prop :=
  p.lookup "event_id" = none ∨
    ∃ s, p.lookup "event_id" = some (.text s) ∧ s ≠ "" ∧ s.length ≤ 64

variable {sha256}

/-- An identifier that is cut is not the one that was given. -/
theorem truncate_eq_self_iff (s : String) {length : ℕ} (h : 0 < length) :
    truncate s length = s ↔ s.length ≤ length := by
  refine ⟨fun hself => ?_, fun hshort => if_pos hshort⟩
  rw [← hself]
  exact length_truncate s h

/-- The digest of an alert that names a text is that text, printed and cut. -/
theorem digestEventId_text {e : Event} {s : String}
    (h : e.payload.lookup "event_id" = some (.text s)) :
    digestEventId sha256 e = if s = "" then clip (sha256 e.material) 32 else truncate s 64 := by
  have hfield : e.payload.field "event_id" = s := by
    unfold Payload.field Payload.get
    rw [h]
    rfl
  unfold digestEventId
  rw [hfield]
  by_cases hempty : s = ""
  · simp [hempty]
  · simp [hempty]

/-- **When an alert goes by one identifier, live and stored**: its payload names none, or a
text that is neither empty nor longer than the column. -/
theorem live_identity_iff (hsha : ∀ material, (sha256 material).length = 64)
    (topic defaultSource : String) (e : Event) :
    SameIdentity sha256 topic defaultSource e ↔ PlainIdentity e.payload := by
  unfold SameIdentity PlainIdentity
  rw [eventFrame_id, translate_eventId]
  cases hgiven : e.payload.lookup "event_id" with
  | none => simp
  | some value =>
      rw [Option.getD_some]
      by_cases htext : ∃ s, value = .text s
      · obtain ⟨s, rfl⟩ := htext
        rw [digestEventId_text hgiven]
        by_cases hempty : s = ""
        · -- The digest of an empty text is a hash, and no hash is empty.
          have hclip : clip (sha256 e.material) 32 ≠ "" := by
            intro hnil
            have hlength := congrArg String.length hnil
            unfold clip at hlength
            rw [String.length_ofList, List.length_take, String.length_toList, hsha] at hlength
            exact absurd hlength (by decide)
          rw [if_pos hempty]
          simp [hempty, Ne.symm hclip]
        · rw [if_neg hempty]
          simp only [PayloadValue.text.injEq, reduceCtorEq, Option.some.injEq, false_or]
          rw [eq_comm, truncate_eq_self_iff s (by decide)]
          simp [hempty]
      · refine iff_of_false (fun heq => htext ⟨_, heq⟩) ?_
        rintro (hnone | ⟨s, hs, -⟩)
        · exact absurd hnone (by simp)
        · exact htext ⟨s, Option.some.inj hs⟩

/-- An alert of the system. -/
def systemAlert (payload : Payload) : Event where
  eventType := "alert.system"
  payload := payload
  producer := "monitor"
  producedAt := 0

/-- The hash of the system's alert without fields. -/
def systemSha (_ : String) : String :=
  "9250d5f2b723db05235197071f122ce49f9dbc278f28f563e7ba756b1771d4e7"

theorem length_systemSha (material : String) : (systemSha material).length = 64 := by
  unfold systemSha
  decide +kernel

/-- An alert that names no identifier goes by its hash, live and stored. -/
theorem hashed_identity : SameIdentity systemSha "alerts" "monitor" (systemAlert []) :=
  (live_identity_iff length_systemSha "alerts" "monitor" (systemAlert [])).mpr
    (Or.inl rfl)

/-- An alert that names sixty-five letters goes by these live and is cut in the table. -/
theorem cut_identity : ¬ ∀ (sha256 : String → String) (topic defaultSource : String)
    (e : Event), (∀ material, (sha256 material).length = 64) →
      SameIdentity sha256 topic defaultSource e := by
  intro h
  have hsame := h systemSha "alerts" "monitor"
    (systemAlert [("event_id", .text (String.ofList (List.replicate 65 'a')))]) length_systemSha
  unfold SameIdentity at hsame
  exact absurd hsame (by decide +kernel)

end ForexAi
