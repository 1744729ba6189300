/-
When different alerts of one worker get different rows.

The identifier of an alert is a hash of its event type, its producer, its stamp, its symbol
and its timeframe.  One worker publishes under one producer name, and its stamp is the time
the worker was made, so of the five fields three remain (`material_eq_iff`).  The bucket, the
veto code, the subject and the message are not among them: two alerts that differ only in
those share an identifier, and the table keeps the first.

SHA-256 cut to 32 digits cannot be injective on all texts.  What is assumed of it is that it
does not collide on the texts of the run.
-/
import ForexAi.Alerts.Orchestrator
import ForexAi.Alerts.Worker
import ForexAi.Lib.Joined

namespace ForexAi

/-! ### What an alert is about -/

/-- The payload entries that tell occurrences of one type apart. -/
def occurrenceKeys : List String :=
  ["symbol", "timeframe", "bucket_ts", "veto_code", "subject", "message"]

/-- What an event is about. -/
def Event.occurrence (e : Event) : String × List PayloadValue :=
  (e.eventType, occurrenceKeys.map e.payload.get)

/-- What a row is about. -/
def AlertIn.occurrence (a : AlertIn) : String × List PayloadValue :=
  (a.eventType, occurrenceKeys.map a.payload.get)

/-- What the identifier depends on, within one worker. -/
def Event.key (e : Event) : String × PayloadValue × PayloadValue :=
  (e.eventType, e.payload.get "symbol", e.payload.get "timeframe")

namespace AlertSource

variable {w : AlertSource}

/-! ### The alerts of one worker

The text that is hashed begins and ends with what the worker never changes.  Cut off, three
fields are left, and the separators between them can not be moved because no field holds one.
-/

theorem Kind.common {e : Event} (h : w.Kind e) :
    e.producer = "orchestrator" ∧ e.producedAt = w.now ∧ e.payload.field "event_id" = "" ∧
      '|' ∉ e.eventType.toList ∧ '|' ∉ (e.payload.field "timeframe").toList := by
  cases h with
  | riskBrake r h =>
      subst h
      refine ⟨rfl, rfl, rfl, (by decide : '|' ∉ "alert.risk_brake".toList), ?_⟩
      show '|' ∉ r.timeframe.code.toList
      cases r.timeframe <;> decide
  | paper eventType subject detail htype h =>
      subst h
      refine ⟨rfl, rfl, rfl, ?_, (by decide : '|' ∉ "".toList)⟩
      show '|' ∉ eventType.toList
      rcases htype with rfl | rfl <;> decide

/-- The symbol and the timeframe of an alert are texts, or both are missing. -/
theorem Kind.fields {e : Event} (h : w.Kind e) :
    (e.eventType = "alert.risk_brake" ∧ ∃ symbol timeframe,
      e.payload.get "symbol" = .text symbol ∧ e.payload.get "timeframe" = .text timeframe) ∨
    (e.eventType ≠ "alert.risk_brake" ∧
      e.payload.get "symbol" = .null ∧ e.payload.get "timeframe" = .null) := by
  cases h with
  | riskBrake r h => subst h; exact Or.inl ⟨rfl, _, _, rfl, rfl⟩
  | paper eventType subject detail htype h =>
      subst h
      refine Or.inr ⟨?_, rfl, rfl⟩
      show eventType ≠ "alert.risk_brake"
      rcases htype with rfl | rfl <;> decide

/-- The text of an alert, cut where the worker's own part begins and ends. -/
theorem Kind.material {e : Event} (h : w.Kind e) :
    e.material.toList = e.eventType.toList ++ '|' ::
      (("orchestrator|" ++ isoformat w.now ++ "|" ++ e.payload.field "symbol").toList ++
        '|' :: (e.payload.field "timeframe").toList) := by
  obtain ⟨hproducer, hstamp, -⟩ := h.common
  unfold Event.material
  rw [hproducer, hstamp]
  simp

/-- **Within one worker the hashed text is the type, the symbol and the timeframe.** -/
theorem material_eq_iff {a b : Event} (ha : w.Kind a) (hb : w.Kind b) :
    a.material = b.material ↔ a.key = b.key := by
  obtain ⟨-, -, -, htypeA, hframeA⟩ := ha.common
  obtain ⟨-, -, -, htypeB, hframeB⟩ := hb.common
  unfold Event.key
  refine ⟨fun h => ?_, fun h => ?_⟩
  · have hchars := congrArg String.toList h
    rw [ha.material, hb.material] at hchars
    obtain ⟨htype, hrest⟩ := Joined.first_field htypeA htypeB hchars
    obtain ⟨hfront, hframe⟩ := Joined.last_field hframeA hframeB hrest
    have hsymbol : a.payload.field "symbol" = b.payload.field "symbol" := by
      have hback := String.toList_inj.mp hfront
      exact (String.append_right_inj _).mp hback
    rw [String.toList_inj] at htype hframe
    rcases ha.fields with ⟨hA, sA, tA, hsA, htA⟩ | ⟨hA, hsA, htA⟩
    · rcases hb.fields with ⟨hB, sB, tB, hsB, htB⟩ | ⟨hB, -, -⟩
      · unfold Payload.field at hsymbol hframe
        rw [hsA, hsB] at hsymbol
        rw [htA, htB] at hframe
        have hs : sA = sB := hsymbol
        have ht : tA = tB := hframe
        rw [htype, hsA, hsB, htA, htB, hs, ht]
      · exact absurd (htype.symm.trans hA) hB
    · rcases hb.fields with ⟨hB, -⟩ | ⟨hB, hsB, htB⟩
      · exact absurd (htype.trans hB) hA
      · rw [htype, hsA, hsB, htA, htB]
  · obtain ⟨htype, hpair⟩ := Prod.mk.inj h
    obtain ⟨hsymbol, hframe⟩ := Prod.mk.inj hpair
    unfold Event.material Payload.field
    obtain ⟨hproducerA, hstampA, -⟩ := ha.common
    obtain ⟨hproducerB, hstampB, -⟩ := hb.common
    rw [htype, hsymbol, hframe, hproducerA, hstampA, hproducerB, hstampB]

theorem Kind.digest (sha256 : String → String) {e : Event} (h : w.Kind e) :
    digestEventId sha256 e = clip (sha256 e.material) 32 := by
  have hfree : ¬ e.payload.field "event_id" ≠ "" := not_not.mpr h.common.2.2.1
  unfold digestEventId
  rw [if_neg hfree]

end AlertSource

/-! ### The rows that come of it

An insert under an identifier that is there does nothing.  So a table after deliveries has one
row for each identifier, the first that was delivered.
-/

/-- The table after deliveries, one insert each. -/
def deliveredTo (sha256 : String → String) (t : AlertTable) (deliveries : List Event) :
    AlertTable :=
  deliveries.foldl (fun t e => (t.save (AlertWorker.alertOf sha256 e)).2) t

theorem has_delivered {sha256 : String → String} {deliveries : List Event} {t : AlertTable}
    {eventId : String} :
    (deliveredTo sha256 t deliveries).Has eventId ↔
      t.Has eventId ∨ ∃ e ∈ deliveries, digestEventId sha256 e = eventId := by
  induction deliveries generalizing t with
  | nil => simp [deliveredTo]
  | cons e rest ih =>
      show (deliveredTo sha256 (t.save (AlertWorker.alertOf sha256 e)).2 rest).Has eventId ↔ _
      rw [ih, AlertTable.has_save, or_assoc, List.exists_mem_cons_iff]
      rfl

theorem row_of_delivered {sha256 : String → String} {deliveries : List Event} {t : AlertTable}
    {row : AlertIn} (h : row ∈ (deliveredTo sha256 t deliveries).rows) :
    row ∈ t.rows ∨ ∃ e ∈ deliveries, row = AlertWorker.alertOf sha256 e := by
  induction deliveries generalizing t with
  | nil => exact Or.inl h
  | cons e rest ih =>
      rcases ih h with hold | ⟨e', he', hrow⟩
      · exact (AlertTable.mem_save hold).imp id fun hnew => ⟨e, List.mem_cons_self, hnew⟩
      · exact Or.inr ⟨e', List.mem_cons_of_mem _ he', hrow⟩

/-! ### Distinct rows

Distinct alerts keep distinct rows exactly if their identifiers differ, and that is a matter
of the three fields, if the hash does not collide.
-/

namespace AlertSource

variable (w : AlertSource) (sha256 : String → String)

/-- Alerts about different occurrences have different identifiers, and however often and in
whatever order they are delivered to a table without them, each has its row. -/
def Distinct (run : List (Moment × Bool)) : Prop :=
  ∀ a ∈ w.published run, ∀ b ∈ w.published run, a.occurrence ≠ b.occurrence →
    digestEventId sha256 a ≠ digestEventId sha256 b ∧
    ∀ (t : AlertTable) (deliveries : List Event),
      (∀ e ∈ deliveries, e ∈ w.published run ∧ ¬ t.Has (digestEventId sha256 e)) →
      a ∈ deliveries → b ∈ deliveries →
      ∃ rowA ∈ (deliveredTo sha256 t deliveries).rows,
        ∃ rowB ∈ (deliveredTo sha256 t deliveries).rows,
          rowA ≠ rowB ∧ rowA.occurrence = a.occurrence ∧ rowB.occurrence = b.occurrence

/-- Alerts about different occurrences differ in type, symbol or timeframe. -/
def KeysTell (run : List (Moment × Bool)) : Prop :=
  ∀ a ∈ w.published run, ∀ b ∈ w.published run, a.occurrence ≠ b.occurrence → a.key ≠ b.key

/-- The hash does not collide on the texts of a run. -/
def NoCollision (run : List (Moment × Bool)) : Prop :=
  ∀ a ∈ w.published run, ∀ b ∈ w.published run,
    clip (sha256 a.material) 32 = clip (sha256 b.material) 32 → a.material = b.material

/-- **When different alerts get different rows.**  Two alerts of one worker share an identifier
exactly when they agree in type, symbol and timeframe, so a run keeps all its alerts exactly
when no two different ones do; and an entry that is delivered again changes nothing. -/
theorem distinct_iff (run : List (Moment × Bool)) (hhash : w.NoCollision sha256 run) :
    (w.Distinct sha256 run ↔ w.KeysTell run) ∧
      ∀ (t : AlertTable) (e : Event),
        (t.save (AlertWorker.alertOf sha256 e)).2.save (AlertWorker.alertOf sha256 e)
          = (false, (t.save (AlertWorker.alertOf sha256 e)).2) := by
  have hids : ∀ a ∈ w.published run, ∀ b ∈ w.published run,
      digestEventId sha256 a = digestEventId sha256 b ↔ a.key = b.key := by
    intro a ha b hb
    have hkindA := w.kind_of_published ha
    have hkindB := w.kind_of_published hb
    rw [hkindA.digest, hkindB.digest, ← material_eq_iff hkindA hkindB]
    exact ⟨hhash a ha b hb, fun h => by rw [h]⟩
  refine ⟨⟨fun h a ha b hb hne hkey => ?_, fun h a ha b hb hne => ?_⟩, fun t e => ?_⟩
  · exact (h a ha b hb hne).1 ((hids a ha b hb).mpr hkey)
  · refine ⟨fun hid => h a ha b hb hne ((hids a ha b hb).mp hid), ?_⟩
    intro t deliveries hnew hamem hbmem
    -- The row of an identifier is of some delivery, and its occurrence is the one asked for.
    have hrow : ∀ c ∈ w.published run, c ∈ deliveries →
        ∃ row ∈ (deliveredTo sha256 t deliveries).rows, row.occurrence = c.occurrence := by
      intro c hc hcmem
      obtain ⟨row, hmem, hid⟩ := List.mem_map.mp
        (has_delivered.mpr (Or.inr ⟨c, hcmem, rfl⟩) :
          (deliveredTo sha256 t deliveries).Has (digestEventId sha256 c))
      refine ⟨row, hmem, ?_⟩
      rcases row_of_delivered hmem with hold | ⟨e, he, rfl⟩
      · have hhas : t.Has (digestEventId sha256 c) := List.mem_map.mpr ⟨row, hold, hid⟩
        exact absurd hhas (hnew c hcmem).2
      · by_contra hother
        exact h e (hnew e he).1 c hc hother ((hids e (hnew e he).1 c hc).mp hid)
    obtain ⟨rowA, hmemA, hoccA⟩ := hrow a ha hamem
    obtain ⟨rowB, hmemB, hoccB⟩ := hrow b hb hbmem
    refine ⟨rowA, hmemA, rowB, hmemB, fun heq => hne ?_, hoccA, hoccB⟩
    rw [← hoccA, ← hoccB, heq]
  · exact AlertTable.save_again (AlertTable.has_save.mpr (Or.inr rfl))

/-- A worker made at the epoch. -/
def epochWorker : AlertSource := { now := 0 }

/-- A decision blocked by the drawdown gate. -/
def blockedAt (symbol : Symbol) (bucketTs : Time) : DecideResult where
  symbol := symbol
  timeframe := .H1
  bucketTs := bucketTs
  action := .persist
  status := some .blocked
  direction := some .long
  vetoCode := some "drawdown"

/-- The hash on the texts of the run below. -/
def sha256OfRun (text : String) : String :=
  if text = "alert.risk_brake|orchestrator|1970-01-01T00:00:00+00:00|EURUSD|H1" then
    "042e80dae561aebec48e3cad974a0999eb32b7fd87b5972a45aea229c26efbb9"
  else if text = "alert.risk_brake|orchestrator|1970-01-01T00:00:00+00:00|GBPUSD|H1" then
    "b536ff78e33b4715f670132259b4bedc56dd8956cef28a6a2fe5c8c3fd7929cd"
  else ""

/-- Two symbols blocked at one bar. -/
def twoSymbols : List (Moment × Bool) :=
  [(.decided (blockedAt .eurusd 0) false, false), (.decided (blockedAt .gbpusd 0) false, false)]

theorem two_symbols_distinct : epochWorker.Distinct sha256OfRun twoSymbols := by
  have hpublished : epochWorker.published twoSymbols =
      [epochWorker.emitRiskBrakeAlert (blockedAt .eurusd 0),
        epochWorker.emitRiskBrakeAlert (blockedAt .gbpusd 0)] := rfl
  have hhash : epochWorker.NoCollision sha256OfRun twoSymbols := by
    intro a ha b hb hsame
    rw [hpublished] at ha hb
    rcases List.mem_pair.mp ha with rfl | rfl <;> rcases List.mem_pair.mp hb with rfl | rfl
    · rfl
    · exact absurd hsame (by decide +kernel)
    · exact absurd hsame (by decide +kernel)
    · rfl
  refine (epochWorker.distinct_iff sha256OfRun twoSymbols hhash).1.mpr ?_
  intro a ha b hb hne
  rw [hpublished] at ha hb
  rcases List.mem_pair.mp ha with rfl | rfl <;> rcases List.mem_pair.mp hb with rfl | rfl
  · exact absurd rfl hne
  · decide +kernel
  · decide +kernel
  · exact absurd rfl hne

/-- The second blocked bar of a series has the identifier of the first, whatever the hash. -/
theorem second_brake_shares_id : ¬ ∃ sha256 : String → String,
    ∀ (w : AlertSource) (run : List (Moment × Bool)),
      w.NoCollision sha256 run → w.Distinct sha256 run := by
  rintro ⟨sha256, h⟩
  set run : List (Moment × Bool) :=
    [(.decided (blockedAt .eurusd 0) false, false),
      (.decided (blockedAt .eurusd (seconds 3600)) false, false)] with hrun
  have hpublished : epochWorker.published run =
      [epochWorker.emitRiskBrakeAlert (blockedAt .eurusd 0),
        epochWorker.emitRiskBrakeAlert (blockedAt .eurusd (seconds 3600))] := rfl
  have hkey : ∀ a ∈ epochWorker.published run,
      a.key = ("alert.risk_brake", .text "EURUSD", .text "H1") := by
    intro a ha
    rw [hpublished] at ha
    rcases List.mem_pair.mp ha with rfl | rfl <;> rfl
  have hmaterial : ∀ a ∈ epochWorker.published run, ∀ b ∈ epochWorker.published run,
      a.material = b.material := fun a ha b hb =>
    (material_eq_iff (kind_of_published _ ha) (kind_of_published _ hb)).mpr
      ((hkey a ha).trans (hkey b hb).symm)
  have hfirst : epochWorker.emitRiskBrakeAlert (blockedAt .eurusd 0) ∈ epochWorker.published run :=
    hpublished ▸ List.mem_cons_self
  have hsecond : epochWorker.emitRiskBrakeAlert (blockedAt .eurusd (seconds 3600)) ∈
      epochWorker.published run := hpublished ▸ List.mem_cons_of_mem _ List.mem_cons_self
  refine (h epochWorker run (fun a ha b hb _ => hmaterial a ha b hb) _ hfirst _ hsecond
    (by decide +kernel)).1 ?_
  rw [(kind_of_published _ hfirst).digest, (kind_of_published _ hsecond).digest,
    hmaterial _ hfirst _ hsecond]

end AlertSource

end ForexAi
