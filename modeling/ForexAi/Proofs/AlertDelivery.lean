/-
When alerts are delivered at least once.

A poll acknowledges all it was handed: what could not be decoded, what was saved, and what
could not be saved alike (`passOver_acks`).  What it was handed is past the group for good,
and every read of the worker is of what lies ahead (`never_handed_again`).  So an entry
whose row is not stored by the poll that reads it is lost, acknowledged or not, and
delivery comes down to the storing: `at_least_once_iff` says for which batches and faults
every entry that can be decoded has its row.

The rows of a batch share one transaction, so a single statement that fails costs the rows
of all of them.
-/
import ForexAi.Alerts.Worker

namespace ForexAi

namespace AlertWorker

variable (sha256 : String → String)

/-- The entry is saved under an identifier, as far as the entry itself is concerned. -/
def Saves (p : Poll) (entry : AlertEntry) (eventId : String) : Prop :=
  ∃ e, entry.2 = some e ∧ p.saveFault entry.1 = none ∧ digestEventId sha256 e = eventId

/-! ### One entry -/

/-- What one entry does to a pass. -/
structure EntryEffect (p : Poll) (entry : AlertEntry) (st st' : AlertPass) : Prop where
  acks : st'.acks = st.acks ++ [entry.1]
  aborted : st'.aborted = true ↔ st.aborted = true ∨ Aborts sha256 p entry
  table : st'.aborted = false → ∀ eventId,
    st'.table.Has eventId ↔ st.table.Has eventId ∨ Saves sha256 p entry eventId

/-- **The effect of one entry.** -/
theorem handle_effect (p : Poll) (entry : AlertEntry) (st : AlertPass) :
    EntryEffect sha256 p entry st (handle sha256 p st entry) := by
  obtain ⟨id, event⟩ := entry
  cases event with
  | none =>
      refine ⟨rfl, ⟨Or.inl, ?_⟩, fun _ eventId => ⟨Or.inl, ?_⟩⟩
      · rintro (h | ⟨e, he, -⟩)
        · exact h
        · exact absurd he (by simp)
      · rintro (h | ⟨e, he, -⟩)
        · exact h
        · exact absurd he (by simp)
  | some e =>
      unfold handle
      cases hfault : p.saveFault id with
      | some fault =>
          have hsaves : ∀ eventId, ¬ Saves sha256 p (id, some e) eventId := by
            rintro eventId ⟨e', -, hnone, -⟩
            exact absurd (hfault.symm.trans hnone) (by simp)
          cases fault with
          | raised =>
              refine ⟨rfl, ⟨Or.inl, ?_⟩, fun _ eventId => ⟨Or.inl, ?_⟩⟩
              · rintro (h | ⟨e', -, hstatement | ⟨hnone, -⟩⟩)
                · exact h
                · exact absurd (hfault.symm.trans hstatement) (by simp)
                · exact absurd (hfault.symm.trans hnone) (by simp)
              · exact fun h => h.elim (fun h => h) fun h => absurd h (hsaves eventId)
          | statement =>
              refine ⟨rfl, ⟨fun _ => Or.inr ⟨e, rfl, Or.inl hfault⟩, fun _ => rfl⟩, fun h => ?_⟩
              exact absurd h (by simp [AlertPass.failed])
      | none =>
          simp only
          by_cases hbad : st.aborted = true ∨ ¬ (alertOf sha256 e).Storable
          · rw [if_pos hbad]
            refine ⟨rfl, ⟨fun _ => ?_, fun _ => rfl⟩, fun h => ?_⟩
            · exact hbad.imp (fun h => h) fun h => ⟨e, rfl, Or.inr ⟨hfault, h⟩⟩
            · exact absurd h (by simp [AlertPass.failed])
          · rw [if_neg hbad]
            obtain ⟨hlive, hfits⟩ := not_or.mp hbad
            refine ⟨rfl, ⟨Or.inl, ?_⟩, fun _ eventId => ?_⟩
            · rintro (h | ⟨e', he', hstatement | ⟨-, hunfit⟩⟩)
              · exact h
              · exact absurd (hfault.symm.trans hstatement) (by simp)
              · obtain rfl := Option.some.inj he'
                exact absurd hunfit hfits
            · show ((st.table.save (alertOf sha256 e)).2).Has eventId ↔ _
              rw [AlertTable.has_save]
              refine or_congr_right ⟨fun h => ⟨e, rfl, hfault, h⟩, ?_⟩
              rintro ⟨e', he', -, h⟩
              obtain rfl := Option.some.inj he'
              exact h

/-! ### One pass

The pass is a fold over the batch, and every entry adds itself to what is acknowledged,
whatever became of it.  What is to be stored is the list of rows in one transaction, or
nothing.
-/

/-- What a pass over a batch does. -/
structure BatchEffect (p : Poll) (batch : List AlertEntry) (st st' : AlertPass) : Prop where
  acks : st'.acks = st.acks ++ batch.map (·.1)
  aborted : st'.aborted = true ↔ st.aborted = true ∨ ∃ entry ∈ batch, Aborts sha256 p entry
  table : st'.aborted = false → ∀ eventId, st'.table.Has eventId ↔
    st.table.Has eventId ∨ ∃ entry ∈ batch, Saves sha256 p entry eventId

theorem foldl_effect (p : Poll) (batch : List AlertEntry) (st : AlertPass) :
    BatchEffect sha256 p batch st (batch.foldl (handle sha256 p) st) := by
  induction batch generalizing st with
  | nil => exact ⟨by simp, by simp, fun _ eventId => by simp⟩
  | cons entry rest ih =>
      have hentry := handle_effect sha256 p entry st
      have hrest := ih (handle sha256 p st entry)
      rw [List.foldl_cons]
      refine ⟨?_, ?_, fun hlive eventId => ?_⟩
      · rw [hrest.acks, hentry.acks, List.append_assoc]
        rfl
      · rw [hrest.aborted, hentry.aborted, or_assoc, List.exists_mem_cons_iff]
      · -- A pass that is not aborted at its end was not aborted after its first entry.
        have hfirst : (handle sha256 p st entry).aborted = false := by
          by_contra hc
          have hend := hrest.aborted.mpr (Or.inl (by simpa using hc))
          exact absurd (hlive.symm.trans hend) (by simp)
        rw [hrest.table hlive, hentry.table hfirst, or_assoc, List.exists_mem_cons_iff]

/-- **Everything a poll is handed is up for acknowledgement.** -/
theorem passOver_acks (w : AlertBus) (p : Poll) :
    (passOver sha256 w p).acks = (handed w p).map (·.1) :=
  (foldl_effect sha256 p (handed w p) _).acks

/-! ### One poll -/

/-- The rows after a poll. -/
theorem has_pollOnce {w : AlertBus} {p : Poll} {eventId : String} :
    (pollOnce sha256 w p).2.table.Has eventId ↔
      w.table.Has eventId ∨ p.commit.durable = true ∧
        (∀ entry ∈ handed w p, ¬ Aborts sha256 p entry) ∧
        ∃ entry ∈ handed w p, Saves sha256 p entry eventId := by
  have heffect := foldl_effect sha256 p (handed w p) ⟨w.table, false, {}, []⟩
  change BatchEffect sha256 p (handed w p) _ (passOver sha256 w p) at heffect
  have hstored : (if (passOver sha256 w p).aborted then w.table
        else (passOver sha256 w p).table).Has eventId ↔
      w.table.Has eventId ∨ (∀ entry ∈ handed w p, ¬ Aborts sha256 p entry) ∧
        ∃ entry ∈ handed w p, Saves sha256 p entry eventId := by
    by_cases haborted : (passOver sha256 w p).aborted = true
    · rw [if_pos haborted]
      obtain hfalse | ⟨entry, hentry, habort⟩ := heffect.aborted.mp haborted
      · exact absurd hfalse (by simp)
      · exact ⟨Or.inl, fun h => h.elim id fun h => absurd habort (h.1 entry hentry)⟩
    · rw [if_neg haborted, heffect.table (by simpa using haborted)]
      refine or_congr_right ⟨fun h => ⟨fun entry hentry habort => ?_, h⟩, fun h => h.2⟩
      exact haborted (heffect.aborted.mpr (Or.inr ⟨entry, hentry, habort⟩))
  unfold pollOnce
  cases hbatch : handed w p with
  | nil => exact ⟨Or.inl, fun h => h.elim id fun h => absurd h.2.2 (by simp)⟩
  | cons first rest =>
      rw [hbatch] at hstored
      cases hcommit : p.commit with
      | done => exact hstored.trans (by simp [CommitFate.durable])
      | lost => exact ⟨Or.inl, fun h => h.elim id fun h =>
        absurd h.1 (by simp [CommitFate.durable])⟩
      | unheard => exact hstored.trans (by simp [CommitFate.durable])

/-- A poll moves the group past what it is handed. -/
theorem pollOnce_past (w : AlertBus) (p : Poll) :
    w.group.lastDelivered ≤ (pollOnce sha256 w p).2.group.lastDelivered ∧
      ∀ entry ∈ handed w p, entry.1 ≤ (pollOnce sha256 w p).2.group.lastDelivered := by
  unfold pollOnce
  cases hbatch : handed w p with
  | nil => exact ⟨le_rfl, fun entry hentry => absurd hentry (by simp)⟩
  | cons first rest =>
      have hread : first :: rest = w.stream.readNew w.group p.count := by
        unfold handed at hbatch
        by_cases hnone : p.readFails = true ∨ p.count = 0
        · rw [if_pos hnone] at hbatch
          exact absurd hbatch (by simp)
        · rw [if_neg hnone] at hbatch
          exact hbatch.symm
      have hpast := ConsumerGroup.deliver_past w.stream w.group p.count
      rw [← hread] at hpast
      cases p.commit <;> exact hpast

/-! ### Steps and runs

The group's position only moves forward, and a worker reads what lies ahead of it.  Pending
entries are never claimed back, so an entry has one chance.
-/

theorem step_past (w : AlertBus) (s : Step) :
    w.group.lastDelivered ≤ (step sha256 w s).group.lastDelivered := by
  cases s with
  | publish trimmed entry => exact le_rfl
  | poll p => exact (pollOnce_past sha256 w p).1

theorem run_past (w : AlertBus) (steps : List Step) :
    w.group.lastDelivered ≤ (Runs.run (step sha256) w steps).group.lastDelivered :=
  Runs.invariant (I := fun w' => w.group.lastDelivered ≤ w'.group.lastDelivered)
    (P := fun _ _ => True) (fun w' s h _ => h.trans (step_past sha256 w' s)) le_rfl
    (Runs.along_of_forall fun _ _ => trivial)

/-- Rows stay. -/
theorem step_has {w : AlertBus} {s : Step} {eventId : String} (h : w.table.Has eventId) :
    (step sha256 w s).table.Has eventId := by
  cases s with
  | publish trimmed entry => exact h
  | poll p => exact (has_pollOnce sha256).mpr (Or.inl h)

theorem run_has {w : AlertBus} {steps : List Step} {eventId : String} (h : w.table.Has eventId) :
    (Runs.run (step sha256) w steps).table.Has eventId :=
  Runs.invariant (I := fun w' : AlertBus => w'.table.Has eventId) (P := fun _ _ => True)
    (fun _ _ h _ => step_has sha256 h) h (Runs.along_of_forall fun _ _ => trivial)

/-- A later poll of the same consumer is handed the entry. -/
def ReadAgain (w : AlertBus) (id : ℕ) : Prop :=
  ∃ (steps : List Step) (p : Poll), id ∈ (handed (Runs.run (step sha256) w steps) p).map (·.1)

/-- **No entry is handed out twice**, whatever happens later. -/
theorem never_handed_again {w : AlertBus} {id : ℕ} (h : id ≤ w.group.lastDelivered) :
    ¬ ReadAgain sha256 w id := by
  rintro ⟨steps, p, hmem⟩
  obtain ⟨entry, hentry, rfl⟩ := List.mem_map.mp hmem
  have hbehind := h.trans (run_past sha256 w steps)
  unfold handed at hentry
  by_cases hnone : p.readFails = true ∨ p.count = 0
  · rw [if_pos hnone] at hentry
    exact absurd hentry (by simp)
  · rw [if_neg hnone] at hentry
    exact absurd (LogStream.readNew_past hentry) (not_lt.mpr hbehind)

/-! ### At least once

Delivery could come from storing at once or from reading again later.  The second never
happens, so it is the first that has to be asked for.
-/

/-- Of every entry a poll is handed: it is acknowledged only if it could not be decoded or its
row is stored, and one whose row is not stored stays pending and is read again. -/
def AtLeastOnce (w : AlertBus) (p : Poll) : Prop :=
  ∀ entry ∈ handed w p, ∀ e, entry.2 = some e →
    (entry.1 ∉ (pollOnce sha256 w p).2.group.pending →
      (pollOnce sha256 w p).2.table.Has (digestEventId sha256 e)) ∧
    (¬ (pollOnce sha256 w p).2.table.Has (digestEventId sha256 e) →
      entry.1 ∈ (pollOnce sha256 w p).2.group.pending ∧
        ReadAgain sha256 (pollOnce sha256 w p).2 entry.1)

/-- Every entry that can be decoded has its row already, or the commit takes effect, no
statement of the batch fails and an entry of that identifier is saved. -/
def Kept (w : AlertBus) (p : Poll) : Prop :=
  ∀ entry ∈ handed w p, ∀ e, entry.2 = some e →
    w.table.Has (digestEventId sha256 e) ∨ p.commit.durable = true ∧
      (∀ other ∈ handed w p, ¬ Aborts sha256 p other) ∧
      ∃ other ∈ handed w p, Saves sha256 p other (digestEventId sha256 e)

theorem kept_iff {w : AlertBus} {p : Poll} :
    Kept sha256 w p ↔ ∀ entry ∈ handed w p, ∀ e, entry.2 = some e →
      (pollOnce sha256 w p).2.table.Has (digestEventId sha256 e) := by
  refine forall₄_congr fun entry _ e _ => ?_
  exact (has_pollOnce sha256).symm

/-- **When alerts are delivered at least once.**  A poll delivers its batch exactly when every
entry that can be decoded is stored by it or was before; and in a run whose polls all do,
everything that was ever handed out and can be decoded has its row at the end. -/
theorem at_least_once_iff :
    (∀ (w : AlertBus) (p : Poll), AtLeastOnce sha256 w p ↔ Kept sha256 w p) ∧
    ∀ (w : AlertBus) (steps : List Step),
      Runs.Along (step sha256) (fun w s => ∀ p, s = .poll p → Kept sha256 w p) w steps →
      ∀ before p after, steps = before ++ .poll p :: after →
        ∀ entry ∈ handed (Runs.run (step sha256) w before) p, ∀ e, entry.2 = some e →
          (Runs.run (step sha256) w steps).table.Has (digestEventId sha256 e) := by
  refine ⟨fun w p => ?_, ?_⟩
  · rw [kept_iff]
    refine ⟨fun h entry hentry e he => ?_, fun h entry hentry e he => ?_⟩
    · by_contra hmissing
      have hpast := (pollOnce_past sha256 w p).2 entry hentry
      exact never_handed_again sha256 hpast ((h entry hentry e he).2 hmissing).2
    · have hstored := h entry hentry e he
      exact ⟨fun _ => hstored, fun hmissing => absurd hstored hmissing⟩
  · rintro w steps halong before p after rfl entry hentry e he
    obtain ⟨-, hkept, -⟩ := Runs.along_append.mp halong
    have hstored := (kept_iff sha256).mp (hkept p rfl) entry hentry e he
    rw [Runs.run_append, Runs.run_cons]
    exact run_has sha256 hstored

/-- A staleness alert. -/
def staleAlert : Event where
  eventType := "alert.staleness"
  payload := [("event_id", .text "stale-1")]
  producer := "monitor"
  producedAt := 0

/-- An alert whose severity the table does not take. -/
def urgentAlert : Event where
  eventType := "alert.system"
  payload := [("event_id", .text "urgent-1"), ("severity", .text "urgent")]
  producer := "monitor"
  producedAt := 0

/-- Both, waiting for the worker. -/
def twoWaiting : AlertBus where
  stream := (LogStream.empty.add 0 (some staleAlert)).add 0 (some urgentAlert)
  group := {}
  table := .empty

/-- The second alert's row is refused, the transaction ends as a rollback, and the first alert is
acknowledged without a row, whatever the hash. -/
theorem bad_row_loses_the_batch :
    ¬ ∃ sha256 : String → String, ∀ (w : AlertBus) (p : Poll), AtLeastOnce sha256 w p := by
  rintro ⟨sha256, h⟩
  have hbatch : handed twoWaiting {} = [(1, some staleAlert), (2, some urgentAlert)] := rfl
  have hfirst : (1, some staleAlert) ∈ handed twoWaiting {} := hbatch ▸ List.mem_cons_self
  have hsecond : (2, some urgentAlert) ∈ handed twoWaiting {} :=
    hbatch ▸ List.mem_cons_of_mem _ List.mem_cons_self
  have haborts : Aborts sha256 {} (2, some urgentAlert) := by
    refine ⟨urgentAlert, rfl, Or.inr ⟨rfl, fun hfits => ?_⟩⟩
    have hseverity : "urgent" ∈ ["info", "warning", "critical"] := hfits.2.2.2.1
    exact absurd hseverity (by decide)
  have hmissing : ¬ (pollOnce sha256 twoWaiting {}).2.table.Has
      (digestEventId sha256 staleAlert) := by
    rw [has_pollOnce]
    rintro (hempty | ⟨-, hnone, -⟩)
    · exact absurd hempty (by simp [AlertTable.Has, twoWaiting, AlertTable.empty])
    · exact hnone _ hsecond haborts
  have hagain := ((h twoWaiting {} _ hfirst staleAlert rfl).2 hmissing).2
  exact never_handed_again sha256 ((pollOnce_past sha256 twoWaiting {}).2 _ hfirst) hagain

end AlertWorker

end ForexAi
