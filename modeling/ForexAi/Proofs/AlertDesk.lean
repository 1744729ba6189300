/-
Nothing is lost at the alert desk.

Of the acknowledgements: an update closes only rows that are still open, so the first request
stands, and every later one is answered, and logged, with the moment of the first
(`Attested`).  A row is never taken out and what the worker saved of it never changes.

Of the listing: rows only come in, and an acknowledgement moves no row, so as keys the listing
of one moment is part of the listing of any later one (`keys_step`).  Pages cut out of lists
that only grow show whatever was there at the first page.
-/
import ForexAi.Alerts.Desk
import ForexAi.Lib.Paging

namespace ForexAi

namespace AlertDesk

variable {repr : String → String}

/-! ### What a step can do

There are two writes: a row comes in, or the acknowledgement of a row that has none is filled
in, with an entry in the log.
-/

variable (repr) in
theorem step_save (t : AlertDesk) (id : ℕ) (a : AlertIn) :
    step repr t (.save id a) = t ∨
      ((step repr t (.save id a)).rows = t.rows ++ [⟨id, a, none⟩] ∧
        (step repr t (.save id a)).audit = t.audit ∧
        a.eventId ∉ t.rows.map (·.alert.eventId)) := by
  show ((t.save id a).map Prod.snd).getD t = t ∨ _
  unfold step
  simp only
  unfold save
  by_cases hevent : a.eventId ∈ t.rows.map (·.alert.eventId)
  · left
    rw [dif_pos hevent]
    rfl
  · rw [dif_neg hevent]
    by_cases hid : id ∈ t.rows.map (·.id)
    · left
      rw [dif_pos hid]
      rfl
    · right
      rw [dif_neg hid]
      exact ⟨rfl, rfl, hevent⟩

variable (repr) in
/-- An acknowledgement closes the row it finds and logs it, or changes nothing. -/
theorem step_acknowledge (t : AlertDesk) (eventId admin : String) (at' : Time) :
    step repr t (.acknowledge eventId admin at') = t ∨
      ∃ row ∈ t.rows, row.alert.eventId = eventId ∧
        (step repr t (.acknowledge eventId admin at')).rows =
          t.rows.map (ackRow eventId admin at') ∧
        (step repr t (.acknowledge eventId admin at')).audit =
          t.audit ++
            [⟨admin, eventId, (ackRow eventId admin at' row).acknowledged.map Prod.fst⟩] := by
  unfold step acknowledge
  simp only
  cases hget : (t.ackAlert eventId admin at').get eventId with
  | none => exact Or.inl rfl
  | some row =>
      right
      unfold get at hget
      have hmem := List.mem_of_find?_eq_some hget
      have hevent : row.alert.eventId = eventId := by simpa using List.find?_some hget
      obtain ⟨r, hr, rfl⟩ :=
        List.mem_map.mp (show row ∈ t.rows.map (ackRow eventId admin at') from hmem)
      rw [ackRow_alert] at hevent
      exact ⟨r, hr, hevent, rfl, rfl⟩

/-! ### The first acknowledgement stands

Each entry of the log gives the moment that the row had when it was written, which is the
moment of the first request.
-/

/-- What the log says of a row: who asked first, and the moment. -/
def firstAck (audit : List AlertAudit) (eventId : String) : Option (Time × String) :=
  (audit.find? fun a => a.entityId = eventId).bind fun a => a.acknowledgedAt.map (·, a.actor)

/-- The rows and the log agree: a row is acknowledged by whom the log names first, and each
entry of the log gives the moment that the row gives. -/
structure Attested (t : AlertDesk) : Prop where
  rows : ∀ r ∈ t.rows, r.acknowledged = firstAck t.audit r.alert.eventId
  audit : ∀ a ∈ t.audit, ∃ r ∈ t.rows, ∃ moment actor, r.alert.eventId = a.entityId ∧
    r.acknowledged = some (moment, actor) ∧ a.acknowledgedAt = some moment

theorem firstAck_append_of_some {audit : List AlertAudit} {eventId : String} {x : Time × String}
    (h : firstAck audit eventId = some x) (a : AlertAudit) :
    firstAck (audit ++ [a]) eventId = some x := by
  unfold firstAck at h ⊢
  obtain ⟨first, hfirst, -⟩ := Option.bind_eq_some_iff.mp h
  rw [hfirst] at h
  rw [List.find?_append, hfirst, Option.some_or]
  exact h

theorem firstAck_append_of_ne {audit : List AlertAudit} {eventId : String} {a : AlertAudit}
    (h : a.entityId ≠ eventId) : firstAck (audit ++ [a]) eventId = firstAck audit eventId := by
  unfold firstAck
  rw [List.find?_append, List.find?_cons_of_neg (by simpa using h), List.find?_nil, Option.or_none]

theorem Attested.find_eq_none {t : AlertDesk} (h : t.Attested) {eventId : String}
    (hopen : ∀ r ∈ t.rows, r.alert.eventId = eventId → r.acknowledged = none) :
    t.audit.find? (fun a => a.entityId = eventId) = none := by
  rw [List.find?_eq_none]
  intro a ha heq
  obtain ⟨r, hr, moment, actor, hevent, hack, -⟩ := h.audit a ha
  rw [hopen r hr (hevent.trans (by simpa using heq))] at hack
  exact absurd hack (by simp)

theorem attested_save {t : AlertDesk} (h : t.Attested) (id : ℕ) (a : AlertIn) :
    (step repr t (.save id a)).Attested := by
  rcases step_save repr t id a with hsame | ⟨hrows, haudit, hnew⟩
  · rw [hsame]
    exact h
  constructor
  · intro r hr
    rw [hrows] at hr
    rw [haudit]
    rcases List.mem_append.mp hr with hold | hone
    · exact h.rows r hold
    · obtain rfl := List.mem_singleton.mp hone
      have hnone : t.audit.find? (fun e => e.entityId = a.eventId) = none := by
        refine h.find_eq_none fun r hr hevent => ?_
        exact absurd (hevent ▸ List.mem_map_of_mem hr) hnew
      show none = firstAck t.audit a.eventId
      unfold firstAck
      rw [hnone]
      rfl
  · intro e he
    rw [haudit] at he
    obtain ⟨r, hr, hrest⟩ := h.audit e he
    exact ⟨r, by rw [hrows]; exact List.mem_append_left _ hr, hrest⟩

theorem ackRow_of_some {eventId admin : String} {at' : Time} {r : DeskRow} {x : Time × String}
    (h : r.acknowledged = some x) : ackRow eventId admin at' r = r := by
  unfold ackRow
  rw [if_neg]
  rw [h]
  simp

theorem attested_acknowledge {t : AlertDesk} (h : t.Attested) (eventId admin : String)
    (at' : Time) : (step repr t (.acknowledge eventId admin at')).Attested := by
  rcases step_acknowledge repr t eventId admin at' with hsame | ⟨row, hrow, hevent, hrows, haudit⟩
  · rw [hsame]
    exact h
  constructor
  · intro r' hr'
    rw [hrows] at hr'
    obtain ⟨r, hr, rfl⟩ := List.mem_map.mp hr'
    rw [haudit, ackRow_alert]
    by_cases hid : r.alert.eventId = eventId
    · obtain rfl : r = row :=
        List.inj_on_of_nodup_map t.uniqueEvent hr hrow (hid.trans hevent.symm)
      cases hack : r.acknowledged with
      | some x =>
          rw [ackRow_of_some hack, hack]
          exact (firstAck_append_of_some (by rw [← h.rows r hr, hack]) _).symm
      | none =>
          have hnone : t.audit.find? (fun e => e.entityId = r.alert.eventId) = none := by
            refine h.find_eq_none fun q hq hqid => ?_
            rw [List.inj_on_of_nodup_map t.uniqueEvent hq hr hqid, hack]
          unfold ackRow firstAck
          rw [if_pos ⟨hid, hack⟩, List.find?_append, hnone, Option.none_or,
            List.find?_cons_of_pos (by simpa using hid.symm)]
          rfl
    · have hkeep : ackRow eventId admin at' r = r := by
        unfold ackRow
        rw [if_neg fun hc => hid hc.1]
      rw [hkeep, firstAck_append_of_ne (fun hc => hid hc.symm)]
      exact h.rows r hr
  · intro a ha
    rw [haudit] at ha
    rw [hrows]
    rcases List.mem_append.mp ha with hold | hnew
    · obtain ⟨r, hr, moment, actor, hid, hack, hat⟩ := h.audit a hold
      exact ⟨_, List.mem_map_of_mem hr, moment, actor, by rw [ackRow_alert]; exact hid,
        by rw [ackRow_of_some hack]; exact hack, hat⟩
    · obtain rfl := List.mem_singleton.mp hnew
      cases hack : row.acknowledged with
      | some x =>
          exact ⟨_, List.mem_map_of_mem hrow, x.1, x.2, by rw [ackRow_alert]; exact hevent,
            by rw [ackRow_of_some hack]; exact hack, by rw [ackRow_of_some hack, hack]; rfl⟩
      | none =>
          have hclosed : (ackRow eventId admin at' row).acknowledged = some (at', admin) := by
            unfold ackRow
            rw [if_pos ⟨hevent, hack⟩]
          exact ⟨_, List.mem_map_of_mem hrow, at', admin, by rw [ackRow_alert]; exact hevent,
            hclosed, by rw [hclosed]; rfl⟩

theorem attested_step {t : AlertDesk} (h : t.Attested) (e : DeskEvent) :
    (step repr t e).Attested := by
  cases e with
  | save id a => exact attested_save h id a
  | acknowledge eventId admin at' => exact attested_acknowledge h eventId admin at'

theorem attested_empty : empty.Attested :=
  ⟨fun _ h => absurd h List.not_mem_nil, fun _ h => absurd h List.not_mem_nil⟩

theorem attested_run (es : List DeskEvent) : (Runs.run (step repr) empty es).Attested :=
  Runs.invariant (I := Attested) (P := fun _ _ => True) (fun _ e h _ => attested_step h e)
    attested_empty (Runs.along_of_forall fun _ _ => trivial)

/-- What a row keeps: its identifier, its alert, and its acknowledgement once it has one. -/
def Keeps (r r' : DeskRow) : Prop :=
  r'.id = r.id ∧ r'.alert = r.alert ∧ (r.acknowledged.isSome → r'.acknowledged = r.acknowledged)

theorem keeps_ackRow (eventId admin : String) (at' : Time) (r : DeskRow) :
    Keeps r (ackRow eventId admin at' r) := by
  refine ⟨ackRow_id .., ackRow_alert .., fun h => ?_⟩
  obtain ⟨x, hx⟩ := Option.isSome_iff_exists.mp h
  rw [ackRow_of_some hx]

variable (repr) in
theorem keeps_step (t : AlertDesk) (e : DeskEvent) {r : DeskRow} (h : r ∈ t.rows) :
    ∃ r' ∈ (step repr t e).rows, Keeps r r' := by
  cases e with
  | save id a =>
      rcases step_save repr t id a with hsame | ⟨hrows, -⟩
      · exact ⟨r, by rw [hsame]; exact h, rfl, rfl, fun _ => rfl⟩
      · exact ⟨r, by rw [hrows]; exact List.mem_append_left _ h, rfl, rfl, fun _ => rfl⟩
  | acknowledge eventId admin at' =>
      rcases step_acknowledge repr t eventId admin at' with hsame | ⟨_, -, -, hrows, -⟩
      · exact ⟨r, by rw [hsame]; exact h, rfl, rfl, fun _ => rfl⟩
      · exact ⟨_, by rw [hrows]; exact List.mem_map_of_mem h, keeps_ackRow ..⟩

theorem keeps_run (t : AlertDesk) (es : List DeskEvent) {r : DeskRow} (h : r ∈ t.rows) :
    ∃ r' ∈ (Runs.run (step repr) t es).rows, Keeps r r' := by
  induction es generalizing t r with
  | nil => exact ⟨r, h, rfl, rfl, fun _ => rfl⟩
  | cons e rest ih =>
      obtain ⟨r₁, hmem, hid, halert, hack⟩ := keeps_step repr t e h
      obtain ⟨r₂, hmem₂, hid₂, halert₂, hack₂⟩ := ih (step repr t e) hmem
      refine ⟨r₂, hmem₂, hid₂.trans hid, halert₂.trans halert, fun hsome => ?_⟩
      rw [hack₂ (by rw [hack hsome]; exact hsome), hack hsome]

/-- A row is pending exactly when the log does not speak of it. -/
theorem Attested.pending_iff {t : AlertDesk} (h : t.Attested) {r : DeskRow} (hr : r ∈ t.rows) :
    r.acknowledged = none ↔ ∀ a ∈ t.audit, a.entityId ≠ r.alert.eventId := by
  constructor
  · intro hopen a ha heq
    obtain ⟨q, hq, moment, actor, hid, hack, -⟩ := h.audit a ha
    rw [List.inj_on_of_nodup_map t.uniqueEvent hq hr (hid.trans heq), hopen] at hack
    exact absurd hack (by simp)
  · intro hnone
    have hfind : t.audit.find? (fun a => a.entityId = r.alert.eventId) = none := by
      rw [List.find?_eq_none]
      intro a ha
      simpa using hnone a ha
    rw [h.rows r hr]
    unfold firstAck
    rw [hfind]
    rfl

/-- **The first acknowledgement stands**, after any run of saves and requests: a row is
acknowledged by whom the log names first for it, every entry of the log gives the moment of
that one, the pending alerts are those the log does not speak of, and no later event takes a
row, an alert or an acknowledgement away. -/
theorem first_ack_stands (es : List DeskEvent) :
    let t := Runs.run (step repr) empty es
    (∀ r ∈ t.rows, r.acknowledged = firstAck t.audit r.alert.eventId) ∧
      (∀ a ∈ t.audit, ∃ r ∈ t.rows, ∃ moment actor, r.alert.eventId = a.entityId ∧
        r.acknowledged = some (moment, actor) ∧ a.acknowledgedAt = some moment) ∧
      t.countPending =
        (t.rows.filter fun r => t.audit.all fun a => a.entityId ≠ r.alert.eventId).length ∧
      ∀ later, ∀ r ∈ t.rows, ∃ r' ∈ (Runs.run (step repr) empty (es ++ later)).rows,
        Keeps r r' := by
  intro t
  have hattested : t.Attested := attested_run es
  refine ⟨hattested.rows, hattested.audit, ?_, ?_⟩
  · unfold countPending
    refine congrArg List.length (List.filter_congr fun r hr => ?_)
    rw [Bool.eq_iff_iff, Option.isNone_iff_eq_none, hattested.pending_iff hr]
    simp
  · intro later r hr
    rw [Runs.run_append]
    exact keeps_run t later hr

/-! ### The listing, page by page

The listing is sorted by what an acknowledgement does not change.  So a row that was listed
stays in the listing, and only newer rows can push it towards a later page.
-/

/-- What the listing sorts by. -/
def sortKey (r : DeskRow) : Time × ℕ := (r.alert.occurredAt, r.id)

/-- Newest first. -/
def KeyLe (a b : Time × ℕ) : Prop := b.1 < a.1 ∨ (b.1 = a.1 ∧ b.2 ≤ a.2)

instance : DecidableRel KeyLe := fun a b => by
  unfold KeyLe
  infer_instance

/-- Sorted lists of keys are parts of one another as the lists they come from are. -/
theorem sublist_sorted {ks ls : List (Time × ℕ)} (h : ks.Sublist ls) :
    (ks.insertionSort KeyLe).Sublist (ls.insertionSort KeyLe) := by
  have htotal : Std.Total KeyLe := ⟨fun a b => by
    unfold KeyLe
    rcases lt_trichotomy a.1 b.1 with hlt | heq | hgt
    · exact Or.inr (Or.inl hlt)
    · rcases Nat.le_total b.2 a.2 with hle | hle
      · exact Or.inl (Or.inr ⟨heq.symm, hle⟩)
      · exact Or.inr (Or.inr ⟨heq, hle⟩)
    · exact Or.inl (Or.inl hgt)⟩
  have htrans : IsTrans (Time × ℕ) KeyLe := ⟨fun a b c hab hbc => by
    unfold KeyLe at *
    rcases hab with hab | ⟨hab, hidab⟩
    · rcases hbc with hbc | ⟨hbc, -⟩
      · exact Or.inl (lt_trans hbc hab)
      · exact Or.inl (hbc ▸ hab)
    · rcases hbc with hbc | ⟨hbc, hidbc⟩
      · exact Or.inl (hab ▸ hbc)
      · exact Or.inr ⟨hbc.trans hab, Nat.le_trans hidbc hidab⟩⟩
  have hantisymm : Std.Antisymm KeyLe := ⟨fun a b hab hba => by
    unfold KeyLe at *
    rcases hab with hab | ⟨hab, hidab⟩
    · rcases hba with hba | ⟨hba, -⟩
      · exact absurd hba (lt_asymm hab)
      · exact absurd hab (hba ▸ lt_irrefl _)
    · rcases hba with hba | ⟨-, hidba⟩
      · exact absurd hba (hab ▸ lt_irrefl _)
      · exact Prod.ext hab.symm (Nat.le_antisymm hidba hidab)⟩
  exact List.sublist_insertionSort' (List.pairwise_insertionSort KeyLe ks)
    ((List.perm_insertionSort KeyLe ks).subperm.trans h.subperm)

/-- The keys of the listing, in its order. -/
def listingKeys (t : AlertDesk) (f : ListingFilter) : List (Time × ℕ) :=
  (t.listing f).map sortKey

theorem listingKeys_eq (t : AlertDesk) (f : ListingFilter) :
    t.listingKeys f = ((t.rows.filter f.passes).map sortKey).insertionSort KeyLe :=
  List.map_insertionSort _ _ sortKey _ fun _ _ _ _ => Iff.rfl

/-- A listing that does not ask for acknowledgements lists a row whether it has one or not. -/
theorem passes_ackRow {f : ListingFilter} (h : f.acknowledged = none) (eventId admin : String)
    (at' : Time) (r : DeskRow) : f.passes (ackRow eventId admin at' r) = f.passes r := by
  unfold ListingFilter.passes
  rw [h, ackRow_alert]
  rfl

variable (repr) in
/-- **Whatever happens, the listing keeps the rows it has, in their order.** -/
theorem keys_step {f : ListingFilter} (h : f.acknowledged = none) (t : AlertDesk) (e : DeskEvent) :
    (t.listingKeys f).Sublist ((step repr t e).listingKeys f) := by
  rw [listingKeys_eq, listingKeys_eq]
  refine sublist_sorted ?_
  cases e with
  | save id a =>
      rcases step_save repr t id a with hsame | ⟨hrows, -⟩
      · rw [hsame]
      · rw [hrows, List.filter_append, List.map_append]
        exact List.sublist_append_left _ _
  | acknowledge eventId admin at' =>
      rcases step_acknowledge repr t eventId admin at' with hsame | ⟨_, -, -, hrows, -⟩
      · rw [hsame]
      · have hkeys : ((t.rows.map (ackRow eventId admin at')).filter f.passes).map sortKey =
            (t.rows.filter f.passes).map sortKey := by
          rw [List.filter_map, List.map_map]
          have hpasses : f.passes ∘ ackRow eventId admin at' = f.passes := by
            funext r
            exact passes_ackRow h ..
          have hkey : sortKey ∘ ackRow eventId admin at' = sortKey := by
            funext r
            simp [sortKey]
          rw [hpasses, hkey]
        rw [hrows, hkeys]

theorem keys_run {f : ListingFilter} (h : f.acknowledged = none) (t : AlertDesk)
    (es : List DeskEvent) :
    (t.listingKeys f).Sublist ((Runs.run (step repr) t es).listingKeys f) := by
  induction es generalizing t with
  | nil => exact List.Sublist.refl _
  | cons e rest ih => exact (keys_step repr h t e).trans (ih _)

/-- The desk when the page of a number is asked for; `between k` is what happens after that. -/
def deskAt (repr : String → String) (t : AlertDesk) (between : ℕ → List DeskEvent) : ℕ → AlertDesk
  | 0 => t
  | k + 1 => Runs.run (step repr) (deskAt repr t between k) (between k)

theorem map_listAlerts (t : AlertDesk) (f : ListingFilter) (limit k : ℕ) :
    (t.listAlerts f limit (k * limit)).map sortKey = Paging.page limit k (t.listingKeys f) := by
  unfold listAlerts Paging.page listingKeys
  rw [List.map_take, List.map_drop]

/-- A row that was there at the first page is on one of the pages, if the last one comes up
short. -/
theorem listed_on_page {f : ListingFilter} (h : f.acknowledged = none) (t : AlertDesk)
    (between : ℕ → List DeskEvent) {limit last : ℕ}
    (hshort : ((deskAt repr t between last).listAlerts f limit (last * limit)).length < limit)
    {r : DeskRow} (hr : r ∈ t.rows) (hpasses : f.passes r = true) :
    ∃ k ≤ last, ∃ r' ∈ (deskAt repr t between k).listAlerts f limit (k * limit), r'.id = r.id := by
  have hmem : sortKey r ∈ (deskAt repr t between 0).listingKeys f := by
    refine List.mem_map_of_mem ?_
    unfold listing
    rw [List.mem_insertionSort]
    exact List.mem_filter.mpr ⟨hr, hpasses⟩
  have hgrow : ∀ k, ((deskAt repr t between k).listingKeys f).Sublist
      ((deskAt repr t between (k + 1)).listingKeys f) := fun k => keys_run h _ _
  rw [← List.length_map (f := sortKey), map_listAlerts] at hshort
  obtain ⟨k, hk, hshown⟩ := Paging.exists_page hgrow hmem hshort
  rw [← map_listAlerts] at hshown
  obtain ⟨r', hr', hkey⟩ := List.mem_map.mp hshown
  exact ⟨k, hk, r', hr', congrArg Prod.snd hkey⟩

/-- A page that is asked for by its number is answered if its size is allowed. -/
theorem readAlerts_page (t : AlertDesk) (f : ListingFilter) (limit k : ℕ) :
    readAlerts t f limit (k * limit)
      = if 1 ≤ limit ∧ limit ≤ 500 then .ok (t.listAlerts f limit (k * limit))
        else .error "limit must be between 1 and 500" := by
  have hoffset : ((k : ℤ) * limit).toNat = k * limit := by
    rw [← Nat.cast_mul, Int.toNat_natCast]
  have hnonneg : ¬ (k : ℤ) * limit < 0 := by
    rw [← Nat.cast_mul]
    exact not_lt.mpr (Int.natCast_nonneg _)
  unfold readAlerts
  by_cases hlimit : 1 ≤ limit ∧ limit ≤ 500
  · rw [if_neg (by omega), if_neg hnonneg, if_pos hlimit, Int.toNat_natCast, hoffset]
  · rw [if_pos (by omega), if_neg hlimit]

/-- **Reading the listing page by page misses nothing that was there at the first page**, while
alerts come in and are acknowledged between the pages, if one reads on until a page comes up
short. -/
theorem pages_complete {f : ListingFilter} (h : f.acknowledged = none) (t : AlertDesk)
    (between : ℕ → List DeskEvent) {limit last : ℕ} {final : List DeskRow}
    (hfinal : readAlerts (deskAt repr t between last) f limit (last * limit) = .ok final)
    (hshort : final.length < limit) {r : DeskRow} (hr : r ∈ t.rows) (hpasses : f.passes r = true) :
    ∃ k ≤ last, ∃ page, readAlerts (deskAt repr t between k) f limit (k * limit) = .ok page ∧
      ∃ r' ∈ page, r'.id = r.id := by
  rw [readAlerts_page] at hfinal
  split at hfinal
  · rename_i hlimit
    obtain rfl := Except.ok.inj hfinal
    obtain ⟨k, hk, r', hr', hid⟩ := listed_on_page h t between hshort hr hpasses
    exact ⟨k, hk, _, by rw [readAlerts_page, if_pos hlimit], r', hr', hid⟩
  · exact absurd hfinal (by simp)

/-- An alert of a moment. -/
def alertAt (eventId : String) (occurredAt : Time) : AlertIn where
  eventId
  eventType := "risk.breach"
  source := "risk"
  severity := "warning"
  title := "Risk breach"
  message := none
  symbol := none
  timeframe := none
  producer := "orchestrator"
  correlationId := none
  occurredAt
  payload := []

/-- A desk with one alert. -/
def oneAlert : AlertDesk where
  rows := [⟨5, alertAt "a" 100, none⟩]
  audit := []
  uniqueEvent := by simp
  uniqueId := by simp

/-- A newer alert comes in after the first page and pushes the old one to the second. -/
theorem pages_complete_pushed :
    ∃ k ≤ 2, ∃ page, readAlerts (deskAt id oneAlert (fun _ => [.save 6 (alertAt "b" 200)]) k) {}
        ((1 : ℕ) : ℤ) (k * (1 : ℕ)) = .ok page ∧ ∃ r' ∈ page, r'.id = 5 :=
  pages_complete rfl oneAlert (fun _ => [.save 6 (alertAt "b" 200)])
    (show readAlerts _ {} _ _ = .ok [] from rfl) (by decide) List.mem_cons_self rfl

end AlertDesk

end ForexAi
