/-
A batch of bars, acknowledged and analysed.

What the first loop keeps is one entry of each key, and every entry it has passed is either
kept or acknowledged (`Selecting`).  An entry that is replaced is acknowledged on the stream
of the entry that replaces it; the two have one timeframe, and a timeframe has one stream.
Stamps are compared as texts, and texts of stamps are in the order of the stamps, so the
entry that is kept is the latest (`select_step`).

The second loop acknowledges what was kept, whether the analysis fails or not.

Not every entry that is no bar is passed over.  Where the payload of a closed bar is no JSON
object, `_unwrap` asks it for its items outside of its `try`, and the poll is lost with all
that it read: nothing of it is acknowledged (`unwrap_raised_iff`, `select_bare`).  A poll
handles its batch when it has read no such entry, and only then.
-/
import ForexAi.Bus.Chronology
import ForexAi.Workers.AgentPoll
import Mathlib.Data.List.Nodup

namespace ForexAi

/-- What an entry is acknowledged under. -/
def StreamEntry.ack (e : StreamEntry) : String × String := (e.stream, e.id)

def SelectedBar.ack (s : SelectedBar) : String × String := (s.stream, s.entryId)

namespace AgentPoll

variable (fromJson : String → Option Envelope)

/-- The entry was written by the ingest service for a bar, on the stream of its timeframe. -/
structure Written (e : StreamEntry) (bar : BarEnvelope) : Prop where
  present : e.data ≠ ""
  decoded : fromJson e.data = some ⟨"bar.closed", some bar.payload⟩
  stream : e.stream = barsClosedTopic bar.timeframe
  stamp : Representable bar.bucketStart

/-- The entry as it is kept. -/
def pick (c : StreamEntry × BarEnvelope) : SelectedBar :=
  ⟨c.2.key, c.1.id, c.1.stream, c.2.fields⟩

variable {fromJson}

theorem Written.unwrap_eq {e : StreamEntry} {bar : BarEnvelope} (h : Written fromJson e bar) :
    unwrap fromJson e.data = .bar bar.fields := by
  unfold unwrap
  rw [if_neg h.present, h.decoded]
  simp [BarEnvelope.fields, BarEnvelope.payload]

/-- An entry is of one key and one start. -/
theorem Written.unique {e : StreamEntry} {bar bar' : BarEnvelope} (h : Written fromJson e bar)
    (h' : Written fromJson e bar') :
    bar.key = bar'.key ∧ bar.bucketStart = bar'.bucketStart := by
  have hsame : Unwrapped.bar bar.fields = .bar bar'.fields :=
    h.unwrap_eq.symm.trans h'.unwrap_eq
  have hfields : bar.fields = bar'.fields := Unwrapped.bar.inj hsame
  refine ⟨?_, (isoformat_inj h.stamp h'.stamp).mp ?_⟩
  · rw [← BarEnvelope.keyOf_fields, ← BarEnvelope.keyOf_fields, hfields]
  · rw [← BarEnvelope.stampOf_fields, ← BarEnvelope.stampOf_fields, hfields]

/-! ### The first loop

The loop goes through the streams in order and keeps a bar for each key.  Of two bars of one
key one is acknowledged without being analysed, and it is the older one, or of the same start.
-/

variable (fromJson)

/-- What the first loop has done with the entries it has passed. -/
structure Selecting (seen : List StreamEntry) (st : BarSelection)
    (chosen : List (StreamEntry × BarEnvelope)) : Prop where
  selected : st.selected = chosen.map pick
  written : ∀ c ∈ chosen, c.1 ∈ seen ∧ Written fromJson c.1 c.2
  distinct : (chosen.map (·.2.key)).Nodup
  newest : ∀ e ∈ seen, ∀ bar, Written fromJson e bar →
    ∃ c ∈ chosen, c.2.key = bar.key ∧ bar.bucketStart ≤ c.2.bucketStart
  acked : (st.acks ++ st.selected.map (·.ack)).Perm (seen.map (·.ack))
  counted : st.skippedStale = st.acks.length

variable {fromJson} {seen : List StreamEntry} {st : BarSelection}
  {chosen : List (StreamEntry × BarEnvelope)}

theorem Selecting.grows (h : Selecting fromJson seen st chosen) (e : StreamEntry) :
    ∀ c ∈ chosen, c.1 ∈ seen ++ [e] ∧ Written fromJson c.1 c.2 := by
  intro c hc
  exact ⟨List.mem_append_left _ (h.written c hc).1, (h.written c hc).2⟩

theorem Selecting.pass (h : Selecting fromJson seen st chosen) (e : StreamEntry)
    (hlate : ∀ bar, Written fromJson e bar →
      ∃ c ∈ chosen, c.2.key = bar.key ∧ bar.bucketStart ≤ c.2.bucketStart) :
    Selecting fromJson (seen ++ [e]) (st.pass e.stream e.id) chosen := by
  refine ⟨h.selected, h.grows e, h.distinct, fun e' he' bar hbar => ?_, ?_, ?_⟩
  · rcases List.mem_append.mp he' with hin | hin
    · exact h.newest e' hin bar hbar
    · rw [List.mem_singleton.mp hin] at hbar
      exact hlate bar hbar
  · show ((st.acks ++ [e.ack]) ++ st.selected.map (·.ack)).Perm ((seen ++ [e]).map (·.ack))
    have hmove : ((st.acks ++ [e.ack]) ++ st.selected.map (·.ack)).Perm
        ((st.acks ++ st.selected.map (·.ack)) ++ [e.ack]) := by
      rw [List.append_assoc, List.append_assoc]
      exact List.perm_append_comm.append_left st.acks
    rw [List.map_append]
    exact hmove.trans (h.acked.append_right _)
  · show st.skippedStale + 1 = (st.acks ++ [(e.stream, e.id)]).length
    rw [h.counted, List.length_append, List.length_singleton]

/-- The first bar of its key is kept. -/
theorem Selecting.first (h : Selecting fromJson seen st chosen) {e : StreamEntry}
    {bar : BarEnvelope} (hbar : Written fromJson e bar)
    (hfresh : bar.key ∉ chosen.map (·.2.key)) :
    Selecting fromJson (seen ++ [e]) { st with selected := st.selected ++ [pick (e, bar)] }
      (chosen ++ [(e, bar)]) := by
  refine ⟨?_, fun c hc => ?_, ?_, fun e' he' bar' hbar' => ?_, ?_, h.counted⟩
  · rw [List.map_append, ← h.selected]
    rfl
  · rcases List.mem_append.mp hc with hin | hin
    · exact h.grows e c hin
    · rw [List.mem_singleton.mp hin]
      exact ⟨by simp, hbar⟩
  · rw [List.map_append]
    refine List.nodup_append.mpr ⟨h.distinct, List.nodup_singleton _, fun a ha b hb => ?_⟩
    rw [List.mem_singleton.mp hb]
    intro heq
    rw [heq] at ha
    exact hfresh ha
  · rcases List.mem_append.mp he' with hin | hin
    · obtain ⟨c, hc, hkey, hle⟩ := h.newest e' hin bar' hbar'
      exact ⟨c, List.mem_append_left _ hc, hkey, hle⟩
    · rw [List.mem_singleton.mp hin] at hbar'
      obtain ⟨hkey, hstart⟩ := hbar.unique hbar'
      exact ⟨(e, bar), by simp, hkey, hstart.ge⟩
  · show (st.acks ++ (st.selected ++ [pick (e, bar)]).map (·.ack)).Perm _
    rw [List.map_append, List.map_append, ← List.append_assoc]
    exact h.acked.append_right _

theorem replace_split {before after : List SelectedBar} {old new : SelectedBar}
    (hkey : old.key = new.key) (hfresh : ∀ s ∈ before ++ after, s.key ≠ new.key) :
    replace (before ++ old :: after) new = before ++ new :: after := by
  have hid : ∀ l : List SelectedBar, (∀ s ∈ l, s.key ≠ new.key) →
      l.map (fun s => if s.key = new.key then new else s) = l := by
    intro l hl
    refine (List.map_congr_left fun s hs => ?_).trans (List.map_id l)
    exact if_neg (hl s hs)
  unfold replace
  rw [List.map_append, List.map_cons, if_pos hkey,
    hid before fun s hs => hfresh s (List.mem_append_left _ hs),
    hid after fun s hs => hfresh s (List.mem_append_right _ hs)]

theorem replace_pick {before after : List (StreamEntry × BarEnvelope)}
    {old new : StreamEntry × BarEnvelope}
    (hdistinct : ((before ++ old :: after).map (·.2.key)).Nodup) (hkey : old.2.key = new.2.key) :
    replace ((before ++ old :: after).map pick) (pick new) = (before ++ new :: after).map pick := by
  rw [List.map_append, List.map_cons, List.nodup_middle, List.nodup_cons] at hdistinct
  have hfresh : ∀ s ∈ before.map pick ++ after.map pick, s.key ≠ (pick new).key := by
    intro s hs hsame
    rw [← List.map_append] at hs
    obtain ⟨c, hc, rfl⟩ := List.mem_map.mp hs
    refine hdistinct.1 ?_
    rw [← List.map_append, hkey]
    exact List.mem_map.mpr ⟨c, hc, hsame⟩
  rw [List.map_append, List.map_cons, @replace_split _ _ (pick old) (pick new) hkey hfresh,
    List.map_append, List.map_cons]

/-- Of one key and no earlier, a bar is as good a witness as the one it replaces. -/
theorem newest_replaced {before after : List (StreamEntry × BarEnvelope)}
    {old new : StreamEntry × BarEnvelope} (hkey : old.2.key = new.2.key)
    (hlater : old.2.bucketStart ≤ new.2.bucketStart) {bar : BarEnvelope}
    (h : ∃ c ∈ before ++ old :: after, c.2.key = bar.key ∧ bar.bucketStart ≤ c.2.bucketStart) :
    ∃ c ∈ before ++ new :: after, c.2.key = bar.key ∧ bar.bucketStart ≤ c.2.bucketStart := by
  obtain ⟨c, hc, hsame, hle⟩ := h
  rcases List.mem_append.mp hc with hc | hc
  · exact ⟨c, by simp [hc], hsame, hle⟩
  · rcases List.mem_cons.mp hc with rfl | hc
    · exact ⟨new, by simp, hkey.symm.trans hsame, hle.trans hlater⟩
    · exact ⟨c, by simp [hc], hsame, hle⟩

theorem Written.stream_eq {e e' : StreamEntry} {bar bar' : BarEnvelope} (h : Written fromJson e bar)
    (h' : Written fromJson e' bar') (hkey : bar.key = bar'.key) : e.stream = e'.stream := by
  have htimeframe : bar.timeframe = bar'.timeframe := congrArg Prod.snd hkey
  rw [h.stream, h'.stream, htimeframe]

/-- A bar at least as late replaces the one kept, which is acknowledged. -/
theorem Selecting.replaces {before after : List (StreamEntry × BarEnvelope)}
    {old : StreamEntry × BarEnvelope}
    (h : Selecting fromJson seen st (before ++ old :: after)) {e : StreamEntry}
    {bar : BarEnvelope} (hbar : Written fromJson e bar) (hkey : old.2.key = bar.key)
    (hlater : old.2.bucketStart ≤ bar.bucketStart) :
    Selecting fromJson (seen ++ [e])
      { st.pass e.stream (pick old).entryId with
        selected := replace st.selected (pick (e, bar)) }
      (before ++ (e, bar) :: after) := by
  have hselected : replace st.selected (pick (e, bar))
      = (before ++ (e, bar) :: after).map pick := by
    rw [h.selected]
    exact replace_pick h.distinct hkey
  have hstream : (e.stream, (pick old).entryId) = (pick old).ack := by
    rw [← (h.written old (by simp)).2.stream_eq hbar hkey]
    rfl
  refine ⟨hselected, fun c hc => ?_, ?_, fun e' he' bar' hbar' => ?_, ?_, ?_⟩
  · rcases List.mem_append.mp hc with hin | hin
    · exact h.grows e c (List.mem_append_left _ hin)
    · rcases List.mem_cons.mp hin with rfl | hin
      · exact ⟨by simp, hbar⟩
      · exact h.grows e c (by simp [hin])
  · have hdistinct := h.distinct
    rw [List.map_append, List.map_cons] at hdistinct ⊢
    rw [hkey] at hdistinct
    exact hdistinct
  · rcases List.mem_append.mp he' with hin | hin
    · exact @newest_replaced _ _ old (e, bar) hkey hlater _ (h.newest e' hin bar' hbar')
    · rw [List.mem_singleton.mp hin] at hbar'
      obtain ⟨hsame, hstart⟩ := hbar.unique hbar'
      exact ⟨(e, bar), by simp, hsame, hstart.ge⟩
  · show ((st.acks ++ [(e.stream, (pick old).entryId)]) ++
      (replace st.selected (pick (e, bar))).map (·.ack)).Perm _
    rw [hstream, hselected]
    have hacked := h.acked
    rw [h.selected] at hacked
    refine List.Perm.trans ?_ ((hacked.append_right [e.ack]).trans (by simp))
    refine List.perm_iff_count.mpr fun a => ?_
    have hnew : (pick (e, bar)).ack = e.ack := rfl
    simp only [List.map_append, List.map_cons, List.count_append, List.count_cons, List.count_nil,
      hnew]
    omega
  · show st.skippedStale + 1 = (st.acks ++ [_]).length
    rw [h.counted, List.length_append, List.length_singleton]

/-- **What one entry does to the selection**, where it is a bar or `None` comes of it. -/
theorem select_step (h : Selecting fromJson seen st chosen) {e : StreamEntry}
    (he : unwrap fromJson e.data = .unparseable ∨ ∃ bar, Written fromJson e bar) :
    ∃ st' chosen', select fromJson st e = some st' ∧
      Selecting fromJson (seen ++ [e]) st' chosen' := by
  rcases he with hbad | ⟨bar, hbar⟩
  · refine ⟨_, chosen, ?_, h.pass e fun bar hbar => ?_⟩
    · unfold select
      rw [hbad]
    · have hboth : Unwrapped.unparseable = .bar bar.fields := hbad.symm.trans hbar.unwrap_eq
      exact absurd hboth (by simp)
  · cases hfind : held st.selected bar.key with
    | none =>
        refine ⟨_, _, ?_, h.first hbar fun hmem => ?_⟩
        · unfold select
          rw [hbar.unwrap_eq]
          simp only [BarEnvelope.keyOf_fields, hfind]
          rfl
        · obtain ⟨c, hc, hkey⟩ := List.mem_map.mp hmem
          have hpick : pick c ∈ st.selected := by
            rw [h.selected]
            exact List.mem_map_of_mem hc
          have hother := List.find?_eq_none.mp hfind _ hpick
          exact hother (decide_eq_true hkey)
    | some previous =>
        obtain ⟨hprevious, before', after', hsplit, -⟩ := List.find?_eq_some_iff_append.mp hfind
        have hkey : previous.key = bar.key := of_decide_eq_true hprevious
        rw [h.selected] at hsplit
        obtain ⟨before, rest, rfl, rfl, hrest⟩ := List.map_eq_append_iff.mp hsplit
        obtain ⟨old, after, rfl, rfl, rfl⟩ := List.map_eq_cons_iff.mp hrest
        have hold := (h.written old (by simp)).2
        have hselect : select fromJson st e = if isoformat old.2.bucketStart
            ≤ isoformat bar.bucketStart then
              some { st.pass e.stream (pick old).entryId with
                selected := replace st.selected (pick (e, bar)) }
            else some (st.pass e.stream e.id) := by
          unfold select
          rw [hbar.unwrap_eq]
          simp only [BarEnvelope.keyOf_fields, hfind]
          rfl
        rw [hselect]
        by_cases hlater : isoformat old.2.bucketStart ≤ isoformat bar.bucketStart
        · rw [if_pos hlater]
          exact ⟨_, _, rfl,
            h.replaces hbar hkey ((isoformat_le_iff hold.stamp hbar.stamp).mp hlater)⟩
        · rw [if_neg hlater]
          refine ⟨_, _, rfl, h.pass e fun bar' hbar' => ⟨old, by simp, ?_, ?_⟩⟩
          · exact hkey.trans (hbar.unique hbar').1
          · rw [← (hbar.unique hbar').2]
            have hnot := (isoformat_le_iff hold.stamp hbar.stamp).not.mp hlater
            exact (not_le.mp hnot).le

theorem select_run (entries : List StreamEntry) (h : Selecting fromJson seen st chosen)
    (hentries : ∀ e ∈ entries,
      unwrap fromJson e.data = .unparseable ∨ ∃ bar, Written fromJson e bar) :
    ∃ st' chosen', entries.foldlM (select fromJson) st = some st' ∧
      Selecting fromJson (seen ++ entries) st' chosen' := by
  induction entries generalizing seen st chosen with
  | nil => exact ⟨st, chosen, rfl, by rwa [List.append_nil]⟩
  | cons e rest ih =>
      obtain ⟨st', chosen', hselect, hnext⟩ := select_step h (hentries e List.mem_cons_self)
      obtain ⟨st'', chosen'', hrest, hend⟩ :=
        ih hnext fun e' he' => hentries e' (List.mem_cons_of_mem _ he')
      refine ⟨st'', chosen'', ?_, ?_⟩
      · rw [List.foldlM_cons, hselect]
        exact hrest
      · rwa [List.append_assoc] at hend

/-- **The entries on which `_unwrap` raises.** -/
theorem unwrap_raised_iff (fromJson : String → Option Envelope) (e : StreamEntry) :
    unwrap fromJson e.data = .raised ↔ Bare fromJson e := by
  unfold unwrap Bare
  by_cases hdata : e.data = ""
  · simp [hdata]
  · cases hjson : fromJson e.data with
    | none => simp [hdata]
    | some event =>
        obtain ⟨eventType, payload⟩ := event
        by_cases htype : eventType = "bar.closed"
        · cases payload with
          | none => simp [hdata, htype]
          | some payload =>
              by_cases hempty : payload = []
              · simp [hdata, htype, hempty]
              · simp [hdata, htype, hempty]
        · simp [hdata, htype]

/-- What is no bar and is not raised on is passed over. -/
theorem Undecodable.unparseable {e : StreamEntry} (h : Undecodable fromJson e)
    (hbare : ¬ Bare fromJson e) : unwrap fromJson e.data = .unparseable := by
  cases hunwrap : unwrap fromJson e.data with
  | bar fields => exact absurd hunwrap (h fields)
  | unparseable => rfl
  | raised => exact absurd ((unwrap_raised_iff fromJson e).mp hunwrap) hbare

/-- Wherever such an entry stands, the loop does not get past it. -/
theorem select_bare {entries : List StreamEntry} {e : StreamEntry} (he : e ∈ entries)
    (hbare : Bare fromJson e) (st : BarSelection) :
    entries.foldlM (select fromJson) st = none := by
  induction entries generalizing st with
  | nil => exact absurd he List.not_mem_nil
  | cons first rest ih =>
      rw [List.foldlM_cons]
      rcases List.mem_cons.mp he with rfl | he
      · have hraised : select fromJson st e = none := by
          unfold select
          rw [(unwrap_raised_iff fromJson e).mpr hbare]
        rw [hraised]
        rfl
      · cases select fromJson st first with
        | none => rfl
        | some st' => exact ih he st'

/-! ### The second loop -/

/-- **What the second loop does**: every kept entry is analysed once and acknowledged. -/
theorem analyse_run (outcome : ℕ → Option ℕ) (kept : List (SelectedBar × ℕ)) (batch : AgentBatch) :
    (kept.foldl (analyse outcome) batch).acks = batch.acks ++ kept.map (·.1.ack) ∧
      (kept.foldl (analyse outcome) batch).calls = batch.calls ++ kept.map (·.1) ∧
      (kept.foldl (analyse outcome) batch).skippedStale = batch.skippedStale ∧
      (kept.foldl (analyse outcome) batch).processed + (kept.foldl (analyse outcome) batch).errors
        = batch.processed + batch.errors + kept.length := by
  induction kept generalizing batch with
  | nil => simp
  | cons next rest ih =>
      obtain ⟨hacks, hcalls, hskipped, hcount⟩ := ih (analyse outcome batch next)
      have hstep : (analyse outcome batch next).acks = batch.acks ++ [next.1.ack] ∧
          (analyse outcome batch next).calls = batch.calls ++ [next.1] ∧
          (analyse outcome batch next).skippedStale = batch.skippedStale ∧
          (analyse outcome batch next).processed + (analyse outcome batch next).errors
            = batch.processed + batch.errors + 1 := by
        unfold analyse
        cases outcome next.2 with
        | none => exact ⟨rfl, rfl, rfl, by simp only; omega⟩
        | some written => exact ⟨rfl, rfl, rfl, by simp only; omega⟩
      rw [List.foldl_cons]
      refine ⟨?_, ?_, ?_, ?_⟩
      · rw [hacks, hstep.1, List.append_assoc]
        rfl
      · rw [hcalls, hstep.2.1, List.append_assoc]
        rfl
      · rw [hskipped, hstep.2.2.1]
      · rw [hcount, hstep.2.2.2, List.length_cons]
        omega

/-! ### The batch

The acknowledgements are sent at the end, and an exception on the way is the end of the poll.
So either all of the batch is handled or none of it is acknowledged.
-/

/-- What is asked of a batch. -/
structure Handled (fromJson : String → Option Envelope) (entries : List StreamEntry)
    (batch : AgentBatch) : Prop where
  /-- Every entry is acknowledged once, on its stream. -/
  acked : batch.acks.Perm (entries.map (·.ack))
  /-- Every key present is analysed, and once. -/
  once : (batch.calls.map (·.key)).Nodup
  present : ∀ key, key ∈ batch.calls.map (·.key) ↔
    ∃ e ∈ entries, ∃ bar, Written fromJson e bar ∧ bar.key = key
  /-- What is analysed is an entry with the latest start of its key. -/
  newest : ∀ call ∈ batch.calls, ∃ e ∈ entries, ∃ bar, Written fromJson e bar ∧
    call = pick (e, bar) ∧ ∀ e' ∈ entries, ∀ bar', Written fromJson e' bar' →
      bar'.key = bar.key → bar'.bucketStart ≤ bar.bucketStart
  /-- The counts add up. -/
  ran : batch.processed + batch.errors = batch.calls.length
  counted : batch.processed + batch.errors + batch.skippedStale = entries.length

/-- Where every entry is a bar or `None` comes of it, the batch is handled. -/
theorem handled_of_read (fromJson : String → Option Envelope) (outcome : ℕ → Option ℕ)
    (response : List (String × List (String × String)))
    (hentries : ∀ e ∈ entriesOf response,
      unwrap fromJson e.data = .unparseable ∨ ∃ bar, Written fromJson e bar) :
    ∃ batch, pollOnce fromJson outcome response = some batch ∧
      Handled fromJson (entriesOf response) batch := by
  have hstart : Selecting fromJson [] {} [] :=
    ⟨rfl, fun c hc => absurd hc (by simp), List.nodup_nil, fun e he => absurd he (by simp),
      List.Perm.refl _, rfl⟩
  obtain ⟨st, chosen, hrun, hend⟩ := select_run (entriesOf response) hstart hentries
  rw [List.nil_append] at hend
  obtain ⟨hacks, hcalls, hskipped, hcount⟩ := analyse_run outcome st.selected.zipIdx
    { skippedStale := st.skippedStale, acks := st.acks }
  refine ⟨_, by unfold pollOnce; rw [hrun], ?_⟩
  have hfirst : st.selected.zipIdx.map (·.1) = st.selected := List.zipIdx_map_fst _ _
  have hkept : st.selected.zipIdx.map (·.1.ack) = st.selected.map (·.ack) := by
    conv_rhs => rw [← hfirst, List.map_map]
    rfl
  rw [hfirst, List.nil_append] at hcalls
  rw [hkept] at hacks
  have hkeys : st.selected.map (·.key) = chosen.map (·.2.key) := by
    rw [hend.selected, List.map_map]
    rfl
  refine ⟨by rw [hacks]; exact hend.acked, by rw [hcalls, hkeys]; exact hend.distinct,
    fun key => ?_, fun call hcall => ?_, ?_, ?_⟩
  · rw [hcalls, hkeys]
    refine ⟨fun hmem => ?_, ?_⟩
    · obtain ⟨c, hc, hkey⟩ := List.mem_map.mp hmem
      obtain ⟨hin, hwritten⟩ := hend.written c hc
      exact ⟨c.1, hin, c.2, hwritten, hkey⟩
    · rintro ⟨e, he, bar, hbar, hkey⟩
      obtain ⟨c, hc, hsame, -⟩ := hend.newest e he bar hbar
      exact List.mem_map.mpr ⟨c, hc, hsame.trans hkey⟩
  · rw [hcalls, hend.selected] at hcall
    obtain ⟨c, hc, rfl⟩ := List.mem_map.mp hcall
    obtain ⟨hin, hwritten⟩ := hend.written c hc
    refine ⟨c.1, hin, c.2, hwritten, rfl, fun e' he' bar' hbar' hkey => ?_⟩
    obtain ⟨c', hc', hsame, hle⟩ := hend.newest e' he' bar' hbar'
    -- Of each key one entry is kept.
    have hequal : c' = c := List.inj_on_of_nodup_map hend.distinct hc' hc (hsame.trans hkey)
    rwa [hequal] at hle
  · rw [hcount, hcalls, List.length_zipIdx]
    simp
  · rw [hcount, hskipped, List.length_zipIdx, hend.counted]
    have hlength := hend.acked.length_eq
    rw [List.length_append, List.length_map, List.length_map] at hlength
    simp only
    omega

/-- **A poll handles its batch if and only if `_unwrap` raises on none of its entries.** -/
theorem poll_handles_iff (fromJson : String → Option Envelope) (outcome : ℕ → Option ℕ)
    (response : List (String × List (String × String)))
    (hentries : ∀ e ∈ entriesOf response,
      Undecodable fromJson e ∨ ∃ bar, Written fromJson e bar) :
    (∃ batch, pollOnce fromJson outcome response = some batch ∧
        Handled fromJson (entriesOf response) batch) ↔
      ∀ e ∈ entriesOf response, ¬ Bare fromJson e := by
  constructor
  · rintro ⟨batch, hpoll, -⟩ e he hbare
    have hnone : pollOnce fromJson outcome response = none := by
      unfold pollOnce
      rw [select_bare he hbare]
    exact absurd (hnone.symm.trans hpoll) (by simp)
  · intro hbare
    refine handled_of_read fromJson outcome response fun e he => ?_
    exact (hentries e he).imp_left fun hbad => hbad.unparseable (hbare e he)

/-- A bar of the euro that starts at some hour. -/
def euroHour (hour : ℕ) : BarEnvelope where
  symbol := "EURUSD"
  timeframe := "H1"
  bucketStart := seconds (3600 * hour)
  rest := [("source", .text "synthetic")]

/-- The envelope of the bar, as it is sent. -/
def euroJson (hour : ℕ) : String :=
  "\x7b\"event_type\":\"bar.closed\",\"payload\":\x7b\"symbol\":\"EURUSD\",\"timeframe\":\"H1\"," ++
    "\"ts\":\"" ++ isoformat (seconds (3600 * hour)) ++ "\",\"source\":\"synthetic\"\x7d," ++
    "\"producer\":\"ingest\",\"produced_at\":\"1970-01-01T06:00:00+00:00\"\x7d"

/-- An envelope whose payload is an array. -/
def bareJson : String :=
  "\x7b\"event_type\":\"bar.closed\",\"payload\":[],\"producer\":\"ingest\"," ++
    "\"produced_at\":\"1970-01-01T06:00:00+00:00\"\x7d"

/-- The decoder, on two bars, on the array and on what is no envelope. -/
def euroDecoder (data : String) : Option Envelope :=
  if data = euroJson 1 then some ⟨"bar.closed", some (euroHour 1).payload⟩
  else if data = euroJson 0 then some ⟨"bar.closed", some (euroHour 0).payload⟩
  else if data = bareJson then some ⟨"bar.closed", none⟩
  else none

/-- The newer bar, an entry that is no envelope, and the older bar. -/
def euroResponse : List (String × List (String × String)) :=
  [("bars.closed.H1", [("1-0", euroJson 1), ("2-0", "bar"), ("3-0", euroJson 0)])]

theorem euro_first : Written euroDecoder ⟨"bars.closed.H1", "1-0", euroJson 1⟩ (euroHour 1) :=
  ⟨by decide +kernel, if_pos rfl, rfl, by decide⟩

theorem euro_second : unwrap euroDecoder "bar" = .unparseable := by
  have hnone : euroDecoder "bar" = none := by
    unfold euroDecoder
    rw [if_neg (by decide +kernel), if_neg (by decide +kernel), if_neg (by decide +kernel)]
  unfold unwrap
  rw [hnone]
  rfl

theorem euro_third : Written euroDecoder ⟨"bars.closed.H1", "3-0", euroJson 0⟩ (euroHour 0) := by
  refine ⟨by decide +kernel, ?_, rfl, by decide⟩
  show euroDecoder (euroJson 0) = _
  unfold euroDecoder
  rw [if_neg (by decide +kernel), if_pos rfl]

theorem euro_entries : entriesOf euroResponse = [⟨"bars.closed.H1", "1-0", euroJson 1⟩,
    ⟨"bars.closed.H1", "2-0", "bar"⟩, ⟨"bars.closed.H1", "3-0", euroJson 0⟩] := rfl

/-- The response is handled though its one analysis fails. -/
theorem euro_handled : ∃ batch, pollOnce euroDecoder (fun _ => none) euroResponse = some batch ∧
    Handled euroDecoder (entriesOf euroResponse) batch := by
  have hentries : ∀ e ∈ entriesOf euroResponse,
      Undecodable euroDecoder e ∨ ∃ bar, Written euroDecoder e bar := by
    rw [euro_entries]
    refine List.forall_mem_cons.mpr ⟨Or.inr ⟨_, euro_first⟩, List.forall_mem_cons.mpr
      ⟨Or.inl fun fields => ?_, List.forall_mem_singleton.mpr (Or.inr ⟨_, euro_third⟩)⟩⟩
    rw [euro_second]
    simp
  refine (poll_handles_iff euroDecoder (fun _ => none) euroResponse hentries).mpr ?_
  intro e he hbare
  have hraised := (unwrap_raised_iff euroDecoder e).mpr hbare
  rw [euro_entries] at he
  simp only [List.mem_cons, List.not_mem_nil, or_false] at he
  rcases he with rfl | rfl | rfl
  · exact absurd (euro_first.unwrap_eq.symm.trans hraised) (by simp)
  · exact absurd (euro_second.symm.trans hraised) (by simp)
  · exact absurd (euro_third.unwrap_eq.symm.trans hraised) (by simp)

/-- A bar, and an envelope whose payload is an array. -/
def bareResponse : List (String × List (String × String)) :=
  [("bars.closed.H1", [("1-0", euroJson 1), ("2-0", bareJson)])]

/-- The poll raises on the second entry, and the bar before it is not acknowledged. -/
theorem bare_unhandled :
    (∀ e ∈ entriesOf bareResponse,
        Undecodable euroDecoder e ∨ ∃ bar, Written euroDecoder e bar) ∧
      pollOnce euroDecoder (fun _ => some 1) bareResponse = none ∧
      ¬ ∃ batch, pollOnce euroDecoder (fun _ => some 1) bareResponse = some batch ∧
        Handled euroDecoder (entriesOf bareResponse) batch := by
  have hentries : entriesOf bareResponse =
      [⟨"bars.closed.H1", "1-0", euroJson 1⟩, ⟨"bars.closed.H1", "2-0", bareJson⟩] := rfl
  have hbare : Bare euroDecoder ⟨"bars.closed.H1", "2-0", bareJson⟩ := by
    refine ⟨by decide +kernel, ?_⟩
    show euroDecoder bareJson = _
    unfold euroDecoder
    rw [if_neg (by decide +kernel), if_neg (by decide +kernel), if_pos rfl]
  have hraised := (unwrap_raised_iff _ _).mpr hbare
  have hnone : pollOnce euroDecoder (fun _ => some 1) bareResponse = none := by
    unfold pollOnce
    rw [select_bare (by rw [hentries]; simp) hbare]
  refine ⟨?_, hnone, fun ⟨batch, hpoll, _⟩ => ?_⟩
  · rw [hentries]
    refine List.forall_mem_cons.mpr
      ⟨Or.inr ⟨_, euro_first⟩, List.forall_mem_singleton.mpr (Or.inl fun fields => ?_)⟩
    rw [hraised]
    simp
  · rw [hnone] at hpoll
    exact absurd hpoll (by simp)

end AgentPoll

end ForexAi
