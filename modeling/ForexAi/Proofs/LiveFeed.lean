/-
The live feed forwards what was added since it asked.

Once a connection has asked where a stream ends, what it has forwarded of the stream and what
lies past its cursor make up what was added since (`Follows`), in order: an addition goes to
the end of what lies past the cursor, and a read moves up to fifty entries of its front over.
This starts when the answer is the end of the stream.  An answer that failed counts as the
stream's beginning, and then all the stream still holds is forwarded.
-/
import ForexAi.Realtime.Hub

namespace ForexAi

variable (lib : FeedLibrary)

/-! ### What a read does

A call of `xread` names the streams that have a cursor and gets at most one batch of each.
What the connection makes of the answer is a fold over it, and the lemmas here take the fold
apart by topic: what is sent under a topic, and where its cursor ends up, depends on the
entries of that topic alone.
-/

/-- The frames of entries of a topic. -/
def framesOf (t : FeedTopic) (entries : List EntryFields) : List EventFrame :=
  entries.filterMap fun fields =>
    match decodeEntry lib fields with
    | .event e => some (eventFrame lib.sha256 t.name e)
    | _ => none

theorem framesOf_append (t : FeedTopic) (entries more : List EntryFields) :
    framesOf lib t (entries ++ more) = framesOf lib t entries ++ framesOf lib t more :=
  List.filterMap_append

theorem name_inj {t t' : FeedTopic} : t.name = t'.name ↔ t = t' := by
  cases t <;> cases t' <;> decide

theorem sendEntries_topic {batch : List (FeedTopic × EntryFields)}
    (h : ∀ e ∈ batch, decodeEntry lib e.2 ≠ .unframeable) (t : FeedTopic) :
    ((sendEntries lib (batch.map fun e => (e.1, decodeEntry lib e.2))).1.filterMap fun frame =>
        if frame.topic = t.name then some frame else none)
      = framesOf lib t ((batch.filter fun e => decide (e.1 = t)).map (·.2)) ∧
    (sendEntries lib (batch.map fun e => (e.1, decodeEntry lib e.2))).2 = true := by
  induction batch with
  | nil => exact ⟨rfl, rfl⟩
  | cons e rest ih =>
      obtain ⟨hframes, halive⟩ := ih fun e' he' => h e' (List.mem_cons_of_mem _ he')
      have hhead := h e List.mem_cons_self
      rw [List.map_cons, List.filter_cons]
      cases hdecoded : decodeEntry lib e.2 with
      | unframeable => exact absurd hdecoded hhead
      | poison =>
          refine ⟨?_, halive⟩
          rw [sendEntries, hframes]
          by_cases ht : e.1 = t
          · simp [ht, framesOf, hdecoded]
          · simp [ht]
      | event event =>
          refine ⟨?_, halive⟩
          rw [sendEntries]
          by_cases ht : e.1 = t
          · simp only [ht, framesOf, hdecoded, decide_true, List.map_cons, List.filterMap_cons,
              if_true]
            rw [← framesOf, ← hframes]
            simp [eventFrame]
          · have hname : ¬ e.1.name = t.name := fun hname => ht (name_inj.mp hname)
            simp only [ht, decide_false, Bool.false_eq_true, if_false]
            rw [← hframes, List.filterMap_cons]
            simp [eventFrame, hname]

/-- What a read returns of a topic. -/
def FeedState.batch (s : FeedState) (t : FeedTopic) : List (ℕ × EntryFields) :=
  (s.streams t).readPast ((s.since t).getD 0) 50

/-- The entries of an answer are decoded, and each stream with new entries gets its cursor. -/
theorem readOnce_fold (answers : List (FeedTopic × List (ℕ × EntryFields)))
    (entries : List (FeedTopic × List (ℕ × Decoded))) (since : FeedTopic → Option ℕ) :
    answers.foldl (takeAnswer lib) (entries, since)
      = (entries ++ answers.map fun a => (a.1, decodeStreamEntries lib a.2),
          answers.foldl
            (fun since a => Function.update since a.1 ((a.2.getLast?.map (·.1)).or (since a.1)))
            since) := by
  induction answers generalizing entries since with
  | nil => simp
  | cons a rest ih =>
      have hlast : (decodeStreamEntries lib a.2).getLast?
          = a.2.getLast?.map fun e => (e.1, decodeEntry lib e.2) := by
        unfold decodeStreamEntries
        rw [List.getLast?_map]
      rw [List.foldl_cons, List.foldl_cons, takeAnswer, ih, hlast]
      refine Prod.ext (by simp) ?_
      cases a.2.getLast? with
      | none => simp
      | some last => simp

theorem cursor_fold {answers : List (FeedTopic × List (ℕ × EntryFields))}
    (hnodup : (answers.map (·.1)).Nodup) (since : FeedTopic → Option ℕ) (t : FeedTopic) :
    answers.foldl
        (fun since a => Function.update since a.1 ((a.2.getLast?.map (·.1)).or (since a.1))) since t
      = (((answers.find? fun a => decide (a.1 = t)).bind fun a => a.2.getLast?.map (·.1)).or
          (since t)) := by
  induction answers generalizing since with
  | nil => simp
  | cons a rest ih =>
      rw [List.map_cons, List.nodup_cons] at hnodup
      rw [List.foldl_cons, ih hnodup.2, List.find?_cons]
      by_cases ht : a.1 = t
      · have hnone : (rest.find? fun a => decide (a.1 = t)) = none := by
          refine List.find?_eq_none.mpr fun b hb => ?_
          have hne : b.1 ≠ t := fun hb' =>
            hnodup.1 (List.mem_map.mpr ⟨b, hb, hb'.trans ht.symm⟩)
          simpa using hne
        rw [hnone]
        simp [ht]
      · rw [Function.update_of_ne (Ne.symm ht)]
        simp [ht]

/-- The entries of an answer, each with its topic. -/
def entriesOfAnswer (answers : List (FeedTopic × List (ℕ × EntryFields))) :
    List (FeedTopic × EntryFields) :=
  answers.flatMap fun a => a.2.map fun e => (a.1, e.2)

section Response

variable (streams : FeedTopic → LogStream EntryFields) (since : FeedTopic → Option ℕ)

theorem feedResponse_cons (t : FeedTopic) (topics : List FeedTopic) :
    feedResponse streams since (t :: topics)
      = (if (streams t).readPast ((since t).getD 0) 50 ≠ [] then
          [(t, (streams t).readPast ((since t).getD 0) 50)] else [])
        ++ feedResponse streams since topics := by
  unfold feedResponse
  rw [List.map_cons, List.filter_cons]
  by_cases h : (streams t).readPast ((since t).getD 0) 50 ≠ []
  · rw [if_pos h, if_pos (by simpa using h)]
    rfl
  · rw [if_neg h, if_neg (by simpa using h)]
    rfl

theorem feedResponse_topics (topics : List FeedTopic) :
    ((feedResponse streams since topics).map (·.1)).Sublist topics := by
  induction topics with
  | nil => exact List.Sublist.slnil
  | cons t rest ih =>
      rw [feedResponse_cons]
      by_cases h : (streams t).readPast ((since t).getD 0) 50 ≠ []
      · rw [if_pos h]
        exact ih.cons_cons t
      · rw [if_neg h]
        exact ih.cons t

theorem feedResponse_entries {topics : List FeedTopic} (hnodup : topics.Nodup) (t : FeedTopic) :
    ((entriesOfAnswer (feedResponse streams since topics)).filter fun e => decide (e.1 = t)).map
        (·.2)
      = if t ∈ topics then ((streams t).readPast ((since t).getD 0) 50).map (·.2) else [] := by
  induction topics with
  | nil => rfl
  | cons t' rest ih =>
      rw [List.nodup_cons] at hnodup
      have hhead : entriesOfAnswer (if (streams t').readPast ((since t').getD 0) 50 ≠ [] then
            [(t', (streams t').readPast ((since t').getD 0) 50)] else [])
          = ((streams t').readPast ((since t').getD 0) 50).map fun e => (t', e.2) := by
        by_cases h : (streams t').readPast ((since t').getD 0) 50 ≠ []
        · rw [if_pos h]
          simp [entriesOfAnswer]
        · rw [if_neg h, not_not.mp h]
          rfl
      have hsplit : entriesOfAnswer (feedResponse streams since (t' :: rest))
          = (((streams t').readPast ((since t').getD 0) 50).map fun e => (t', e.2))
            ++ entriesOfAnswer (feedResponse streams since rest) := by
        rw [feedResponse_cons, ← hhead]
        unfold entriesOfAnswer
        rw [List.flatMap_append]
      rw [hsplit, List.filter_append, List.map_append, ih hnodup.2]
      by_cases ht : t' = t
      · subst ht
        have hself : ∀ e ∈ ((streams t').readPast ((since t').getD 0) 50).map
            (fun e => (t', e.2)), decide (e.1 = t') = true := by
          intro e he
          obtain ⟨_, _, rfl⟩ := List.mem_map.mp he
          simp
        rw [if_neg hnodup.1, if_pos List.mem_cons_self, List.filter_eq_self.mpr hself]
        simp
      · have hmem : t ∈ t' :: rest ↔ t ∈ rest := by simp [Ne.symm ht]
        have hother : ∀ e ∈ ((streams t').readPast ((since t').getD 0) 50).map
            (fun e => (t', e.2)), ¬ decide (e.1 = t) = true := by
          intro e he
          obtain ⟨_, _, rfl⟩ := List.mem_map.mp he
          simpa using ht
        rw [List.filter_eq_nil_iff.mpr hother]
        simp only [hmem, List.map_nil, List.nil_append]

theorem feedResponse_find (topics : List FeedTopic) (t : FeedTopic) :
    ((feedResponse streams since topics).find? fun a => decide (a.1 = t)).bind
        (fun a => a.2.getLast?.map (·.1))
      = if t ∈ topics then ((streams t).readPast ((since t).getD 0) 50).getLast?.map (·.1)
        else none := by
  induction topics with
  | nil => rfl
  | cons t' rest ih =>
      rw [feedResponse_cons, List.find?_append]
      by_cases ht : t' = t
      · subst ht
        rw [if_pos List.mem_cons_self]
        by_cases h : (streams t').readPast ((since t').getD 0) 50 ≠ []
        · rw [if_pos h]
          simp
        · rw [if_neg h, not_not.mp h]
          rw [not_not.mp h] at ih
          simpa using ih
      · have hmem : t ∈ t' :: rest ↔ t ∈ rest := by simp [Ne.symm ht]
        have hhead : (if (streams t').readPast ((since t').getD 0) 50 ≠ [] then
            [(t', (streams t').readPast ((since t').getD 0) 50)] else []).find?
              (fun a => decide (a.1 = t)) = none := by
          split_ifs <;> simp [ht]
        rw [hhead, Option.none_or, ih]
        simp only [hmem]

end Response

/-- **What a read that succeeds returns**: of each topic the batch and the cursor past it. -/
theorem readOnce_ok {s : FeedState} (hnodup : s.topics.Nodup) (hne : s.topics ≠ []) :
    ((readOnce lib s.streams s.since s.topics true).1.flatMap fun answer =>
        answer.2.map fun e => (answer.1, e.2))
      = (entriesOfAnswer (feedResponse s.streams s.since s.topics)).map
          (fun e => (e.1, decodeEntry lib e.2)) ∧
    ∀ t, (readOnce lib s.streams s.since s.topics true).2 t
      = if t ∈ s.topics then ((s.batch t).getLast?.map (·.1)).or (s.since t) else s.since t := by
  have hkeys := (feedResponse_topics s.streams s.since s.topics).nodup hnodup
  unfold readOnce
  rw [if_neg hne, if_pos rfl, readOnce_fold]
  refine ⟨?_, fun t => ?_⟩
  · unfold entriesOfAnswer decodeStreamEntries
    simp only [List.nil_append, List.flatMap_map, List.map_flatMap, List.map_map]
    rfl
  · show (feedResponse s.streams s.since s.topics).foldl _ s.since t = _
    rw [cursor_fold hkeys, feedResponse_find]
    unfold FeedState.batch
    by_cases ht : t ∈ s.topics
    · rw [if_pos ht, if_pos ht]
    · rw [if_neg ht, if_neg ht, Option.none_or]

/-! ### What a step keeps

Two things hold together once the end of a stream was asked for.  The cursor lies in the
stream, so a read can not fall behind what was trimmed (`FeedState.Sound`); and what has been
forwarded is what the abstract reader of `Lib/Streams` has taken (`FeedState.Tails`).  Both
are kept step by step, as long as nothing does the connection harm.
-/

/-- What was added to a topic by an event. -/
def FeedEvent.added (t : FeedTopic) : FeedEvent → List EntryFields
  | .xadd t' _ fields => if t' = t then [fields] else []
  | _ => []

/-- What was added to a topic in a run. -/
def added (t : FeedTopic) (es : List FeedEvent) : List EntryFields := es.flatMap (·.added t)

/-- An event that does the connection no harm.  The call that asks for the end of a stream does
not fail while the stream holds entries; no entry is trimmed that is still to be read; and what
is added to a stream that is read can be framed. -/
def FeedState.Harmless (s : FeedState) : FeedEvent → Prop
  | .xadd t trimmed fields => ∀ cursor, s.since t = some cursor →
      (∀ e ∈ (s.streams t).entries.take trimmed, e.1 ≤ cursor) ∧
        decodeEntry lib fields ≠ .unframeable
  | .xrevrange t ok => s.Asks t → ok = true ∨ (s.streams t).entries = []
  | _ => True

/-- The cursors lie in their streams, and what lies past them can be framed. -/
structure FeedState.Sound (s : FeedState) : Prop where
  nodup : s.topics.Nodup
  asked : ∀ {t cursor}, s.since t = some cursor → t ∈ s.topics ∧
    cursor ≤ (s.streams t).lastId ∧
    ∀ e ∈ (s.streams t).past cursor, decodeEntry lib e.2 ≠ .unframeable
  silent : ∀ {t}, s.since t = none → s.forwarded t = []

/-- The connection tails a topic: it has forwarded the frames of what it has read, and the rest
lies past its cursor. -/
def FeedState.Tails (s : FeedState) (t : FeedTopic) (q : List EntryFields × List EntryFields) :
    Prop :=
  ∃ cursor, s.since t = some cursor ∧ s.forwarded t = framesOf lib t q.1 ∧
    ((s.streams t).past cursor).map (·.2) = q.2

/-! #### The client -/

/-- What the client sends leaves the streams, the cursors and the forwarded frames alone. -/
structure FeedState.Untouched (s s' : FeedState) : Prop where
  streams : s'.streams = s.streams
  since : s'.since = s.since
  forwarded : ∀ t, s'.forwarded t = s.forwarded t
  topics : s.topics.Nodup → s'.topics.Nodup
  kept : ∀ t ∈ s.topics, t ∈ s'.topics

theorem FeedState.Untouched.refl (s : FeedState) : s.Untouched s :=
  ⟨rfl, rfl, fun _ => rfl, id, fun _ h => h⟩

theorem nodup_addTopic {topics : List FeedTopic} (h : topics.Nodup) (t : FeedTopic) :
    (addTopic topics t).Nodup := by
  unfold addTopic
  by_cases ht : t ∈ topics
  · rw [if_pos ht]
    exact h
  · rw [if_neg ht]
    exact List.nodup_append.mpr ⟨h, List.nodup_singleton t, fun a ha b hb hab =>
      ht (by rw [← List.mem_singleton.mp hb, ← hab]; exact ha)⟩

theorem mem_addTopic {topics : List FeedTopic} {t' : FeedTopic} (h : t' ∈ topics) (t : FeedTopic) :
    t' ∈ addTopic topics t := by
  unfold addTopic
  by_cases ht : t ∈ topics
  · rwa [if_pos ht]
  · rw [if_neg ht]
    exact List.mem_append_left _ h

theorem requestTopic_topics (role : String) (result : List FeedTopic × List String)
    (name : String) : (result.1.Nodup → (requestTopic role result name).1.Nodup) ∧
      ∀ t ∈ result.1, t ∈ (requestTopic role result name).1 := by
  unfold requestTopic
  cases (FeedTopic.ofName name).filter (checkTopicAccess role) with
  | none => exact ⟨id, fun t ht => ht⟩
  | some t => exact ⟨fun h => nodup_addTopic h t, fun t' ht' => mem_addTopic ht' t⟩

theorem requestTopics (role : String) (names : List String)
    (result : List FeedTopic × List String) :
    (result.1.Nodup → (names.foldl (requestTopic role) result).1.Nodup) ∧
      ∀ t ∈ result.1, t ∈ (names.foldl (requestTopic role) result).1 := by
  induction names generalizing result with
  | nil => exact ⟨id, fun t ht => ht⟩
  | cons name rest ih =>
      rw [List.foldl_cons]
      obtain ⟨hnodup, hmem⟩ := ih (requestTopic role result name)
      obtain ⟨hfirst, hfirstMem⟩ := requestTopic_topics role result name
      exact ⟨fun h => hnodup (hfirst h), fun t ht => hmem t (hfirstMem t ht)⟩

theorem handleControl_topics (text role : String) (topics : List FeedTopic) :
    (topics.Nodup → (handleControl lib text role topics).1.Nodup) ∧
      ∀ t ∈ topics, t ∈ (handleControl lib text role topics).1 := by
  unfold handleControl
  cases parseSubscribe lib text with
  | error reason => exact ⟨id, fun t ht => ht⟩
  | ok asked =>
      have hfold := requestTopics role (asked.map lib.lower) (topics, [])
      simp only
      split_ifs <;> exact hfold

theorem untouched_receive (s : FeedState) (message : ClientMessage) :
    s.Untouched (s.receive lib message) := by
  cases message with
  | timeout => exact .refl s
  | bytes => exact .refl s
  | disconnect => exact ⟨rfl, rfl, fun _ => rfl, id, fun _ h => h⟩
  | text text =>
      unfold FeedState.receive
      by_cases htext : text = ""
      · simp only [htext, if_true]
        exact .refl s
      · simp only [htext, if_false]
        obtain ⟨hnodup, hmem⟩ := handleControl_topics lib text s.role s.topics
        refine ⟨rfl, rfl, fun t => ?_, hnodup, hmem⟩
        unfold FeedState.forwarded
        rw [List.filterMap_append]
        cases (handleControl lib text s.role s.topics).2 <;> simp

theorem untouched_again (s : FeedState) : s.Untouched s.again := by
  unfold FeedState.again
  split_ifs <;> exact ⟨rfl, rfl, fun _ => rfl, id, fun _ h => h⟩

theorem FeedState.Untouched.trans {s s' s'' : FeedState} (h : s.Untouched s')
    (h' : s'.Untouched s'') : s.Untouched s'' where
  streams := h'.streams.trans h.streams
  since := h'.since.trans h.since
  forwarded := fun t => (h'.forwarded t).trans (h.forwarded t)
  topics := fun hnodup => h'.topics (h.topics hnodup)
  kept := fun t ht => h'.kept t (h.kept t ht)

variable {lib} {s s' : FeedState}

theorem FeedState.Untouched.sound (h : s.Untouched s') (hs : s.Sound lib) : s'.Sound lib where
  nodup := h.topics hs.nodup
  asked := by
    intro t cursor hcursor
    rw [h.since] at hcursor
    obtain ⟨hmem, hle, hframed⟩ := hs.asked hcursor
    rw [h.streams]
    exact ⟨h.kept t hmem, hle, hframed⟩
  silent := by
    intro t hnone
    rw [h.since] at hnone
    rw [h.forwarded]
    exact hs.silent hnone

theorem FeedState.Untouched.tails (h : s.Untouched s') {t : FeedTopic}
    {q : List EntryFields × List EntryFields} (hs : s.Tails lib t q) : s'.Tails lib t q := by
  obtain ⟨cursor, hcursor, hforwarded, hrest⟩ := hs
  refine ⟨cursor, ?_, ?_, ?_⟩
  · rw [h.since, hcursor]
  · rw [h.forwarded, hforwarded]
  · rw [h.streams, hrest]

/-! #### The bus -/

theorem step_asks {t : FeedTopic} (hasks : s.Asks t) (ok : Bool) :
    s.step lib (.xrevrange t ok) = { s with
      since := Function.update s.since t (some (currentStreamId (s.streams t) ok)) } :=
  if_pos hasks

theorem step_not_asks {t : FeedTopic} (hasks : ¬ s.Asks t) (ok : Bool) :
    s.step lib (.xrevrange t ok) = s :=
  if_neg hasks

theorem step_not_reads (hreads : ¬ s.Reads) (ok : Bool) : s.step lib (.xread ok) = s :=
  if_neg hreads

theorem untouched_step_receive (message : ClientMessage) :
    s.Untouched (s.step lib (.receive message)) := by
  unfold FeedState.step
  simp only
  split_ifs
  · exact (untouched_receive lib s message).trans (untouched_again _)
  · exact .refl s

/-- A read took its share of every topic. -/
structure FeedState.Advanced (lib : FeedLibrary) (s s' : FeedState) : Prop where
  streams : s'.streams = s.streams
  topics : s'.topics = s.topics
  phase : s'.phase = .waiting
  read : ∀ {t cursor}, s.since t = some cursor →
    s'.since t = some (LogStream.cursorAfter cursor ((s.streams t).readPast cursor 50)) ∧
      s'.forwarded t
        = s.forwarded t ++ framesOf lib t (((s.streams t).readPast cursor 50).map (·.2))
  unread : ∀ {t}, s.since t = none → s'.since t = none ∧ s'.forwarded t = s.forwarded t

theorem step_reads (hreads : s.Reads) (ok : Bool) :
    let answer := readOnce lib s.streams s.since s.topics ok
    let sending := sendEntries lib (answer.1.flatMap fun a => a.2.map fun e => (a.1, e.2))
    s.step lib (.xread ok) = { s with
      since := answer.2
      sent := s.sent ++ sending.1.map ServerFrame.event
      phase := if sending.2 then .waiting else .closed } :=
  if_pos hreads

/-- A read without an answer leaves the connection as it was, at its wait. -/
theorem step_no_answer (hreads : s.Reads) {ok : Bool}
    (hnone : readOnce lib s.streams s.since s.topics ok = ([], s.since)) :
    s.step lib (.xread ok) = { s with phase := .waiting } := by
  rw [step_reads hreads, hnone]
  simp [sendEntries]

theorem untouched_xread_failed (hreads : s.Reads) :
    s.Untouched (s.step lib (.xread false)) := by
  rw [step_no_answer hreads (by simp [readOnce])]
  exact ⟨rfl, rfl, fun _ => rfl, id, fun _ h => h⟩

/-- What is read can be framed. -/
theorem answer_framed (hs : s.Sound lib) (hreads : s.Reads) :
    ∀ e ∈ entriesOfAnswer (feedResponse s.streams s.since s.topics),
      decodeEntry lib e.2 ≠ .unframeable := by
  intro e he
  obtain ⟨answer, hanswer, hmem⟩ := List.mem_flatMap.mp he
  obtain ⟨entry, hentry, rfl⟩ := List.mem_map.mp hmem
  obtain ⟨t, ht, rfl⟩ := List.mem_map.mp (List.mem_filter.mp hanswer).1
  obtain ⟨cursor, hcursor⟩ := Option.ne_none_iff_exists'.mp (hreads.2 t ht)
  rw [hcursor] at hentry
  exact (hs.asked hcursor).2.2 entry (List.mem_of_mem_take hentry)

/-- The frames, the cursors and the phase after a read. -/
theorem xread_fields (hs : s.Sound lib) (hreads : s.Reads) (hne : s.topics ≠ []) :
    (∀ t, (s.step lib (.xread true)).forwarded t = s.forwarded t ++ framesOf lib t
      (if t ∈ s.topics then ((s.streams t).readPast ((s.since t).getD 0) 50).map (·.2) else [])) ∧
    (∀ t, (s.step lib (.xread true)).since t
      = if t ∈ s.topics then ((s.batch t).getLast?.map (·.1)).or (s.since t) else s.since t) ∧
    (s.step lib (.xread true)).phase = .waiting := by
  obtain ⟨hentries, hsince⟩ := readOnce_ok lib hs.nodup hne
  have hsent (t : FeedTopic) := sendEntries_topic lib (answer_framed hs hreads) t
  rw [← hentries] at hsent
  rw [step_reads hreads]
  refine ⟨fun t => ?_, hsince, if_pos (hsent .alerts).2⟩
  rw [← feedResponse_entries s.streams s.since hs.nodup t, ← (hsent t).1]
  unfold FeedState.forwarded
  simp only [List.filterMap_append, List.filterMap_map]
  rfl

theorem advanced_xread (hs : s.Sound lib) (hreads : s.Reads) :
    s.Advanced lib (s.step lib (.xread true)) := by
  by_cases hne : s.topics = []
  · -- Without topics there is nothing to read.
    rw [step_no_answer hreads (by simp [readOnce, hne])]
    refine ⟨rfl, rfl, rfl, fun hcursor => ?_, fun hnone => ⟨hnone, rfl⟩⟩
    have hmem := (hs.asked hcursor).1
    rw [hne] at hmem
    exact absurd hmem (List.not_mem_nil)
  · obtain ⟨hforwarded, hsince, hphase⟩ := xread_fields hs hreads hne
    refine ⟨by rw [step_reads hreads], by rw [step_reads hreads], hphase, ?_, ?_⟩
    · intro t cursor hcursor
      have hmem := (hs.asked hcursor).1
      rw [hsince, hforwarded, if_pos hmem, if_pos hmem]
      unfold FeedState.batch LogStream.cursorAfter
      rw [hcursor, Option.getD_some]
      refine ⟨?_, rfl⟩
      cases ((s.streams t).readPast cursor 50).getLast? <;> rfl
    · intro t hnone
      have hmem : t ∉ s.topics := fun hmem => hreads.2 t hmem hnone
      rw [hsince, hforwarded, if_neg hmem, if_neg hmem]
      exact ⟨hnone, List.append_nil _⟩

theorem FeedState.Advanced.sound (h : s.Advanced lib s') (hs : s.Sound lib) : s'.Sound lib where
  nodup := by
    rw [h.topics]
    exact hs.nodup
  asked := by
    intro t cursor' hcursor'
    cases hcursor : s.since t with
    | none =>
        rw [(h.unread hcursor).1] at hcursor'
        exact absurd hcursor' (by simp)
    | some cursor =>
        obtain ⟨hmem, hle, hframed⟩ := hs.asked hcursor
        rw [(h.read hcursor).1] at hcursor'
        obtain rfl := Option.some.inj hcursor'
        rw [h.streams, h.topics]
        refine ⟨hmem, LogStream.cursorAfter_le hle, fun e he => ?_⟩
        rw [LogStream.past_readPast] at he
        exact hframed e (List.mem_of_mem_drop he)
  silent := by
    intro t hnone
    cases hcursor : s.since t with
    | none => rw [(h.unread hcursor).2, hs.silent hcursor]
    | some cursor =>
        rw [(h.read hcursor).1] at hnone
        exact absurd hnone (by simp)

theorem FeedState.Advanced.tails (h : s.Advanced lib s') {t : FeedTopic}
    {q : List EntryFields × List EntryFields} (hs : s.Tails lib t q) :
    s'.Tails lib t (Tailing.step q (50, [])) := by
  obtain ⟨cursor, hcursor, hforwarded, hrest⟩ := hs
  refine ⟨_, (h.read hcursor).1, ?_, ?_⟩
  · rw [(h.read hcursor).2, hforwarded, ← framesOf_append]
    unfold LogStream.readPast Tailing.step
    rw [List.map_take, hrest]
  · rw [h.streams, LogStream.past_readPast, List.map_drop, hrest]
    exact (List.append_nil _).symm

/-- Something is added to a stream. -/
theorem sound_xadd (hs : s.Sound lib) {t : FeedTopic} {trimmed : ℕ} {fields : EntryFields}
    (hharmless : s.Harmless lib (.xadd t trimmed fields)) :
    (s.step lib (.xadd t trimmed fields)).Sound lib where
  nodup := hs.nodup
  asked := by
    intro t' cursor hcursor
    obtain ⟨hmem, hle, hframed⟩ := hs.asked hcursor
    by_cases ht : t' = t
    · subst ht
      obtain ⟨htrimmed, hfields⟩ := hharmless cursor hcursor
      refine ⟨hmem, ?_, fun e he => ?_⟩
      · show cursor ≤ (Function.update s.streams t' _ t').lastId
        rw [Function.update_self]
        exact Nat.le_succ_of_le hle
      · change e ∈ (Function.update s.streams t' _ t').past cursor at he
        rw [Function.update_self, LogStream.past_add fields hle htrimmed] at he
        rcases List.mem_append.mp he with he | he
        · exact hframed e he
        · rw [List.mem_singleton.mp he]
          exact hfields
    · show t' ∈ s.topics ∧ cursor ≤ (Function.update s.streams t _ t').lastId ∧
        ∀ e ∈ (Function.update s.streams t _ t').past cursor, _
      rw [Function.update_of_ne ht]
      exact ⟨hmem, hle, hframed⟩
  silent := hs.silent

theorem tails_xadd (hs : s.Sound lib) {t t' : FeedTopic} {trimmed : ℕ} {fields : EntryFields}
    (hharmless : s.Harmless lib (.xadd t' trimmed fields))
    {q : List EntryFields × List EntryFields} (htails : s.Tails lib t q) :
    (s.step lib (.xadd t' trimmed fields)).Tails lib t
      (Tailing.step q (0, (FeedEvent.xadd t' trimmed fields).added t)) := by
  obtain ⟨cursor, hcursor, hforwarded, hrest⟩ := htails
  refine ⟨cursor, hcursor, ?_, ?_⟩
  · show s.forwarded t = _
    rw [hforwarded]
    simp [Tailing.step]
  · show ((Function.update s.streams t' _ t).past cursor).map _ = _
    unfold Tailing.step FeedEvent.added
    by_cases ht : t' = t
    · subst ht
      obtain ⟨htrimmed, -⟩ := hharmless cursor hcursor
      rw [Function.update_self, LogStream.past_add fields (hs.asked hcursor).2.1 htrimmed,
        List.map_append, hrest]
      simp
    · rw [Function.update_of_ne (Ne.symm ht), hrest]
      simp [ht]

/-- **The connection asks where a stream ends**, and starts there. -/
theorem tails_xrevrange (hs : s.Sound lib) {t : FeedTopic} {ok : Bool} (hasks : s.Asks t)
    (hharmless : s.Harmless lib (.xrevrange t ok)) :
    (s.step lib (.xrevrange t ok)).Tails lib t ([], []) ∧
      currentStreamId (s.streams t) ok ≤ (s.streams t).lastId := by
  have hstart : (s.streams t).past (currentStreamId (s.streams t) ok) = [] ∧
      currentStreamId (s.streams t) ok ≤ (s.streams t).lastId := by
    cases hnewest : (s.streams t).newest with
    | none =>
        have hempty := LogStream.newest_eq_none.mp hnewest
        have hzero : currentStreamId (s.streams t) ok = 0 := by
          unfold currentStreamId
          rw [hnewest]
          exact ite_self 0
        rw [hzero]
        refine ⟨?_, Nat.zero_le _⟩
        unfold LogStream.past
        rw [hempty]
        rfl
    | some newest =>
        have hok : ok = true := by
          rcases hharmless hasks with hok | hempty
          · exact hok
          · rw [LogStream.newest_eq_none.mpr hempty] at hnewest
            exact absurd hnewest (by simp)
        have hid : currentStreamId (s.streams t) ok = newest := by
          unfold currentStreamId
          rw [hok, hnewest]
          rfl
        rw [hid]
        exact ⟨LogStream.past_newest hnewest, LogStream.newest_le hnewest⟩
  rw [step_asks hasks]
  refine ⟨⟨currentStreamId (s.streams t) ok, ?_, hs.silent hasks.2.2, ?_⟩, hstart.2⟩
  · show Function.update s.since t _ t = _
    rw [Function.update_self]
  · show ((s.streams t).past _).map _ = _
    rw [hstart.1]
    rfl

theorem sound_xrevrange (hs : s.Sound lib) {t : FeedTopic} {ok : Bool} (hasks : s.Asks t)
    (hharmless : s.Harmless lib (.xrevrange t ok)) : (s.step lib (.xrevrange t ok)).Sound lib := by
  obtain ⟨⟨cursor, hcursor, -, hrest⟩, hle⟩ := tails_xrevrange hs hasks hharmless
  rw [step_asks hasks] at hcursor hrest ⊢
  refine ⟨hs.nodup, ?_, ?_⟩
  · intro t' cursor' hcursor'
    by_cases ht : t' = t
    · subst ht
      have hsame : cursor' = cursor := Option.some.inj (hcursor'.symm.trans hcursor)
      change Function.update s.since t' _ t' = some cursor at hcursor
      rw [Function.update_self] at hcursor
      rw [hsame]
      refine ⟨hasks.2.1, ?_, fun e he => ?_⟩
      · rw [← Option.some.inj hcursor]
        exact hle
      · rw [List.map_eq_nil_iff.mp hrest] at he
        exact absurd he (List.not_mem_nil)
    · change Function.update s.since t _ t' = some cursor' at hcursor'
      rw [Function.update_of_ne ht] at hcursor'
      exact hs.asked hcursor'
  · intro t' hnone
    change Function.update s.since t _ t' = none at hnone
    by_cases ht : t' = t
    · rw [ht, Function.update_self] at hnone
      exact absurd hnone (by simp)
    · rw [Function.update_of_ne ht] at hnone
      exact hs.silent hnone

/-! ### Runs

A run is told to the abstract reader as a list of shares: at each event how many entries are
taken and which are added (`tailShares`).  The connection and the reader then stay together by
induction, and how much was read is a sum.
-/

/-- A read that succeeds. -/
def FeedState.Polls (s : FeedState) : FeedEvent → Prop
  | .xread true => s.Reads
  | _ => False

instance (s : FeedState) : (e : FeedEvent) → Decidable (s.Polls e)
  | .xread true => inferInstanceAs (Decidable s.Reads)
  | .xread false => inferInstanceAs (Decidable False)
  | .xadd _ _ _ => inferInstanceAs (Decidable False)
  | .xrevrange _ _ => inferInstanceAs (Decidable False)
  | .receive _ => inferInstanceAs (Decidable False)

/-- **What a step can do.**  It adds to a stream, asks for the end of one, or reads; everything
else leaves the feed alone. -/
theorem step_cases (hs : s.Sound lib) (e : FeedEvent) :
    (s.Untouched (s.step lib e) ∧ ¬ s.Polls e ∧ ∀ t, e.added t = []) ∨
    (∃ t trimmed fields, e = .xadd t trimmed fields) ∨
    (∃ t ok, e = .xrevrange t ok ∧ s.Asks t) ∨
    (e = .xread true ∧ s.Reads ∧ s.Advanced lib (s.step lib e)) := by
  cases e with
  | xadd t trimmed fields => exact Or.inr (Or.inl ⟨t, trimmed, fields, rfl⟩)
  | xrevrange t ok =>
      by_cases hasks : s.Asks t
      · exact Or.inr (Or.inr (Or.inl ⟨t, ok, rfl, hasks⟩))
      · rw [step_not_asks hasks]
        exact Or.inl ⟨.refl s, not_false, fun _ => rfl⟩
  | xread ok =>
      by_cases hreads : s.Reads
      · cases ok with
        | true => exact Or.inr (Or.inr (Or.inr ⟨rfl, hreads, advanced_xread hs hreads⟩))
        | false => exact Or.inl ⟨untouched_xread_failed hreads, not_false, fun _ => rfl⟩
      · rw [step_not_reads hreads]
        refine Or.inl ⟨.refl s, ?_, fun _ => rfl⟩
        cases ok with
        | true => exact hreads
        | false => exact not_false
  | receive message => exact Or.inl ⟨untouched_step_receive message, not_false, fun _ => rfl⟩

/-- **One step**: a topic that is tailed loses fifty entries to a read that succeeds, and gains
what is added. -/
theorem step_tails (hs : s.Sound lib) {e : FeedEvent} (hharmless : s.Harmless lib e)
    {t : FeedTopic} {q : List EntryFields × List EntryFields} (htails : s.Tails lib t q) :
    (s.step lib e).Tails lib t (Tailing.step q (if s.Polls e then 50 else 0, e.added t)) := by
  have hsame : Tailing.step q (0, []) = q := by simp [Tailing.step]
  rcases step_cases hs e with ⟨huntouched, hpolls, hadded⟩ | ⟨t', trimmed, fields, rfl⟩ |
    ⟨t', ok, rfl, hasks⟩ | ⟨rfl, hreads, hadvanced⟩
  · rw [if_neg hpolls, hadded, hsame]
    exact huntouched.tails htails
  · exact tails_xadd hs hharmless htails
  · obtain ⟨cursor, hcursor, hforwarded, hrest⟩ := htails
    have ht : t ≠ t' := by
      intro ht
      rw [ht, hasks.2.2] at hcursor
      exact absurd hcursor (by simp)
    show (s.step lib (.xrevrange t' ok)).Tails lib t (Tailing.step q (0, []))
    rw [hsame, step_asks hasks]
    exact ⟨cursor, by simpa [Function.update_of_ne ht] using hcursor, hforwarded, hrest⟩
  · rw [if_pos (show s.Polls (.xread true) from hreads)]
    exact hadvanced.tails htails

theorem step_sound (hs : s.Sound lib) {e : FeedEvent} (hharmless : s.Harmless lib e) :
    (s.step lib e).Sound lib := by
  rcases step_cases hs e with ⟨huntouched, -, -⟩ | ⟨t, trimmed, fields, rfl⟩ |
    ⟨t, ok, rfl, hasks⟩ | ⟨rfl, -, hadvanced⟩
  · exact huntouched.sound hs
  · exact sound_xadd hs hharmless
  · exact sound_xrevrange hs hasks hharmless
  · exact hadvanced.sound hs

/-- What a run does to a topic that is tailed: at each event how much is read, and what is
added. -/
def tailShares (lib : FeedLibrary) (t : FeedTopic) :
    FeedState → List FeedEvent → List (ℕ × List EntryFields)
  | _, [] => []
  | s, e :: rest => (if s.Polls e then 50 else 0, e.added t) :: tailShares lib t (s.step lib e) rest

/-- The reads of a run that succeed. -/
def polls (lib : FeedLibrary) : FeedState → List FeedEvent → ℕ
  | _, [] => 0
  | s, e :: rest => (if s.Polls e then 1 else 0) + polls lib (s.step lib e) rest

theorem added_tailShares (t : FeedTopic) (es : List FeedEvent) :
    (tailShares lib t s es).flatMap (·.2) = added t es := by
  induction es generalizing s with
  | nil => rfl
  | cons e rest ih =>
      show e.added t ++ (tailShares lib t (s.step lib e) rest).flatMap (·.2) = _
      rw [ih]
      rfl

theorem sum_tailShares (t : FeedTopic) (es : List FeedEvent) :
    ((tailShares lib t s es).map (·.1)).sum = 50 * polls lib s es := by
  induction es generalizing s with
  | nil => rfl
  | cons e rest ih =>
      show (if s.Polls e then 50 else 0) +
        ((tailShares lib t (s.step lib e) rest).map (·.1)).sum = _
      rw [ih]
      show _ = 50 * ((if s.Polls e then 1 else 0) + polls lib (s.step lib e) rest)
      split_ifs <;> omega

/-- **A run**: the connection and the abstract reader stay together. -/
theorem run_tails {es : List FeedEvent} (hs : s.Sound lib)
    (h : Runs.Along (FeedState.step lib) (FeedState.Harmless lib) s es) {t : FeedTopic}
    {q : List EntryFields × List EntryFields} (htails : s.Tails lib t q) :
    (Runs.run (FeedState.step lib) s es).Tails lib t (Tailing.run q (tailShares lib t s es)) := by
  induction es generalizing s q with
  | nil => exact htails
  | cons e rest ih => exact ih (step_sound hs h.1) h.2 (step_tails hs h.1 htails)

theorem run_sound {es : List FeedEvent} (hs : s.Sound lib)
    (h : Runs.Along (FeedState.step lib) (FeedState.Harmless lib) s es) :
    (Runs.run (FeedState.step lib) s es).Sound lib :=
  Runs.invariant (I := FeedState.Sound lib) (fun _ _ hs he => step_sound hs he) hs h

theorem sound_accepted (streams : FeedTopic → LogStream EntryFields) (role : String) :
    (FeedState.accepted streams role).Sound lib where
  nodup := List.nodup_nil
  asked := fun hcursor => absurd hcursor (by simp [FeedState.accepted])
  silent := fun _ => rfl

/-! ### A bus that works again

Whatever state the connection is in, a turn with a working bus asks for every end that is
missing and then reads once.  So enough such turns read what was there when they began.
-/

/-- One turn of the loop with a bus that works: the wait ends, the streams without a cursor are
asked for their ends, and all are read. -/
def workingTurn : List FeedEvent :=
  .receive .timeout ::
    (([.alerts, .signals, .decisions].map fun t => .xrevrange t true) ++ [.xread true])

/-- A number of such turns. -/
def workingTurns (n : ℕ) : List FeedEvent := (List.replicate n workingTurn).flatten

/-- Once asked for, a topic that is subscribed has a cursor, and the others keep theirs. -/
theorem since_xrevrange (hphase : s.phase = .polling) (t t' : FeedTopic)
    (h : t' = t ∨ s.since t' ≠ none) (hmem : t' ∈ s.topics) :
    (s.step lib (.xrevrange t true)).since t' ≠ none := by
  by_cases hasks : s.Asks t
  · rw [step_asks hasks]
    show Function.update s.since t _ t' ≠ none
    by_cases ht : t' = t
    · rw [ht, Function.update_self]
      simp
    · rw [Function.update_of_ne ht]
      exact h.resolve_left ht
  · rw [step_not_asks hasks]
    rcases h with rfl | h
    · exact fun hnone => hasks ⟨hphase, hmem, hnone⟩
    · exact h

theorem step_xrevrange (t : FeedTopic) (ok : Bool) :
    (s.step lib (.xrevrange t ok)).phase = s.phase ∧
      (s.step lib (.xrevrange t ok)).topics = s.topics := by
  by_cases hasks : s.Asks t
  · rw [step_asks hasks]
    exact ⟨rfl, rfl⟩
  · rw [step_not_asks hasks]
    exact ⟨rfl, rfl⟩

/-- The wait of a connection that has a topic ends at the bus. -/
theorem step_timeout (hopen : s.phase ≠ .closed) (htopics : s.topics ≠ []) :
    (s.step lib (.receive .timeout)).phase = .polling ∧
      (s.step lib (.receive .timeout)).topics = s.topics := by
  unfold FeedState.step
  cases hphase : s.phase with
  | closed => exact absurd hphase hopen
  | polling => exact ⟨hphase, rfl⟩
  | waiting =>
      simp only [if_true, FeedState.receive, FeedState.again, hphase, htopics, ne_eq,
        not_false_eq_true, and_self]

theorem polls_append (es fs : List FeedEvent) :
    polls lib s (es ++ fs)
      = polls lib s es + polls lib (Runs.run (FeedState.step lib) s es) fs := by
  induction es generalizing s with
  | nil => exact (Nat.zero_add _).symm
  | cons e rest ih =>
      show _ + polls lib (s.step lib e) (rest ++ fs) = _
      rw [ih, ← Nat.add_assoc]
      rfl

theorem ask_all (asked : List FeedTopic) (hs : s.Sound lib) (hphase : s.phase = .polling) :
    let es := asked.map fun t => FeedEvent.xrevrange t true
    let s' := Runs.run (FeedState.step lib) s es
    s'.Sound lib ∧ s'.phase = .polling ∧ s'.topics = s.topics ∧ polls lib s es = 0 ∧
      ∀ t ∈ s.topics, t ∈ asked ∨ s.since t ≠ none → s'.since t ≠ none := by
  induction asked generalizing s with
  | nil => exact ⟨hs, hphase, rfl, rfl, fun t _ h => h.resolve_left (List.not_mem_nil)⟩
  | cons t rest ih =>
      obtain ⟨hphase', htopics'⟩ := @step_xrevrange lib s t true
      have hs' := step_sound hs (e := .xrevrange t true) fun _ => Or.inl rfl
      obtain ⟨hsound, hpolling, htopics, hpolls, hsince⟩ := ih hs' (hphase'.trans hphase)
      refine ⟨hsound, hpolling, htopics.trans htopics', ?_, fun t' hmem h => ?_⟩
      · show 0 + polls lib _ _ = 0
        rw [hpolls]
      · refine hsince t' (by rwa [htopics']) ?_
        by_cases hrest : t' ∈ rest
        · exact Or.inl hrest
        · refine Or.inr (since_xrevrange hphase t t' ?_ hmem)
          rcases h with h | h
          · exact Or.inl ((List.mem_cons.mp h).resolve_right hrest)
          · exact Or.inr h

/-- **A turn with a bus that works reads once**, and the connection is at its wait again. -/
theorem turn_polls (hs : s.Sound lib) (hopen : s.phase ≠ .closed) (htopics : s.topics ≠ []) :
    polls lib s workingTurn = 1 ∧
      (Runs.run (FeedState.step lib) s workingTurn).phase = .waiting ∧
      (Runs.run (FeedState.step lib) s workingTurn).topics = s.topics := by
  obtain ⟨hphase, hsame⟩ := @step_timeout lib s hopen htopics
  have hs' := step_sound hs (e := .receive .timeout) trivial
  obtain ⟨hsound, hpolling, htopics', hpolls, hsince⟩ :=
    ask_all [.alerts, .signals, .decisions] hs' hphase
  unfold workingTurn
  generalize hasks : [FeedTopic.alerts, .signals, .decisions].map
    (fun t => FeedEvent.xrevrange t true) = asks at hsound hpolling htopics' hpolls hsince ⊢
  have hreads : (Runs.run (FeedState.step lib) (s.step lib (.receive .timeout)) asks).Reads := by
    refine ⟨hpolling, fun t ht => hsince t (by rwa [htopics'] at ht) (Or.inl ?_)⟩
    cases t <;> simp
  have hadvanced := advanced_xread hsound hreads
  rw [Runs.run_cons, Runs.run_append]
  refine ⟨?_, hadvanced.phase, (hadvanced.topics.trans htopics').trans hsame⟩
  show 0 + polls lib (s.step lib (.receive .timeout)) (asks ++ [.xread true]) = 1
  rw [polls_append, hpolls]
  show 0 + (0 + ((if FeedState.Reads _ then 1 else 0) + 0)) = 1
  rw [if_pos hreads]

theorem harmless_workingTurns (n : ℕ) :
    Runs.Along (FeedState.step lib) (FeedState.Harmless lib) s (workingTurns n) := by
  refine Runs.along_iff_split.mpr fun fs e gs hsplit => ?_
  have hmem : e ∈ workingTurns n := by
    rw [hsplit]
    exact List.mem_append_right fs List.mem_cons_self
  obtain ⟨turn, hturn, he⟩ := List.mem_flatten.mp hmem
  rw [(List.mem_replicate.mp hturn).2] at he
  simp only [workingTurn, List.map_cons, List.map_nil, List.cons_append, List.nil_append,
    List.mem_cons, List.not_mem_nil, or_false] at he
  rcases he with rfl | rfl | rfl | rfl | rfl
  · trivial
  · exact fun _ => Or.inl rfl
  · exact fun _ => Or.inl rfl
  · exact fun _ => Or.inl rfl
  · trivial

/-- **So many turns read so many times.** -/
theorem turns_poll (n : ℕ) (hs : s.Sound lib) (hopen : s.phase ≠ .closed)
    (htopics : s.topics ≠ []) : polls lib s (workingTurns n) = n := by
  induction n generalizing s with
  | zero => rfl
  | succ n ih =>
      obtain ⟨hpolls, hphase, hsame⟩ := turn_polls hs hopen htopics
      have hsound := @run_sound lib s workingTurn hs
        (by simpa [workingTurns] using @harmless_workingTurns lib s 1)
      show polls lib s (workingTurn ++ workingTurns n) = n + 1
      rw [polls_append, hpolls, ih hsound (by rw [hphase]; decide) (by rwa [hsame])]
      exact Nat.add_comm 1 n

theorem added_workingTurns (t : FeedTopic) (n : ℕ) : added t (workingTurns n) = [] := by
  refine List.flatMap_eq_nil_iff.mpr fun e he => ?_
  obtain ⟨turn, hturn, he⟩ := List.mem_flatten.mp he
  rw [(List.mem_replicate.mp hturn).2] at he
  simp only [workingTurn, List.map_cons, List.map_nil, List.cons_append, List.nil_append,
    List.mem_cons, List.not_mem_nil, or_false] at he
  rcases he with rfl | rfl | rfl | rfl | rfl <;> rfl

/-! ### The feed of a topic

Before the end of its stream was asked for nothing of a topic is forwarded, and from there on
it is tailed.  The event at which this changes splits a run in two.
-/

/-- A topic gets its cursor where the connection asks for the end of its stream. -/
theorem step_since (hs : s.Sound lib) {t : FeedTopic} (hnone : s.since t = none) {e : FeedEvent}
    (hsome : (s.step lib e).since t ≠ none) : ∃ ok, e = .xrevrange t ok ∧ s.Asks t := by
  rcases step_cases hs e with ⟨huntouched, -, -⟩ | ⟨t', trimmed, fields, rfl⟩ |
    ⟨t', ok, rfl, hasks⟩ | ⟨rfl, -, hadvanced⟩
  · rw [huntouched.since] at hsome
    exact absurd hnone hsome
  · exact absurd hnone hsome
  · by_cases ht : t = t'
    · rw [ht]
      exact ⟨ok, rfl, hasks⟩
    · rw [step_asks hasks] at hsome
      change Function.update s.since t' _ t ≠ none at hsome
      rw [Function.update_of_ne ht] at hsome
      exact absurd hnone hsome
  · exact absurd (hadvanced.unread hnone).1 hsome

theorem run_asked {es : List FeedEvent} (hs : s.Sound lib)
    (h : Runs.Along (FeedState.step lib) (FeedState.Harmless lib) s es) {t : FeedTopic}
    (hnone : s.since t = none) (hsome : (Runs.run (FeedState.step lib) s es).since t ≠ none) :
    ∃ fs ok gs, es = fs ++ .xrevrange t ok :: gs ∧
      (Runs.run (FeedState.step lib) s fs).Asks t := by
  induction es generalizing s with
  | nil => exact absurd hnone hsome
  | cons e rest ih =>
      by_cases hnext : (s.step lib e).since t = none
      · obtain ⟨fs, ok, gs, hsplit, hasks⟩ := ih (step_sound hs h.1) h.2 hnext hsome
        exact ⟨e :: fs, ok, gs, by rw [hsplit]; rfl, hasks⟩
      · obtain ⟨ok, he, hasks⟩ := step_since hs hnone hnext
        exact ⟨[], ok, rest, by rw [he]; rfl, hasks⟩

theorem run_from_asked {fs gs : List FeedEvent} {t : FeedTopic} {ok : Bool} (hs : s.Sound lib)
    (h : Runs.Along (FeedState.step lib) (FeedState.Harmless lib) s
      (fs ++ .xrevrange t ok :: gs))
    (hasks : (Runs.run (FeedState.step lib) s fs).Asks t) :
    ∃ read unread, read ++ unread = added t gs ∧
      (Runs.run (FeedState.step lib) s (fs ++ .xrevrange t ok :: gs)).Tails lib t
        (read, unread) := by
  obtain ⟨hbefore, hask, hafter⟩ := Runs.along_append.mp h
  have hsound := run_sound hs hbefore
  have hstart := (tails_xrevrange hsound hasks hask).1
  have hrun := run_tails (step_sound hsound hask) hafter hstart
  have hwhole := Tailing.run_whole ([], []) (tailShares lib t
    ((Runs.run (FeedState.step lib) s fs).step lib (.xrevrange t ok)) gs)
  rw [added_tailShares] at hwhole
  rw [Runs.run_append, Runs.run_cons]
  exact ⟨_, _, hwhole, hrun⟩

/-- **Enough reads of any run** bring what was read to all that there was, and perhaps more. -/
theorem catches_up (hs : s.Sound lib) {t : FeedTopic} {read unread entries : List EntryFields}
    (htails : s.Tails lib t (read, unread)) (hwhole : read ++ unread = entries)
    {es : List FeedEvent}
    (h : Runs.Along (FeedState.step lib) (FeedState.Harmless lib) s es)
    (henough : unread.length ≤ 50 * polls lib s es) :
    ∃ more rest, more ++ rest = added t es ∧
      (Runs.run (FeedState.step lib) s es).forwarded t = framesOf lib t (entries ++ more) := by
  obtain ⟨cursor, -, hforwarded, -⟩ := run_tails hs h htails
  have hall := Tailing.run_whole (read, unread) (tailShares lib t s es)
  have hreads : entries.length ≤ read.length + ((tailShares lib t s es).map (·.1)).sum := by
    rw [sum_tailShares, ← hwhole, List.length_append]
    exact Nat.add_le_add_left henough _
  obtain ⟨more, hmore⟩ := @Tailing.caught_up _ (read, unread) (tailShares lib t s es) entries []
    (hwhole.trans (List.append_nil _).symm) hreads
  rw [added_tailShares, ← hmore, hwhole, List.append_assoc] at hall
  exact ⟨more, _, List.append_cancel_left hall, by rw [hforwarded, ← hmore]⟩

/-- **The live feed neither replays nor loses.**  In a run without harm nothing of a topic is
forwarded before the end of its stream was asked for, and of what was added since then, and of
nothing else, a front has been forwarded, in order.  All of it is once the connection has read
often enough, whatever else happens; it is after so many turns with a bus that works. -/
theorem live_feed_run (lib : FeedLibrary) (streams : FeedTopic → LogStream EntryFields)
    (role : String) (es : List FeedEvent)
    (h : Runs.Along (FeedState.step lib) (FeedState.Harmless lib)
      (FeedState.accepted streams role) es) (t : FeedTopic) :
    let start := FeedState.accepted streams role
    let s := Runs.run (FeedState.step lib) start es
    (s.forwarded t ≠ [] → ∃ fs ok gs, es = fs ++ .xrevrange t ok :: gs ∧
      (Runs.run (FeedState.step lib) start fs).Asks t) ∧
    ∀ fs ok gs, es = fs ++ .xrevrange t ok :: gs →
      (Runs.run (FeedState.step lib) start fs).Asks t →
        ∃ read unread, read ++ unread = added t gs ∧ s.forwarded t = framesOf lib t read ∧
          (∀ hs, Runs.Along (FeedState.step lib) (FeedState.Harmless lib) s hs →
            unread.length ≤ 50 * polls lib s hs →
              framesOf lib t (added t gs)
                <+: (Runs.run (FeedState.step lib) s hs).forwarded t) ∧
          (s.phase ≠ .closed → ∀ n, unread.length ≤ 50 * n →
            (Runs.run (FeedState.step lib) s (workingTurns n)).forwarded t
              = framesOf lib t (added t gs)) := by
  intro start s
  have hstart : start.Sound lib := sound_accepted streams role
  have hsound : s.Sound lib := run_sound hstart h
  refine ⟨fun hforwarded => run_asked hstart h rfl fun hnone =>
    hforwarded (hsound.silent hnone), ?_⟩
  intro fs ok gs hsplit hasks
  obtain ⟨read, unread, hwhole, htails⟩ := run_from_asked hstart (hsplit ▸ h) hasks
  rw [← hsplit] at htails
  refine ⟨read, unread, hwhole, htails.choose_spec.2.1, ?_, ?_⟩
  · intro hs hharmless henough
    obtain ⟨more, -, -, hforwarded⟩ := catches_up hsound htails hwhole hharmless henough
    rw [hforwarded, framesOf_append]
    exact List.prefix_append _ _
  · intro hopen n henough
    have htopics : s.topics ≠ [] := by
      obtain ⟨cursor, hcursor, -⟩ := htails
      exact List.ne_nil_of_mem (hsound.asked hcursor).1
    obtain ⟨more, rest, hnothing, hforwarded⟩ := catches_up hsound htails hwhole
      (harmless_workingTurns n) (by rwa [turns_poll n hsound hopen htopics])
    rw [added_workingTurns] at hnothing
    rw [hforwarded, (List.append_eq_nil_iff.mp hnothing).1, List.append_nil]

/-! ### An outage at the subscription -/

/-- What a client sends to be given the alerts. -/
def subscribeAlerts : String := "\x7b\"type\":\"subscribe\",\"topics\":[\"alerts\"]\x7d"

/-- An alert of the monitor, as it stands in the stream. -/
def alertText (reason : String) : String :=
  "\x7b\"event_type\":\"alert.system\",\"payload\":\x7b\"reason\":\"" ++ reason
    ++ "\"\x7d,\"producer\":\"monitor\",\"produced_at\":\"1970-01-01T00:00:00+00:00\","
    ++ "\"schema_version\":1,\"correlation_id\":\"\"\x7d"

/-- The reason in the text of an alert. -/
def reasonIn (text : String) : String :=
  String.ofList ((text.toList.drop 50).takeWhile fun c => c ≠ '"')

example : reasonIn (alertText "today") = "today" := by decide +kernel

/-- A library that reads these texts. -/
def alertLibrary : FeedLibrary where
  lower := id
  repr := fun names => "['" ++ String.intercalate "', '" names ++ "']"
  loads := fun _ => some (.object (some "subscribe") (some [some "alerts"]))
  fromJson := fun raw =>
    .event ⟨"alert.system", [("reason", .text (reasonIn raw))], "monitor", 0, ""⟩
  sha256 := id

/-- A stream of alerts that holds one from before. -/
def oneAlert : FeedTopic → LogStream EntryFields := fun
  | .alerts => LogStream.empty.add 0 [("data", alertText "yesterday")]
  | _ => LogStream.empty

/-- The client subscribes, the connection asks for the end of the stream, an alert is added and
the first read fails. -/
def rockyStart : List FeedEvent :=
  [.receive (.text subscribeAlerts), .xrevrange .alerts true,
    .xadd .alerts 0 [("data", alertText "today")], .xread false]

theorem harmless_rockyStart : Runs.Along (FeedState.step alertLibrary)
    (FeedState.Harmless alertLibrary) (FeedState.accepted oneAlert "viewer") rockyStart := by
  refine ⟨trivial, fun _ => Or.inl rfl, ?_, trivial, trivial⟩
  intro cursor _
  have hne : alertText "today" ≠ "" := by decide +kernel
  refine ⟨fun e he => absurd he (by simp), ?_⟩
  simp [decodeEntry, alertLibrary, hne]

/-- Today's alert is forwarded, and yesterday's is not, once the bus works again. -/
theorem today_forwarded :
    (Runs.run (FeedState.step alertLibrary)
        (Runs.run (FeedState.step alertLibrary) (FeedState.accepted oneAlert "viewer") rockyStart)
        (workingTurns 1)).forwarded .alerts
      = framesOf alertLibrary .alerts [[("data", alertText "today")]] := by
  obtain ⟨read, unread, hwhole, -, -, hworks⟩ :=
    (live_feed_run alertLibrary oneAlert "viewer" rockyStart harmless_rockyStart .alerts).2
      [.receive (.text subscribeAlerts)] true
      [.xadd .alerts 0 [("data", alertText "today")], .xread false] rfl (by decide +kernel)
  refine hworks (by decide +kernel) 1 ?_
  have hlength := congrArg List.length hwhole
  rw [List.length_append] at hlength
  have hone : (added .alerts
      [.xadd .alerts 0 [("data", alertText "today")], .xread false]).length = 1 := rfl
  omega

/-- The call that asks for the end of the stream fails, and yesterday's alert is forwarded. -/
theorem yesterday_forwarded :
    let es := [.receive (.text subscribeAlerts), .xrevrange .alerts false, .xread true]
    added .alerts es = [] ∧
      (Runs.run (FeedState.step alertLibrary) (FeedState.accepted oneAlert "viewer") es).forwarded
          .alerts = framesOf alertLibrary .alerts [[("data", alertText "yesterday")]] ∧
      framesOf alertLibrary .alerts [[("data", alertText "yesterday")]] ≠ [] :=
  have hne : alertText "yesterday" ≠ "" := by decide +kernel
  ⟨rfl, rfl, by simp [framesOf, decodeEntry, alertLibrary, hne]⟩

end ForexAi
