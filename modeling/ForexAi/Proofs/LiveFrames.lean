/-
No live row meets its loaded one.

The keys are meant to tell a live item from its own row in a reply.  They do not: a frame prints
the bucket with the offset `+00:00`, a response with `Z`, so the keys of a live item and of a
loaded one end differently whatever they are items of (`signalKey_ne`).  Nothing is ever taken
out of the live items, and an item that came live and was loaded too has two rows.
-/
import ForexAi.Data.HostZone
import ForexAi.Frontend.LiveFrames
import ForexAi.Lib.Runs

namespace ForexAi

/-! ### What a payload gives back -/

namespace Payload

theorem lookup_put_self (p : Payload) (key : String) (value : PayloadValue) :
    (p.put key value).lookup key = some value := by
  unfold put
  by_cases hkey : (p.lookup key).isSome = true
  · rw [if_pos hkey]
    induction p with
    | nil => exact absurd hkey (by simp)
    | cons e rest ih =>
        rw [List.map_cons, List.lookup_cons]
        by_cases he : e.1 = key
        · rw [if_pos he, beq_self_eq_true]
        · have hne : (key == e.1) = false := by simpa using fun h : key = e.1 => he h.symm
          rw [List.lookup_cons, hne] at hkey
          rw [if_neg he, hne]
          exact ih hkey
  · rw [if_neg hkey, lookup_concat, if_pos rfl, Option.not_isSome_iff_eq_none.mp hkey,
      Option.none_or]

end Payload

/-- What a frame does not fill in is what the payload says. -/
theorem eventFrame_get (sha256 : String → String) (topic : String) (e : Event) {key : String}
    (htype : key ≠ "event_type") (hproduced : key ≠ "produced_at") (hid : key ≠ "event_id") :
    (eventFrame sha256 topic e).data.get key = e.payload.get key := by
  unfold eventFrame Payload.get
  rw [Payload.lookup_put_ne _ _ hproduced, Payload.lookup_setDefault_ne _ _ hid,
    Payload.lookup_setDefault_ne _ _ hproduced, Payload.lookup_setDefault_ne _ _ htype]

namespace LivePage

/-! ### How a key ends

A key ends with the bucket, and a bucket ends with its offset.  So the last character tells a
live key from a loaded one, and no more of the two has to be compared.
-/

def EndsIn (c : Char) (text : String) : Prop := text.toList.getLast? = some c

theorem EndsIn.append {c : Char} {text : String} (h : EndsIn c text) (front : String) :
    EndsIn c (front ++ text) := by
  unfold EndsIn
  rw [String.toList_append, List.getLast?_append, h, Option.some_or]

theorem EndsIn.ne {c d : Char} {s t : String} (hs : EndsIn c s) (ht : EndsIn d t) (hcd : c ≠ d) :
    s ≠ t := by
  rintro rfl
  exact hcd (Option.some.inj (hs.symm.trans ht))

theorem EndsIn.ne_empty {c : Char} {text : String} (h : EndsIn c text) : text ≠ "" := by
  rintro rfl
  exact absurd h (by simp [EndsIn])

theorem isoformat_endsIn (t : Time) : EndsIn '0' (isoformat t) := by
  rw [isoformat_eq_body]
  have hoffset : EndsIn '0' "+00:00" := by rfl
  exact hoffset.append _

theorem signalKey_endsIn {R : Type} {c : Char} {s : AgentSignal R} (h : EndsIn c s.bucketTs) :
    EndsIn c (signalKey s) := h.append _

theorem decisionKey_endsIn {R : Type} {c : Char} {d : DecisionItem R} (h : EndsIn c d.bucketTs) :
    EndsIn c (decisionKey d) := h.append _

/-! ### The bucket of an item

What the client does between a frame and a key keeps the text of the bucket, or leaves it
empty where it was none.
-/

theorem str_text {c : Char} {text : String} (h : EndsIn c text) : str (.text text) = some text :=
  if_neg h.ne_empty

theorem get_put_self (p : Payload) (key : String) (value : PayloadValue) :
    (p.put key value).get key = value := by
  unfold Payload.get
  rw [Payload.lookup_put_self, Option.getD_some]

theorem str_endsIn {c : Char} {text : String} (h : EndsIn c text) :
    EndsIn c ((str (.text text)).getD "") := by
  rw [str_text h, Option.getD_some]
  exact h

/-- An item is normalised with the bucket its frame has. -/
theorem bucket_endsIn {payload : Payload} {c : Char} {text : String}
    (hbucket : payload.get "bucket_ts" = .text text) (htext : EndsIn c text) (producedAt : String) :
    EndsIn c ((str ((payload.put "bucket_ts"
      (.text ((str (payload.get "bucket_ts")).getD producedAt))).get "bucket_ts")).getD "") := by
  rw [get_put_self, hbucket, str_text htext, Option.getD_some]
  exact str_endsIn htext

theorem normalizeSignalEvent_bucket {now : String} {payload : Payload} {c : Char} {text : String}
    {s : AgentSignal Payload} (hbucket : payload.get "bucket_ts" = .text text)
    (htext : EndsIn c text) (h : normalizeSignalEvent now payload = some s) :
    EndsIn c s.bucketTs := by
  unfold normalizeSignalEvent at h
  split_ifs at h
  obtain rfl := Option.some.inj h
  exact bucket_endsIn hbucket htext _

theorem normalizeDecisionEvent_bucket {now : String} {payload : Payload} {c : Char}
    {text : String} {d : DecisionItem Payload} (hbucket : payload.get "bucket_ts" = .text text)
    (htext : EndsIn c text) (h : normalizeDecisionEvent now payload = some d) :
    EndsIn c d.bucketTs := by
  unfold normalizeDecisionEvent at h
  split_ifs at h
  obtain rfl := Option.some.inj h
  exact bucket_endsIn hbucket htext _

variable {sha256 : String → String} {jsonTime : Time → String}

theorem live_signal {now : String} {published : Time} {r : SignalRecord}
    {s : AgentSignal Payload} (h : normalizeSignalEvent now
      (eventFrame sha256 "signals" (signalEmitted published r)).data = some s) :
    EndsIn '0' s.bucketTs := by
  refine normalizeSignalEvent_bucket ?_ (isoformat_endsIn r.signal.bucketTs) h
  rw [eventFrame_get sha256 _ _ (by decide) (by decide) (by decide)]
  rfl

theorem live_decision {now : String} {published : Time} {r : DecideResult}
    {figures : DecisionFigures} {d : DecisionItem Payload} (h : normalizeDecisionEvent now
      (eventFrame sha256 "decisions" (decisionEmitted published r figures)).data = some d) :
    EndsIn '0' d.bucketTs := by
  refine normalizeDecisionEvent_bucket ?_ (isoformat_endsIn r.bucketTs) h
  rw [eventFrame_get sha256 _ _ (by decide) (by decide) (by decide)]
  rfl

theorem loaded_signal (hz : ∀ t, EndsIn 'Z' (jsonTime t)) (r : SignalRecord) :
    EndsIn 'Z' (toAgentSignal (signalOut jsonTime r)).bucketTs :=
  str_endsIn (hz r.signal.bucketTs)

theorem loaded_decision (hz : ∀ t, EndsIn 'Z' (jsonTime t)) (row : DecisionRow)
    (figures : DecisionFigures) (columns : DecisionColumns) :
    EndsIn 'Z' (toDecision (decisionOut jsonTime row figures columns)).bucketTs :=
  str_endsIn (hz row.bucketTs)

/-! ### Over a run

Items come in by a frame or by a reply, and keep their kind.  So the two halves of the page
never share a key, and merging the halves drops nothing.
-/

section Lists

variable {A : Type} {key : A → String}

/-- Live keys end in `0` and loaded ones in `Z`. -/
structure Apart (key : A → String) (l : LiveList A) : Prop where
  live : ∀ x ∈ l.live, EndsIn '0' (key x)
  history : ∀ x ∈ l.history, EndsIn 'Z' (key x)

theorem Apart.empty : Apart key LiveList.empty :=
  ⟨fun _ h => absurd h List.not_mem_nil, fun _ h => absurd h List.not_mem_nil⟩

theorem Apart.push {l : LiveList A} (h : Apart key l) {item : A} (hitem : EndsIn '0' (key item)) :
    Apart key (l.push key item) := by
  refine ⟨fun x hx => ?_, h.history⟩
  rcases List.mem_cons.mp (List.mem_of_mem_take hx) with rfl | hx
  · exact hitem
  · exact h.live x (List.mem_filter.mp hx).1

theorem Apart.load {l : LiveList A} (h : Apart key l) {items : List A}
    (hitems : ∀ x ∈ items, EndsIn 'Z' (key x)) : Apart key (l.load items) :=
  ⟨h.live, hitems⟩

theorem Apart.drop {l : LiveList A} (h : Apart key l) : Apart key l.drop :=
  ⟨fun _ hx => absurd hx List.not_mem_nil, h.history⟩

/-- No live item has the key of a loaded one. -/
theorem Apart.merge {l : LiveList A} (h : Apart key l) :
    merge key l.history l.live = l.live ++ l.history := by
  have hfree : ∀ x ∈ l.live, decide (key x ∉ l.history.map key) = true := by
    refine fun x hx => decide_eq_true fun hmem => ?_
    obtain ⟨y, hy, hsame⟩ := List.mem_map.mp hmem
    exact (h.live x hx).ne (h.history y hy) (by decide) hsame.symm
  unfold LivePage.merge
  rw [List.filter_eq_self.mpr hfree]

end Lists

/-- Both lists of the page. -/
structure PageApart (page : SignalsPage Payload Payload) : Prop where
  signals : Apart signalKey page.signals
  decisions : Apart decisionKey page.decisions

theorem PageApart.step (hz : ∀ t, EndsIn 'Z' (jsonTime t)) {page : SignalsPage Payload Payload}
    (h : PageApart page) {e : SignalsEvent Payload Payload} (hserved : e.Served sha256 jsonTime) :
    PageApart (page.step e) := by
  cases e with
  | onSignal signal =>
      obtain ⟨now, published, r, hsignal⟩ := hserved
      unfold SignalsPage.step
      dsimp only
      split
      · exact h
      · exact ⟨h.signals.push (signalKey_endsIn (live_signal hsignal)), h.decisions⟩
  | onDecision decision =>
      obtain ⟨now, published, r, figures, hdecision⟩ := hserved
      unfold SignalsPage.step
      dsimp only
      split
      · exact h
      · exact ⟨h.signals, h.decisions.push (decisionKey_endsIn (live_decision hdecision))⟩
  | loaded sigHist decHist =>
      obtain ⟨hsignals, hdecisions⟩ := hserved
      refine ⟨h.signals.load fun s hs => ?_, h.decisions.load fun d hd => ?_⟩
      · obtain ⟨r, rfl⟩ := hsignals s hs
        exact signalKey_endsIn (loaded_signal hz r)
      · obtain ⟨row, figures, columns, rfl⟩ := hdecisions d hd
        exact decisionKey_endsIn (loaded_decision hz row figures columns)
  | selectSymbol sym => exact ⟨h.signals.drop, h.decisions.drop⟩
  | selectTimeframe tf => exact ⟨h.signals.drop, h.decisions.drop⟩

/-- **Merging never merges.**  Where responses end an instant in `Z`, in every run of the page its
rows are all live items, and all loaded ones after them. -/
theorem nothing_merged (hz : ∀ t, EndsIn 'Z' (jsonTime t))
    {es : List (SignalsEvent Payload Payload)} (h : ∀ e ∈ es, e.Served sha256 jsonTime) :
    (Runs.run SignalsPage.step SignalsPage.opened es).mergedSignals
        = (Runs.run SignalsPage.step SignalsPage.opened es).signals.live
          ++ (Runs.run SignalsPage.step SignalsPage.opened es).signals.history ∧
      (Runs.run SignalsPage.step SignalsPage.opened es).mergedDecisions
        = (Runs.run SignalsPage.step SignalsPage.opened es).decisions.live
          ++ (Runs.run SignalsPage.step SignalsPage.opened es).decisions.history := by
  have hapart : PageApart (Runs.run SignalsPage.step SignalsPage.opened es) := by
    induction es using List.reverseRecOn with
    | nil => exact ⟨Apart.empty, Apart.empty⟩
    | append_singleton rest e ih =>
        rw [Runs.run_append]
        exact (ih fun e he => h e (List.mem_append_left _ he)).step hz
          (h e (List.mem_append_right _ List.mem_cons_self))
  exact ⟨hapart.signals.merge, hapart.decisions.merge⟩

/-! ### A signal that is shown twice -/

theorem name_ne (agent : AgentId) : agent.name ≠ "" := by
  cases agent <;> decide

/-- Every frame of a signal is passed on. -/
theorem normalizeSignalEvent_emitted (now : String) (published : Time) (r : SignalRecord) :
    normalizeSignalEvent now (eventFrame sha256 "signals" (signalEmitted published r)).data
      = some (toAgentSignal ((eventFrame sha256 "signals" (signalEmitted published r)).data.put
          "bucket_ts" (.text (isoformat r.signal.bucketTs)))) := by
  have hagent : (eventFrame sha256 "signals" (signalEmitted published r)).data.get "agent_id"
      = .text r.signal.agentId.name := by
    rw [eventFrame_get sha256 _ _ (by decide) (by decide) (by decide)]
    rfl
  have hbucket : (eventFrame sha256 "signals" (signalEmitted published r)).data.get "bucket_ts"
      = .text (isoformat r.signal.bucketTs) := by
    rw [eventFrame_get sha256 _ _ (by decide) (by decide) (by decide)]
    rfl
  have hname : str (.text r.signal.agentId.name) = some r.signal.agentId.name :=
    if_neg (name_ne r.signal.agentId)
  unfold normalizeSignalEvent
  rw [hagent, hbucket, hname, str_text (isoformat_endsIn r.signal.bucketTs),
    if_neg fun h => Option.some_ne_none _ h.1]
  rfl

/-- A signal of the pair the page is opened with. -/
def technicalRecord : SignalRecord where
  signal := ⟨.technical, .eurusd, .H1, .long, 1 / 2, 0, [], 0, 7200000000⟩
  version := "1.0"
  rationale := ""
  runId := "7c2b"
  confidence := .other "0.5" false
  features := .other "{}" true

def technicalLive : AgentSignal Payload :=
  toAgentSignal ((eventFrame id "signals" (signalEmitted 0 technicalRecord)).data.put "bucket_ts"
    (.text (isoformat technicalRecord.signal.bucketTs)))

def technicalLoaded : AgentSignal Payload :=
  toAgentSignal (signalOut (fun t => stampBody t ++ "Z") technicalRecord)

theorem technical_served : ∀ e ∈ [SignalsEvent.onSignal technicalLive,
    SignalsEvent.loaded [technicalLoaded] ([] : List (DecisionItem Payload))],
      e.Served id fun t => stampBody t ++ "Z" := by
  refine List.forall_mem_cons.mpr ⟨?_, List.forall_mem_singleton.mpr ⟨?_, List.forall_mem_nil _⟩⟩
  · exact ⟨"", 0, technicalRecord, normalizeSignalEvent_emitted "" 0 technicalRecord⟩
  · exact List.forall_mem_singleton.mpr ⟨technicalRecord, rfl⟩

/-- The signal comes live, and then its row is loaded. -/
theorem nothing_merged_technical :
    (Runs.run SignalsPage.step SignalsPage.opened [SignalsEvent.onSignal technicalLive,
      SignalsEvent.loaded [technicalLoaded] ([] : List (DecisionItem Payload))]).mergedSignals
        = [technicalLive, technicalLoaded] := by
  have hz : EndsIn 'Z' "Z" := by rfl
  rw [(nothing_merged (fun t => hz.append (stampBody t)) technical_served).1]
  rfl

end LivePage

end ForexAi
