/-
The rows of a live page.

`Arrivals` keeps every item that came live, where the page keeps two hundred, one for each key.
The page shows of it what `Recency.buffer` keeps (`Shows.of_tracks`): each loaded item, and each
live item of another key that no later item of its key replaced and that fewer than two hundred
other keys followed.  So a row is never doubled, and what came of the selection is left out only
under these conditions.

The keys of loaded items differ because the tables have one row for each identity and no name in
it holds a colon (`signalKey_inj`).
-/
import ForexAi.Frontend.LiveLists
import ForexAi.Lib.Joined
import ForexAi.Lib.Recency
import ForexAi.Lib.Runs
import Mathlib.Tactic.Tauto

namespace ForexAi

namespace LivePage

variable {A R S : Type}

/-! ### One list against all that came

A page forgets: it has room for two hundred, takes a newer item in the place of an older one
of its key, and empties its list when the selection changes.  What it kept is compared with a
list that forgets nothing.
-/

/-- What was loaded last, and all that came live since the selection. -/
structure Arrivals (A : Type) where
  history : List A
  arrived : List A

namespace Arrivals

def empty : Arrivals A := ⟨[], []⟩

def push (item : A) (w : Arrivals A) : Arrivals A := { w with arrived := w.arrived ++ [item] }

def load (items : List A) (w : Arrivals A) : Arrivals A := { w with history := items }

def drop (w : Arrivals A) : Arrivals A := { w with arrived := [] }

end Arrivals

/-- A list of a page keeps of all that came one item for each key, up to two hundred. -/
structure Tracks (key : A → String) (belongs : A → Prop) (l : LiveList A) (w : Arrivals A) :
    Prop where
  history : l.history = w.history
  live : l.live = Recency.buffer key 200 w.arrived
  distinct : (w.history.map key).Nodup
  belongs : ∀ x ∈ w.arrived, belongs x

namespace Tracks

variable {key : A → String} {belongs : A → Prop} {l : LiveList A} {w : Arrivals A}

theorem empty : Tracks key belongs LiveList.empty Arrivals.empty :=
  ⟨rfl, rfl, List.nodup_nil, fun _ h => absurd h List.not_mem_nil⟩

theorem push (h : Tracks key belongs l w) {item : A} (hitem : belongs item) :
    Tracks key belongs (l.push key item) (w.push item) := by
  refine ⟨h.history, ?_, h.distinct, fun x hx => ?_⟩
  · show (Recency.touch key l.live item).take 200 = Recency.buffer key 200 (w.arrived ++ [item])
    rw [Recency.buffer_concat, h.live]
  · rcases List.mem_append.mp hx with hx | hx
    · exact h.belongs x hx
    · rw [List.mem_singleton.mp hx]
      exact hitem

theorem load (h : Tracks key belongs l w) {items : List A} (hitems : (items.map key).Nodup) :
    Tracks key belongs (l.load items) (w.load items) :=
  ⟨rfl, h.live, hitems, h.belongs⟩

theorem drop (h : Tracks key belongs l w) {belongs' : A → Prop} :
    Tracks key belongs' l.drop w.drop :=
  ⟨h.history, rfl, h.distinct, fun _ hx => absurd hx List.not_mem_nil⟩

end Tracks

/-- What the rows of a list are. -/
structure Shows (key : A → String) (belongs : A → Prop) (rows : List A) (w : Arrivals A) :
    Prop where
  once : (rows.map key).Nodup
  loaded : w.history <:+ rows
  row : ∀ x, x ∈ rows ↔ x ∈ w.history ∨ key x ∉ w.history.map key ∧
    ∃ before after, w.arrived = before ++ x :: after ∧ (∀ y ∈ after, key y ≠ key x) ∧
      (after.map key).toFinset.card < 200
  belongs : ∀ x ∈ rows, x ∈ w.history ∨ belongs x

theorem mem_merge {key : A → String} {history live : List A} {x : A} :
    x ∈ merge key history live ↔ x ∈ history ∨ key x ∉ history.map key ∧ x ∈ live := by
  unfold merge
  rw [List.mem_append, List.mem_filter, decide_eq_true_iff, or_comm, and_comm]

theorem nodup_merge {key : A → String} {history live : List A} (h : (history.map key).Nodup)
    (hlive : (live.map key).Nodup) : ((merge key history live).map key).Nodup := by
  unfold merge
  rw [List.map_append]
  refine List.Nodup.append (hlive.sublist (List.filter_sublist.map key)) h ?_
  intro k hk hhistory
  obtain ⟨x, hx, rfl⟩ := List.mem_map.mp hk
  exact of_decide_eq_true (List.mem_filter.mp hx).2 hhistory

/-- **A list shows what was loaded and, of what came live, the last of each other key.** -/
theorem Shows.of_tracks {key : A → String} {belongs : A → Prop} {l : LiveList A} {w : Arrivals A}
    (h : Tracks key belongs l w) : Shows key belongs (merge key l.history l.live) w := by
  rw [h.history, h.live]
  refine ⟨nodup_merge h.distinct (Recency.nodup_buffer 200 w.arrived), List.suffix_append _ _,
    fun x => ?_, fun x hx => ?_⟩
  · rw [mem_merge, Recency.mem_buffer_iff]
  · rcases mem_merge.mp hx with hx | ⟨-, hx⟩
    · exact Or.inl hx
    · obtain ⟨before, after, hsplit, -⟩ := Recency.mem_buffer_iff.mp hx
      exact Or.inr (h.belongs x (by rw [hsplit]; simp))

/-! ### The keys of loaded rows

A key joins the fields of an identity with colons.  Without a colon in a field the fields can
be read back from it.
-/

/-- What the table of the signals has one row for. -/
def AgentSignal.identity (s : AgentSignal R) : String × String × String × String :=
  (s.agentId, s.symbol, s.timeframe, s.bucketTs)

/-- What the table of the decisions has one row for. -/
def DecisionItem.identity (d : DecisionItem R) : String × String × String :=
  (d.symbol, d.timeframe, d.bucketTs)

/-- No name in the identity holds a colon. -/
structure AgentSignal.Plain (s : AgentSignal R) : Prop where
  agentId : ':' ∉ s.agentId.toList
  symbol : ':' ∉ s.symbol.toList
  timeframe : ':' ∉ s.timeframe.toList

structure DecisionItem.Plain (d : DecisionItem R) : Prop where
  symbol : ':' ∉ d.symbol.toList
  timeframe : ':' ∉ d.timeframe.toList

theorem signalKey_inj {s t : AgentSignal R} (hs : s.Plain) (ht : t.Plain)
    (h : signalKey s = signalKey t) : s.identity = t.identity := by
  have hchars : s.agentId.toList ++ ':' ::
        (s.symbol.toList ++ ':' :: (s.timeframe.toList ++ ':' :: s.bucketTs.toList))
      = t.agentId.toList ++ ':' ::
        (t.symbol.toList ++ ':' :: (t.timeframe.toList ++ ':' :: t.bucketTs.toList)) := by
    have htexts := congrArg String.toList h
    simpa [signalKey] using htexts
  obtain ⟨hagent, hchars⟩ := Joined.first_field hs.agentId ht.agentId hchars
  obtain ⟨hsymbol, hchars⟩ := Joined.first_field hs.symbol ht.symbol hchars
  obtain ⟨htimeframe, hbucket⟩ := Joined.first_field hs.timeframe ht.timeframe hchars
  unfold AgentSignal.identity
  rw [String.toList_inj.mp hagent, String.toList_inj.mp hsymbol, String.toList_inj.mp htimeframe,
    String.toList_inj.mp hbucket]

theorem decisionKey_inj {d e : DecisionItem R} (hd : d.Plain) (he : e.Plain)
    (h : decisionKey d = decisionKey e) : d.identity = e.identity := by
  have hchars : d.symbol.toList ++ ':' :: (d.timeframe.toList ++ ':' :: d.bucketTs.toList)
      = e.symbol.toList ++ ':' :: (e.timeframe.toList ++ ':' :: e.bucketTs.toList) := by
    have htexts := congrArg String.toList h
    simpa [decisionKey] using htexts
  obtain ⟨hsymbol, hchars⟩ := Joined.first_field hd.symbol he.symbol hchars
  obtain ⟨htimeframe, hbucket⟩ := Joined.first_field hd.timeframe he.timeframe hchars
  unfold DecisionItem.identity
  rw [String.toList_inj.mp hsymbol, String.toList_inj.mp htimeframe, String.toList_inj.mp hbucket]

theorem alertKey_inj {a b : Alert R} (ha : isSyntheticId a.eventId = false)
    (hb : isSyntheticId b.eventId = false) (h : alertKey a = alertKey b) :
    a.eventId = b.eventId := by
  unfold alertKey at h
  rw [ha, hb] at h
  exact (String.append_right_inj "id:").mp h

/-- Rows of different identities have different keys. -/
theorem nodup_keys {β : Type} {key : A → String} {identity : A → β} {items : List A}
    (h : (items.map identity).Nodup)
    (hinj : ∀ x ∈ items, ∀ y ∈ items, key x = key y → identity x = identity y) :
    (items.map key).Nodup := by
  rw [List.Nodup, List.pairwise_map] at h ⊢
  refine h.imp_of_mem fun hx hy hne hsame => hne (hinj _ hx _ hy hsame)

/-! ### The pages -/

/-- The alerts of a reply: the table has one row for each event, under its own id. -/
def AlertsEvent.Rows : AlertsEvent R → Prop
  | .onEvent _ => True
  | .loaded items =>
      (items.map Alert.eventId).Nodup ∧ ∀ a ∈ items, isSyntheticId a.eventId = false

/-- All that came to the page of the alerts. -/
def Arrivals.alertsStep (w : Arrivals (Alert R)) : AlertsEvent R → Arrivals (Alert R)
  | .onEvent alert => w.push alert
  | .loaded items => w.load items

/-- The page of the alerts shows each alert once. -/
theorem alerts_page (es : List (AlertsEvent R)) (h : ∀ e ∈ es, e.Rows) :
    Shows alertKey (fun _ => True)
      (mergeAlerts (Runs.run alertsStep LiveList.empty es).history
        (Runs.run alertsStep LiveList.empty es).live)
      (Runs.run Arrivals.alertsStep Arrivals.empty es) := by
  refine Shows.of_tracks ?_
  induction es using List.reverseRecOn with
  | nil => exact Tracks.empty
  | append_singleton rest e ih =>
      have hrest := ih fun e he => h e (List.mem_append_left _ he)
      have hrows := h e (List.mem_append_right _ List.mem_cons_self)
      rw [Runs.run_append, Runs.run_append]
      cases e with
      | onEvent alert => exact hrest.push trivial
      | loaded items =>
          exact hrest.load (nodup_keys hrows.1 fun a ha b hb =>
            alertKey_inj (hrows.2 a ha) (hrows.2 b hb))

/-- The signals and decisions of a reply: the tables have one row for each identity. -/
def SignalsEvent.Rows : SignalsEvent R S → Prop
  | .onSignal _ => True
  | .onDecision _ => True
  | .loaded sigHist decHist =>
      ((sigHist.map AgentSignal.identity).Nodup ∧ ∀ s ∈ sigHist, s.Plain) ∧
        (decHist.map DecisionItem.identity).Nodup ∧ ∀ d ∈ decHist, d.Plain
  | .selectSymbol _ => True
  | .selectTimeframe _ => True

/-- All that came to the page of the signals since the last selection. -/
structure SignalsArrivals (R S : Type) where
  symbol : String
  timeframe : String
  signals : Arrivals (AgentSignal R)
  decisions : Arrivals (DecisionItem S)

namespace SignalsArrivals

def opened : SignalsArrivals R S := ⟨"EURUSD", "H1", Arrivals.empty, Arrivals.empty⟩

def step (all : SignalsArrivals R S) : SignalsEvent R S → SignalsArrivals R S
  | .onSignal signal =>
      if signal.symbol = all.symbol ∧ signal.timeframe = all.timeframe then
        { all with signals := all.signals.push signal }
      else all
  | .onDecision decision =>
      if decision.symbol = all.symbol ∧ decision.timeframe = all.timeframe then
        { all with decisions := all.decisions.push decision }
      else all
  | .loaded sigHist decHist =>
      { all with
        signals := all.signals.load sigHist
        decisions := all.decisions.load decHist }
  | .selectSymbol sym =>
      { all with symbol := sym, signals := all.signals.drop, decisions := all.decisions.drop }
  | .selectTimeframe tf =>
      { all with timeframe := tf, signals := all.signals.drop, decisions := all.decisions.drop }

end SignalsArrivals

/-- Both lists of the page keep what they should of all that came. -/
structure PageTracks (page : SignalsPage R S) (all : SignalsArrivals R S) : Prop where
  symbol : page.symbol = all.symbol
  timeframe : page.timeframe = all.timeframe
  signals : Tracks signalKey (fun s => s.symbol = page.symbol ∧ s.timeframe = page.timeframe)
    page.signals all.signals
  decisions : Tracks decisionKey (fun d => d.symbol = page.symbol ∧ d.timeframe = page.timeframe)
    page.decisions all.decisions

theorem PageTracks.selected {page : SignalsPage R S} {all : SignalsArrivals R S}
    (h : PageTracks page all) {symbol timeframe : String} :
    symbol = all.symbol ∧ timeframe = all.timeframe ↔
      symbol = page.symbol ∧ timeframe = page.timeframe := by
  rw [h.symbol, h.timeframe]

theorem PageTracks.step {page : SignalsPage R S} {all : SignalsArrivals R S}
    (h : PageTracks page all) {e : SignalsEvent R S} (hrows : e.Rows) :
    PageTracks (page.step e) (all.step e) := by
  cases e with
  | onSignal signal =>
      simp only [SignalsPage.step, SignalsArrivals.step]
      by_cases hsel : signal.symbol = page.symbol ∧ signal.timeframe = page.timeframe
      · rw [if_neg (by tauto), if_pos (h.selected.mpr hsel)]
        exact ⟨h.symbol, h.timeframe, h.signals.push hsel, h.decisions⟩
      · rw [if_pos (by tauto), if_neg (fun hall => hsel (h.selected.mp hall))]
        exact h
  | onDecision decision =>
      simp only [SignalsPage.step, SignalsArrivals.step]
      by_cases hsel : decision.symbol = page.symbol ∧ decision.timeframe = page.timeframe
      · rw [if_neg (by tauto), if_pos (h.selected.mpr hsel)]
        exact ⟨h.symbol, h.timeframe, h.signals, h.decisions.push hsel⟩
      · rw [if_pos (by tauto), if_neg (fun hall => hsel (h.selected.mp hall))]
        exact h
  | loaded sigHist decHist =>
      obtain ⟨⟨hsignals, hplain⟩, hdecisions, hplain'⟩ := hrows
      exact ⟨h.symbol, h.timeframe,
        h.signals.load (nodup_keys hsignals fun s hs t ht =>
          signalKey_inj (hplain s hs) (hplain t ht)),
        h.decisions.load (nodup_keys hdecisions fun d hd e he =>
          decisionKey_inj (hplain' d hd) (hplain' e he))⟩
  | selectSymbol sym => exact ⟨rfl, h.timeframe, h.signals.drop, h.decisions.drop⟩
  | selectTimeframe tf => exact ⟨h.symbol, rfl, h.signals.drop, h.decisions.drop⟩

/-- What the page of the signals shows of all that came. -/
structure PageShows (page : SignalsPage R S) (all : SignalsArrivals R S) : Prop where
  signals : Shows signalKey (fun s => s.symbol = page.symbol ∧ s.timeframe = page.timeframe)
    page.mergedSignals all.signals
  decisions : Shows decisionKey (fun d => d.symbol = page.symbol ∧ d.timeframe = page.timeframe)
    page.mergedDecisions all.decisions

/-- **The page of the signals shows each signal and each decision once.**  In every run, with the
replies in any order, its rows are the loaded ones and, of what came live of the selection since
it was made, the last of each key that is not loaded, unless two hundred other keys came after
it. -/
theorem signals_page (es : List (SignalsEvent R S)) (h : ∀ e ∈ es, e.Rows) :
    PageShows (Runs.run SignalsPage.step SignalsPage.opened es)
      (Runs.run SignalsArrivals.step SignalsArrivals.opened es) := by
  have htracks : PageTracks (Runs.run SignalsPage.step SignalsPage.opened es)
      (Runs.run SignalsArrivals.step SignalsArrivals.opened es) := by
    induction es using List.reverseRecOn with
    | nil => exact ⟨rfl, rfl, Tracks.empty, Tracks.empty⟩
    | append_singleton rest e ih =>
        have hrest := ih fun e he => h e (List.mem_append_left _ he)
        rw [Runs.run_append, Runs.run_append]
        exact hrest.step (h e (List.mem_append_right _ List.mem_cons_self))
  exact ⟨Shows.of_tracks htracks.signals, Shows.of_tracks htracks.decisions⟩

/-- A signal of the pair the page is opened with. -/
def euro (agentId bucketTs : String) (confidence : ℕ) : AgentSignal ℕ :=
  ⟨agentId, "EURUSD", "H1", bucketTs, confidence⟩

/-- Nine and ten o'clock, as a row of the API and as a frame of the feed says it. -/
def nine : String := "2026-03-02T09:00:00Z"

def ten : String := "2026-03-02T10:00:00Z"

def liveTen : String := "2026-03-02T10:00:00+00:00"

/-- A signal comes twice, and then a reply that has its row too. -/
def reconnected : List (SignalsEvent ℕ Unit) :=
  [.loaded [euro "technical" nine 40] [], .onSignal (euro "technical" liveTen 50),
    .onSignal (euro "regime" liveTen 60), .onSignal (euro "technical" liveTen 50),
    .onSignal ⟨"technical", "GBPUSD", "H1", liveTen, 70⟩,
    .loaded [euro "technical" ten 50, euro "technical" nine 40] []]

theorem reconnected_rows : ∀ e ∈ reconnected, e.Rows := by
  have hplain : ∀ bucketTs confidence, (euro "technical" bucketTs confidence).Plain :=
    fun _ _ => ⟨(by decide : ':' ∉ "technical".toList), (by decide : ':' ∉ "EURUSD".toList),
      (by decide : ':' ∉ "H1".toList)⟩
  have hnone : (([] : List (DecisionItem Unit)).map DecisionItem.identity).Nodup ∧
      ∀ d ∈ ([] : List (DecisionItem Unit)), d.Plain :=
    ⟨List.nodup_nil, List.forall_mem_nil _⟩
  refine List.forall_mem_cons.mpr ⟨⟨⟨by decide, ?_⟩, hnone⟩, ?_⟩
  · exact List.forall_mem_singleton.mpr (hplain nine 40)
  · refine List.forall_mem_cons.mpr ⟨trivial, List.forall_mem_cons.mpr ⟨trivial,
      List.forall_mem_cons.mpr ⟨trivial, List.forall_mem_cons.mpr ⟨trivial,
        List.forall_mem_singleton.mpr ⟨⟨by decide, ?_⟩, hnone⟩⟩⟩⟩⟩
    exact List.forall_mem_cons.mpr
      ⟨hplain ten 50, List.forall_mem_singleton.mpr (hplain nine 40)⟩

/-- The signal that came twice has one row as it came and one as it was loaded. -/
theorem signals_page_reconnected :
    (Runs.run SignalsPage.step SignalsPage.opened reconnected).mergedSignals
        = [euro "technical" liveTen 50, euro "regime" liveTen 60, euro "technical" ten 50,
          euro "technical" nine 40] ∧
      PageShows (Runs.run SignalsPage.step SignalsPage.opened reconnected)
        (Runs.run SignalsArrivals.step SignalsArrivals.opened reconnected) :=
  ⟨by rfl, signals_page reconnected reconnected_rows⟩

/-- A reply that was asked for under the selection before is shown under the new one. -/
example : (Runs.run SignalsPage.step SignalsPage.opened
    [.selectSymbol "GBPUSD", .loaded [euro "technical" nine 40] []]
      : SignalsPage ℕ Unit).mergedSignals = [euro "technical" nine 40] := by rfl

end LivePage

end ForexAi
