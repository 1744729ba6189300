/-
The lists of the live pages.

A page shows what it loaded last with what came live since in front of it.  An item that comes
live takes the place of the one with its key, and at most two hundred are kept.  The page of the
signals has two such lists and a selection of a pair and a timeframe: a live item of another
selection is passed over, and a change of the selection drops the live items and loads again.
The replies of `loadHistory` come when they come, in any order and for any selection: nothing
ties a reply to the selection it finds.  One that failed changes no list.

Of an item there is what its key is made of, and `rest` for what is shown beside it.
-/
import Mathlib.Data.List.Infix

namespace ForexAi

namespace LivePage

/-! ### Keys -/

/-- `Alert`. -/
structure Alert (R : Type) where
  eventId : String
  eventType : String
  occurredAt : String
  symbol : Option String
  rest : R

/-- `AgentSignal`. -/
structure AgentSignal (R : Type) where
  agentId : String
  symbol : String
  timeframe : String
  bucketTs : String
  rest : R

/-- `DecisionItem`. -/
structure DecisionItem (R : Type) where
  symbol : String
  timeframe : String
  bucketTs : String
  rest : R

variable {A R S : Type}

def isSyntheticId (eventId : String) : Bool := ":LIVE".toList <:+ eventId.toList

def alertKey (alert : Alert R) : String :=
  if isSyntheticId alert.eventId then
    alert.eventType ++ "::" ++ alert.occurredAt ++ "::" ++ alert.symbol.getD ""
  else "id:" ++ alert.eventId

def signalKey (signal : AgentSignal R) : String :=
  "sig:" ++ signal.agentId ++ ":" ++ signal.symbol ++ ":" ++ signal.timeframe ++ ":"
    ++ signal.bucketTs

def decisionKey (decision : DecisionItem R) : String :=
  "dec:" ++ decision.symbol ++ ":" ++ decision.timeframe ++ ":" ++ decision.bucketTs

/-! ### One list -/

/-- What was loaded last, and what came live. -/
structure LiveList (A : Type) where
  history : List A
  live : List A

namespace LiveList

/-- Nothing yet. -/
def empty : LiveList A := ⟨[], []⟩

/-- An item comes live: `setLive`. -/
def push (key : A → String) (item : A) (l : LiveList A) : LiveList A :=
  { l with live := (item :: l.live.filter fun o => key o ≠ key item).take 200 }

/-- `setHistory`. -/
def load (items : List A) (l : LiveList A) : LiveList A := { l with history := items }

/-- `setLive([])`. -/
def drop (l : LiveList A) : LiveList A := { l with live := [] }

end LiveList

/-- The body of `mergeAlerts`, `mergeSignals` and `mergeDecisions`. -/
def merge (key : A → String) (history live : List A) : List A :=
  live.filter (fun item => key item ∉ history.map key) ++ history

def mergeAlerts (history live : List (Alert R)) : List (Alert R) := merge alertKey history live

def mergeSignals (history live : List (AgentSignal R)) : List (AgentSignal R) :=
  merge signalKey history live

def mergeDecisions (history live : List (DecisionItem R)) : List (DecisionItem R) :=
  merge decisionKey history live

/-! ### The page of the alerts -/

inductive AlertsEvent (R : Type) where
  | onEvent (alert : Alert R)
  | loaded (items : List (Alert R))

/-- One event of `AlertsPage`. -/
def alertsStep (page : LiveList (Alert R)) : AlertsEvent R → LiveList (Alert R)
  | .onEvent alert => page.push alertKey alert
  | .loaded items => page.load items

/-! ### The page of the signals -/

structure SignalsPage (R S : Type) where
  symbol : String
  timeframe : String
  signals : LiveList (AgentSignal R)
  decisions : LiveList (DecisionItem S)

inductive SignalsEvent (R S : Type) where
  | onSignal (signal : AgentSignal R)
  | onDecision (decision : DecisionItem S)
  | loaded (sigHist : List (AgentSignal R)) (decHist : List (DecisionItem S))
  | selectSymbol (sym : String)
  | selectTimeframe (tf : String)

namespace SignalsPage

/-- The page as it is opened. -/
def opened : SignalsPage R S := ⟨"EURUSD", "H1", LiveList.empty, LiveList.empty⟩

/-- One event of `SignalsPage`. -/
def step (page : SignalsPage R S) : SignalsEvent R S → SignalsPage R S
  | .onSignal signal =>
      if signal.symbol ≠ page.symbol ∨ signal.timeframe ≠ page.timeframe then page
      else { page with signals := page.signals.push signalKey signal }
  | .onDecision decision =>
      if decision.symbol ≠ page.symbol ∨ decision.timeframe ≠ page.timeframe then page
      else { page with decisions := page.decisions.push decisionKey decision }
  | .loaded sigHist decHist =>
      { page with
        signals := page.signals.load sigHist
        decisions := page.decisions.load decHist }
  | .selectSymbol sym =>
      { page with symbol := sym, signals := page.signals.drop, decisions := page.decisions.drop }
  | .selectTimeframe tf =>
      { page with timeframe := tf, signals := page.signals.drop, decisions := page.decisions.drop }

def mergedSignals (page : SignalsPage R S) : List (AgentSignal R) :=
  mergeSignals page.signals.history page.signals.live

def mergedDecisions (page : SignalsPage R S) : List (DecisionItem S) :=
  mergeDecisions page.decisions.history page.decisions.live

end SignalsPage

end LivePage

end ForexAi
