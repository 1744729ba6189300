/-
Directions, symbols, and the signal an agent hands on.

Every entry point of the ledger upper-cases the symbol it is given before it uses
it, so a symbol here is an upper-cased code and the structure says so; the source's
`.upper()` is then the identity and does not appear again.

A signal's `features` is an untyped nested dictionary.  It stays one: the ATR is
handed from the technical agent to its consumers through it, and whether the two
sides agree on the path is exactly what is to be proved.
-/
import ForexAi.Data.Timeframes

namespace ForexAi

/-- `Direction`. -/
inductive Direction where
  | long | short | flat
  deriving DecidableEq, Repr

namespace Direction

/-- The enumeration's string value. -/
def value : Direction → String
  | long => "LONG"
  | short => "SHORT"
  | flat => "FLAT"

end Direction

/-- An instrument code, upper case. -/
structure Symbol where
  code : String
  upper : code.toUpper = code
  deriving DecidableEq

namespace Symbol

/-- `{symbol[:3], symbol[3:]}`: the two currencies. -/
def basket (s : Symbol) : List (List Char) := [s.code.toList.take 3, s.code.toList.drop 3]

/-- The default symbols of a backtest configuration. -/
def eurusd : Symbol := ⟨"EURUSD", by decide +kernel⟩

def gbpusd : Symbol := ⟨"GBPUSD", by decide +kernel⟩

end Symbol

/-! ### Signals -/

/-- A JSON value of a `features` dictionary. -/
inductive Feature where
  | null
  | num (q : ℚ)
  | text (s : String)
  | dict (entries : List (String × Feature))

/-- A `features` dictionary; keys are distinct, so the first entry of a key is its value. -/
abbrev Features := List (String × Feature)

namespace Features

/-- `features.get(key)`. -/
def get (f : Features) (key : String) : Option Feature := f.lookup key

/-- `float(raw) if isinstance(raw, (int, float)) else None`, `raw` being `features.get(key)`. -/
def getNumber (f : Features) (key : String) : Option ℚ :=
  match f.get key with
  | some (.num q) => some q
  | _ => none

end Features

/-- A float feature that may be missing. -/
def Feature.ofOption : Option ℚ → Feature
  | none => .null
  | some q => .num q

/-- The agent families. -/
inductive AgentId where
  | technical | regime | fundamental | sentiment
  deriving DecidableEq, Repr

/-- `FRESHNESS_MULTIPLIER`, with its default. -/
def AgentId.freshnessMultiplier : AgentId → ℕ
  | .technical => 2
  | .regime => 4
  | _ => 2

/-- One agent's output for one closed bar. -/
structure AgentSignal where
  agentId : AgentId
  symbol : Symbol
  timeframe : Timeframe
  direction : Direction
  confidence : ℚ
  bucketTs : Time
  features : Features
  createdAt : Time
  validUntil : Time

/-- `valid_until_for`: the expiry of a signal per agent family and timeframe. -/
def validUntilFor (agentId : AgentId) (bucketTs : Time) (tf : Timeframe) : Time :=
  bucketTs + seconds (tf.seconds * agentId.freshnessMultiplier)

/-- The signals at hand for one bar, at most one an agent. -/
abbrev Signals := AgentId → Option AgentSignal

end ForexAi
