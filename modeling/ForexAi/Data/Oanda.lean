/-
The practice adapter: candles over HTTP.

A page of candles is asked for up to three times, as long as the answer is one to ask again
for.  Its bars are walked in their order.  One that is not complete is passed over unseen, and
one whose bucket is not of the window once its time is read; what cannot be read of any other
bar ends the call.  So a page is taken whole or not at all.

How a text or a number is read is a parameter, `Readers`.  An exception other than a
provider's own is named by its class.
-/
import ForexAi.Agents.Indicators
import ForexAi.Bus.Chronology
import ForexAi.Data.Ingest
import ForexAi.Lib.Json
import ForexAi.Lib.Rounding
import Mathlib.Data.Rat.Floor

namespace ForexAi

open Json (Value)
open Rounding

/-- How the language reads texts and numbers. -/
structure Readers (N : Type) where
  zero : N
  /-- `str.strip` -/
  strip : String → String
  /-- `datetime.fromisoformat`, of a stamp with an offset -/
  fromisoformat : String → Except String Time
  /-- whether a number is not zero -/
  truth : N → Bool
  /-- `Decimal(value)`, a finite one -/
  decimal : Value N → Except String ℚ
  /-- `int(value)` -/
  int : Value N → Except String ℤ

/-- The request for a page. -/
structure CandlesRequest where
  instrument : String
  granularity : String
  price : String
  start : String
  stop : String
  count : ℕ

/-- How an attempt to get a page ends. -/
inductive HttpAnswer (N : Type) where
  /-- `httpx.TimeoutException` -/
  | timeout (text : String)
  /-- any other `httpx.TransportError` -/
  | transport (text : String)
  /-- any other exception -/
  | raised (name : String)
  /-- a response; there is no body where it is no JSON -/
  | response (status : ℕ) (body : Option (Value N))

/-- What an attempt comes to: a page, or the exception the call ends in. -/
inductive PageResult (N : Type) where
  | page (body : Value N)
  | transient (text : String)
  | provider (text : String)
  | unexpected (name : String)

namespace Oanda

variable {N : Type}

/-! ### Asking for a page -/

/-- `to_oanda_symbol`. -/
def toOandaSymbol (symbol : Symbol) : String :=
  String.ofList (symbol.code.toList.take 3 ++ '_' :: symbol.code.toList.drop 3)

/-- `_GRANULARITY`. -/
def granularity : Timeframe → String
  | .D1 => "D"
  | tf => tf.code

/-- `_MAX_CANDLES_PER_REQUEST`. -/
def maxCandlesPerRequest : ℕ := 5000

/-- The request of `_get_candles_page`. -/
def candlesRequest (symbol : Symbol) (tf : Timeframe) (start stop : Time) : CandlesRequest where
  instrument := toOandaSymbol symbol
  granularity := granularity tf
  price := "M"
  start := isoformat start
  stop := isoformat stop
  count := maxCandlesPerRequest

/-- `_classify_status`. -/
def classifyStatus (status : ℕ) : PageResult N :=
  let text := "OANDA HTTP " ++ toString status
  if status = 429 ∨ (500 ≤ status ∧ status < 600) then .transient text else .provider text

/-- One attempt of `_get_candles_page`. -/
def getCandlesPage : HttpAnswer N → PageResult N
  | .timeout text => .transient ("OANDA timeout: " ++ text)
  | .transport text => .transient ("OANDA transport error: " ++ text)
  | .raised name => .unexpected name
  | .response status body =>
      if status ≠ 200 then classifyStatus status
      else
        match body with
        | some body => .page body
        | none => .unexpected "JSONDecodeError"

/-- The page of the first attempt that is not to be tried again, or of the last of `n + 1`. -/
def retried (answers : ℕ → HttpAnswer N) : ℕ → PageResult N
  | 0 => getCandlesPage (answers 0)
  | n + 1 =>
      match getCandlesPage (answers 0) with
      | .transient _ => retried (fun k => answers (k + 1)) n
      | result => result

/-- `stop_after_attempt(3)`: how often a page is asked for again. -/
def retries : ℕ := 2

/-! ### Reading a page -/

variable (r : Readers N)

/-- The truth of a value. -/
def truthy : Value N → Bool
  | .null => false
  | .bool b => b
  | .num n => r.truth n
  | .str s => s != ""
  | .arr items => !items.isEmpty
  | .obj fields => !fields.isEmpty

/-- `value.get(key, default)`. -/
def get (value : Value N) (key : String) (default : Value N) : Except String (Value N) :=
  match value with
  | .obj fields => .ok ((fields.lookup key).getD default)
  | _ => .error "AttributeError"

/-- `value[key]`. -/
def item (value : Value N) (key : String) : Except String (Value N) :=
  match value with
  | .obj fields =>
      match fields.lookup key with
      | some x => .ok x
      | none => .error "KeyError"
  | _ => .error "TypeError"

/-- What a loop over a value goes through. -/
def iterate : Value N → Except String (List (Value N))
  | .arr items => .ok items
  | .obj fields => .ok (fields.map fun e => .str e.1)
  | .str s => .ok (s.toList.map fun c => .str (String.singleton c))
  | _ => .error "TypeError"

/-- The text `parse_oanda_time` hands to `fromisoformat`: nanoseconds are cut off at six digits,
and fewer are filled up with zeros. -/
def trimmed (raw : String) : String :=
  let base := (r.strip raw).toList.filter (· != 'Z')
  let head := base.takeWhile (· != '.')
  match base.dropWhile (· != '.') with
  | [] => String.ofList (base ++ "+00:00".toList)
  | _ :: frac =>
      let micro := (frac.take 6).rightpad 6 '0'
      String.ofList (head ++ '.' :: (micro ++ "+00:00".toList))

/-- `parse_oanda_time`. -/
def parseOandaTime : Value N → Except String Time
  | .str raw => r.fromisoformat (trimmed r raw)
  | _ => .error "AttributeError"

/-- The digits the prices of a symbol are rounded to; a pip of the yen is 0.01. -/
def decimals (symbol : Symbol) : ℕ := if symbol.code.endsWith "JPY" then 3 else 5

/-- `Decimal.quantize`, under the default precision of 28 digits. -/
def quantize (digits : ℕ) (x : ℚ) : Except String ℚ :=
  if 10 ^ 28 ≤ |halfEven (x * 10 ^ digits)| then .error "InvalidOperation"
  else .ok (roundTo digits x)

/-- `Decimal(mid[key]).quantize(quantum)`. -/
def price (symbol : Symbol) (mid : Value N) (key : String) : Except String ℚ := do
  let x ← r.decimal (← item mid key)
  quantize (decimals symbol) x

/-- The candle of a bar of the window. -/
def readCandle (symbol : Symbol) (bucket : Time) (raw : Value N) :
    Except String ProviderCandle := do
  let mid ← get raw "mid" (.obj [])
  let openPrice ← price r symbol mid "o"
  let high ← price r symbol mid "h"
  let low ← price r symbol mid "l"
  let close ← price r symbol mid "c"
  discard (r.int (← get raw "volume" (.num r.zero)))
  let bar : Candle := { ts := bucket, openPrice, high, low, close }
  if bar.Valid then return { bar, complete := true } else throw "ValueError"

/-- The bucket of a bar that is complete, if it is one of the window. -/
def owedBucket (tf : Timeframe) (start stop : Time) (raw : Value N) :
    Except String (Option Time) := do
  if truthy r (← get raw "complete" (.bool false)) then
    let bucket := alignToBucket (← parseOandaTime r (← item raw "time")) tf
    if ¬ Representable (bucket + tf.length) then throw "OverflowError"
    else if bucket + tf.length ≤ stop ∧ start ≤ bucket ∧ bucket < stop then return some bucket
    else return none
  else return none

/-- The loop of `fetch_candles`. -/
def readBars (symbol : Symbol) (tf : Timeframe) (start stop : Time) :
    List (Value N) → Except String (List ProviderCandle)
  | [] => .ok []
  | raw :: rest => do
      match ← owedBucket r tf start stop raw with
      | none => readBars symbol tf start stop rest
      | some bucket =>
          let candle ← readCandle r symbol bucket raw
          return candle :: (← readBars symbol tf start stop rest)

/-- What `fetch_candles` makes of a page. -/
def readPage (symbol : Symbol) (tf : Timeframe) (start stop : Time) (body : Value N) :
    Except String (List ProviderCandle) := do
  readBars r symbol tf start stop (← iterate (← get body "candles" (.arr [])))

/-- `fetch_candles`; `server` is what answers the attempts at a request. -/
def fetchCandles (server : CandlesRequest → ℕ → HttpAnswer N) (symbol : Symbol) (tf : Timeframe)
    (start stop : Time) : Fetch :=
  match retried (server (candlesRequest symbol tf start stop)) retries with
  | .transient text => .transient text
  | .provider text => .provider text
  | .unexpected name => .unexpected name
  | .page body =>
      match readPage r symbol tf start stop body with
      | .ok candles => .candles candles
      | .error name => .unexpected name

/-! ### The service behind it -/

/-- A series whose provider is the adapter. -/
def call (c : SeriesCall) (server : CandlesRequest → ℕ → HttpAnswer N) : SeriesCall :=
  { c with answer := fetchCandles r server c.symbol c.timeframe }

/-- What happens to a service whose provider is the adapter. -/
inductive Event (N : Type) where
  | series (c : SeriesCall) (server : CandlesRequest → ℕ → HttpAnswer N)
  | persist (now : Time)
  | restart

def Event.ingest : Event N → IngestService.Event
  | series c server => .series (call r c server)
  | persist now => .persist now
  | restart => .restart

/-- The service after a run of events. -/
def after (svc : IngestService) (st : IngestState) (events : List (Event N)) : IngestState :=
  Runs.run svc.step st (events.map (Event.ingest r))

end Oanda

end ForexAi
