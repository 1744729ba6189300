/-
The transaction cost model: half a spread a fill, and a deterministic slippage.

Slippage is a pure function of a key built from the seed, the symbol and the side.
The key is hashed to a draw in `[0, 1)`; the hash is the library's, so it is a
parameter, and all that is kept of it is the interval it lands in.
-/
import ForexAi.Agents.Base

namespace ForexAi

/-- `_digest`: a deterministic draw in `[0, 1)` from a string key. -/
class Digest where
  draw : String → ℚ
  nonneg : ∀ key, 0 ≤ draw key
  lt_one : ∀ key, draw key < 1

/-- The draw that is always zero.  It stands in where slippage is off and no draw is read. -/
@[reducible] def Digest.zero : Digest where
  draw := fun _ => 0
  nonneg := fun _ => le_refl 0
  lt_one := fun _ => zero_lt_one

/-- `CostParams`, the two knobs the cost functions read. -/
structure CostParams where
  spread : ℚ := 1 / 10000
  slippagePct : ℚ := 2 / 100000

variable [Digest]

/-- The key one fill draws with. -/
def slippageKey (seed : ℤ) (symbol : Symbol) (side : Direction) : String :=
  "bt|slip|" ++ toString seed ++ "|" ++ symbol.code ++ "|" ++ side.value

/-- `slippage_bps`: slippage in basis points for one fill. -/
def slippageBps (seed : ℤ) (symbol : Symbol) (side : Direction) (notional : ℚ)
    (params : CostParams) : ℚ :=
  let draw := Digest.draw (slippageKey seed symbol side)
  let volumeFactor := 1 + |notional| * 2 / 1000000000
  let base := draw * (1 / 2) / volumeFactor
  max 0 (base * (params.slippagePct / (2 / 100000)))

/-- `cost_per_unit`: total adverse cost, in price units, of a fill of one unit. -/
def costPerUnit (price : ℚ) (seed : ℤ) (symbol : Symbol) (side : Direction) (notional : ℚ)
    (params : CostParams) : ℚ :=
  let spreadCost := params.spread / 2
  let slip := slippageBps seed symbol side notional params
  let slipCost := price * (slip / 10000)
  spreadCost + slipCost

theorem slippageBps_off (seed : ℤ) (symbol : Symbol) (side : Direction) (notional : ℚ)
    {params : CostParams} (h : params.slippagePct = 0) :
    slippageBps seed symbol side notional params = 0 := by
  simp [slippageBps, h]

/-- Without slippage a fill costs half the spread a unit, whatever the draw. -/
theorem costPerUnit_of_slippage_off (price : ℚ) (seed : ℤ) (symbol : Symbol) (side : Direction)
    (notional : ℚ) {params : CostParams} (h : params.slippagePct = 0) :
    costPerUnit price seed symbol side notional params = params.spread / 2 := by
  simp [costPerUnit, slippageBps_off seed symbol side notional h]

end ForexAi
