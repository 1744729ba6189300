/-
The risk parameters that can be changed at runtime.

A row of `system_settings` holds overrides, which are what somebody submitted once: any JSON.
`clamped` parses one and keeps the default where it does not parse or is out of its bounds.
The bounds are checked by asking whether a number is below the one or above the other, so
`nan` is in all of them, and they are inclusive, so zero is in all of them too.

A parameter is a float, with the values that are not finite (`Extended`).  `float` of a
text is a parameter of everything here: nothing that is proved depends on what it reads.
-/
import ForexAi.Decisions.Risk
import ForexAi.Lib.Extended

namespace ForexAi

open Extended

/-- The keys of `_EDITABLE`. -/
inductive RiskKnob where
  | maxRiskPctAccount | maxExposurePct | maxDailyLossPct | maxDrawdownPct | minRr
  | slAtrMultiple | tpAtrMultiple | volTargetPct | correlationCapPct
  deriving DecidableEq, Repr

namespace RiskKnob

/-- The keys of `_EDITABLE` in its order. -/
def all : List RiskKnob :=
  [.maxRiskPctAccount, .maxExposurePct, .maxDailyLossPct, .maxDrawdownPct, .minRr,
    .slAtrMultiple, .tpAtrMultiple, .volTargetPct, .correlationCapPct]

def key : RiskKnob → String
  | maxRiskPctAccount => "max_risk_pct_account"
  | maxExposurePct => "max_exposure_pct"
  | maxDailyLossPct => "max_daily_loss_pct"
  | maxDrawdownPct => "max_drawdown_pct"
  | minRr => "min_rr"
  | slAtrMultiple => "sl_atr_multiple"
  | tpAtrMultiple => "tp_atr_multiple"
  | volTargetPct => "vol_target_pct"
  | correlationCapPct => "correlation_cap_pct"

/-- The bounds of `_EDITABLE`; the lower one is zero for every key. -/
def bounds : RiskKnob → ℚ × Option ℚ
  | minRr | slAtrMultiple | tpAtrMultiple => (0, none)
  | _ => (0, some 1)

theorem mem_all (k : RiskKnob) : k ∈ all := by
  cases k <;> decide

theorem find_key (k : RiskKnob) : all.find? (fun j => decide (j.key = k.key)) = some k := by
  cases k <;> decide

end RiskKnob

/-- `RiskParams` as it is resolved at runtime. -/
structure ResolvedParams where
  knob : RiskKnob → Extended ℚ
  riskEnabled : Bool
  paperEquity : ℚ
  paper_equity_pos : 0 < paperEquity

/-- The parameter of a key. -/
def RiskParams.knob (params : RiskParams) : RiskKnob → ℚ
  | .maxRiskPctAccount => params.maxRiskPctAccount
  | .maxExposurePct => params.maxExposurePct
  | .maxDailyLossPct => params.maxDailyLossPct
  | .maxDrawdownPct => params.maxDrawdownPct
  | .minRr => params.minRr
  | .slAtrMultiple => params.slAtrMultiple
  | .tpAtrMultiple => params.tpAtrMultiple
  | .volTargetPct => params.volTargetPct
  | .correlationCapPct => params.correlationCapPct

/-- Parameters without an override. -/
def RiskParams.resolved (params : RiskParams) : ResolvedParams where
  knob := fun k => fin (params.knob k)
  riskEnabled := params.riskEnabled
  paperEquity := params.paperEquity
  paper_equity_pos := params.paper_equity_pos

/-! ### Parsing -/

/-- A JSON value somebody submitted as an override.  Of a list and of an object nothing is
read. -/
inductive OverrideValue where
  | null
  | bool (b : Bool)
  | int (n : ℤ)
  | float (x : Extended ℚ)
  | text (s : String)
  | array
  | object

/-- What `float` raises. -/
inductive FloatError where
  | typeError | valueError | overflowError
  deriving DecidableEq, Repr

/-- The integers from here on round to something above the largest float. -/
def floatLimit : ℤ := 2 ^ 1024 - 2 ^ 970

variable (parseFloat : String → Option (Extended ℚ))

/-- `float(value)`. -/
def OverrideValue.toFloat : OverrideValue → Except FloatError (Extended ℚ)
  | null | array | object => .error .typeError
  | bool b => .ok (fin (if b then 1 else 0))
  | int n => if floatLimit ≤ |n| then .error .overflowError else .ok (fin n)
  | float x => .ok x
  | text s => (parseFloat s).elim (.error .valueError) .ok

/-- What is checked of a number that was parsed. -/
def RiskKnob.outOfBounds (k : RiskKnob) (parsed : Extended ℚ) : Bool :=
  decide (parsed < fin k.bounds.1) || k.bounds.2.any fun hi => decide (fin hi < parsed)

/-- `_clamped`; `none` is the `OverflowError`, which it does not catch. -/
def clamped (value : OverrideValue) (k : RiskKnob) (default : Extended ℚ) :
    Option (Extended ℚ) :=
  match value.toFloat parseFloat with
  | .error .overflowError => none
  | .error _ => some default
  | .ok parsed => some (if k.outOfBounds parsed then default else parsed)

/-- The overrides by their keys. -/
abbrev Overrides := String → Option OverrideValue

/-- The value of a row of `system_settings`. -/
inductive SettingValue where
  | dict (overrides : Overrides)
  | other

/-- A parameter under the overrides. -/
def ResolvedParams.override (base : ResolvedParams) (overrides : Overrides) (k : RiskKnob) :
    Option (Extended ℚ) :=
  match overrides k.key with
  | none => some (base.knob k)
  | some value => clamped parseFloat value k (base.knob k)

/-- The parameters under the overrides, unless one of them raises. -/
def ResolvedParams.overlay (base : ResolvedParams) (overrides : Overrides) :
    Option ResolvedParams :=
  if RiskKnob.all.all fun k => (base.override parseFloat overrides k).isSome then
    some { base with knob := fun k => (base.override parseFloat overrides k).getD (base.knob k) }
  else none

/-- `load_risk_params`, with the row of the table. -/
def loadRiskParams (settings : RiskParams) (row : Option SettingValue) : Option ResolvedParams :=
  match row with
  | some (.dict overrides) => settings.resolved.overlay parseFloat overrides
  | _ => some settings.resolved

/-- What `set_risk_params` stores. -/
def ResolvedParams.stored (params : ResolvedParams) : SettingValue :=
  .dict fun key =>
    (RiskKnob.all.find? fun k => decide (k.key = key)).map fun k => .float (params.knob k)

/-- `set_risk_params`: the parameters, and the row after it. -/
def setRiskParams (settings : RiskParams) (row : Option SettingValue) (updates : Overrides) :
    Option (ResolvedParams × SettingValue) := do
  let base ← loadRiskParams parseFloat settings row
  let result ← base.overlay parseFloat updates
  return (result, result.stored)

/-- The parameters that overrides can lead to: loaded ones, or the ones an update leaves. -/
def Produced (settings : RiskParams) (params : ResolvedParams) : Prop :=
  (∃ row, loadRiskParams parseFloat settings row = some params) ∨
    ∃ row updates stored, setRiskParams parseFloat settings row updates = some (params, stored)

/-! ### What an override can be -/

variable {parseFloat}

theorem clamped_cases {value : OverrideValue} {k : RiskKnob} {default x : Extended ℚ}
    (h : clamped parseFloat value k default = some x) : x = default ∨ k.outOfBounds x = false := by
  unfold clamped at h
  split at h
  · exact absurd h (by simp)
  · exact Or.inl (Option.some.inj h).symm
  · rename_i parsed _
    by_cases hout : k.outOfBounds parsed = true
    · rw [if_pos hout] at h
      exact Or.inl (Option.some.inj h).symm
    · rw [if_neg hout] at h
      obtain rfl := Option.some.inj h
      exact Or.inr (Bool.eq_false_of_not_eq_true hout)

theorem overlay_spec {base params : ResolvedParams} {overrides : Overrides}
    (h : base.overlay parseFloat overrides = some params) :
    params.riskEnabled = base.riskEnabled ∧ params.paperEquity = base.paperEquity ∧
      ∀ k, params.knob k = base.knob k ∨ k.outOfBounds (params.knob k) = false := by
  unfold ResolvedParams.overlay at h
  split at h
  · rename_i hall
    obtain rfl := Option.some.inj h
    refine ⟨rfl, rfl, fun k => ?_⟩
    obtain ⟨x, hx⟩ := Option.isSome_iff_exists.mp (List.all_eq_true.mp hall k k.mem_all)
    simp only [hx, Option.getD_some]
    unfold ResolvedParams.override at hx
    split at hx
    · exact Or.inl (Option.some.inj hx).symm
    · exact clamped_cases hx
  · exact absurd h (by simp)

theorem load_spec {settings : RiskParams} {row : Option SettingValue} {params : ResolvedParams}
    (h : loadRiskParams parseFloat settings row = some params) :
    params.riskEnabled = settings.riskEnabled ∧ params.paperEquity = settings.paperEquity ∧
      ∀ k, params.knob k = fin (settings.knob k) ∨ k.outOfBounds (params.knob k) = false := by
  unfold loadRiskParams at h
  split at h
  · exact overlay_spec h
  · obtain rfl := Option.some.inj h
    exact ⟨rfl, rfl, fun k => Or.inl rfl⟩

theorem set_spec {settings : RiskParams} {row : Option SettingValue} {updates : Overrides}
    {params : ResolvedParams} {stored : SettingValue}
    (h : setRiskParams parseFloat settings row updates = some (params, stored)) :
    stored = params.stored ∧
      params.riskEnabled = settings.riskEnabled ∧ params.paperEquity = settings.paperEquity ∧
      ∀ k, params.knob k = fin (settings.knob k) ∨ k.outOfBounds (params.knob k) = false := by
  obtain ⟨base, hbase, h⟩ := Option.bind_eq_some_iff.mp h
  obtain ⟨result, hresult, h⟩ := Option.bind_eq_some_iff.mp h
  obtain ⟨rfl, rfl⟩ := Prod.mk.inj (Option.some.inj h)
  obtain ⟨henabled, hequity, hknob⟩ := load_spec hbase
  obtain ⟨henabled', hequity', hknob'⟩ := overlay_spec hresult
  refine ⟨rfl, henabled'.trans henabled, hequity'.trans hequity, fun k => ?_⟩
  rcases hknob' k with heq | hin
  · rw [heq]
    exact hknob k
  · exact Or.inr hin

/-- **What is set is what is loaded.** -/
theorem load_set {settings : RiskParams} {row : Option SettingValue} {updates : Overrides}
    {params : ResolvedParams} {stored : SettingValue}
    (h : setRiskParams parseFloat settings row updates = some (params, stored)) :
    loadRiskParams parseFloat settings (some stored) = some params := by
  obtain ⟨rfl, henabled, hequity, hknob⟩ := set_spec h
  have hoverride : ∀ k, settings.resolved.override parseFloat
      (fun key => (RiskKnob.all.find? fun j => decide (j.key = key)).map fun j =>
        .float (params.knob j)) k = some (params.knob k) := by
    intro k
    unfold ResolvedParams.override
    simp only [k.find_key, Option.map_some]
    show some (if k.outOfBounds (params.knob k) then fin (settings.knob k) else params.knob k) = _
    rcases hknob k with heq | hin
    · rw [heq, ite_self]
    · rw [hin, if_neg Bool.false_ne_true]
  show settings.resolved.overlay parseFloat _ = _
  unfold ResolvedParams.overlay
  simp only [hoverride, Option.isSome_some, List.all_eq_true, implies_true, if_true,
    Option.getD_some]
  obtain ⟨knob, enabled, equity, hpos⟩ := params
  obtain rfl := henabled
  obtain rfl := hequity
  rfl

/-- A parameter is the setting, or in its bounds. -/
theorem Produced.knob_cases {settings : RiskParams} {params : ResolvedParams}
    (h : Produced parseFloat settings params) (k : RiskKnob) :
    params.knob k = fin (settings.knob k) ∨ k.outOfBounds (params.knob k) = false := by
  rcases h with ⟨row, hload⟩ | ⟨row, updates, stored, hset⟩
  · exact (load_spec hload).2.2 k
  · exact (load_spec (load_set hset)).2.2 k

end ForexAi
