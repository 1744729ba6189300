/-
Columns with missing values.

A column is a list of values that may be missing, as a column of a data frame is;
missing beside anything is missing.  The operations are the ones indicator
libraries are written with: rolling windows, exponential means, a smoothing that is
seeded with a mean.  All of them keep the length.

What the rest needs to know of the smoothing is when its last value is there:
`lastValid_wilderSmooth` says that a column without gaps and at least as long as the
smoothing has one.
-/
import Mathlib.Algebra.Field.Basic
import Mathlib.Algebra.Order.Ring.Defs
import Mathlib.Algebra.BigOperators.Group.List.Basic

namespace Columns

/-- A column of values that may be missing. -/
abbrev Column (K : Type*) := List (Option K)

section General

variable {K : Type*}

/-- A column without gaps. -/
def ofList (xs : List K) : Column K := xs.map some

/-- Two aligned columns, value by value. -/
def zip (f : K → K → Option K) (xs ys : Column K) : Column K :=
  List.zipWith (fun x y => x.bind fun a => y.bind (f a)) xs ys

/-- `shift(1)`. -/
def shift : Column K → Column K
  | [] => []
  | x :: rest => none :: (x :: rest).dropLast

/-- `dropna()`, as the values that are left. -/
def present (xs : Column K) : List K := xs.filterMap id

/-- The latest value that is there. -/
def lastValid (xs : Column K) : Option K := (present xs).getLast?

/-- The trailing windows of `n` values, through `f`; missing where a window is short or has
a gap. -/
def rolling (n : ℕ) (f : List K → Option K) (xs : Column K) : Column K :=
  (List.range xs.length).map fun i =>
    if i + 1 < n then none else (((xs.take (i + 1)).drop (i + 1 - n)).mapM id).bind f

/-- Values put back at the places where the column has one, as `reindex` does. -/
def fillPresent : Column K → Column K → Column K
  | [], _ => []
  | none :: rest, ys => none :: fillPresent rest ys
  | some _ :: rest, [] => none :: fillPresent rest []
  | some _ :: rest, y :: ys => y :: fillPresent rest ys

end General

section Arithmetic

variable {K : Type*} [Field K]

def sub (xs ys : Column K) : Column K := zip (fun a b => some (a - b)) xs ys

def add (xs ys : Column K) : Column K := zip (fun a b => some (a + b)) xs ys

/-- Scale every value. -/
def scale (c : K) (xs : Column K) : Column K := xs.map (·.map (c * ·))

/-- `diff()`. -/
def diff (xs : Column K) : Column K := sub xs (shift xs)

/-- Quotients; missing where the divisor is zero. -/
def div [DecidableEq K] (xs ys : Column K) : Column K :=
  zip (fun a b => if b = 0 then none else some (a / b)) xs ys

/-- The mean of some values. -/
def meanOf (xs : List K) : K := xs.sum / xs.length

/-- `mean()`: the mean of the values that are there. -/
def mean (xs : Column K) : Option K :=
  match present xs with
  | [] => none
  | x :: rest => some (meanOf (x :: rest))

/-- One step of `wilderSmooth`. -/
def wilderStep (n : ℕ) (before value : Option K) : Option K :=
  before.bind fun b => value.map fun v => 1 / (n : K) * v + (1 - 1 / (n : K)) * b

/-- Wilder's smoothing, seeded with the mean of the first `n` values. -/
def wilderSmooth (n : ℕ) (xs : Column K) : Column K :=
  if xs.length < n then xs.map fun _ => none
  else
    List.replicate (n - 1) none ++ List.scanl (wilderStep n) (mean (xs.take n)) (xs.drop n)

/-- The state of an exponential mean: the mean so far, the weight it carries, and the number
of values seen. -/
structure EwmState (K : Type*) where
  weighted : Option K
  oldWeight : K
  observed : ℕ

/-- One value of an exponential mean. -/
def ewmStep (alpha : K) (s : EwmState K) (value : Option K) : EwmState K :=
  match s.weighted, value with
  | none, none => s
  | none, some v => { s with weighted := some v, observed := s.observed + 1 }
  | some w, none => { s with weighted := some w, oldWeight := s.oldWeight * (1 - alpha) }
  | some w, some v =>
      let old := s.oldWeight * (1 - alpha)
      { weighted := some ((old * w + alpha * v) / (old + alpha)), oldWeight := 1,
        observed := s.observed + 1 }

/-- `ewm(alpha, adjust=False, min_periods).mean()`. -/
def ewmMean (alpha : K) (minPeriods : ℕ) (xs : Column K) : Column K :=
  let start : EwmState K := { weighted := none, oldWeight := 1, observed := 0 }
  (List.scanl (ewmStep alpha) start xs).tail.map fun s =>
    if s.observed < max 1 minPeriods then none else s.weighted

end Arithmetic

/-! ### The last value of a smoothing -/

section LastValue

variable {K : Type*}

theorem present_append (xs ys : Column K) : present (xs ++ ys) = present xs ++ present ys :=
  List.filterMap_append

theorem present_ofList (xs : List K) : present (ofList xs) = xs := by
  unfold present ofList
  induction xs with
  | nil => rfl
  | cons x rest ih => exact congrArg (x :: ·) ih

theorem lastValid_append {xs ys : Column K} {v : K} (h : lastValid ys = some v) :
    lastValid (xs ++ ys) = some v := by
  unfold lastValid at h ⊢
  rw [present_append, List.getLast?_append, h]
  rfl

variable [Field K]

theorem mean_ofList {xs : List K} (h : xs ≠ []) : mean (ofList xs) = some (meanOf xs) := by
  unfold mean
  rw [present_ofList]
  cases xs with
  | nil => exact absurd rfl h
  | cons x rest => rfl

/-- The seed of a smoothing of a column without gaps. -/
theorem mean_take_ofList {n : ℕ} (hpos : 0 < n) {xs : List K} (hlong : n ≤ xs.length) :
    mean ((ofList xs).take n) = some (meanOf (xs.take n)) := by
  have hne : xs.take n ≠ [] := by
    intro hnil
    have hzero := congrArg List.length hnil
    rw [List.length_take, List.length_nil] at hzero
    omega
  rw [← mean_ofList hne]
  exact congrArg mean List.map_take.symm

/-- Smoothing a column without gaps from a value on, the last value is there. -/
theorem lastValid_scanl (n : ℕ) (xs : List K) :
    ∀ seed : K, ∃ v, lastValid (List.scanl (wilderStep n) (some seed) (ofList xs)) = some v := by
  induction xs with
  | nil => intro seed; exact ⟨seed, rfl⟩
  | cons x rest ih =>
      intro seed
      obtain ⟨v, hv⟩ := ih (1 / (n : K) * x + (1 - 1 / (n : K)) * seed)
      refine ⟨v, ?_⟩
      rw [show ofList (x :: rest) = some x :: ofList rest from rfl, List.scanl_cons]
      exact @lastValid_append K [some seed] _ v hv

/-- **A smoothed column without gaps has a last value**, when it is long enough. -/
theorem lastValid_wilderSmooth {n : ℕ} (hpos : 0 < n) {xs : List K} (hlong : n ≤ xs.length) :
    ∃ v, lastValid (wilderSmooth n (ofList xs)) = some v := by
  have hlen : ¬ (ofList xs).length < n := by
    rw [ofList, List.length_map]
    omega
  have hdrop : (ofList xs).drop n = ofList (xs.drop n) := List.map_drop.symm
  obtain ⟨v, hv⟩ := lastValid_scanl n (xs.drop n) (meanOf (xs.take n))
  refine ⟨v, ?_⟩
  unfold wilderSmooth
  rw [if_neg hlen, mean_take_ofList hpos hlong, hdrop]
  exact lastValid_append hv

end LastValue

end Columns
