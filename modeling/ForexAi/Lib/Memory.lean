/-
What an exponential mean remembers.

On a column without gaps an exponential mean is one affine step a value (`blend`), so its last
value is a fold (`getLast?_ewmMean`).  A step shrinks the distance of two means by the same
factor, whatever the value is, and so does a run of steps (`blend_sub`): the mean never
forgets where it started, it only remembers it less and less (`blend_injective`).
-/
import ForexAi.Lib.Columns
import Mathlib.Algebra.Order.Field.Basic
import Mathlib.Tactic.LinearCombination
import Mathlib.Tactic.Ring

namespace Columns

section Blend

variable {K : Type*} [Field K]

/-- The exponential mean of a start and the values after it. -/
def blend (alpha start : K) (xs : List K) : K :=
  xs.foldl (fun mean value => (1 - alpha) * mean + alpha * value) start

theorem blend_append (alpha start : K) (xs ys : List K) :
    blend alpha start (xs ++ ys) = blend alpha (blend alpha start xs) ys := List.foldl_append

/-- What is left of a distance between two starts. -/
theorem blend_sub (alpha : K) (xs : List K) : ∀ a b : K,
    blend alpha a xs - blend alpha b xs = (1 - alpha) ^ xs.length * (a - b) := by
  induction xs with
  | nil => intro a b; simp [blend]
  | cons x rest ih =>
      intro a b
      calc blend alpha a (x :: rest) - blend alpha b (x :: rest)
          = (1 - alpha) ^ rest.length
              * (((1 - alpha) * a + alpha * x) - ((1 - alpha) * b + alpha * x)) :=
            ih ((1 - alpha) * a + alpha * x) ((1 - alpha) * b + alpha * x)
        _ = (1 - alpha) ^ (x :: rest).length * (a - b) := by
            rw [List.length_cons, pow_succ]
            ring

/-- As long as a step does not forget everything, neither do many. -/
theorem blend_injective {alpha : K} (h : alpha ≠ 1) {a b : K} {xs : List K}
    (heq : blend alpha a xs = blend alpha b xs) : a = b := by
  have hsub := blend_sub alpha xs a b
  rw [heq, sub_self] at hsub
  have hfactor : (1 - alpha) ^ xs.length ≠ 0 := pow_ne_zero _ (sub_ne_zero.mpr h.symm)
  exact sub_eq_zero.mp ((mul_eq_zero.mp hsub.symm).resolve_left hfactor)

/-- A mean of one price is the price. -/
theorem blend_replicate (alpha a : K) (n : ℕ) : blend alpha a (List.replicate n a) = a := by
  induction n with
  | zero => rfl
  | succ n ih =>
      rw [List.replicate_succ]
      show blend alpha ((1 - alpha) * a + alpha * a) (List.replicate n a) = a
      rw [show (1 - alpha) * a + alpha * a = a by ring]
      exact ih

/-! ### The mean of a column without gaps -/

/-- The state of an exponential mean after a value, where no value was missing. -/
theorem ewmStep_some (alpha w v : K) (n : ℕ) :
    ewmStep alpha ⟨some w, 1, n⟩ (some v) = ⟨some ((1 - alpha) * w + alpha * v), 1, n + 1⟩ := by
  simp [ewmStep]

theorem foldl_ewmStep (alpha : K) (xs : List K) : ∀ (w : K) (n : ℕ),
    (ofList xs).foldl (ewmStep alpha) ⟨some w, 1, n⟩ =
      ⟨some (blend alpha w xs), 1, n + xs.length⟩ := by
  induction xs with
  | nil => intro w n; rfl
  | cons x rest ih =>
      intro w n
      show (ofList rest).foldl (ewmStep alpha) (ewmStep alpha ⟨some w, 1, n⟩ (some x)) = _
      rw [ewmStep_some, ih, List.length_cons]
      simp only [blend, List.foldl_cons, EwmState.mk.injEq, true_and]
      omega

/-- **The last value of an exponential mean.** -/
theorem getLast?_ewmMean (alpha : K) {minPeriods : ℕ} (x : K) {rest : List K}
    (h : minPeriods ≤ rest.length + 1) :
    (ewmMean alpha minPeriods (ofList (x :: rest))).getLast? =
      some (some (blend alpha x rest)) := by
  have hfold := foldl_ewmStep alpha rest x 1
  simp only [ewmMean]
  rw [show ofList (x :: rest) = some x :: ofList rest from rfl, List.scanl_cons, List.tail_cons,
    List.getLast?_map, List.getLast?_scanl, show ewmStep alpha ⟨none, 1, 0⟩ (some x)
      = ⟨some x, 1, 1⟩ from rfl, hfold, Option.map_some, if_neg]
  show ¬ 1 + rest.length < max 1 minPeriods
  omega

end Blend

end Columns
