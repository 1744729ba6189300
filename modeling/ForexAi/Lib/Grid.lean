/-
Multiples of a width.

The points of a grid are the multiples of its width.  `floor` goes down to the grid, and
between two neighbouring points there is none.
-/
import Mathlib.Algebra.Order.Ring.Int
import Mathlib.Algebra.Order.Group.Unbundled.Int
import Mathlib.Data.Int.ModEq

namespace Grid

/-- The last grid point not after `t`. -/
def floor (width t : ℤ) : ℤ := t - t % width

theorem dvd_floor (width t : ℤ) : width ∣ floor width t := Int.dvd_self_sub_emod

theorem floor_of_dvd {width t : ℤ} (h : width ∣ t) : floor width t = t := by
  unfold floor
  rw [Int.emod_eq_zero_of_dvd h, sub_zero]

theorem floor_le {width : ℤ} (hw : 0 < width) (t : ℤ) : floor width t ≤ t := by
  have hmod := Int.emod_nonneg t (ne_of_gt hw)
  unfold floor
  omega

theorem lt_floor_add {width : ℤ} (hw : 0 < width) (t : ℤ) : t < floor width t + width := by
  have hmod := Int.emod_lt_of_pos t hw
  unfold floor
  omega

/-- The next grid point is a width away. -/
theorem add_le_of_lt {width a b : ℤ} (ha : width ∣ a) (hb : width ∣ b) (hlt : a < b) :
    a + width ≤ b := by
  have hle := Int.le_of_dvd (sub_pos.mpr hlt) (Int.dvd_sub hb ha)
  omega

/-- A grid point not after `t` is not after its floor. -/
theorem le_floor {width a t : ℤ} (hw : 0 < width) (ha : width ∣ a) (hat : a ≤ t) :
    a ≤ floor width t := by
  by_contra hlt
  have hle := add_le_of_lt (dvd_floor width t) ha (not_le.mp hlt)
  have hbelow := lt_floor_add hw t
  omega

/-- Two numbers are in one cell when the first is between the second's grid point and the next. -/
theorem same_cell_iff {width : ℤ} (hw : 0 < width) (t u : ℤ) :
    t / width = u / width ↔ floor width u ≤ t ∧ t < floor width u + width := by
  have hfloor : floor width u = u / width * width := by
    have hdiv := Int.mul_ediv_add_emod u width
    have hcomm := Int.mul_comm width (u / width)
    unfold floor
    omega
  have hnext : u / width * width + width = (u / width + 1) * width := by
    rw [Int.add_mul, Int.one_mul]
  rw [hfloor, hnext, ← Int.le_ediv_iff_mul_le hw, ← Int.ediv_lt_iff_lt_mul hw]
  omega

/-- The `k`-th point from `first` on is before `stop` exactly for the first few `k`. -/
theorem lt_count_iff {width first stop : ℤ} (hw : 0 < width) (k : ℕ) :
    k < ((stop - first + width - 1) / width).toNat ↔ first + k * width < stop := by
  have hcount : k < ((stop - first + width - 1) / width).toNat ↔
      (k : ℤ) + 1 ≤ (stop - first + width - 1) / width := by omega
  rw [hcount, Int.le_ediv_iff_mul_le hw, add_mul, one_mul]
  omega

end Grid
