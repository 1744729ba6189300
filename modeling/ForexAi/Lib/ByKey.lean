/-
Entries of a dictionary, sorted by their keys.

With distinct keys the sorted list says which entries there are and nothing about the order
they came in (`sort_eq_iff`).  Sorting does not look at the values, so they may be changed
before it or after it (`sort_map`).
-/
import Mathlib.Data.List.Nodup
import Mathlib.Data.List.Sort
import Mathlib.Order.Defs.LinearOrder

namespace ByKey

variable {κ V W : Type*} [LinearOrder κ]

/-- The entries in the order of their keys. -/
def sort (fs : List (κ × V)) : List (κ × V) := fs.insertionSort fun a b => a.1 ≤ b.1

theorem perm_sort (fs : List (κ × V)) : (sort fs).Perm fs := List.perm_insertionSort _ fs

theorem pairwise_sort (fs : List (κ × V)) : (sort fs).Pairwise fun a b => a.1 ≤ b.1 := by
  have : Std.Total fun a b : κ × V => a.1 ≤ b.1 := ⟨fun a b => le_total a.1 b.1⟩
  have : IsTrans (κ × V) fun a b => a.1 ≤ b.1 := ⟨fun _ _ _ hab hbc => le_trans hab hbc⟩
  exact List.pairwise_insertionSort (fun a b : κ × V => a.1 ≤ b.1) fs

theorem nodup_sort {fs : List (κ × V)} (h : (fs.map Prod.fst).Nodup) :
    ((sort fs).map Prod.fst).Nodup := ((perm_sort fs).map Prod.fst).nodup_iff.mpr h

/-- Sorted entries with distinct keys that are the same entries are the same list. -/
theorem eq_of_perm {fs gs : List (κ × V)} (hkeys : (gs.map Prod.fst).Nodup)
    (hfs : fs.Pairwise fun a b => a.1 ≤ b.1) (hgs : gs.Pairwise fun a b => a.1 ≤ b.1)
    (h : fs.Perm gs) : fs = gs := by
  refine h.eq_of_pairwise (fun a b ha hb hab hba => ?_) hfs hgs
  exact List.inj_on_of_nodup_map hkeys (h.subset ha) hb (le_antisymm hab hba)

/-- **Sorted by key, dictionaries are equal exactly when their entries are the same.** -/
theorem sort_eq_iff {fs gs : List (κ × V)} (hgs : (gs.map Prod.fst).Nodup) :
    sort fs = sort gs ↔ fs.Perm gs := by
  constructor
  · intro h
    exact (perm_sort fs).symm.trans (h ▸ perm_sort gs)
  · intro h
    exact eq_of_perm (nodup_sort hgs) (pairwise_sort fs) (pairwise_sort gs)
      ((perm_sort fs).trans (h.trans (perm_sort gs).symm))

theorem sort_sort {fs : List (κ × V)} (h : (fs.map Prod.fst).Nodup) : sort (sort fs) = sort fs :=
  (sort_eq_iff h).mpr (perm_sort fs)

omit [LinearOrder κ] in
theorem map_fst (f : V → W) (fs : List (κ × V)) :
    (fs.map fun e => (e.1, f e.2)).map Prod.fst = fs.map Prod.fst := by
  rw [List.map_map]
  rfl

/-- **The values may be changed before the entries are sorted or after.** -/
theorem sort_map (f : V → W) {fs : List (κ × V)} (h : (fs.map Prod.fst).Nodup) :
    sort (fs.map fun e => (e.1, f e.2)) = (sort fs).map fun e => (e.1, f e.2) := by
  refine eq_of_perm ?_ (pairwise_sort _) ?_ ?_
  · rw [map_fst]
    exact nodup_sort h
  · exact (pairwise_sort fs).map _ fun _ _ hab => hab
  · exact (perm_sort _).trans ((perm_sort fs).symm.map _)

end ByKey
