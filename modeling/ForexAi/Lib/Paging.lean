/-
Reading a list page by page while it grows.

Each page is cut out of the list as it stands when that page is asked for.  A list that only
gains elements moves what it has to later places, so an element that no page has shown yet lies
at or past the next page (`shown_or_ahead`).  A page that comes up short reaches the end, so
by then every element that was there at the first page has been shown (`exists_page`); some may
have been shown twice.
-/
import Mathlib.Data.List.Basic
import Mathlib.Tactic.Ring

namespace Paging

variable {α : Type*}

/-- The page of a number, in pages of `limit`. -/
def page (limit k : ℕ) (xs : List α) : List α := (xs.drop (k * limit)).take limit

/-- What lies in the places of a page is on it. -/
theorem mem_page {limit k i : ℕ} {xs : List α} {x : α} (h : xs[i]? = some x)
    (hlow : k * limit ≤ i) (hhigh : i < k * limit + limit) : x ∈ page limit k xs := by
  refine List.mem_iff_getElem?.mpr ⟨i - k * limit, ?_⟩
  unfold page
  rw [List.getElem?_take, if_pos (by omega), List.getElem?_drop,
    Nat.add_sub_cancel' hlow, h]

/-- In a longer list an element lies no earlier. -/
theorem index_of_sublist {xs ys : List α} (h : xs.Sublist ys) {i : ℕ} {x : α}
    (hx : xs[i]? = some x) :
    ∃ j, i ≤ j ∧ ys[j]? = some x := by
  induction h generalizing i with
  | slnil => exact absurd hx (by simp)
  | cons y _ ih =>
      obtain ⟨j, hle, hj⟩ := ih hx
      exact ⟨j + 1, by omega, by rwa [List.getElem?_cons_succ]⟩
  | cons_cons y _ ih =>
      cases i with
      | zero => exact ⟨0, le_refl 0, hx⟩
      | succ i =>
          rw [List.getElem?_cons_succ] at hx
          obtain ⟨j, hle, hj⟩ := ih hx
          exact ⟨j + 1, by omega, by rwa [List.getElem?_cons_succ]⟩

variable {views : ℕ → List α} (hgrow : ∀ k, (views k).Sublist (views (k + 1)))

include hgrow

/-- **What no page has shown yet lies ahead.** -/
theorem shown_or_ahead {x : α} (h : x ∈ views 0) (limit k : ℕ) :
    (∃ m < k, x ∈ page limit m (views m)) ∨ ∃ j, k * limit ≤ j ∧ (views k)[j]? = some x := by
  induction k with
  | zero =>
      obtain ⟨j, hj⟩ := List.mem_iff_getElem?.mp h
      exact Or.inr ⟨j, by omega, hj⟩
  | succ k ih =>
      rcases ih with ⟨m, hm, hshown⟩ | ⟨j, hahead, hj⟩
      · exact Or.inl ⟨m, by omega, hshown⟩
      · by_cases hpage : j < k * limit + limit
        · exact Or.inl ⟨k, by omega, mem_page hj hahead hpage⟩
        · obtain ⟨i, hle, hi⟩ := index_of_sublist (hgrow k) hj
          refine Or.inr ⟨i, ?_, hi⟩
          rw [Nat.add_mul, Nat.one_mul]
          omega

/-- **Whoever reads on until a page comes up short has seen all that was there at the start.** -/
theorem exists_page {x : α} (h : x ∈ views 0) {limit last : ℕ}
    (hshort : (page limit last (views last)).length < limit) :
    ∃ k ≤ last, x ∈ page limit k (views k) := by
  rcases shown_or_ahead hgrow h limit last with ⟨m, hm, hshown⟩ | ⟨j, hahead, hj⟩
  · exact ⟨m, hm.le, hshown⟩
  · refine ⟨last, le_refl last, mem_page hj hahead ?_⟩
    have hlength : j < (views last).length := (List.getElem?_eq_some_iff.mp hj).1
    unfold page at hshort
    rw [List.length_take, List.length_drop] at hshort
    omega

end Paging
