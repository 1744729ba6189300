/-
Strictly ascending lists, cut to a length.

An element is among the first `m` of an ascending list exactly when fewer than `m`
elements lie before it.  With that, a question about cuts of filtered lists is a question
about counts, and counts compare by inclusion (`before_le_of_subset`).

A test that no element passes after one that fails it cuts a list in two: what passes is
a prefix (`split_filter`).  The last of rows in the order of their keys has the greatest
(`key_le_last`).

A log that looks at its last element only, and does not repeat it, is strictly ascending
exactly when what was noted never went down (`pairwise_merged_iff`).
-/
import Mathlib.Data.List.Induction
import Mathlib.Data.List.Nodup
import Mathlib.Data.List.Perm.Subperm
import Mathlib.Data.List.TakeWhile
import Mathlib.Order.Lattice

namespace Ascending

variable {α : Type*} [LinearOrder α]

/-- How many elements of the list lie before `t`. -/
def before (l : List α) (t : α) : ℕ := (l.filter (· < t)).length

theorem before_cons (x : α) (l : List α) (t : α) :
    before (x :: l) t = (if x < t then 1 else 0) + before l t := by
  unfold before
  by_cases h : x < t
  · rw [List.filter_cons_of_pos (by simpa using h), if_pos h, List.length_cons]
    omega
  · rw [List.filter_cons_of_neg (by simpa using h), if_neg h]
    omega

/-- Nothing lies before the head. -/
theorem before_head {x : α} {l : List α} (h : (x :: l).Pairwise (· < ·)) :
    before (x :: l) x = 0 := by
  unfold before
  rw [List.length_eq_zero_iff, List.filter_eq_nil_iff]
  intro u hu
  rcases List.mem_cons.mp hu with rfl | hmem
  · simp
  · simpa using le_of_lt (List.rel_of_pairwise_cons h hmem)

theorem before_mono (l : List α) {t u : α} (h : t ≤ u) : before l t ≤ before l u := by
  unfold before
  refine List.Sublist.length_le (List.monotone_filter_right l fun v hv => ?_)
  have hvt : v < t := by simpa using hv
  simpa using lt_of_lt_of_le hvt h

/-- **The first `m` elements of an ascending list.** -/
theorem mem_take_iff {l : List α} (h : l.Pairwise (· < ·)) {t : α} {m : ℕ} :
    t ∈ l.take m ↔ t ∈ l ∧ before l t < m := by
  induction l generalizing m with
  | nil => simp
  | cons x rest ih =>
      cases m with
      | zero => simp
      | succ m =>
          rw [List.take_succ_cons, List.mem_cons, List.mem_cons]
          by_cases hx : t = x
          · subst hx
            rw [before_head h]
            simp
          · have hrest := List.pairwise_cons.mp h
            rw [ih hrest.2, before_cons]
            constructor
            · rintro (hc | ⟨hmem, hlt⟩)
              · exact absurd hc hx
              · refine ⟨Or.inr hmem, ?_⟩
                rw [if_pos (hrest.1 t hmem)]
                omega
            · rintro ⟨hc | hmem, hlt⟩
              · exact absurd hc hx
              · rw [if_pos (hrest.1 t hmem)] at hlt
                exact Or.inr ⟨hmem, by omega⟩

theorem before_le_of_subset {l l' : List α} (h : l.Pairwise (· < ·)) {t : α}
    (hsub : ∀ u ∈ l, u < t → u ∈ l') : before l t ≤ before l' t := by
  have hnodup : (l.filter (· < t)).Nodup :=
    (h.imp fun hlt => ne_of_lt hlt).sublist List.filter_sublist
  refine (hnodup.subperm ?_).length_le
  intro u hu
  obtain ⟨hmem, hlt⟩ := List.mem_filter.mp hu
  exact List.mem_filter.mpr ⟨hsub u hmem (by simpa using hlt), hlt⟩

omit [LinearOrder α] in
/-- **A downward closed test passes a prefix.** -/
theorem split_filter {p : α → Bool} {l : List α}
    (h : l.Pairwise fun a b => p b = true → p a = true) :
    ∃ rest, l = l.filter p ++ rest ∧ ∀ x ∈ rest, p x = false := by
  induction l with
  | nil => exact ⟨[], rfl, fun x hx => absurd hx (by simp)⟩
  | cons x tail ih =>
      obtain ⟨hx, htail⟩ := List.pairwise_cons.mp h
      by_cases hp : p x = true
      · obtain ⟨rest, hrest, hfail⟩ := ih htail
        refine ⟨rest, ?_, hfail⟩
        rw [List.filter_cons_of_pos hp, List.cons_append, ← hrest]
      · have hall : ∀ y ∈ x :: tail, p y = false := by
          intro y hy
          rcases List.mem_cons.mp hy with rfl | hy
          · simpa using hp
          · by_contra hc
            exact hp (hx y hy (by simpa using hc))
        refine ⟨x :: tail, ?_, hall⟩
        rw [List.filter_eq_nil_iff.mpr fun y hy => by simp [hall y hy], List.nil_append]

omit [LinearOrder α] in
theorem filter_append_of_fails {p : α → Bool} (l : List α) {rest : List α}
    (hfail : ∀ x ∈ rest, p x = false) : (l ++ rest).filter p = l.filter p := by
  have hnone : rest.filter p = [] :=
    List.filter_eq_nil_iff.mpr fun x hx => by simp [hfail x hx]
  rw [List.filter_append, hnone, List.append_nil]

omit [LinearOrder α] in
theorem takeWhile_append_of_fails {p : α → Bool} (l : List α) {rest : List α}
    (hfail : ∀ x ∈ rest, p x = false) : (l ++ rest).takeWhile p = l.takeWhile p := by
  induction l with
  | nil =>
      cases rest with
      | nil => rfl
      | cons x tail =>
          have hx : ¬ p x = true := by simp [hfail x List.mem_cons_self]
          rw [List.nil_append, List.takeWhile_cons_of_neg hx, List.takeWhile_nil]
  | cons x tail ih =>
      rw [List.cons_append]
      by_cases hp : p x = true
      · rw [List.takeWhile_cons_of_pos hp, List.takeWhile_cons_of_pos hp, ih]
      · rw [List.takeWhile_cons_of_neg hp, List.takeWhile_cons_of_neg hp]

omit [LinearOrder α] in
/-- Where no element passes after one that fails, the prefix that passes is all that passes. -/
theorem takeWhile_eq_filter {p : α → Bool} {l : List α}
    (h : l.Pairwise fun a b => p b = true → p a = true) : l.takeWhile p = l.filter p := by
  obtain ⟨rest, hsplit, hfail⟩ := split_filter h
  have hall : (l.filter p).takeWhile p = l.filter p :=
    List.takeWhile_eq_self_iff.mpr fun x hx => (List.mem_filter.mp hx).2
  calc l.takeWhile p = (l.filter p ++ rest).takeWhile p := by rw [← hsplit]
    _ = l.filter p := (takeWhile_append_of_fails _ hfail).trans hall

/-- Where the keys never go down, none is above the last. -/
theorem key_le_last {β : Type*} (key : β → α) {rows : List β}
    (h : rows.Pairwise fun a b => key a ≤ key b) {last : β} (hlast : rows.getLast? = some last) :
    ∀ row ∈ rows, key row ≤ key last := by
  obtain ⟨front, rfl⟩ := List.getLast?_eq_some_iff.mp hlast
  intro row hrow
  rcases List.mem_append.mp hrow with hin | hin
  · exact (List.pairwise_append.mp h).2.2 row hin last List.mem_cons_self
  · rw [List.mem_singleton.mp hin]

/-- Where the keys ascend, none is above the last. -/
theorem key_le_newest {β : Type*} (key : β → α) {rows : List β}
    (h : rows.Pairwise fun a b => key a < key b) {last : β} (hlast : rows.getLast? = some last) :
    ∀ row ∈ rows, key row ≤ key last :=
  key_le_last key (h.imp le_of_lt) hlast

theorem before_lt_length {l : List α} (h : l.Pairwise (· < ·)) {t : α} (ht : t ∈ l) :
    before l t < l.length := by
  have hall : t ∈ l.take l.length := by rwa [List.take_length]
  exact ((mem_take_iff h).mp hall).2

/-! ### A log that does not repeat its last element -/

/-- Add `t`, unless it is the last element. -/
def note (log : List α) (t : α) : List α := if log.getLast? = some t then log else log ++ [t]

/-- The log of what was noted. -/
def merged (ts : List α) : List α := ts.foldl note []

theorem merged_concat (ts : List α) (t : α) : merged (ts ++ [t]) = note (merged ts) t := by
  unfold merged
  rw [List.foldl_append]
  rfl

theorem getLast?_merged (ts : List α) : (merged ts).getLast? = ts.getLast? := by
  induction ts using List.reverseRecOn with
  | nil => rfl
  | append_singleton ts t _ =>
      rw [merged_concat]
      unfold note
      by_cases h : (merged ts).getLast? = some t
      · rw [if_pos h, h]
        simp
      · rw [if_neg h]
        simp

theorem mem_merged (ts : List α) : ∀ u, u ∈ merged ts ↔ u ∈ ts := by
  induction ts using List.reverseRecOn with
  | nil => exact fun _ => Iff.rfl
  | append_singleton ts t ih =>
      intro u
      rw [merged_concat]
      unfold note
      by_cases h : (merged ts).getLast? = some t
      · have ht : t ∈ ts := (ih t).mp (List.mem_of_getLast? h)
        rw [if_pos h, ih, List.mem_append, List.mem_singleton]
        constructor
        · intro hu
          exact Or.inl hu
        · rintro (hu | hut)
          · exact hu
          · rw [hut]
            exact ht
      · rw [if_neg h, List.mem_append, List.mem_append, ih]

/-- In a list that never goes down nothing is above the last element. -/
theorem le_getLast {ts : List α} (h : ts.Pairwise (· ≤ ·)) {t : α} (ht : ts.getLast? = some t) :
    ∀ u ∈ ts, u ≤ t := key_le_last id h ht

/-- **The log ascends exactly when the notes never went down.** -/
theorem pairwise_merged_iff (ts : List α) :
    (merged ts).Pairwise (· < ·) ↔ ts.Pairwise (· ≤ ·) := by
  induction ts using List.reverseRecOn with
  | nil => simp [merged]
  | append_singleton ts t ih =>
      have hconcat : (ts ++ [t]).Pairwise (· ≤ ·) ↔ ts.Pairwise (· ≤ ·) ∧ ∀ u ∈ ts, u ≤ t := by
        simp [List.pairwise_append]
      rw [merged_concat, hconcat, ← ih]
      unfold note
      by_cases h : (merged ts).getLast? = some t
      · rw [if_pos h]
        constructor
        · intro hlog
          exact ⟨hlog, le_getLast (ih.mp hlog) (by rw [← getLast?_merged]; exact h)⟩
        · intro hboth
          exact hboth.1
      · have hlog : (merged ts ++ [t]).Pairwise (· < ·) ↔
            (merged ts).Pairwise (· < ·) ∧ ∀ u ∈ ts, u < t := by
          simp [List.pairwise_append, mem_merged]
        rw [if_neg h, hlog]
        refine and_congr_right fun hascending => ⟨fun hlt u hu => le_of_lt (hlt u hu), ?_⟩
        intro hle u hu
        refine lt_of_le_of_ne (hle u hu) fun heq => h ?_
        -- The last note is at least `u`, which is `t`.
        obtain ⟨last, hlast⟩ :=
          Option.isSome_iff_exists.mp (List.getLast?_isSome.mpr (List.ne_nil_of_mem hu))
        have hlow : u ≤ last := le_getLast (ih.mp hascending) hlast u hu
        have hhigh : last ≤ t := hle last (List.mem_of_getLast? hlast)
        rw [getLast?_merged, hlast, le_antisymm hhigh (heq ▸ hlow)]

end Ascending
