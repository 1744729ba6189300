/-
The latest rows of a table.

`ORDER BY stamp DESC LIMIT n` keeps the `n` rows with the largest stamps, and of rows with one
stamp those that come first in the table: the sort is stable.  A row of the table is kept
exactly when fewer than `n` rows are ahead of it (`mem_latest_iff`), where the rows ahead are
those with a larger stamp and, of its own, those before it in the table.

The induction is over the rows before the one in question: each of them goes in front of it
when its stamp is at least as large, and behind it otherwise (`insertionSort_split`).
-/
import Mathlib.Data.List.Sort

namespace Latest

variable {α β : Type*} [LinearOrder β] (stamp : α → β)

/-- The `n` latest rows, latest first. -/
def latest (n : ℕ) (rows : List α) : List α :=
  (rows.insertionSort fun a b => stamp b ≤ stamp a).take n

/-- How many rows are ahead of a row that `before` rows precede. -/
def ahead (before rows : List α) (x : α) : ℕ :=
  rows.countP (fun y => decide (stamp x < stamp y)) +
    before.countP fun y => decide (stamp y = stamp x)

variable {stamp}

/-- What goes in front of nothing goes last. -/
theorem orderedInsert_last {r : α → α → Prop} [DecidableRel r] {a : α} {rows : List α}
    (h : ∀ b ∈ rows, ¬ r a b) : rows.orderedInsert r a = rows ++ [a] := by
  induction rows with
  | nil => rfl
  | cons b rest ih =>
      rw [List.orderedInsert_of_not_le r _ (h b List.mem_cons_self),
        ih fun c hc => h c (List.mem_cons_of_mem b hc)]
      rfl

/-! ### What is among the latest -/

theorem length_latest (n : ℕ) (rows : List α) :
    (latest stamp n rows).length = min n rows.length := by
  unfold latest
  rw [List.length_take, List.length_insertionSort]

theorem mem_of_latest {n : ℕ} {rows : List α} {x : α} (h : x ∈ latest stamp n rows) : x ∈ rows :=
  (List.mem_insertionSort _).mp (List.mem_of_mem_take h)

theorem pairwise_latest (n : ℕ) (rows : List α) :
    (latest stamp n rows).Pairwise fun a b => stamp b ≤ stamp a :=
  (List.pairwise_insertionSort (fun a b => stamp b ≤ stamp a) rows).sublist (List.take_sublist _ _)

/-- The latest of rows that ascend are the last ones. -/
theorem latest_of_ascending {rows : List α} (h : rows.Pairwise fun a b => stamp a < stamp b)
    (n : ℕ) : latest stamp n rows = rows.reverse.take n := by
  have hsort : rows.insertionSort (fun a b => stamp b ≤ stamp a) = rows.reverse := by
    induction rows with
    | nil => rfl
    | cons a rest ih =>
        obtain ⟨hhead, hrest⟩ := List.pairwise_cons.mp h
        rw [List.insertionSort_cons, ih hrest, List.reverse_cons]
        refine orderedInsert_last fun b hb => ?_
        exact not_le.mpr (hhead b (List.mem_reverse.mp hb))
  unfold latest
  rw [hsort]

/-! ### Where a row ends up -/

/-- In a descending list what is above a bound is a prefix. -/
theorem length_takeWhile_desc {l : List α} (h : l.Pairwise fun a b => stamp b ≤ stamp a) (x : α) :
    (l.takeWhile fun y => decide (stamp x < stamp y)).length
      = l.countP fun y => decide (stamp x < stamp y) := by
  induction l with
  | nil => rfl
  | cons a rest ih =>
      obtain ⟨hhead, hrest⟩ := List.pairwise_cons.mp h
      by_cases habove : stamp x < stamp a
      · rw [List.takeWhile_cons_of_pos (by simpa using habove),
          List.countP_cons_of_pos (by simpa using habove), List.length_cons, ih hrest]
      · rw [List.takeWhile_cons_of_neg (by simpa using habove),
          List.countP_cons_of_neg (by simpa using habove), List.length_nil, eq_comm,
          List.countP_eq_zero]
        intro y hy
        simpa using (hhead y hy).trans (not_lt.mp habove)

/-- What goes in front of an element goes among those in front of it. -/
theorem orderedInsert_before {r : α → α → Prop} [DecidableRel r] {a x : α} (h : r a x)
    (front rest : List α) :
    (front ++ x :: rest).orderedInsert r a = front.orderedInsert r a ++ x :: rest := by
  induction front with
  | nil => exact List.orderedInsert_cons_of_le r rest h
  | cons b front ih =>
      by_cases hb : r a b
      · rw [List.cons_append, List.orderedInsert_cons_of_le r _ hb,
          List.orderedInsert_cons_of_le r _ hb]
        rfl
      · rw [List.cons_append, List.orderedInsert_of_not_le r _ hb,
          List.orderedInsert_of_not_le r _ hb, ih]
        rfl

/-- What goes in front of nothing up to an element goes behind it. -/
theorem orderedInsert_behind {r : α → α → Prop} [DecidableRel r] {a x : α} (h : ¬ r a x)
    {front : List α} (hfront : ∀ b ∈ front, ¬ r a b) (rest : List α) :
    (front ++ x :: rest).orderedInsert r a = front ++ x :: rest.orderedInsert r a := by
  induction front with
  | nil => exact List.orderedInsert_of_not_le r rest h
  | cons b front ih =>
      rw [List.cons_append, List.orderedInsert_of_not_le r _ (hfront b List.mem_cons_self),
        ih fun c hc => hfront c (List.mem_cons_of_mem b hc)]
      rfl

/-- **Where a row ends up**: behind the rows ahead of it. -/
theorem insertionSort_split (before after : List α) (x : α) :
    ∃ front rest, (before ++ x :: after).insertionSort (fun a b => stamp b ≤ stamp a)
        = front ++ x :: rest ∧
      front.length = ahead stamp before (before ++ x :: after) x := by
  induction before with
  | nil =>
      set sorted := after.insertionSort fun a b => stamp b ≤ stamp a with hsorted
      have hdesc : sorted.Pairwise fun a b => stamp b ≤ stamp a := List.pairwise_insertionSort _ _
      have hcount : sorted.countP (fun y => decide (stamp x < stamp y))
          = after.countP fun y => decide (stamp x < stamp y) :=
        (List.perm_insertionSort _ after).countP_eq _
      refine ⟨sorted.takeWhile fun y => decide (stamp x < stamp y),
        sorted.dropWhile fun y => decide (stamp x < stamp y), ?_, ?_⟩
      · rw [List.nil_append, List.insertionSort_cons, List.orderedInsert_eq_take_drop]
        simp only [not_le, ← hsorted]
      · rw [length_takeWhile_desc hdesc, hcount]
        simp [ahead]
  | cons a before ih =>
      obtain ⟨front, rest, hsplit, hlength⟩ := ih
      have hdesc : (front ++ x :: rest).Pairwise fun a b => stamp b ≤ stamp a := by
        rw [← hsplit]
        exact List.pairwise_insertionSort _ _
      have hfront : ∀ b ∈ front, stamp x ≤ stamp b := fun b hb =>
        (List.pairwise_append.mp hdesc).2.2 b hb x List.mem_cons_self
      rw [List.cons_append, List.insertionSort_cons, hsplit]
      have hbefore := @orderedInsert_before α (fun a b => stamp b ≤ stamp a) _ a x
      have hbehind := @orderedInsert_behind α (fun a b => stamp b ≤ stamp a) _ a x
      by_cases hle : stamp x ≤ stamp a
      · refine ⟨front.orderedInsert (fun a b => stamp b ≤ stamp a) a, rest,
          hbefore hle front rest, ?_⟩
        rw [List.orderedInsert_length, hlength]
        unfold ahead
        rcases lt_or_eq_of_le hle with hlt | heq
        · rw [List.countP_cons_of_pos (by simpa using hlt),
            List.countP_cons_of_neg (by simpa using hlt.ne')]
          omega
        · rw [List.countP_cons_of_neg (by simp [heq]), List.countP_cons_of_pos (by simp [heq])]
          omega
      · refine ⟨front, rest.orderedInsert (fun a b => stamp b ≤ stamp a) a,
          hbehind hle (fun b hb hba => hle ((hfront b hb).trans hba)) rest, ?_⟩
        rw [hlength]
        unfold ahead
        rw [List.countP_cons_of_neg (by simpa using (not_le.mp hle).le),
          List.countP_cons_of_neg (by simpa using (not_le.mp hle).ne)]

/-- **A row is among the latest exactly when fewer rows are ahead of it.** -/
theorem mem_latest_iff {n : ℕ} {before after : List α} {x : α}
    (hnodup : (before ++ x :: after).Nodup) :
    x ∈ latest stamp n (before ++ x :: after) ↔
      ahead stamp before (before ++ x :: after) x < n := by
  obtain ⟨front, rest, hsplit, hlength⟩ := @insertionSort_split _ _ _ stamp before after x
  have hsorted : (front ++ x :: rest).Nodup := by
    rw [← hsplit]
    exact (List.perm_insertionSort _ _).nodup_iff.mpr hnodup
  unfold latest
  rw [hsplit, ← hlength]
  constructor
  · intro hmem
    by_contra hfar
    rw [List.take_append_of_le_length (not_lt.mp hfar)] at hmem
    exact (List.nodup_append.mp hsorted).2.2 x (List.mem_of_mem_take hmem) x List.mem_cons_self rfl
  · intro hlt
    refine List.mem_take_iff_getElem.mpr ⟨front.length, ?_, ?_⟩
    · simp [hlt]
    · simp

end Latest
