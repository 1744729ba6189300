/-
Rows under a key, where the first one stays.

`insertNew` is an insert that does nothing on a conflict: a row whose key is there already is
dropped.  So what a key finds after any inserts is the first row that was inserted under it
(`find_insertAll`), and inserting the same rows again changes nothing (`insertAll_again`).

A table with a second key beside the one the conflict is looked for under has the other
insert, `tryInsert`: it drops the row on the one conflict and fails on the other.

A row is written back under its key with `replace`.  What is counted of the rows then gains
what the new row counts for (`filterMap_replace`), and a loop over the keys that writes every
row back once is a map (`foldl_rewrite`).
-/
import Mathlib.Data.List.Nodup

namespace Keyed

variable {α κ : Type*} [DecidableEq κ] (key : α → κ)

/-- The row under a key. -/
def find (rows : List α) (k : κ) : Option α := rows.find? fun r => decide (key r = k)

/-- Insert a row unless its key is there. -/
def insertNew (rows : List α) (r : α) : List α :=
  if (find key rows (key r)).isSome then rows else rows ++ [r]

/-- Insert a row unless its key is there, and say whether it was inserted; `none` where the
key is new and the row's other key is taken. -/
def tryInsert {ι : Type*} [DecidableEq ι] (other : α → ι) (rows : List α) (r : α) :
    Option (List α × Bool) :=
  if (find key rows (key r)).isSome then some (rows, false)
  else if (find other rows (other r)).isSome then none
  else some (rows ++ [r], true)

/-- Insert one row after the other. -/
def insertAll (rows rs : List α) : List α := rs.foldl (insertNew key) rows

variable {key}

theorem mem_of_find {rows : List α} {k : κ} {r : α} (h : find key rows k = some r) :
    r ∈ rows ∧ key r = k :=
  ⟨List.mem_of_find?_eq_some h, by simpa using List.find?_some h⟩

theorem find_eq_none {rows : List α} {k : κ} : find key rows k = none ↔ k ∉ rows.map key := by
  unfold find
  rw [List.find?_eq_none]
  simp

theorem isSome_find {rows : List α} {k : κ} :
    (find key rows k).isSome = true ↔ k ∈ rows.map key := by
  rw [← Option.ne_none_iff_isSome, ne_eq, find_eq_none, not_not]

/-- With unique keys a row is the one its key finds. -/
theorem find_of_mem {rows : List α} (hunique : (rows.map key).Nodup) {r : α} (h : r ∈ rows) :
    find key rows (key r) = some r := by
  have hsome : (find key rows (key r)).isSome = true := isSome_find.mpr (List.mem_map_of_mem h)
  obtain ⟨r', hr'⟩ := Option.isSome_iff_exists.mp hsome
  obtain ⟨hmem, hkey⟩ := mem_of_find hr'
  rw [hr', List.inj_on_of_nodup_map hunique hmem h hkey]

/-- With unique keys a row is all that its key selects. -/
theorem filter_of_mem {rows : List α} (hunique : (rows.map key).Nodup) {r : α} (h : r ∈ rows) :
    rows.filter (fun q => key q = key r) = [r] := by
  induction rows with
  | nil => exact absurd h List.not_mem_nil
  | cons q rest ih =>
      obtain ⟨hfresh, hrest⟩ := List.nodup_cons.mp hunique
      rcases List.mem_cons.mp h with rfl | hmem
      · have hnone : rest.filter (fun q => key q = key r) = [] := by
          rw [List.filter_eq_nil_iff]
          intro q hq hkey
          exact hfresh (decide_eq_true_eq.mp hkey ▸ List.mem_map_of_mem hq)
        rw [List.filter_cons_of_pos (by simp), hnone]
      · have hne : key q ≠ key r := fun hkey => hfresh (hkey ▸ List.mem_map_of_mem hmem)
        rw [List.filter_cons_of_neg (by simpa using hne), ih hrest hmem]

/-! ### One insert -/

theorem insertNew_known {rows : List α} {r : α} (h : key r ∈ rows.map key) :
    insertNew key rows r = rows :=
  if_pos (isSome_find.mpr h)

theorem insertNew_new {rows : List α} {r : α} (h : key r ∉ rows.map key) :
    insertNew key rows r = rows ++ [r] :=
  if_neg fun hc => h (isSome_find.mp hc)

omit [DecidableEq κ] in
theorem nodup_concat {rows : List α} (h : (rows.map key).Nodup) {r : α}
    (hnew : key r ∉ rows.map key) : ((rows ++ [r]).map key).Nodup := by
  rw [List.map_append, List.map_singleton, ← List.concat_eq_append]
  exact h.concat hnew

theorem nodup_insertNew {rows : List α} (h : (rows.map key).Nodup) (r : α) :
    ((insertNew key rows r).map key).Nodup := by
  by_cases hknown : key r ∈ rows.map key
  · rw [insertNew_known hknown]
    exact h
  · rw [insertNew_new hknown]
    exact nodup_concat h hknown

/-- An added row is what its key finds. -/
theorem find_concat {rows : List α} {r : α} (h : key r ∉ rows.map key) :
    find key (rows ++ [r]) (key r) = some r := by
  unfold find
  rw [List.find?_append, show rows.find? (fun s => decide (key s = key r)) = none from
    find_eq_none.mpr h]
  simp

/-- **What an insert that went through did**: nothing, its key being there, or add the row,
both its keys being new. -/
theorem tryInsert_cases {ι : Type*} [DecidableEq ι] {other : α → ι} {rows rows' : List α} {r : α}
    {created : Bool} (h : tryInsert key other rows r = some (rows', created)) :
    (created = false ∧ rows' = rows ∧ key r ∈ rows.map key) ∨
      (created = true ∧ rows' = rows ++ [r] ∧ key r ∉ rows.map key ∧
        other r ∉ rows.map other) := by
  unfold tryInsert at h
  by_cases hknown : (find key rows (key r)).isSome = true
  · rw [if_pos hknown] at h
    obtain ⟨rfl, rfl⟩ := Prod.mk.inj (Option.some.inj h)
    exact Or.inl ⟨rfl, rfl, isSome_find.mp hknown⟩
  · rw [if_neg hknown] at h
    by_cases htaken : (find other rows (other r)).isSome = true
    · rw [if_pos htaken] at h
      exact absurd h (by simp)
    · rw [if_neg htaken] at h
      obtain ⟨rfl, rfl⟩ := Prod.mk.inj (Option.some.inj h)
      exact Or.inr ⟨rfl, rfl, fun hc => hknown (isSome_find.mpr hc),
        fun hc => htaken (isSome_find.mpr hc)⟩

/-- What a key finds after an insert: what it found before, else the new row if it is its key. -/
theorem find_insertNew (rows : List α) (r : α) (k : κ) :
    find key (insertNew key rows r) k = (find key rows k).or (find key [r] k) := by
  by_cases hknown : key r ∈ rows.map key
  · rw [insertNew_known hknown]
    by_cases hk : key r = k
    · obtain ⟨s, hs⟩ := Option.isSome_iff_exists.mp (isSome_find.mpr hknown)
      rw [← hk, hs]
      rfl
    · have hnone : find key [r] k = none := find_eq_none.mpr (by simpa using fun h => hk h.symm)
      rw [hnone, Option.or_none]
  · rw [insertNew_new hknown]
    unfold find
    rw [List.find?_append]

/-! ### Writing a row back -/

/-- The rows with one written back under its key. -/
def replace (key : α → κ) (rows : List α) (row : α) : List α :=
  rows.map fun q => if key q = key row then row else q

theorem replace_other {rows : List α} {row : α} (h : key row ∉ rows.map key) :
    replace key rows row = rows := by
  refine (List.map_congr_left fun q hq => ?_).trans (List.map_id rows)
  have hne : key q ≠ key row := by
    intro hkey
    exact h (hkey ▸ List.mem_map_of_mem hq)
  exact if_neg hne

/-- **A row that counted for nothing, written back as one that may count.** -/
theorem filterMap_replace {β : Type*} {rows : List α} (hunique : (rows.map key).Nodup)
    {old row : α} (hold : old ∈ rows) (hkey : key old = key row) {f : α → Option β}
    (hnone : f old = none) :
    ((replace key rows row).filterMap f).Perm ((f row).toList ++ rows.filterMap f) := by
  induction rows with
  | nil => exact absurd hold List.not_mem_nil
  | cons q rest ih =>
      obtain ⟨hfresh, hrest⟩ := List.nodup_cons.mp hunique
      rcases List.mem_cons.mp hold with rfl | hmem
      · have hnew : key row ∉ rest.map key := by
          rw [← hkey]
          exact hfresh
        have hhead : replace key (old :: rest) row = row :: rest := by
          show (if key old = key row then row else old) :: replace key rest row = _
          rw [if_pos hkey, replace_other hnew]
        rw [hhead, List.filterMap_cons_none hnone]
        cases hrow : f row with
        | none => rw [List.filterMap_cons_none hrow]; exact List.Perm.refl _
        | some b => rw [List.filterMap_cons_some hrow]; exact List.Perm.refl _
      · have hne : key q ≠ key row := by
          rw [← hkey]
          exact fun hc => hfresh (hc ▸ List.mem_map_of_mem hmem)
        have hhead : replace key (q :: rest) row = q :: replace key rest row := by
          show (if key q = key row then row else q) :: replace key rest row = _
          rw [if_neg hne]
        rw [hhead]
        cases hq : f q with
        | none =>
            rw [List.filterMap_cons_none hq, List.filterMap_cons_none hq]
            exact ih hrest hmem
        | some b =>
            rw [List.filterMap_cons_some hq, List.filterMap_cons_some hq]
            exact ((ih hrest hmem).cons b).trans List.perm_middle.symm

/-- The row under a key, written back. -/
theorem replace_split {before after : List α} {old new : α} (hkey : key old = key new)
    (hfresh : key old ∉ (before ++ after).map key) :
    replace key (before ++ old :: after) new = before ++ new :: after := by
  rw [List.map_append, List.mem_append, not_or, hkey] at hfresh
  have hbefore : replace key before new = before := replace_other hfresh.1
  have hafter : replace key after new = after := replace_other hfresh.2
  have hsplit : replace key (before ++ old :: after) new =
      replace key before new ++
        (if key old = key new then new else old) :: replace key after new := by
    unfold replace
    rw [List.map_append, List.map_cons]
  rw [hsplit, if_pos hkey, hbefore, hafter]

/-- **Every row read and written back once**, one key after the other. -/
theorem foldl_rewrite {rows : List α} (hunique : (rows.map key).Nodup) {f : α → α}
    (hkey : ∀ r, key (f r) = key r) {step : List α → κ → List α}
    (hstep : ∀ acc k r, find key acc k = some r → step acc k = replace key acc (f r)) :
    (rows.map key).foldl step rows = rows.map f := by
  have hkeys : ∀ l : List α, (l.map f).map key = l.map key := by
    intro l
    rw [List.map_map]
    exact List.map_congr_left fun r _ => hkey r
  have hrest : ∀ todo done : List α, ((done ++ todo).map key).Nodup →
      (todo.map key).foldl step (done.map f ++ todo) = (done ++ todo).map f := by
    intro todo
    induction todo with
    | nil =>
        intro done _
        rw [List.append_nil, List.append_nil]
        rfl
    | cons r rest ih =>
        intro done hnodup
        have hnow : ((done.map f ++ r :: rest).map key).Nodup := by
          rw [List.map_append, hkeys, ← List.map_append]
          exact hnodup
        have hfresh : key r ∉ (done.map f ++ rest).map key := by
          rw [List.map_append, hkeys, ← List.map_append]
          rw [List.map_append, List.map_cons, List.nodup_middle] at hnodup
          rw [List.map_append]
          exact (List.nodup_cons.mp hnodup).1
        have hfind := find_of_mem hnow (r := r) (by simp)
        rw [List.map_cons, List.foldl_cons, hstep _ _ r hfind, replace_split (hkey r).symm hfresh]
        have hnext : done.map f ++ f r :: rest = (done ++ [r]).map f ++ rest := by simp
        rw [hnext, ih (done ++ [r]) (by simpa using hnodup)]
        simp
  exact hrest rows [] hunique

/-! ### Many inserts -/

theorem insertAll_cons (rows : List α) (r : α) (rs : List α) :
    insertAll key rows (r :: rs) = insertAll key (insertNew key rows r) rs := rfl

/-- **The first row of a key stays.** -/
theorem find_insertAll (rows rs : List α) (k : κ) :
    find key (insertAll key rows rs) k = (find key rows k).or (find key rs k) := by
  induction rs generalizing rows with
  | nil => exact (Option.or_none).symm
  | cons r rest ih =>
      have hcons : find key (r :: rest) k = (find key [r] k).or (find key rest k) := by
        show List.find? _ ([r] ++ rest) = _
        rw [List.find?_append]
        rfl
      rw [insertAll_cons, ih, find_insertNew, hcons, Option.or_assoc]

/-- Rows whose keys are there change nothing. -/
theorem insertAll_known {rows rs : List α} (h : ∀ r ∈ rs, key r ∈ rows.map key) :
    insertAll key rows rs = rows := by
  induction rs with
  | nil => rfl
  | cons r rest ih =>
      rw [insertAll_cons, insertNew_known (h r List.mem_cons_self)]
      exact ih fun s hs => h s (List.mem_cons_of_mem r hs)

/-- After the inserts every key is there. -/
theorem known_insertAll {rows rs : List α} {r : α} (h : r ∈ rs) :
    key r ∈ (insertAll key rows rs).map key := by
  rw [← isSome_find, find_insertAll, Option.isSome_or, Bool.or_eq_true]
  exact Or.inr (isSome_find.mpr (List.mem_map_of_mem h))

/-- **The same inserts again change nothing.** -/
theorem insertAll_again (rows rs : List α) :
    insertAll key (insertAll key rows rs) rs = insertAll key rows rs :=
  insertAll_known fun _ hr => known_insertAll hr

end Keyed
