/-
The newest row of a table, found in one pass.

The pass keeps one row and goes on to the next where the one it keeps `yields` to that.
With a strict comparison of stamps it ends with the first of the newest rows, with a weak
one with the last of them; `pick_eq_some_iff` says both at once: everything before what is
picked yields to it, and it yields to nothing after it.
-/
import Mathlib.Data.List.Induction
import Mathlib.Order.Lattice

namespace Newest

variable {α β : Type*} (yields : α → α → Prop) [DecidableRel yields]

/-- The row kept so far, or the next one where that yields to it. -/
def keep (best : Option α) (row : α) : Option α :=
  match best with
  | none => some row
  | some b => if yields b row then some row else some b

/-- The row the pass ends with. -/
def pick (rows : List α) : Option α := rows.foldl (keep yields) none

/-- A row to which everything before it yields, and which yields to nothing after it. -/
def Picked (rows : List α) (x : α) : Prop :=
  ∃ before after, rows = before ++ x :: after ∧ (∀ y ∈ before, yields y x) ∧
    ∀ y ∈ after, ¬ yields x y

theorem pick_concat (rows : List α) (x : α) :
    pick yields (rows ++ [x]) = keep yields (pick yields rows) x := by
  unfold pick
  rw [List.foldl_append]
  rfl

variable {yields}

omit [DecidableRel yields] in
theorem Picked.mem {rows : List α} {x : α} (h : Picked yields rows x) : x ∈ rows := by
  obtain ⟨before, after, rfl, -⟩ := h
  simp

theorem pick_mem {rows : List α} {x : α} (h : pick yields rows = some x) : x ∈ rows := by
  induction rows using List.reverseRecOn with
  | nil => exact absurd h (by simp [pick])
  | append_singleton rest row ih =>
      rw [pick_concat] at h
      unfold keep at h
      split at h
      · rw [← Option.some.inj h]
        simp
      · rename_i b hb
        split at h
        · rw [← Option.some.inj h]
          simp
        · exact List.mem_append_left _ (ih (hb.trans h))

theorem pick_eq_none {rows : List α} (h : pick yields rows = none) : rows = [] := by
  induction rows using List.reverseRecOn with
  | nil => rfl
  | append_singleton rest row =>
      rw [pick_concat] at h
      unfold keep at h
      split at h
      · exact absurd h (by simp)
      · split at h <;> exact absurd h (by simp)

/-- A picked row is the one the pass ends with. -/
theorem Picked.pick_eq {rows : List α} {x : α} (h : Picked yields rows x) :
    pick yields rows = some x := by
  obtain ⟨before, after, rfl, hbefore, hafter⟩ := h
  have hhere : pick yields (before ++ [x]) = some x := by
    rw [pick_concat]
    unfold keep
    split
    · rfl
    · rename_i b hb
      rw [if_pos (hbefore b (pick_mem hb))]
  induction after using List.reverseRecOn with
  | nil => exact hhere
  | append_singleton rest row ih =>
      have hrest := ih fun y hy => hafter y (List.mem_append_left _ hy)
      rw [← List.cons_append, ← List.append_assoc, pick_concat, hrest]
      exact if_neg (hafter row (by simp))

/-- **What the pass ends with.** -/
theorem pick_eq_some_iff (htrans : ∀ a b c, yields a b → yields b c → yields a c)
    (hneg : ∀ a b c, ¬ yields a b → yields a c → yields b c) {rows : List α} {x : α} :
    pick yields rows = some x ↔ Picked yields rows x := by
  refine ⟨fun h => ?_, Picked.pick_eq⟩
  induction rows using List.reverseRecOn generalizing x with
  | nil => exact absurd h (by simp [pick])
  | append_singleton rest row ih =>
      rw [pick_concat] at h
      cases hp : pick yields rest with
      | none =>
          rw [hp] at h
          obtain rfl := Option.some.inj h
          exact ⟨[], [], by rw [pick_eq_none hp, List.nil_append], by simp, by simp⟩
      | some b =>
          rw [hp] at h
          obtain ⟨before, after, rfl, hbefore, hafter⟩ := ih hp
          by_cases hyields : yields b row
          · obtain rfl := Option.some.inj ((if_pos hyields).symm.trans h)
            -- The row that is replaced yields to the new one, so all that yielded to it does.
            refine ⟨before ++ b :: after, [], by simp, fun y hy => ?_, by simp⟩
            rcases List.mem_append.mp hy with hy | hy
            · exact htrans y b row (hbefore y hy) hyields
            · rcases List.mem_cons.mp hy with rfl | hy
              · exact hyields
              · exact hneg b y row (hafter y hy) hyields
          · obtain rfl := Option.some.inj ((if_neg hyields).symm.trans h)
            refine ⟨before, after ++ [row], by simp, hbefore, fun y hy => ?_⟩
            rcases List.mem_append.mp hy with hy | hy
            · exact hafter y hy
            · rw [List.mem_singleton.mp hy]
              exact hyields

section Stamped

variable [LinearOrder β] (stamp : α → β)

/-- The first of the newest rows. -/
def First (rows : List α) (x : α) : Prop := Picked (fun a b => stamp a < stamp b) rows x

/-- The last of the newest rows. -/
def Last (rows : List α) (x : α) : Prop := Picked (fun a b => stamp a ≤ stamp b) rows x

theorem pick_lt_iff {rows : List α} {x : α} :
    pick (fun a b => stamp a < stamp b) rows = some x ↔ First stamp rows x := by
  have htrans : ∀ a b c : α, stamp a < stamp b → stamp b < stamp c → stamp a < stamp c :=
    fun _ _ _ hab hbc => lt_trans hab hbc
  have hneg : ∀ a b c : α, ¬ stamp a < stamp b → stamp a < stamp c → stamp b < stamp c :=
    fun _ _ _ hab hac => lt_of_le_of_lt (not_lt.mp hab) hac
  exact pick_eq_some_iff htrans hneg

theorem pick_le_iff {rows : List α} {x : α} :
    pick (fun a b => stamp a ≤ stamp b) rows = some x ↔ Last stamp rows x := by
  have htrans : ∀ a b c : α, stamp a ≤ stamp b → stamp b ≤ stamp c → stamp a ≤ stamp c :=
    fun _ _ _ hab hbc => le_trans hab hbc
  have hneg : ∀ a b c : α, ¬ stamp a ≤ stamp b → stamp a ≤ stamp c → stamp b ≤ stamp c :=
    fun _ _ _ hab hac => le_trans (le_of_lt (not_le.mp hab)) hac
  exact pick_eq_some_iff htrans hneg

end Stamped

end Newest
