/-
Texts cut at a separator.

A text is its fields with a separator between them.  The field before the first separator
and the field after the last one can be read back when they hold no separator themselves,
whatever the fields between them hold.

Where the fields may hold separators, a joined row still says which pieces its fields are cut
into, and nothing more (`join_eq_iff`): it stands for its fields exactly where no others have
the same pieces and the separators elsewhere (`tells_apart_iff`).
-/
import Mathlib.Data.List.Basic
import Mathlib.Tactic.Tauto

namespace Joined

variable {α : Type*} {sep : α}

/-- **The first field can be read back.** -/
theorem first_field {l₁ l₂ r₁ r₂ : List α} (h₁ : sep ∉ l₁) (h₂ : sep ∉ l₂)
    (h : l₁ ++ sep :: r₁ = l₂ ++ sep :: r₂) : l₁ = l₂ ∧ r₁ = r₂ := by
  induction l₁ generalizing l₂ with
  | nil =>
      cases l₂ with
      | nil => exact ⟨rfl, (List.cons.inj h).2⟩
      | cons y rest =>
          have hy : sep = y := (List.cons.inj h).1
          exact absurd (hy ▸ List.mem_cons_self) h₂
  | cons x rest ih =>
      cases l₂ with
      | nil =>
          have hx : x = sep := (List.cons.inj h).1
          exact absurd (hx ▸ List.mem_cons_self) h₁
      | cons y rest' =>
          obtain ⟨rfl, htail⟩ := List.cons.inj h
          obtain ⟨rfl, hrest⟩ := ih (fun hmem => h₁ (List.mem_cons_of_mem _ hmem))
            (fun hmem => h₂ (List.mem_cons_of_mem _ hmem)) htail
          exact ⟨rfl, hrest⟩

/-- **The last field can be read back.** -/
theorem last_field {l₁ l₂ r₁ r₂ : List α} (h₁ : sep ∉ r₁) (h₂ : sep ∉ r₂)
    (h : l₁ ++ sep :: r₁ = l₂ ++ sep :: r₂) : l₁ = l₂ ∧ r₁ = r₂ := by
  have hreverse : r₁.reverse ++ sep :: l₁.reverse = r₂.reverse ++ sep :: l₂.reverse := by
    have h' := congrArg List.reverse h
    simpa using h'
  obtain ⟨hr, hl⟩ := first_field (by simpa using h₁) (by simpa using h₂) hreverse
  exact ⟨List.reverse_injective hl, List.reverse_injective hr⟩

/-! ### Rows whose fields may hold separators -/

section Rows

variable [BEq α] [LawfulBEq α]

/-- What the fields of a row are cut into. -/
def pieces (sep : α) (row : List (List α)) : List (List α) := row.flatMap (List.splitOn sep)

/-- The separators each field holds. -/
def held (sep : α) (row : List (List α)) : List ℕ := row.map (List.count sep)

/-- Two rows are cut into the same pieces, and hold the separators in different fields. -/
def Confusable (sep : α) (row row' : List (List α)) : Prop :=
  pieces sep row = pieces sep row' ∧ held sep row ≠ held sep row'

instance [DecidableEq α] (row row' : List (List α)) : Decidable (Confusable sep row row') :=
  inferInstanceAs (Decidable (_ ∧ _))

/-- A text is its pieces. -/
theorem splitOn_injective {a b : List α} (h : a.splitOn sep = b.splitOn sep) : a = b := by
  have hjoined := congrArg [sep].intercalate h
  rwa [List.intercalate_splitOn, List.intercalate_splitOn] at hjoined

/-- **A joined row is cut where its fields are.** -/
theorem splitOn_join {row : List (List α)} (h : row ≠ []) :
    ([sep].intercalate row).splitOn sep = pieces sep row := by
  induction row with
  | nil => exact absurd rfl h
  | cons field rest ih =>
      cases rest with
      | nil => simp [pieces]
      | cons next rest =>
          rw [List.intercalate_cons_cons, List.append_assoc, List.singleton_append,
            List.splitOn_append_cons_self, ih (by simp)]
          rfl

/-- **Joined rows are the same text where they have the same pieces.** -/
theorem join_eq_iff {row row' : List (List α)} (h : row ≠ []) (h' : row' ≠ []) :
    [sep].intercalate row = [sep].intercalate row' ↔ pieces sep row = pieces sep row' := by
  rw [← splitOn_join h, ← splitOn_join h']
  exact ⟨fun heq => by rw [heq], splitOn_injective⟩

omit [LawfulBEq α] in
/-- A field has a piece more than it has separators. -/
theorem length_splitOn (a : List α) : (a.splitOn sep).length = a.count sep + 1 := by
  induction a with
  | nil => simp
  | cons x rest ih =>
      rw [List.splitOn_cons_eq_if_modifyHead, List.count_cons]
      by_cases hx : x == sep
      · rw [if_pos hx, if_pos hx, List.length_cons, ih]
      · rw [if_neg hx, if_neg hx, List.length_modifyHead, ih, Nat.add_zero]

/-- **The pieces and where the separators are held make up the fields.** -/
theorem eq_iff_pieces {row row' : List (List α)} :
    row = row' ↔ pieces sep row = pieces sep row' ∧ held sep row = held sep row' := by
  refine ⟨fun h => by rw [h]; exact ⟨rfl, rfl⟩, fun h => ?_⟩
  obtain ⟨hpieces, hheld⟩ := h
  induction row generalizing row' with
  | nil => simpa [held] using hheld.symm
  | cons field rest ih =>
      cases row' with
      | nil => simp [held] at hheld
      | cons field' rest' =>
          obtain ⟨hcount, hrest⟩ := List.cons.inj hheld
          unfold pieces at hpieces
          rw [List.flatMap_cons, List.flatMap_cons] at hpieces
          obtain ⟨hfield, htail⟩ := List.append_inj hpieces
            (by rw [length_splitOn, length_splitOn, hcount])
          rw [splitOn_injective hfield, ih htail hrest]

/-- **When a joined row says what it is for.**  The fields of two rows are the same where they
are for the same thing and agree in what else they print.  Then the joined rows are the same
text exactly for the same thing if and only if these always agree and cannot be confused. -/
theorem tells_apart_iff {row row' : List (List α)} (h : row ≠ []) (h' : row' ≠ [])
    {Same Agree : Prop} (hrow : row = row' ↔ Same ∧ Agree)
    (hprint : Same → pieces sep row = pieces sep row' → Agree) :
    (([sep].intercalate row = [sep].intercalate row' ↔ Same) ↔
      (Same → Agree) ∧ ¬ Confusable sep row row') := by
  have hfields : row = row' ↔ pieces sep row = pieces sep row' ∧ held sep row = held sep row' :=
    eq_iff_pieces
  rw [join_eq_iff h h']
  unfold Confusable
  tauto

/-- Fields without separators cannot be confused. -/
theorem not_confusable {row row' : List (List α)} (h : ∀ field ∈ row, sep ∉ field)
    (h' : ∀ field ∈ row', sep ∉ field) : ¬ Confusable sep row row' := by
  have hself (r : List (List α)) (hr : ∀ field ∈ r, sep ∉ field) : pieces sep r = r := by
    unfold pieces
    induction r with
    | nil => rfl
    | cons field rest ih =>
        rw [List.flatMap_cons, List.splitOn_eq_singleton (hr field List.mem_cons_self),
          ih fun f hf => hr f (List.mem_cons_of_mem _ hf)]
        rfl
  intro ⟨hpieces, hheld⟩
  rw [hself row h, hself row' h'] at hpieces
  exact hheld (by rw [hpieces])

/-- Rows that differ in one field at most, with the same pieces, do not differ. -/
theorem pieces_between {front back : List (List α)} {a b : List α} :
    pieces sep (front ++ a :: back) = pieces sep (front ++ b :: back) ↔ a = b := by
  refine ⟨fun h => ?_, fun h => by rw [h]⟩
  unfold pieces at h
  rw [List.flatMap_append, List.flatMap_append, List.flatMap_cons, List.flatMap_cons] at h
  exact splitOn_injective (List.append_cancel_right (List.append_cancel_left h))

end Rows

end Joined
