/-
The items that came last.

`recent` holds one item for each key, the one that came last, in the order in which they came,
latest first.  `buffer` is the same list, cut to its first `n` items each time.

Cutting early loses nothing (`buffer_eq_take`): what was cut off has `n` other keys in front of
it, and comes to the front again only by coming in again.  So an item is in the buffer exactly if
fewer than `n` keys came after it (`mem_buffer_iff`).
-/
import Mathlib.Data.Finset.Card
import Mathlib.Data.List.Induction

namespace Recency

variable {α β : Type*} [DecidableEq β] (key : α → β)

/-- An item goes to the front, and what was there under its key goes away. -/
def touch (xs : List α) (a : α) : List α := a :: xs.filter fun x => key x ≠ key a

/-- The last item of each key, latest first. -/
def recent (items : List α) : List α := items.foldl (touch key) []

/-- The same, cut to `n` items after each. -/
def buffer (n : ℕ) (items : List α) : List α :=
  items.foldl (fun xs a => (touch key xs a).take n) []

variable {key}

theorem recent_concat (items : List α) (a : α) :
    recent key (items ++ [a]) = touch key (recent key items) a := by
  unfold recent
  rw [List.foldl_append]
  rfl

theorem buffer_concat (n : ℕ) (items : List α) (a : α) :
    buffer key n (items ++ [a]) = (touch key (buffer key n items) a).take n := by
  unfold buffer
  rw [List.foldl_append]
  rfl

/-! ### One item for each key -/

theorem nodup_touch {xs : List α} (h : (xs.map key).Nodup) (a : α) :
    ((touch key xs a).map key).Nodup := by
  unfold touch
  rw [List.map_cons, List.nodup_cons]
  refine ⟨fun hmem => ?_, h.sublist (List.filter_sublist.map key)⟩
  obtain ⟨x, hx, hsame⟩ := List.mem_map.mp hmem
  exact absurd hsame (by simpa using (List.mem_filter.mp hx).2)

theorem nodup_recent (items : List α) : ((recent key items).map key).Nodup := by
  induction items using List.reverseRecOn with
  | nil => exact List.nodup_nil
  | append_singleton rest a ih =>
      rw [recent_concat]
      exact nodup_touch ih a

/-- Of items with different keys at most one has a given key. -/
theorem length_le_filter {xs : List α} (h : (xs.map key).Nodup) (k : β) :
    xs.length ≤ (xs.filter fun x => key x ≠ k).length + 1 := by
  induction xs with
  | nil => exact Nat.zero_le _
  | cons x rest ih =>
      rw [List.map_cons, List.nodup_cons] at h
      by_cases hk : key x = k
      · have hrest : rest.filter (fun y => key y ≠ k) = rest := by
          refine List.filter_eq_self.mpr fun y hy => ?_
          have hne : key y ≠ k := fun hy' => h.1 (by rw [hk, ← hy']; exact List.mem_map_of_mem hy)
          simpa using hne
        rw [List.filter_cons_of_neg (by simpa using hk), hrest]
        exact le_refl _
      · rw [List.filter_cons_of_pos (by simpa using hk), List.length_cons, List.length_cons]
        have hle := ih h.2
        omega

/-! ### Cutting early -/

/-- What is cut off before an item comes would be cut off after it. -/
theorem take_touch (n : ℕ) {xs : List α} (h : (xs.map key).Nodup) (a : α) :
    (touch key (xs.take n) a).take n = (touch key xs a).take n := by
  cases n with
  | zero => rfl
  | succ m =>
      unfold touch
      rw [List.take_succ_cons, List.take_succ_cons]
      refine congrArg (a :: ·) ?_
      by_cases hlong : m + 1 ≤ xs.length
      · have hkept : m ≤ ((xs.take (m + 1)).filter fun x => key x ≠ key a).length := by
          have hle := length_le_filter (h.sublist ((List.take_sublist (m + 1) xs).map key)) (key a)
          rw [List.length_take, min_eq_left hlong] at hle
          omega
        have hsplit : xs.filter (fun x => key x ≠ key a)
            = (xs.take (m + 1)).filter (fun x => key x ≠ key a)
              ++ (xs.drop (m + 1)).filter fun x => key x ≠ key a := by
          rw [← List.filter_append, List.take_append_drop]
        rw [hsplit, List.take_append_of_le_length hkept]
      · rw [List.take_of_length_le (by omega : xs.length ≤ m + 1)]

/-- **The buffer is the front of all that came.** -/
theorem buffer_eq_take (n : ℕ) (items : List α) :
    buffer key n items = (recent key items).take n := by
  induction items using List.reverseRecOn with
  | nil => exact List.take_nil.symm
  | append_singleton rest a ih =>
      rw [buffer_concat, recent_concat, ih, take_touch n (nodup_recent rest)]

theorem nodup_buffer (n : ℕ) (items : List α) : ((buffer key n items).map key).Nodup := by
  rw [buffer_eq_take]
  exact (nodup_recent items).sublist ((List.take_sublist n _).map key)

/-! ### What is in the buffer -/

theorem mem_keys_recent (items : List α) (k : β) :
    k ∈ (recent key items).map key ↔ k ∈ items.map key := by
  induction items using List.reverseRecOn with
  | nil => exact Iff.rfl
  | append_singleton rest a ih =>
      rw [recent_concat, List.map_append, List.mem_append, ← ih]
      unfold touch
      rw [List.map_cons, List.mem_cons, List.map_singleton, List.mem_singleton]
      constructor
      · rintro (rfl | hmem)
        · exact Or.inr rfl
        · exact Or.inl ((List.filter_sublist.map key).subset hmem)
      · rintro (hmem | rfl)
        · by_cases hk : k = key a
          · exact Or.inl hk
          · obtain ⟨x, hx, rfl⟩ := List.mem_map.mp hmem
            exact Or.inr (List.mem_map_of_mem (List.mem_filter.mpr ⟨hx, by simpa using hk⟩))
        · exact Or.inl rfl

/-- There are as many items as there are keys. -/
theorem length_recent (items : List α) :
    (recent key items).length = (items.map key).toFinset.card := by
  rw [← List.length_map key, ← List.toFinset_card_of_nodup (nodup_recent items)]
  refine congrArg Finset.card (Finset.ext fun k => ?_)
  rw [List.mem_toFinset, List.mem_toFinset, mem_keys_recent]

/-- What came later stands in front. -/
theorem recent_append (xs ys : List α) :
    recent key (xs ++ ys)
      = recent key ys ++ (recent key xs).filter fun x => key x ∉ ys.map key := by
  induction ys using List.reverseRecOn with
  | nil => simp [recent]
  | append_singleton rest a ih =>
      rw [← List.append_assoc, recent_concat, recent_concat, ih]
      unfold touch
      rw [List.filter_append, List.filter_filter, List.cons_append]
      refine congrArg (a :: ·) (congrArg (List.filter _ (recent key rest) ++ ·) ?_)
      refine List.filter_congr fun x _ => ?_
      have hmem : key x ∈ (rest ++ [a]).map key ↔ key x = key a ∨ key x ∈ rest.map key := by
        rw [List.map_append, List.mem_append, List.map_singleton, List.mem_singleton, or_comm]
      rw [← Bool.decide_and, decide_eq_decide, hmem, not_or]

/-- The last item of a key stands behind the keys that came after it. -/
theorem recent_split {before after : List α} {x : α} (h : ∀ y ∈ after, key y ≠ key x) :
    ∃ rest, recent key (before ++ x :: after) = recent key after ++ x :: rest := by
  have hkeep : key x ∉ after.map key := by
    intro hmem
    obtain ⟨y, hy, hsame⟩ := List.mem_map.mp hmem
    exact h y hy hsame
  have hsplit : before ++ x :: after = before ++ [x] ++ after := by simp
  rw [hsplit, recent_append, recent_concat]
  unfold touch
  rw [List.filter_cons_of_pos (by simpa using hkeep)]
  exact ⟨_, rfl⟩

theorem split_of_mem_recent {items : List α} {x : α} (h : x ∈ recent key items) :
    ∃ before after, items = before ++ x :: after ∧ ∀ y ∈ after, key y ≠ key x := by
  induction items using List.reverseRecOn with
  | nil => exact absurd h List.not_mem_nil
  | append_singleton rest a ih =>
      rw [recent_concat] at h
      rcases List.mem_cons.mp h with rfl | hmem
      · exact ⟨rest, [], rfl, fun y hy => absurd hy List.not_mem_nil⟩
      · obtain ⟨hx, hne⟩ := List.mem_filter.mp hmem
        obtain ⟨before, after, rfl, hafter⟩ := ih hx
        refine ⟨before, after ++ [a], by simp, fun y hy => ?_⟩
        rcases List.mem_append.mp hy with hy | hy
        · exact hafter y hy
        · rw [List.mem_singleton.mp hy]
          exact Ne.symm (by simpa using hne)

/-- **An item is in the buffer exactly if it is the last of its key and fewer than `n` keys came
after it.** -/
theorem mem_buffer_iff {n : ℕ} {items : List α} {x : α} :
    x ∈ buffer key n items ↔
      ∃ before after, items = before ++ x :: after ∧ (∀ y ∈ after, key y ≠ key x) ∧
        (after.map key).toFinset.card < n := by
  rw [buffer_eq_take]
  constructor
  · intro h
    obtain ⟨before, after, rfl, hafter⟩ := split_of_mem_recent (List.mem_of_mem_take h)
    refine ⟨before, after, rfl, hafter, ?_⟩
    by_contra hmany
    obtain ⟨rest, hrest⟩ := @recent_split α β _ key before after x hafter
    rw [← length_recent, not_lt] at hmany
    rw [hrest, List.take_append_of_le_length hmany] at h
    have hkey : key x ∈ after.map key :=
      (mem_keys_recent after (key x)).mp (List.mem_map_of_mem (List.mem_of_mem_take h))
    obtain ⟨y, hy, hsame⟩ := List.mem_map.mp hkey
    exact hafter y hy hsame
  · rintro ⟨before, after, rfl, hafter, hfew⟩
    obtain ⟨rest, hrest⟩ := @recent_split α β _ key before after x hafter
    rw [← length_recent] at hfew
    obtain ⟨m, hm⟩ : ∃ m, n - (recent key after).length = m + 1 :=
      ⟨n - (recent key after).length - 1, by omega⟩
    rw [hrest, List.take_append, hm, List.take_succ_cons]
    exact List.mem_append_right _ List.mem_cons_self

end Recency
