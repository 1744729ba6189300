/-
The log is a function of what is no secret, and of all of that.

Two values are alike when they differ at most in what stands under keys that name secrets, in
dictionaries no deeper than the redaction goes (`Alike`).  Alike values are logged alike, so no
secret is to be learnt from the log; and values that are logged alike are alike, so nothing
else is kept from it.  Both follow the value, the one along the way in which two values are
alike, the other along the value itself.
-/
import ForexAi.Core.Redaction

namespace ForexAi

namespace Redaction

variable {α : Type}

/-! ### Values that are alike

The relation is built like a value, with a depth that counts the dictionaries passed.  At the
last depth nothing is hidden any more, and alike means equal.
-/

mutual

/-- Values, at a depth, that differ at most in secrets. -/
inductive Alike : ℕ → Logged α → Logged α → Prop where
  | same (depth : ℕ) (x : Logged α) : Alike depth x x
  | list {depth : ℕ} {xs ys : List (Logged α)} (hdepth : depth ≤ maxRedactionDepth)
      (h : AlikeItems (depth + 1) xs ys) : Alike depth (.list xs) (.list ys)
  | tuple {depth : ℕ} {xs ys : List (Logged α)} (hdepth : depth ≤ maxRedactionDepth)
      (h : AlikeItems (depth + 1) xs ys) : Alike depth (.tuple xs) (.tuple ys)
  | dict {depth : ℕ} {xs ys : List (LogKey α × Logged α)} (hdepth : depth ≤ maxRedactionDepth)
      (h : AlikeFields (depth + 1) xs ys) : Alike depth (.dict xs) (.dict ys)

inductive AlikeItems : ℕ → List (Logged α) → List (Logged α) → Prop where
  | nil (depth : ℕ) : AlikeItems depth [] []
  | cons {depth : ℕ} {x y : Logged α} {xs ys : List (Logged α)} (h : Alike depth x y)
      (hrest : AlikeItems depth xs ys) : AlikeItems depth (x :: xs) (y :: ys)

inductive AlikeFields : ℕ → List (LogKey α × Logged α) → List (LogKey α × Logged α) → Prop where
  | nil (depth : ℕ) : AlikeFields depth [] []
  | secret {depth : ℕ} {key : LogKey α} (x y : Logged α) {xs ys : List (LogKey α × Logged α)}
      (hsecret : isSecret key = true) (hrest : AlikeFields depth xs ys) :
      AlikeFields depth ((key, x) :: xs) ((key, y) :: ys)
  | open_ {depth : ℕ} {key : LogKey α} {x y : Logged α} {xs ys : List (LogKey α × Logged α)}
      (h : Alike depth x y) (hrest : AlikeFields depth xs ys) :
      AlikeFields depth ((key, x) :: xs) ((key, y) :: ys)

end

/-- Below the depth nothing is redacted. -/
theorem redactValue_deep {depth : ℕ} (h : maxRedactionDepth < depth) (x : Logged α) :
    redactValue depth x = x := by
  cases x <;> simp [redactValue, h]

section

variable {depth : ℕ} (h : depth ≤ maxRedactionDepth)

include h

theorem redactValue_list (xs : List (Logged α)) :
    redactValue depth (.list xs) = .list (redactItems (depth + 1) xs) := by
  rw [redactValue, if_neg (Nat.not_lt.mpr h)]

theorem redactValue_tuple (xs : List (Logged α)) :
    redactValue depth (.tuple xs) = .tuple (redactItems (depth + 1) xs) := by
  rw [redactValue, if_neg (Nat.not_lt.mpr h)]

theorem redactValue_dict (xs : List (LogKey α × Logged α)) :
    redactValue depth (.dict xs) = .dict (redactFields (depth + 1) xs) := by
  rw [redactValue, if_neg (Nat.not_lt.mpr h)]

end

mutual

/-- What is alike is logged alike. -/
theorem Alike.redacted {depth : ℕ} {x y : Logged α} (h : Alike depth x y) :
    redactValue depth x = redactValue depth y :=
  match h with
  | .same _ _ => rfl
  | .list hdepth h => by rw [redactValue_list hdepth, redactValue_list hdepth, h.redacted]
  | .tuple hdepth h => by rw [redactValue_tuple hdepth, redactValue_tuple hdepth, h.redacted]
  | .dict hdepth h => by rw [redactValue_dict hdepth, redactValue_dict hdepth, h.redacted]

theorem AlikeItems.redacted {depth : ℕ} {xs ys : List (Logged α)} (h : AlikeItems depth xs ys) :
    redactItems depth xs = redactItems depth ys :=
  match h with
  | .nil _ => rfl
  | .cons h hrest => by rw [redactItems, redactItems, h.redacted, hrest.redacted]

theorem AlikeFields.redacted {depth : ℕ} {xs ys : List (LogKey α × Logged α)}
    (h : AlikeFields depth xs ys) : redactFields depth xs = redactFields depth ys :=
  match h with
  | .nil _ => rfl
  | .secret x y hsecret hrest => by
      rw [redactFields, redactFields, if_pos hsecret, if_pos hsecret, hrest.redacted]
  | .open_ h hrest => by rw [redactFields, redactFields, h.redacted, hrest.redacted]

end

mutual

/-- What is logged alike is alike. -/
theorem alike_of_redacted {depth : ℕ} : ∀ {x y : Logged α},
    redactValue depth x = redactValue depth y → Alike depth x y
  | x, y, h => by
      rcases Nat.lt_or_ge maxRedactionDepth depth with hdeep | hdepth
      · rw [redactValue_deep hdeep, redactValue_deep hdeep] at h
        exact h ▸ .same depth x
      · -- Two values of different kinds stay so.
        cases x with
        | text s =>
            cases y with
            | text s' =>
                rw [redactValue, redactValue] at h
                exact h ▸ .same depth _
            | _ => exact absurd h (by simp [redactValue, Nat.not_lt.mpr hdepth])
        | other u =>
            cases y with
            | other u' =>
                rw [redactValue, redactValue] at h
                exact h ▸ .same depth _
            | _ => exact absurd h (by simp [redactValue, Nat.not_lt.mpr hdepth])
        | list xs =>
            cases y with
            | list ys =>
                rw [redactValue_list hdepth, redactValue_list hdepth] at h
                exact .list hdepth (alikeItems_of_redacted (Logged.list.inj h))
            | _ => exact absurd h (by simp [redactValue, Nat.not_lt.mpr hdepth])
        | tuple xs =>
            cases y with
            | tuple ys =>
                rw [redactValue_tuple hdepth, redactValue_tuple hdepth] at h
                exact .tuple hdepth (alikeItems_of_redacted (Logged.tuple.inj h))
            | _ => exact absurd h (by simp [redactValue, Nat.not_lt.mpr hdepth])
        | dict xs =>
            cases y with
            | dict ys =>
                rw [redactValue_dict hdepth, redactValue_dict hdepth] at h
                exact .dict hdepth (alikeFields_of_redacted (Logged.dict.inj h))
            | _ => exact absurd h (by simp [redactValue, Nat.not_lt.mpr hdepth])

theorem alikeItems_of_redacted {depth : ℕ} : ∀ {xs ys : List (Logged α)},
    redactItems depth xs = redactItems depth ys → AlikeItems depth xs ys
  | [], [], _ => .nil depth
  | [], _ :: _, h => absurd h (by simp [redactItems])
  | _ :: _, [], h => absurd h (by simp [redactItems])
  | x :: xs, y :: ys, h => by
      rw [redactItems, redactItems] at h
      obtain ⟨hx, hxs⟩ := List.cons.inj h
      exact .cons (alike_of_redacted hx) (alikeItems_of_redacted hxs)

theorem alikeFields_of_redacted {depth : ℕ} : ∀ {xs ys : List (LogKey α × Logged α)},
    redactFields depth xs = redactFields depth ys → AlikeFields depth xs ys
  | [], [], _ => .nil depth
  | [], _ :: _, h => absurd h (by simp [redactFields])
  | _ :: _, [], h => absurd h (by simp [redactFields])
  | (key, x) :: xs, (key', y) :: ys, h => by
      rw [redactFields, redactFields] at h
      obtain ⟨hentry, hrest⟩ := List.cons.inj h
      obtain ⟨rfl, hvalue⟩ := Prod.mk.inj hentry
      by_cases hsecret : isSecret key = true
      · exact .secret x y hsecret (alikeFields_of_redacted hrest)
      · rw [if_neg hsecret, if_neg hsecret] at hvalue
        exact .open_ (alike_of_redacted hvalue) (alikeFields_of_redacted hrest)

end

mutual

/-- Redaction changes nothing but secrets. -/
theorem alike_redactValue (depth : ℕ) : ∀ x : Logged α, Alike depth (redactValue depth x) x
  | .text s => .same depth _
  | .other u => .same depth _
  | .list xs => by
      rcases Nat.lt_or_ge maxRedactionDepth depth with hdeep | hdepth
      · rw [redactValue_deep hdeep]
        exact .same depth _
      · rw [redactValue_list hdepth]
        exact .list hdepth (alike_redactItems (depth + 1) xs)
  | .tuple xs => by
      rcases Nat.lt_or_ge maxRedactionDepth depth with hdeep | hdepth
      · rw [redactValue_deep hdeep]
        exact .same depth _
      · rw [redactValue_tuple hdepth]
        exact .tuple hdepth (alike_redactItems (depth + 1) xs)
  | .dict xs => by
      rcases Nat.lt_or_ge maxRedactionDepth depth with hdeep | hdepth
      · rw [redactValue_deep hdeep]
        exact .same depth _
      · rw [redactValue_dict hdepth]
        exact .dict hdepth (alike_redactFields (depth + 1) xs)

theorem alike_redactItems (depth : ℕ) :
    ∀ xs : List (Logged α), AlikeItems depth (redactItems depth xs) xs
  | [] => .nil depth
  | x :: xs => .cons (alike_redactValue depth x) (alike_redactItems depth xs)

theorem alike_redactFields (depth : ℕ) :
    ∀ xs : List (LogKey α × Logged α), AlikeFields depth (redactFields depth xs) xs
  | [] => .nil depth
  | (key, x) :: xs => by
      rw [redactFields]
      by_cases hsecret : isSecret key = true
      · exact .secret _ x hsecret (alike_redactFields depth xs)
      · rw [if_neg hsecret]
        exact .open_ (alike_redactValue depth x) (alike_redactFields depth xs)

end

/-! ### Events

An event is a dictionary at the top, redacted entry by entry, so its entries are compared in
their order.
-/

/-- Entries of one key that differ at most in secrets. -/
def AlikeEntries (a b : String × Logged α) : Prop :=
  a.1 = b.1 ∧ (isSensitiveKey a.1 = true ∨ Alike 0 a.2 b.2)

theorem redactEntry_eq (a : String × Logged α) :
    redactEntry a = (a.1, if isSensitiveKey a.1 = true then redacted else redactValue 0 a.2) := by
  unfold redactEntry
  by_cases hevent : a.1 = "event"
  · simp [hevent, event_open]
  · simp [hevent]

theorem redactEntry_eq_iff (a b : String × Logged α) :
    redactEntry a = redactEntry b ↔ AlikeEntries a b := by
  rw [redactEntry_eq, redactEntry_eq, Prod.mk.injEq]
  unfold AlikeEntries
  refine and_congr_right fun hkey => ?_
  rw [← hkey]
  by_cases hsecret : isSensitiveKey a.1 = true
  · simp [hsecret]
  · rw [if_neg hsecret, if_neg hsecret]
    refine ⟨fun h => Or.inr (alike_of_redacted h), fun h => ?_⟩
    exact (h.resolve_left hsecret).redacted

theorem alike_redactEntry (a : String × Logged α) : AlikeEntries (redactEntry a) a := by
  rw [redactEntry_eq]
  refine ⟨rfl, ?_⟩
  by_cases hsecret : isSensitiveKey a.1 = true
  · exact Or.inl hsecret
  · rw [if_neg hsecret]
    exact Or.inr (alike_redactValue 0 a.2)

end Redaction

namespace EventDict

open Redaction

variable {α : Type}

/-- Events of the same keys, in one order, that differ at most in secrets. -/
def Alike (e f : EventDict α) : Prop := List.Forall₂ AlikeEntries e.fields f.fields

theorem fields_redactSensitive (e : EventDict α) :
    e.redactSensitive.fields = e.fields.map redactEntry :=
  redactAll_eq e.distinct

/-- **The log tells two events apart exactly when they differ in something that is no secret**;
and what it is given is alike to the event, so redacting again changes nothing. -/
theorem redacted_iff_alike (e f : EventDict α) :
    (e.redactSensitive = f.redactSensitive ↔ e.Alike f) ∧ e.redactSensitive.Alike e ∧
      e.redactSensitive.redactSensitive = e.redactSensitive := by
  have hiff : ∀ e f : EventDict α, e.redactSensitive = f.redactSensitive ↔ e.Alike f := by
    intro e f
    rw [EventDict.ext_iff, fields_redactSensitive, fields_redactSensitive, ← List.forall₂_eq_eq_eq,
      List.forall₂_map_left_iff, List.forall₂_map_right_iff]
    simp only [redactEntry_eq_iff]
    rfl
  have hself : e.redactSensitive.Alike e := by
    unfold Alike
    rw [fields_redactSensitive, List.forall₂_map_left_iff]
    exact List.forall₂_same.mpr fun a _ => alike_redactEntry a
  exact ⟨hiff e f, hself, (hiff _ _).mpr hself⟩

end EventDict

end ForexAi
