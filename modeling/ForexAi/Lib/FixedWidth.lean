/-
Numbers of a fixed width, and their order as texts.

A number below `10 ^ w` has a text of exactly `w` digits, zeros in front, and two such texts
compare as the numbers do (`text_lt`).  Numbers in fields of fixed widths, with separators
between them, compare as the lists of numbers do (`spell_lt`), whatever follows; with equal
numbers what follows decides (`spell_same`).  Numbers that fit their fields are read back
from there (`unspell_spell`).
-/
import Mathlib.Algebra.Ring.Nat
import Mathlib.Data.List.Forall2
import Mathlib.Data.List.Lex
import Mathlib.Data.Nat.Basic

namespace FixedWidth

/-- The last `w` digits of a number. -/
def text : ℕ → ℕ → List Char
  | 0, _ => []
  | w + 1, n => text w (n / 10) ++ [Nat.digitChar (n % 10)]

@[simp] theorem length_text (w n : ℕ) : (text w n).length = w := by
  induction w generalizing n with
  | zero => rfl
  | succ w ih => simp [text, ih]

theorem text_zero (w : ℕ) : text w 0 = List.replicate w '0' := by
  induction w with
  | zero => rfl
  | succ w ih =>
      unfold text
      rw [Nat.zero_div, ih, List.replicate_succ']
      rfl

theorem digitChar_lt {i j : ℕ} (h : i < j) (hj : j < 10) : Nat.digitChar i < Nat.digitChar j := by
  have hall : ∀ j < 10, ∀ i < j, Nat.digitChar i < Nat.digitChar j := by decide
  exact hall j hj i h

/-- What is told apart inside a prefix stays so whatever follows. -/
theorem lex_append {α : Type*} {r : α → α → Prop} {a b : List α} (h : List.Lex r a b)
    (hlength : a.length = b.length) (x y : List α) : List.Lex r (a ++ x) (b ++ y) := by
  induction h with
  | nil => exact absurd hlength (by simp)
  | rel hr => exact List.Lex.rel hr
  | cons _ ih => exact List.Lex.cons (ih (by simpa using hlength))

/-- **Numbers of one width compare as texts.** -/
theorem text_lt {w m n : ℕ} (h : m < n) (hn : n < 10 ^ w) :
    List.Lex (· < ·) (text w m) (text w n) := by
  induction w generalizing m n with
  | zero =>
      rw [Nat.pow_zero] at hn
      omega
  | succ w ih =>
      rw [Nat.pow_succ] at hn
      unfold text
      rcases Nat.lt_or_ge (m / 10) (n / 10) with hlt | hge
      · exact lex_append (ih hlt (by omega)) (by simp) _ _
      · have hsame : m / 10 = n / 10 := by omega
        have hdigit : m % 10 < n % 10 := by omega
        rw [hsame]
        exact List.Lex.append_left _
          (List.Lex.rel (digitChar_lt hdigit (Nat.mod_lt n (by decide)))) _

/-- The digits of a number, padded. -/
theorem replicate_toDigits {w n : ℕ} (hw : 0 < w) (hn : n < 10 ^ w) :
    List.replicate (w - (Nat.toDigits 10 n).length) '0' ++ Nat.toDigits 10 n = text w n := by
  induction w generalizing n with
  | zero => omega
  | succ w ih =>
      rw [Nat.pow_succ] at hn
      unfold text
      rcases Nat.lt_or_ge n 10 with hsmall | hlarge
      · have hzero : n / 10 = 0 := Nat.div_eq_of_lt hsmall
        have hself : n % 10 = n := Nat.mod_eq_of_lt hsmall
        rw [Nat.toDigits_of_lt_base hsmall, hzero, hself, text_zero]
        simp
      · have hpos : 0 < w := by
          rcases Nat.eq_zero_or_pos w with hzero | hpos
          · rw [hzero, Nat.pow_zero] at hn
            omega
          · exact hpos
        rw [Nat.toDigits_of_base_le (by decide) hlarge, ← ih hpos (by omega)]
        simp

/-- **Numbers of one width are told apart by their texts.** -/
theorem text_injective {w m n : ℕ} (hm : m < 10 ^ w) (hn : n < 10 ^ w) (h : text w m = text w n) :
    m = n := by
  induction w generalizing m n with
  | zero =>
      rw [Nat.pow_zero] at hm hn
      omega
  | succ w ih =>
      rw [Nat.pow_succ] at hm hn
      unfold text at h
      obtain ⟨hfront, hlast⟩ := List.append_inj h (by simp)
      have htens : m / 10 = n / 10 := ih (by omega) (by omega) hfront
      have hunits : m % 10 = n % 10 := by
        have hdigits : ∀ i < 10, ∀ j < 10, Nat.digitChar i = Nat.digitChar j → i = j := by decide
        exact hdigits _ (Nat.mod_lt m (by decide)) _ (Nat.mod_lt n (by decide))
          (List.singleton_inj.mp hlast)
      omega

theorem isDigit_of_mem_text {w n : ℕ} {c : Char} (h : c ∈ text w n) : c.isDigit = true := by
  induction w generalizing n with
  | zero => exact absurd h (by simp [text])
  | succ w ih =>
      unfold text at h
      rcases List.mem_append.mp h with hfront | hlast
      · exact ih hfront
      · have hdigits : ∀ i < 10, (Nat.digitChar i).isDigit = true := by decide
        rw [List.mem_singleton.mp hlast]
        exact hdigits _ (Nat.mod_lt n (by decide))

/-! ### Fields -/

/-- Numbers in their fields, each with the separator that follows it, and what follows all. -/
def spell : List (ℕ × List Char) → List ℕ → List Char → List Char
  | field :: fields, n :: ns, tail => text field.1 n ++ (field.2 ++ spell fields ns tail)
  | _, _, tail => tail

/-- Each number fits its field. -/
def Fits : List (ℕ × List Char) → List ℕ → Prop := List.Forall₂ fun field n => n < 10 ^ field.1

/-- **Numbers in fields compare as texts.** -/
theorem spell_lt {fields : List (ℕ × List Char)} {ns ms : List ℕ} (hfits : Fits fields ms)
    (h : List.Lex (· < ·) ns ms) (hlength : ns.length = ms.length) (tail tail' : List Char) :
    List.Lex (· < ·) (spell fields ns tail) (spell fields ms tail') := by
  induction h generalizing fields with
  | nil => exact absurd hlength (by simp)
  | rel hlt =>
      cases hfits with
      | cons hfit _ => exact lex_append (text_lt hlt hfit) (by simp) _ _
  | cons _ ih =>
      cases hfits with
      | cons _ hrest =>
          have hnext := ih hrest (by simpa using hlength)
          exact List.Lex.append_left _ (List.Lex.append_left _ hnext _) _

/-- With the same numbers what follows decides. -/
theorem spell_same (fields : List (ℕ × List Char)) (ns : List ℕ) {tail tail' : List Char}
    (h : List.Lex (· < ·) tail tail') :
    List.Lex (· < ·) (spell fields ns tail) (spell fields ns tail') := by
  induction fields generalizing ns with
  | nil => exact h
  | cons field fields ih =>
      cases ns with
      | nil => exact h
      | cons n ns => exact List.Lex.append_left _ (List.Lex.append_left _ (ih ns) _) _

theorem spell_append (fields : List (ℕ × List Char)) (ns : List ℕ) (tail more : List Char) :
    spell fields ns (tail ++ more) = spell fields ns tail ++ more := by
  induction fields generalizing ns with
  | nil => rfl
  | cons field fields ih =>
      cases ns with
      | nil => rfl
      | cons n ns => simp [spell, ih]

/-- **Numbers in fields are told apart by their text, and what follows can be read back.** -/
theorem spell_injective {fields : List (ℕ × List Char)} {ns ms : List ℕ} (hns : Fits fields ns)
    (hms : Fits fields ms) {tail tail' : List Char}
    (h : spell fields ns tail = spell fields ms tail') : ns = ms ∧ tail = tail' := by
  induction hns generalizing ms with
  | nil =>
      cases hms
      exact ⟨rfl, h⟩
  | cons hn _ ih =>
      cases hms with
      | cons hm hrest =>
          obtain ⟨hfirst, hmore⟩ := List.append_inj h (by simp)
          obtain ⟨hnumbers, htail⟩ := ih hrest (List.append_cancel_left hmore)
          rw [text_injective hn hm hfirst, hnumbers]
          exact ⟨rfl, htail⟩

/-- A character that is no digit is among those that separate or those that follow. -/
theorem not_mem_spell {fields : List (ℕ × List Char)} {ns : List ℕ} {tail : List Char} {c : Char}
    (hdigit : ¬ c.isDigit = true) (hfields : ∀ field ∈ fields, c ∉ field.2) (htail : c ∉ tail) :
    c ∉ spell fields ns tail := by
  induction fields generalizing ns with
  | nil => exact htail
  | cons field fields ih =>
      cases ns with
      | nil => exact htail
      | cons n ns =>
          unfold spell
          rw [List.mem_append, List.mem_append, not_or, not_or]
          refine ⟨fun h => hdigit (isDigit_of_mem_text h), hfields field List.mem_cons_self, ?_⟩
          exact ih fun f hf => hfields f (List.mem_cons_of_mem _ hf)

/-! ### Reading -/

/-- The number of exactly `w` digits at the front of a text, and what follows it. -/
def read (w : ℕ) (cs : List Char) : Option (ℕ × List Char) :=
  if (cs.take w).length = w ∧ (cs.take w).all Char.isDigit = true then
    some (Nat.ofDigitChars 10 (cs.take w) 0, cs.drop w)
  else none

/-- Numbers in their fields off the front of a text, and what follows them. -/
def unspell : List (ℕ × List Char) → List Char → Option (List ℕ × List Char)
  | [], cs => some ([], cs)
  | field :: fields, cs =>
      match read field.1 cs with
      | none => none
      | some (n, rest) =>
          if field.2.isPrefixOf rest then
            (unspell fields (rest.drop field.2.length)).map fun p => (n :: p.1, p.2)
          else none

theorem ofDigitChars_text {w n : ℕ} (h : n < 10 ^ w) : Nat.ofDigitChars 10 (text w n) 0 = n := by
  induction w generalizing n with
  | zero =>
      rw [Nat.pow_zero] at h
      have hzero : n = 0 := by omega
      rw [hzero]
      rfl
  | succ w ih =>
      rw [Nat.pow_succ] at h
      unfold text
      rw [Nat.ofDigitChars_append, ih (by omega),
        Nat.ofDigitChars_cons_digitChar_of_lt_ten (Nat.mod_lt n (by decide)), Nat.ofDigitChars_nil]
      omega

theorem read_text {w n : ℕ} (h : n < 10 ^ w) (rest : List Char) :
    read w (text w n ++ rest) = some (n, rest) := by
  have htake : (text w n ++ rest).take w = text w n := by
    rw [List.take_append_of_le_length (by simp), List.take_of_length_le (by simp)]
  have hdrop : (text w n ++ rest).drop w = rest := by
    rw [List.drop_append_of_le_length (by simp), List.drop_of_length_le (by simp), List.nil_append]
  have hdigits : (text w n).all Char.isDigit = true := by
    rw [List.all_eq_true]
    intro c hc
    exact isDigit_of_mem_text hc
  unfold read
  rw [htake, hdrop, if_pos ⟨length_text w n, hdigits⟩, ofDigitChars_text h]

/-- **Numbers in fields are read back**, and what follows them is left. -/
theorem unspell_spell {fields : List (ℕ × List Char)} {ns : List ℕ} (h : Fits fields ns)
    (tail : List Char) : unspell fields (spell fields ns tail) = some (ns, tail) := by
  induction h with
  | nil => rfl
  | @cons field n fields ns hn _ ih =>
      unfold unspell spell
      rw [read_text hn]
      simp only
      rw [if_pos (by simp), List.drop_left, ih]
      rfl

end FixedWidth
