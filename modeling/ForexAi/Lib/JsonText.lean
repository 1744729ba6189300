/-
Strings in a JSON text, written in ASCII.

A character is written as itself, as a two-letter escape, or as the four hex digits of a
code unit; past the sixteen-bit range it takes two units, a high surrogate and a low one.
`readChar` takes one character off the front of a text whichever way it is written.

Whatever follows a character that was written, reading gives the character back and leaves
the rest (`readChar_escape`), and so for whole strings (`readString_quoted`).  A unit that is
half of a pair only is no character, and a text that holds one is not read here.
-/
import Mathlib.Data.List.TakeWhile
import Mathlib.Tactic.IntervalCases

namespace JsonText

/-! ### Units in hex -/

/-- A code unit in four hex digits. -/
def hex4 (n : ℕ) : List Char :=
  [Nat.digitChar (n / 4096), Nat.digitChar (n / 256 % 16), Nat.digitChar (n / 16 % 16),
    Nat.digitChar (n % 16)]

/-- The value of a hex digit, of either case. -/
def hexValue (c : Char) : Option ℕ :=
  if '0' ≤ c ∧ c ≤ '9' then some (c.toNat - 48)
  else if 'a' ≤ c ∧ c ≤ 'f' then some (c.toNat - 87)
  else if 'A' ≤ c ∧ c ≤ 'F' then some (c.toNat - 55)
  else none

/-- The unit that four hex digits spell, and what follows them. -/
def readUnit : List Char → Option (ℕ × List Char)
  | a :: b :: c :: d :: rest =>
      match hexValue a, hexValue b, hexValue c, hexValue d with
      | some p, some q, some r, some s => some (p * 4096 + q * 256 + r * 16 + s, rest)
      | _, _, _, _ => none
  | _ => none

theorem hexValue_digitChar {n : ℕ} (h : n < 16) : hexValue (Nat.digitChar n) = some n := by
  interval_cases n <;> rfl

theorem readUnit_hex4 {n : ℕ} (h : n < 65536) (rest : List Char) :
    readUnit (hex4 n ++ rest) = some (n, rest) := by
  show (match hexValue (Nat.digitChar (n / 4096)), hexValue (Nat.digitChar (n / 256 % 16)),
      hexValue (Nat.digitChar (n / 16 % 16)), hexValue (Nat.digitChar (n % 16)) with
    | some p, some q, some r, some s => some (p * 4096 + q * 256 + r * 16 + s, rest)
    | _, _, _, _ => none) = _
  rw [hexValue_digitChar (show n / 4096 < 16 by omega),
    hexValue_digitChar (show n / 256 % 16 < 16 by omega),
    hexValue_digitChar (show n / 16 % 16 < 16 by omega),
    hexValue_digitChar (show n % 16 < 16 by omega)]
  show some (n / 4096 * 4096 + n / 256 % 16 * 256 + n / 16 % 16 * 16 + n % 16, rest) = _
  rw [show n / 4096 * 4096 + n / 256 % 16 * 256 + n / 16 % 16 * 16 + n % 16 = n by omega]

/-! ### Characters -/

/-- The letter of a two-letter escape that is written. -/
def letterOf (c : Char) : Option Char :=
  if c = '"' then some '"'
  else if c = '\\' then some '\\'
  else if c = '\n' then some 'n'
  else if c = '\r' then some 'r'
  else if c = '\t' then some 't'
  else if c = Char.ofNat 12 then some 'f'
  else if c = Char.ofNat 8 then some 'b'
  else none

/-- What a two-letter escape stands for; a solidus may be escaped too. -/
def ofLetter (c : Char) : Option Char :=
  if c = '"' then some '"'
  else if c = '\\' then some '\\'
  else if c = '/' then some '/'
  else if c = 'n' then some '\n'
  else if c = 'r' then some '\r'
  else if c = 't' then some '\t'
  else if c = 'f' then some (Char.ofNat 12)
  else if c = 'b' then some (Char.ofNat 8)
  else none

/-- A character as it stands between quotes. -/
def escape (c : Char) : List Char :=
  match letterOf c with
  | some letter => ['\\', letter]
  | none =>
      if 32 ≤ c.toNat ∧ c.toNat ≤ 126 then [c]
      else if c.toNat < 65536 then '\\' :: 'u' :: hex4 c.toNat
      else
        '\\' :: 'u' :: (hex4 (55296 + (c.toNat - 65536) / 1024) ++
          '\\' :: 'u' :: hex4 (56320 + (c.toNat - 65536) % 1024))

/-- The character of a unit that is not half of a pair. -/
def single (unit : ℕ) : Option Char := if unit.isValidChar then some (Char.ofNat unit) else none

/-- The character of an escaped unit, with the second unit of a pair taken along. -/
def readEscaped (text : List Char) : Option (Char × List Char) :=
  match readUnit text with
  | none => none
  | some (unit, rest) =>
      if 55296 ≤ unit ∧ unit < 56320 then
        match rest with
        | '\\' :: 'u' :: rest =>
            match readUnit rest with
            | some (low, rest) =>
                if 56320 ≤ low ∧ low < 57344 then
                  (single (65536 + (unit - 55296) * 1024 + (low - 56320))).map (·, rest)
                else none
            | none => none
        | _ => none
      else (single unit).map (·, rest)

/-- One character off the front of a string's text; a bare control character is refused. -/
def readChar : List Char → Option (Char × List Char)
  | [] => none
  | c :: rest =>
      if c = '\\' then
        match rest with
        | [] => none
        | letter :: rest =>
            if letter = 'u' then readEscaped rest else (ofLetter letter).map (·, rest)
      else if c.toNat < 32 then none
      else some (c, rest)

theorem ofLetter_letterOf {c letter : Char} (h : letterOf c = some letter) :
    ofLetter letter = some c ∧ letter ≠ 'u' := by
  unfold letterOf at h
  split_ifs at h <;> (obtain rfl := Option.some.inj h; simp_all [ofLetter])

theorem single_toNat (c : Char) : single c.toNat = some c := by
  unfold single
  rw [if_pos (show c.toNat.isValidChar from c.valid), Char.ofNat_toNat]

/-- No character lies among the surrogates. -/
theorem not_surrogate (c : Char) : ¬ (55296 ≤ c.toNat ∧ c.toNat < 57344) := by
  intro h
  rcases c.valid with hlow | hhigh
  · exact absurd (show c.toNat < 55296 from hlow) (by omega)
  · exact absurd (show 57343 < c.toNat from hhigh.1) (by omega)

theorem toNat_lt (c : Char) : c.toNat < 1114112 := by
  rcases c.valid with hlow | hhigh
  · have : c.toNat < 55296 := hlow
    omega
  · exact hhigh.2

theorem readEscaped_hex4 {c : Char} (h : c.toNat < 65536) (rest : List Char) :
    readEscaped (hex4 c.toNat ++ rest) = some (c, rest) := by
  have hnot := not_surrogate c
  unfold readEscaped
  rw [readUnit_hex4 h]
  show (if 55296 ≤ c.toNat ∧ c.toNat < 56320 then _ else (single c.toNat).map (·, rest)) = _
  rw [if_neg (by omega), single_toNat]
  rfl

/-- A high unit is read together with the low unit that follows it. -/
theorem readEscaped_units {high low : ℕ} (hhigh : 55296 ≤ high ∧ high < 56320)
    (hlow : 56320 ≤ low ∧ low < 57344) (rest : List Char) :
    readEscaped (hex4 high ++ '\\' :: 'u' :: (hex4 low ++ rest)) =
      (single (65536 + (high - 55296) * 1024 + (low - 56320))).map (·, rest) := by
  unfold readEscaped
  rw [readUnit_hex4 (by omega)]
  simp only [if_pos hhigh, readUnit_hex4 (show low < 65536 by omega), if_pos hlow]

theorem readEscaped_pair {c : Char} (h : 65536 ≤ c.toNat) (rest : List Char) :
    readEscaped (hex4 (55296 + (c.toNat - 65536) / 1024) ++
      '\\' :: 'u' :: (hex4 (56320 + (c.toNat - 65536) % 1024) ++ rest)) = some (c, rest) := by
  have hlt := toNat_lt c
  have hsum : 65536 + (55296 + (c.toNat - 65536) / 1024 - 55296) * 1024 +
      (56320 + (c.toNat - 65536) % 1024 - 56320) = c.toNat := by omega
  rw [readEscaped_units (by omega) (by omega), hsum, single_toNat]
  rfl

/-- **A character that was written is read back**, whatever follows it. -/
theorem readChar_escape (c : Char) (rest : List Char) :
    readChar (escape c ++ rest) = some (c, rest) := by
  unfold escape
  cases hletter : letterOf c with
  | some letter =>
      obtain ⟨hread, hu⟩ := ofLetter_letterOf hletter
      simp [readChar, hu, hread]
  | none =>
      have hback : c ≠ '\\' := by
        intro hc
        rw [hc] at hletter
        exact absurd hletter (by simp [letterOf])
      simp only
      split_ifs with hplain hshort
      · simp [readChar, hback, show ¬ c.toNat < 32 by omega]
      · simp [readChar, readEscaped_hex4 hshort]
      · have hpair := readEscaped_pair (c := c) (by omega) rest
        simp [readChar, hpair]

/-- What is written for a character does not start with a quote. -/
theorem escape_head (c : Char) : ∃ d rest, escape c = d :: rest ∧ d ≠ '"' := by
  unfold escape
  cases hletter : letterOf c with
  | some letter => exact ⟨'\\', [letter], rfl, by simp⟩
  | none =>
      have hquote : c ≠ '"' := by
        intro hc
        rw [hc] at hletter
        exact absurd hletter (by simp [letterOf])
      simp only
      split_ifs
      · exact ⟨c, [], rfl, hquote⟩
      · exact ⟨'\\', _, rfl, by simp⟩
      · exact ⟨'\\', _, rfl, by simp⟩

/-! ### Strings -/

/-- The inside of a string, and its closing quote. -/
def body (s : List Char) : List Char := s.flatMap escape ++ ['"']

/-- Characters up to the closing quote, and what follows it; at most `fuel` of them. -/
def readString : ℕ → List Char → Option (List Char × List Char)
  | 0, _ => none
  | fuel + 1, text =>
      match text with
      | '"' :: rest => some ([], rest)
      | text =>
          match readChar text with
          | none => none
          | some (c, rest) => (readString fuel rest).map fun p => (c :: p.1, p.2)

/-- Every character takes a place of its own. -/
theorem length_body (s : List Char) : s.length < (body s).length := by
  induction s with
  | nil => simp [body]
  | cons c s ih =>
      obtain ⟨d, rest, hescape, -⟩ := escape_head c
      simp only [body, List.flatMap_cons, List.length_append, List.length_cons, List.length_nil,
        hescape] at ih ⊢
      omega

/-- **A string that was written is read back**, whatever follows its closing quote. -/
theorem readString_quoted (s : List Char) (rest : List Char) {fuel : ℕ} (h : s.length < fuel) :
    readString fuel (body s ++ rest) = some (s, rest) := by
  induction s generalizing fuel with
  | nil =>
      obtain ⟨fuel, rfl⟩ : ∃ k, fuel = k + 1 := ⟨fuel - 1, by simp at h; omega⟩
      rfl
  | cons c s ih =>
      obtain ⟨fuel, rfl⟩ : ∃ k, fuel = k + 1 := ⟨fuel - 1, by simp at h; omega⟩
      have htext : body (c :: s) ++ rest = escape c ++ (body s ++ rest) := by
        simp [body, List.append_assoc]
      obtain ⟨d, tail, hescape, hquote⟩ := escape_head c
      have hread := readChar_escape c (body s ++ rest)
      rw [htext]
      unfold readString
      rw [hescape] at hread ⊢
      split
      · rename_i heq
        exact absurd (List.cons.inj heq).1 hquote
      · rw [hread]
        simp only
        rw [ih (by simpa using h)]
        rfl

end JsonText
