/-
JSON texts.

`dump` writes a value and `value` reads one off the front of a text, passing over blanks.
How a number is written is a parameter: a `NumberFormat` reads back what it writes and uses
no characters but those of numbers, so it is known where a number ends.

An object is read as a dictionary is built, where a key that comes again replaces what it
had.  So a value whose objects have distinct keys is read back as it was (`loads_dump`), and
two such values with one text are equal (`dump_injective`).  The argument follows the value;
the fuel is the length of the text, and every part of a text is shorter than the whole.
-/
import ForexAi.Lib.ByKey
import ForexAi.Lib.JsonText
import Mathlib.Data.List.Nodup
import Mathlib.Data.String.Basic

namespace Json

/-! ### Values -/

/-- A decoded value. -/
inductive Value (N : Type) where
  | null
  | bool (b : Bool)
  | num (n : N)
  | str (s : String)
  | arr (items : List (Value N))
  | obj (fields : List (String × Value N))

/-- The characters of numbers. -/
def numeric (c : Char) : Bool := c.isDigit || c = '-' || c = '+' || c = '.' || c = 'e' || c = 'E'

/-- How numbers are written. -/
structure NumberFormat (N : Type) where
  write : N → List Char
  read : List Char → Option N
  read_write (n : N) : read (write n) = some n
  numeric_write (n : N) : ∀ c ∈ write n, numeric c = true
  write_ne_nil (n : N) : write n ≠ []

/-! ### Writing -/

section Writing

variable {N : Type} (fmt : NumberFormat N) (spaced : Bool)

/-- The blank after a comma and a colon, if the text is spaced. -/
def gap : List Char := if spaced then [' '] else []

/-- A string in its quotes. -/
def quoted (s : String) : List Char := '"' :: JsonText.body s.toList

mutual

/-- A value as it is written. -/
def dump : Value N → List Char
  | .null => ['n', 'u', 'l', 'l']
  | .bool true => ['t', 'r', 'u', 'e']
  | .bool false => ['f', 'a', 'l', 's', 'e']
  | .num n => fmt.write n
  | .str s => quoted s
  | .arr [] => ['[', ']']
  | .arr (x :: xs) => '[' :: (dump x ++ dumpItems xs)
  | .obj [] => ['{', '}']
  | .obj ((key, x) :: rest) =>
      '{' :: (quoted key ++ ':' :: (gap spaced ++ (dump x ++ dumpFields rest)))

/-- The items after the first, and the bracket. -/
def dumpItems : List (Value N) → List Char
  | [] => [']']
  | x :: xs => ',' :: (gap spaced ++ (dump x ++ dumpItems xs))

/-- The fields after the first, and the brace. -/
def dumpFields : List (String × Value N) → List Char
  | [] => ['}']
  | (key, x) :: rest =>
      ',' :: (gap spaced ++ (quoted key ++ ':' :: (gap spaced ++ (dump x ++ dumpFields rest))))

end

/-- `json.dumps`: spaced as it is by default, or with the compact separators. -/
def dumps (j : Value N) : String := String.ofList (dump fmt spaced j)

end Writing

/-! ### Keys in order -/

section Sorting

variable {N : Type}

mutual

/-- A value with the fields of every object in the order of their keys. -/
def sortKeys : Value N → Value N
  | .arr items => .arr (sortItems items)
  | .obj fields => .obj (ByKey.sort (sortFields fields))
  | j => j

def sortItems : List (Value N) → List (Value N)
  | [] => []
  | x :: xs => sortKeys x :: sortItems xs

def sortFields : List (String × Value N) → List (String × Value N)
  | [] => []
  | (key, x) :: rest => (key, sortKeys x) :: sortFields rest

end

/-- Fields that hold no objects keep their values. -/
theorem sortFields_leaves {V : Type} {leaf : V → Value N} (h : ∀ v, sortKeys (leaf v) = leaf v)
    (fs : List (String × V)) :
    sortFields (fs.map fun e => (e.1, leaf e.2)) = fs.map fun e => (e.1, leaf e.2) := by
  induction fs with
  | nil => rfl
  | cons e rest ih =>
      show (e.1, sortKeys (leaf e.2)) :: sortFields _ = _
      rw [h, ih]
      rfl

end Sorting

/-! ### Reading

The reader is given as much fuel as the text has characters.  It never runs out on a text that
was written, since every part it reads is a character at least.
-/

/-- What may stand between the parts of a text. -/
def blank (c : Char) : Bool := c = ' ' || c = '\t' || c = '\n' || c = '\r'

def skip (text : List Char) : List Char := text.dropWhile blank

section Reading

variable {N : Type} (fmt : NumberFormat N)

/-- `pairs[key] = x`. -/
def put (pairs : List (String × Value N)) (key : String) (x : Value N) : List (String × Value N) :=
  if key ∈ pairs.map Prod.fst then pairs.map fun e => if e.1 = key then (key, x) else e
  else pairs ++ [(key, x)]

/-- The dictionary of a list of pairs. -/
def build (pairs : List (String × Value N)) : List (String × Value N) :=
  pairs.foldl (fun built e => put built e.1 e.2) []

/-- A string after its first quote. -/
def readText (text : List Char) : Option (String × List Char) :=
  (JsonText.readString (text.length + 1) text).map fun p => (String.ofList p.1, p.2)

/-- A number off the front of a text. -/
def readNumber (text : List Char) : Option (Value N × List Char) :=
  (fmt.read (text.takeWhile numeric)).map fun n => (.num n, text.dropWhile numeric)

/-- A word off the front of a text. -/
def readWord : List Char → Option (Value N × List Char)
  | 'n' :: 'u' :: 'l' :: 'l' :: rest => some (.null, rest)
  | 't' :: 'r' :: 'u' :: 'e' :: rest => some (.bool true, rest)
  | 'f' :: 'a' :: 'l' :: 's' :: 'e' :: rest => some (.bool false, rest)
  | _ => none

mutual

/-- A value off the front of a text. -/
def value : ℕ → List Char → Option (Value N × List Char)
  | 0, _ => none
  | fuel + 1, text =>
      match skip text with
      | [] => none
      | c :: rest =>
          if c = '"' then (readText rest).map fun p => (.str p.1, p.2)
          else if c = '[' then
            match skip rest with
            | ']' :: rest => some (.arr [], rest)
            | rest => (items fuel rest).map fun p => (.arr p.1, p.2)
          else if c = '{' then
            match skip rest with
            | '}' :: rest => some (.obj [], rest)
            | rest => (fields fuel rest).map fun p => (.obj (build p.1), p.2)
          else if numeric c then readNumber fmt (c :: rest)
          else readWord (c :: rest)

/-- Items up to the bracket. -/
def items : ℕ → List Char → Option (List (Value N) × List Char)
  | 0, _ => none
  | fuel + 1, text =>
      match value fuel text with
      | none => none
      | some (x, rest) =>
          match skip rest with
          | ']' :: rest => some ([x], rest)
          | ',' :: rest => (items fuel rest).map fun p => (x :: p.1, p.2)
          | _ => none

/-- Fields up to the brace. -/
def fields : ℕ → List Char → Option (List (String × Value N) × List Char)
  | 0, _ => none
  | fuel + 1, text =>
      match skip text with
      | '"' :: rest =>
          match readText rest with
          | none => none
          | some (key, rest) =>
              match skip rest with
              | ':' :: rest =>
                  match value fuel rest with
                  | none => none
                  | some (x, rest) =>
                      match skip rest with
                      | '}' :: rest => some ([(key, x)], rest)
                      | ',' :: rest => (fields fuel rest).map fun p => ((key, x) :: p.1, p.2)
                      | _ => none
              | _ => none
      | _ => none

end

/-- `json.loads`: one value, and blanks after it. -/
def loads (text : String) : Option (Value N) :=
  match value fmt (text.toList.length + 1) text.toList with
  | none => none
  | some (j, rest) => if skip rest = [] then some j else none

end Reading

/-! ### Values with distinct keys -/

section Distinct

variable {N : Type}

mutual

/-- In every object of the value the keys are distinct. -/
def Distinct : Value N → Prop
  | .arr items => DistinctItems items
  | .obj fields => (fields.map Prod.fst).Nodup ∧ DistinctFields fields
  | _ => True

def DistinctItems : List (Value N) → Prop
  | [] => True
  | x :: xs => Distinct x ∧ DistinctItems xs

def DistinctFields : List (String × Value N) → Prop
  | [] => True
  | (_, x) :: rest => Distinct x ∧ DistinctFields rest

end

theorem put_new {pairs : List (String × Value N)} {key : String} (h : key ∉ pairs.map Prod.fst)
    (x : Value N) : put pairs key x = pairs ++ [(key, x)] := if_neg h

theorem foldl_put (pairs built : List (String × Value N))
    (h : ((built ++ pairs).map Prod.fst).Nodup) :
    pairs.foldl (fun built e => put built e.1 e.2) built = built ++ pairs := by
  induction pairs generalizing built with
  | nil => simp
  | cons e rest ih =>
      have hnew : e.1 ∉ built.map Prod.fst := by
        intro hmem
        rw [List.map_append, List.map_cons] at h
        exact (List.disjoint_of_nodup_append h) hmem List.mem_cons_self
      rw [List.foldl_cons, put_new hnew, ih _ (by simpa using h)]
      simp

theorem build_eq {pairs : List (String × Value N)} (h : (pairs.map Prod.fst).Nodup) :
    build pairs = pairs := foldl_put pairs [] h

end Distinct

/-! ### Where a value begins and ends

A number ends where a character comes that is none of a number, so what follows it has to be
known.  Everything else ends with a character of its own.
-/

/-- The text does not go on with a character of numbers. -/
def Stops (rest : List Char) : Prop := rest.takeWhile numeric = []

theorem stops_nil : Stops [] := rfl

theorem stops_cons {c : Char} {rest : List Char} (h : numeric c = false) : Stops (c :: rest) := by
  unfold Stops
  rw [List.takeWhile_cons, h]
  rfl

theorem skip_cons {c : Char} {rest : List Char} (h : blank c = false) :
    skip (c :: rest) = c :: rest := by
  unfold skip
  rw [List.dropWhile_cons, h]
  rfl

/-- No character of a number is one that begins or ends anything else. -/
theorem of_numeric {c : Char} (h : numeric c = true) :
    blank c = false ∧ c ≠ '"' ∧ c ≠ '[' ∧ c ≠ ']' ∧ c ≠ '{' := by
  refine ⟨?_, ?_, ?_, ?_, ?_⟩
  · by_contra hblank
    simp only [Bool.not_eq_false, blank, Bool.or_eq_true, decide_eq_true_eq] at hblank
    rcases hblank with ((rfl | rfl) | rfl) | rfl <;> exact absurd h (by simp [numeric])
  all_goals
    rintro rfl
    exact absurd h (by simp [numeric])

section RoundTrip

variable {N : Type} (fmt : NumberFormat N) (spaced : Bool)

/-- The first character of a value. -/
theorem dump_head (j : Value N) :
    ∃ c rest, dump fmt spaced j = c :: rest ∧ blank c = false ∧ c ≠ ']' := by
  match j with
  | .null => exact ⟨'n', _, rfl, rfl, by simp⟩
  | .bool true => exact ⟨'t', _, rfl, rfl, by simp⟩
  | .bool false => exact ⟨'f', _, rfl, rfl, by simp⟩
  | .num n =>
      obtain ⟨c, rest, hwrite⟩ := List.exists_cons_of_ne_nil (fmt.write_ne_nil n)
      have hc := of_numeric (fmt.numeric_write n c (by rw [hwrite]; exact List.mem_cons_self))
      exact ⟨c, rest, hwrite, hc.1, hc.2.2.2.1⟩
  | .str s => exact ⟨'"', _, rfl, rfl, by simp⟩
  | .arr [] => exact ⟨'[', _, rfl, rfl, by simp⟩
  | .arr (x :: xs) => exact ⟨'[', _, rfl, rfl, by simp⟩
  | .obj [] => exact ⟨'{', _, rfl, rfl, by simp⟩
  | .obj ((key, x) :: rest) => exact ⟨'{', _, rfl, rfl, by simp⟩

theorem length_dump (j : Value N) : 0 < (dump fmt spaced j).length := by
  obtain ⟨c, rest, hdump, -⟩ := dump_head fmt spaced j
  rw [hdump]
  simp

theorem stops_dumpItems (xs : List (Value N)) (rest : List Char) :
    Stops (dumpItems fmt spaced xs ++ rest) := by
  cases xs <;> exact stops_cons rfl

theorem stops_dumpFields (fs : List (String × Value N)) (rest : List Char) :
    Stops (dumpFields fmt spaced fs ++ rest) := by
  match fs with
  | [] => exact stops_cons rfl
  | (_, _) :: _ => exact stops_cons rfl

theorem readText_body (s : String) (rest : List Char) :
    readText (JsonText.body s.toList ++ rest) = some (s, rest) := by
  have hlength := JsonText.length_body s.toList
  unfold readText
  rw [JsonText.readString_quoted s.toList rest (by rw [List.length_append]; omega),
    Option.map_some, String.ofList_toList]

theorem readNumber_write (n : N) {rest : List Char} (h : Stops rest) :
    readNumber fmt (fmt.write n ++ rest) = some (.num n, rest) := by
  have hdrop : rest.dropWhile numeric = rest := by
    have happend := List.takeWhile_append_dropWhile (p := numeric) (l := rest)
    rw [show rest.takeWhile numeric = [] from h] at happend
    exact happend
  unfold readNumber
  rw [List.takeWhile_append_of_pos (fmt.numeric_write n), show rest.takeWhile numeric = [] from h,
    List.append_nil, fmt.read_write, List.dropWhile_append_of_pos (fmt.numeric_write n), hdrop]
  rfl

/-! ### What is written is read back

The induction is on the fuel, for values, items and fields together.  What stands after the
value is carried along, and it is what is left when the value has been read.
-/

omit fmt in
theorem skip_gap (text : List Char) : skip (gap spaced ++ text) = skip text := by
  cases spaced <;> rfl

theorem value_gap (fuel : ℕ) (text : List Char) :
    value fmt fuel (gap spaced ++ text) = value fmt fuel text := by
  cases fuel with
  | zero => rfl
  | succ fuel => rw [value, value, skip_gap]

theorem items_gap (fuel : ℕ) (text : List Char) :
    items fmt fuel (gap spaced ++ text) = items fmt fuel text := by
  cases fuel with
  | zero => rfl
  | succ fuel => rw [items, items, value_gap]

theorem fields_gap (fuel : ℕ) (text : List Char) :
    fields fmt fuel (gap spaced ++ text) = fields fmt fuel text := by
  cases fuel with
  | zero => rfl
  | succ fuel => rw [fields, fields, skip_gap]

theorem value_cons {c : Char} (h : blank c = false) (fuel : ℕ) (rest : List Char) :
    value fmt (fuel + 1) (c :: rest) =
      (if c = '"' then (readText rest).map fun p => (.str p.1, p.2)
      else if c = '[' then
        match skip rest with
        | ']' :: rest => some (.arr [], rest)
        | rest => (items fmt fuel rest).map fun p => (.arr p.1, p.2)
      else if c = '{' then
        match skip rest with
        | '}' :: rest => some (.obj [], rest)
        | rest => (fields fmt fuel rest).map fun p => (.obj (build p.1), p.2)
      else if numeric c then readNumber fmt (c :: rest)
      else readWord (c :: rest)) := by
  rw [value, skip_cons h]

theorem value_num (n : N) (fuel : ℕ) {rest : List Char} (h : Stops rest) :
    value fmt (fuel + 1) (fmt.write n ++ rest) = some (.num n, rest) := by
  obtain ⟨c, tail, hwrite⟩ := List.exists_cons_of_ne_nil (fmt.write_ne_nil n)
  have hnumeric := fmt.numeric_write n c (by rw [hwrite]; exact List.mem_cons_self)
  obtain ⟨hblank, hquote, hbracket, -, hbrace⟩ := of_numeric hnumeric
  have hread := readNumber_write fmt n h
  rw [hwrite] at hread ⊢
  rw [List.cons_append] at hread ⊢
  rw [value_cons fmt hblank, if_neg hquote, if_neg hbracket, if_neg hbrace, if_pos hnumeric, hread]

theorem value_str (s : String) (fuel : ℕ) (rest : List Char) :
    value fmt (fuel + 1) (quoted s ++ rest) = some (.str s, rest) := by
  unfold quoted
  rw [List.cons_append, value_cons fmt rfl, if_pos rfl, readText_body]
  rfl

theorem value_arr {x : Value N} {xs : List (Value N)} {fuel : ℕ} {rest : List Char}
    (h : items fmt fuel (dump fmt spaced x ++ (dumpItems fmt spaced xs ++ rest)) =
      some (x :: xs, rest)) :
    value fmt (fuel + 1) ('[' :: (dump fmt spaced x ++ (dumpItems fmt spaced xs ++ rest))) =
      some (.arr (x :: xs), rest) := by
  obtain ⟨c, tail, hdump, hblank, hbracket⟩ := dump_head fmt spaced x
  rw [value_cons fmt rfl, if_neg (by simp), if_pos rfl]
  rw [hdump, List.cons_append] at h ⊢
  rw [skip_cons hblank]
  split
  · rename_i heq
    exact absurd (List.cons.inj heq).1 hbracket
  · rw [h]
    rfl

theorem value_obj {key : String} {x : Value N} {fs : List (String × Value N)} {fuel : ℕ}
    {text rest : List Char} (hkeys : (((key, x) :: fs).map Prod.fst).Nodup)
    (h : fields fmt fuel (quoted key ++ text) = some ((key, x) :: fs, rest)) :
    value fmt (fuel + 1) ('{' :: (quoted key ++ text)) = some (.obj ((key, x) :: fs), rest) := by
  rw [value_cons fmt rfl, if_neg (by simp), if_neg (by simp), if_pos rfl]
  unfold quoted at h ⊢
  rw [List.cons_append] at h ⊢
  rw [skip_cons rfl]
  show (fields fmt fuel _).map (fun p => (Value.obj (build p.1), p.2)) = _
  rw [h, Option.map_some, build_eq hkeys]

theorem items_step {x : Value N} {fuel : ℕ} {text : List Char} {c : Char} {rest : List Char}
    (hx : value fmt fuel text = some (x, c :: rest)) (hc : blank c = false) :
    items fmt (fuel + 1) text =
      (if c = ']' then some ([x], rest)
      else if c = ',' then (items fmt fuel rest).map fun p => (x :: p.1, p.2)
      else none) := by
  rw [items, hx]
  simp only
  rw [skip_cons hc]
  by_cases hclose : c = ']'
  · subst hclose
    rfl
  · rw [if_neg hclose]
    by_cases hcomma : c = ','
    · subst hcomma
      rfl
    · rw [if_neg hcomma]
      split
      · rename_i heq
        exact absurd (List.cons.inj heq).1 hclose
      · rename_i heq
        exact absurd (List.cons.inj heq).1 hcomma
      · rfl

theorem fields_step {key : String} {x : Value N} {fuel : ℕ} {text : List Char} {c : Char}
    {rest : List Char} (hx : value fmt fuel text = some (x, c :: rest)) (hc : blank c = false) :
    fields fmt (fuel + 1) (quoted key ++ ':' :: text) =
      (if c = '}' then some ([(key, x)], rest)
      else if c = ',' then (fields fmt fuel rest).map fun p => ((key, x) :: p.1, p.2)
      else none) := by
  unfold quoted
  rw [List.cons_append, fields, skip_cons rfl]
  simp only
  rw [readText_body]
  simp only
  rw [skip_cons rfl]
  simp only
  rw [hx]
  simp only
  rw [skip_cons hc]
  by_cases hclose : c = '}'
  · subst hclose
    rfl
  · rw [if_neg hclose]
    by_cases hcomma : c = ','
    · subst hcomma
      rfl
    · rw [if_neg hcomma]
      split
      · rename_i heq
        exact absurd (List.cons.inj heq).1 hclose
      · rename_i heq
        exact absurd (List.cons.inj heq).1 hcomma
      · rfl

/-- What `fuel` is enough to read back: values, the items of an array, the fields of an object. -/
structure Reads (fuel : ℕ) : Prop where
  value (j : Value N) (hd : Distinct j) (h : (dump fmt spaced j).length ≤ fuel) (rest : List Char)
    (hrest : Stops rest) : value fmt fuel (dump fmt spaced j ++ rest) = some (j, rest)
  items (x : Value N) (xs : List (Value N)) (hx : Distinct x) (hxs : DistinctItems xs)
    (h : (dump fmt spaced x).length + (dumpItems fmt spaced xs).length ≤ fuel) (rest : List Char) :
    items fmt fuel (dump fmt spaced x ++ (dumpItems fmt spaced xs ++ rest)) = some (x :: xs, rest)
  fields (key : String) (x : Value N) (fs : List (String × Value N)) (hx : Distinct x)
    (hfs : DistinctFields fs)
    (h : (quoted key).length + (dump fmt spaced x).length + (dumpFields fmt spaced fs).length ≤
      fuel)
    (rest : List Char) :
    fields fmt fuel (quoted key ++
        ':' :: (gap spaced ++ (dump fmt spaced x ++ (dumpFields fmt spaced fs ++ rest)))) =
      some ((key, x) :: fs, rest)

variable {fmt spaced}

theorem value_succ {fuel : ℕ} (ih : Reads fmt spaced fuel) (j : Value N) (hd : Distinct j)
    (h : (dump fmt spaced j).length ≤ fuel + 1) (rest : List Char) (hrest : Stops rest) :
    value fmt (fuel + 1) (dump fmt spaced j ++ rest) = some (j, rest) := by
  match j with
  | .null => rfl
  | .bool true => rfl
  | .bool false => rfl
  | .num n => exact value_num fmt n fuel hrest
  | .str s => exact value_str fmt s fuel rest
  | .arr [] => rfl
  | .arr (x :: xs) =>
      obtain ⟨hx, hxs⟩ : Distinct x ∧ DistinctItems xs := hd
      simp only [dump, List.length_cons, List.length_append] at h
      have hitems := ih.items x xs hx hxs (by omega) rest
      rw [dump, List.cons_append, List.append_assoc]
      exact value_arr fmt spaced hitems
  | .obj [] => rfl
  | .obj ((key, x) :: fs) =>
      obtain ⟨hkeys, hx, hfs⟩ :
        (((key, x) :: fs).map Prod.fst).Nodup ∧ Distinct x ∧ DistinctFields fs := hd
      simp only [dump, List.length_cons, List.length_append] at h
      have hfields := ih.fields key x fs hx hfs (by omega) rest
      simp only [dump, List.cons_append, List.append_assoc]
      exact value_obj fmt hkeys hfields

theorem items_succ {fuel : ℕ} (ih : Reads fmt spaced fuel) (x : Value N) (xs : List (Value N))
    (hx : Distinct x) (hxs : DistinctItems xs)
    (h : (dump fmt spaced x).length + (dumpItems fmt spaced xs).length ≤ fuel + 1)
    (rest : List Char) :
    items fmt (fuel + 1) (dump fmt spaced x ++ (dumpItems fmt spaced xs ++ rest)) =
      some (x :: xs, rest) := by
  have hlength := length_dump fmt spaced x
  match xs with
  | [] =>
      simp only [dumpItems, List.length_cons] at h
      have hread := ih.value x hx (by omega) _ (stops_dumpItems fmt spaced [] rest)
      rw [items_step fmt hread rfl]
      rfl
  | y :: ys =>
      obtain ⟨hy, hys⟩ : Distinct y ∧ DistinctItems ys := hxs
      simp only [dumpItems, List.length_cons, List.length_append] at h
      have hread := ih.value x hx (by omega) _ (stops_dumpItems fmt spaced (y :: ys) rest)
      have hrest := ih.items y ys hy hys (by omega) rest
      simp only [dumpItems, List.cons_append, List.append_assoc] at hread ⊢
      rw [items_step fmt hread rfl, if_neg (by simp), if_pos rfl, items_gap, hrest]
      rfl

theorem fields_succ {fuel : ℕ} (ih : Reads fmt spaced fuel) (key : String) (x : Value N)
    (fs : List (String × Value N)) (hx : Distinct x) (hfs : DistinctFields fs)
    (h : (quoted key).length + (dump fmt spaced x).length + (dumpFields fmt spaced fs).length ≤
      fuel + 1)
    (rest : List Char) :
    fields fmt (fuel + 1) (quoted key ++
        ':' :: (gap spaced ++ (dump fmt spaced x ++ (dumpFields fmt spaced fs ++ rest)))) =
      some ((key, x) :: fs, rest) := by
  have hlength := length_dump fmt spaced x
  match fs with
  | [] =>
      simp only [dumpFields, List.length_cons] at h
      have hread := ih.value x hx (by omega) _ (stops_dumpFields fmt spaced [] rest)
      rw [← value_gap fmt spaced] at hread
      rw [fields_step fmt hread rfl]
      rfl
  | (other, y) :: ys =>
      obtain ⟨hy, hys⟩ : Distinct y ∧ DistinctFields ys := hfs
      simp only [dumpFields, List.length_cons, List.length_append] at h
      have hread := ih.value x hx (by omega) _ (stops_dumpFields fmt spaced ((other, y) :: ys) rest)
      have hrest := ih.fields other y ys hy hys (by omega) rest
      rw [← value_gap fmt spaced] at hread
      simp only [dumpFields, List.cons_append, List.append_assoc] at hread ⊢
      rw [fields_step fmt hread rfl, if_neg (by simp), if_pos rfl, fields_gap, hrest]
      rfl

variable (fmt spaced)

/-- **A value that was written is read back**, whatever stands after it, if that does not go
on with a character of numbers. -/
theorem reads (fuel : ℕ) : Reads fmt spaced fuel := by
  induction fuel with
  | zero =>
      refine ⟨fun j _ h => ?_, fun x _ _ _ h => ?_, fun _ x _ _ _ h => ?_⟩
      · have hlength := length_dump fmt spaced j
        omega
      · have hlength := length_dump fmt spaced x
        omega
      · have hlength := length_dump fmt spaced x
        omega
  | succ fuel ih => exact ⟨value_succ ih, items_succ ih, fields_succ ih⟩

/-- **A text that was written is read as the value it was written from.** -/
theorem loads_dump {j : Value N} (h : Distinct j) : loads fmt (dumps fmt spaced j) = some j := by
  have hread :=
    (reads fmt spaced ((dump fmt spaced j).length + 1)).value j h (by omega) [] stops_nil
  rw [List.append_nil] at hread
  unfold loads dumps
  rw [String.toList_ofList, hread]
  rfl

/-- **Values with one text are equal.** -/
theorem dumps_injective {j k : Value N} (hj : Distinct j) (hk : Distinct k)
    (h : dumps fmt spaced j = dumps fmt spaced k) : j = k := by
  have hread := loads_dump fmt spaced hj
  rw [h, loads_dump fmt spaced hk] at hread
  exact (Option.some.inj hread).symm

end RoundTrip

/-! ### Whole numbers -/

/-- The number that digits spell. -/
def readDigits (text : List Char) : Option ℕ :=
  if text ≠ [] ∧ text.all Char.isDigit then some (Nat.ofDigitChars 10 text 0) else none

theorem readDigits_toDigits (n : ℕ) : readDigits (Nat.toDigits 10 n) = some n := by
  unfold readDigits
  rw [if_pos, Nat.ofDigitChars_ten_toDigits]
  refine ⟨Nat.toDigits_ne_nil, ?_⟩
  rw [List.all_eq_true]
  intro c hc
  exact Nat.isDigit_of_mem_toDigits (by simp) (by simp) hc

/-- A whole number as it is printed. -/
def writeInt (n : ℤ) : List Char :=
  if n < 0 then '-' :: Nat.toDigits 10 n.natAbs else Nat.toDigits 10 n.natAbs

def readInt : List Char → Option ℤ
  | '-' :: digits => (readDigits digits).map fun n : ℕ => -(n : ℤ)
  | digits => (readDigits digits).map fun n : ℕ => (n : ℤ)

theorem readInt_writeInt (n : ℤ) : readInt (writeInt n) = some n := by
  unfold writeInt
  by_cases hneg : n < 0
  · rw [if_pos hneg]
    show (readDigits _).map _ = _
    rw [readDigits_toDigits, Option.map_some]
    exact congrArg some (by omega)
  · rw [if_neg hneg]
    obtain ⟨c, rest, hdigits⟩ :=
      List.exists_cons_of_ne_nil (Nat.toDigits_ne_nil (n := n.natAbs) (b := 10))
    have hc : c.isDigit = true := by
      refine Nat.isDigit_of_mem_toDigits (b := 10) (n := n.natAbs) (by simp) (by simp) ?_
      rw [hdigits]
      exact List.mem_cons_self
    have hread := readDigits_toDigits n.natAbs
    rw [hdigits] at hread ⊢
    unfold readInt
    split
    · rename_i heq
      rw [(List.cons.inj heq).1] at hc
      exact absurd hc (by simp)
    · rw [hread, Option.map_some]
      exact congrArg some (by omega)

/-- Whole numbers in decimal. -/
def ints : NumberFormat ℤ where
  write := writeInt
  read := readInt
  read_write := readInt_writeInt
  numeric_write n c hc := by
    have hdigit : ∀ d ∈ Nat.toDigits 10 n.natAbs, numeric d = true := by
      intro d hd
      simp [numeric, Nat.isDigit_of_mem_toDigits (by simp) (by simp) hd]
    unfold writeInt at hc
    split_ifs at hc
    · rcases List.mem_cons.mp hc with rfl | hmem
      · rfl
      · exact hdigit c hmem
    · exact hdigit c hc
  write_ne_nil n := by
    unfold writeInt
    split_ifs
    · exact List.cons_ne_nil _ _
    · exact Nat.toDigits_ne_nil

end Json
