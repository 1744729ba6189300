/-
What the log keeps to itself.

Every log event goes through `redact_sensitive` before it is rendered.  A value under a key
that names a secret is replaced by a mark, at the top of the event and in the dictionaries
below it, down to a depth; below that depth a value is left as it is.

A value that is no text, list, tuple or dictionary is whatever it is, of a type `α`.
-/
import ForexAi.Lib.Keyed
import Mathlib.Data.List.Infix

namespace ForexAi

/-- The key of a dictionary that is logged. -/
inductive LogKey (α : Type) where
  | text (s : String)
  | other (x : α)

/-- A value that is logged. -/
inductive Logged (α : Type) where
  | text (s : String)
  | other (x : α)
  | list (items : List (Logged α))
  | tuple (items : List (Logged α))
  | dict (fields : List (LogKey α × Logged α))

/-- An `event_dict`. -/
@[ext] structure EventDict (α : Type) where
  fields : List (String × Logged α)
  distinct : (fields.map Prod.fst).Nodup

namespace Redaction

variable {α : Type}

/-- `_REDACTED`. -/
def redacted : Logged α := .text "[REDACTED]"

/-- `SENSITIVE_KEY_SUBSTRINGS`. -/
def sensitiveKeySubstrings : List String :=
  ["password", "passwd", "secret", "token", "authorization", "api_key", "apikey", "cookie",
    "credential"]

/-- `_MAX_REDACTION_DEPTH`. -/
def maxRedactionDepth : ℕ := 6

/-- `str.lower` of a character, as far as a text of plain letters can tell: of the characters
that are no plain letters, only the Kelvin sign and the dotted `I` become any. -/
def lowered (c : Char) : List Char :=
  if c = '\u212a' then ['k'] else if c = '\u0130' then ['i', '\u0307'] else [c.toLower]

/-- `_is_sensitive_key`. -/
def isSensitiveKey (key : String) : Bool :=
  sensitiveKeySubstrings.any fun marker =>
    decide (marker.toList <:+: key.toList.flatMap lowered)

/-- Only a text can name a secret. -/
def isSecret : LogKey α → Bool
  | .text key => isSensitiveKey key
  | .other _ => false

mutual

/-- `_redact_value`. -/
def redactValue (depth : ℕ) : Logged α → Logged α
  | .text s => .text s
  | .other x => .other x
  | .list items =>
      if maxRedactionDepth < depth then .list items else .list (redactItems (depth + 1) items)
  | .tuple items =>
      if maxRedactionDepth < depth then .tuple items else .tuple (redactItems (depth + 1) items)
  | .dict fields =>
      if maxRedactionDepth < depth then .dict fields else .dict (redactFields (depth + 1) fields)

def redactItems (depth : ℕ) : List (Logged α) → List (Logged α)
  | [] => []
  | x :: rest => redactValue depth x :: redactItems depth rest

def redactFields (depth : ℕ) : List (LogKey α × Logged α) → List (LogKey α × Logged α)
  | [] => []
  | (key, x) :: rest =>
      (key, if isSecret key then redacted else redactValue depth x) :: redactFields depth rest

end

/-- What the loop of `redact_sensitive` puts under a key. -/
def redactEntry (entry : String × Logged α) : String × Logged α :=
  (entry.1,
    if entry.1 ≠ "event" ∧ isSensitiveKey entry.1 = true then redacted else redactValue 0 entry.2)

/-- One turn of the loop: what stands under the key is read and written back. -/
def redactKey (fields : List (String × Logged α)) (key : String) : List (String × Logged α) :=
  match Keyed.find Prod.fst fields key with
  | some entry => Keyed.replace Prod.fst fields (redactEntry entry)
  | none => fields

/-- The loop of `redact_sensitive`, over the keys there are. -/
def redactAll (fields : List (String × Logged α)) : List (String × Logged α) :=
  (fields.map Prod.fst).foldl redactKey fields

/-- The loop goes over every field once. -/
theorem redactAll_eq {fields : List (String × Logged α)} (h : (fields.map Prod.fst).Nodup) :
    redactAll fields = fields.map redactEntry := by
  refine Keyed.foldl_rewrite (f := redactEntry) h (fun _ => rfl) fun acc key entry hfind => ?_
  unfold redactKey
  rw [hfind]

/-- The message of an event is never taken for a secret. -/
theorem event_open : isSensitiveKey "event" = false := by decide +kernel

end Redaction

/-- `redact_sensitive`. -/
def EventDict.redactSensitive {α : Type} (e : EventDict α) : EventDict α where
  fields := Redaction.redactAll e.fields
  distinct := by
    rw [Redaction.redactAll_eq e.distinct, List.map_map]
    exact e.distinct

end ForexAi
