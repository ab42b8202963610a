import ApkFormats.Text.Hex
import ApkFormats.Text.Utf16

/-!
# JSON lines

Log records can be written as JSON objects, one per line.  Their text is pure
ASCII: every other character, and every control character, is escaped, so that
a line never holds a line break of its own.
-/

namespace ApkFormats.Log

/-- A single value in a log record. -/
inductive Scalar where
  | absent
  | number (n : Int)
  | text (s : String)
  deriving DecidableEq, Repr

/-- A scalar as it stands in a message. -/
def Scalar.shown : Scalar → String
  | .absent => "None"
  | .number n => s!"{n}"
  | .text s => s

inductive JsonValue where
  | scalar (s : Scalar)
  | list (items : List Scalar)
  deriving DecidableEq, Repr

/-- Escape of a 16-bit unit. -/
def unitEscape (u : Nat) : String :=
  "\\u" ++ Text.hexBare 4 u

/-- A character as it stands in a JSON string. -/
def jsonChar (c : Char) : String :=
  if c = '"' then "\\\""
  else if c = '\\' then "\\\\"
  else if c = '\n' then "\\n"
  else if c = '\r' then "\\r"
  else if c = '\t' then "\\t"
  else if c = '\x08' then "\\b"
  else if c = '\x0c' then "\\f"
  else if ' ' ≤ c ∧ c ≤ '~' then c.toString
  else String.join ((Text.Utf16.encodeChar c).map unitEscape)

def jsonString (s : String) : String :=
  "\"" ++ String.join (s.toList.map jsonChar) ++ "\""

def Scalar.json : Scalar → String
  | .absent => "null"
  | .number n => s!"{n}"
  | .text s => jsonString s

def JsonValue.json : JsonValue → String
  | .scalar s => s.json
  | .list items => "[" ++ ", ".intercalate (items.map Scalar.json) ++ "]"

/-- The members of an object, in the order in which they are written; no key repeats. -/
abbrev Members := List (String × JsonValue)

/-- Gives a key a value: in its old place when there is one, at the end otherwise. -/
def Members.put (members : Members) (key : String) (value : JsonValue) : Members :=
  match members with
  | [] => [(key, value)]
  | (k, v) :: rest => if k = key then (k, value) :: rest else (k, v) :: Members.put rest key value

def Members.json (members : Members) : String :=
  "\x7b" ++ ", ".intercalate (members.map fun m => jsonString m.1 ++ ": " ++ m.2.json) ++ "\x7d"

end ApkFormats.Log
