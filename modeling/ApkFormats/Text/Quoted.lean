import ApkFormats.Bytes
import ApkFormats.Text.Hex
import ApkFormats.Text.Printable

/-!
# Quoted text and quoted bytes

Messages show names and raw bytes in quotes.  The quote is `'`, or `"` when
the content holds `'` and no `"`.  The backslash, the chosen quote, TAB, LF and
CR are written as two characters; everything else that is not printable is
written with its hexadecimal code, in two, four or eight digits.
-/

namespace ApkFormats.Text

/-- The quote that stands around some characters. -/
def quoteFor (cs : List Char) : Char :=
  if '\'' ∈ cs ∧ '"' ∉ cs then '"' else '\''

/-- Hexadecimal code of a character in the shortest of the three escape forms. -/
def codeEscape (c : Char) : String :=
  let n := c.toNat
  if n < 0x100 then "\\x" ++ hexBare 2 n
  else if n < 0x10000 then "\\u" ++ hexBare 4 n
  else "\\U" ++ hexBare 8 n

/-- A character as it stands between quotes, when `shown` says which ones stand for themselves. -/
def quotedChar (shown : Char → Bool) (quote c : Char) : String :=
  if c = quote then "\\" ++ c.toString
  else if c = '\\' then "\\\\"
  else if c = '\t' then "\\t"
  else if c = '\n' then "\\n"
  else if c = '\r' then "\\r"
  else if shown c then c.toString
  else codeEscape c

/-- Characters between their quotes. -/
def quotedChars (shown : Char → Bool) (cs : List Char) : String :=
  let quote := quoteFor cs
  quote.toString ++ String.join (cs.map (quotedChar shown quote)) ++ quote.toString

def quoted (s : String) : String :=
  quotedChars isPrintable s.toList

/-- Whether a byte is shown as the ASCII character it encodes. -/
def isPrintableAscii (c : Char) : Bool :=
  ' ' ≤ c && c ≤ '~'

/-- Bytes between quotes, marked by a leading `b`. -/
def quotedBytes (bytes : List UInt8) : String :=
  "b" ++ quotedChars isPrintableAscii (bytes.map fun b => Char.ofNat b.toNat)

/-- A text between quotes, or `None` for an absent one. -/
def quotedOrNone : Option String → String
  | some s => quoted s
  | none => "None"

end ApkFormats.Text
