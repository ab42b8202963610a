import ApkFormats.Text.Hex

/-!
# Malformed encoded text

Decoding stops at the first bytes that encode no character.  `Malformed` tells
where they are and why they are refused.
-/

namespace ApkFormats.Text

inductive Encoding where
  | utf8
  | utf16
  deriving DecidableEq, Repr

def Encoding.name : Encoding → String
  | .utf8 => "utf-8"
  | .utf16 => "utf-16-le"

/-- Why bytes encode no character. -/
inductive Encoding.Refusal where
  | startByte
  | continuationByte
  /-- The data ends inside the character. -/
  | unexpectedEnd
  | unpairedHigh
  | unpairedLow
  deriving DecidableEq, Repr

def Encoding.Refusal.text : Encoding.Refusal → String
  | .startByte => "invalid start byte"
  | .continuationByte => "invalid continuation byte"
  | .unexpectedEnd => "unexpected end of data"
  | .unpairedHigh => "illegal UTF-16 surrogate"
  | .unpairedLow => "illegal encoding"

/-- The first bytes of a text that encode no character. -/
structure Malformed where
  encoding : Encoding
  /-- Offset of the first refused byte. -/
  first : Nat
  /-- Offset of the last refused byte. -/
  last : Nat
  byte : UInt8
  reason : Encoding.Refusal
  deriving DecidableEq, Repr

/-- Message about malformed text: a single byte is shown, a longer run only located. -/
def Malformed.text (m : Malformed) : String :=
  let place :=
    if m.first = m.last then
      s!"byte 0x{hexByte m.byte} in position {m.first}"
    else
      s!"bytes in position {m.first}-{m.last}"
  "'" ++ m.encoding.name ++ "' codec can't decode " ++ place ++ ": " ++ m.reason.text

end ApkFormats.Text
