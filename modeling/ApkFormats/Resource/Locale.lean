import ApkFormats.Decoder
import ApkFormats.Text.CharClass

/-!
# Language and region codes

The language and the region of a configuration take two bytes each.  Two zeros
mean none.  A code whose first byte is below `0x80` consists of plain ASCII
letters; otherwise the sixteen bits hold three letters of five bits each,
counted from a first letter that depends on the kind of code.
-/

namespace ApkFormats.Resource

inductive CodeFault where
  | missingByte
  | notAscii
  deriving DecidableEq, Repr

/-- The three letters packed into two bytes, counted from `first`. -/
def unpackLetters (first : Char) (high low : UInt8) : String :=
  let packed : Int := (high.toNat * 0x100 + low.toNat : Nat)
  String.ofList ((splitBits packed [5, 5, 5]).map fun part =>
    Char.ofNat (first.toNat + part.toNat))

/-- The letters of a plain code, without zeros at the end. -/
def plainLetters? (code : List UInt8) : Option String :=
  if code.all fun b => b < 0x80 then
    some (String.ofList (Text.trimEnd (· = '\x00') (code.map fun b => Char.ofNat b.toNat)))
  else none

/-- The code that some bytes stand for, or nothing when they are both zero. -/
def decodeCode (code : List UInt8) (first : Char) : Except CodeFault (Option String) :=
  match code with
  | [] => .error .missingByte
  | high :: rest =>
      if code = [0, 0] then .ok none
      else if high < 0x80 then
        match plainLetters? code with
        | some s => .ok (some s)
        | none => .error .notAscii
      else
        match rest with
        | [] => .error .missingByte
        | low :: _ => .ok (some (unpackLetters first high low))

/-- First letter that packed language codes count from. -/
def firstLanguageLetter : Char := 'a'

/-- First letter that packed region codes count from. -/
def firstRegionLetter : Char := '0'

/-- The fault of a code at an offset. -/
def CodeFault.fault (code : List UInt8) (offset : Option Int) : CodeFault → Fault
  | .missingByte => .missingByte
  | .notAscii => .table (.localeCode code offset)

def readCode (first : Char) : Decoder (Option String) := do
  let offset ← Decoder.position
  let code ← Decoder.take 2
  match decodeCode code first with
  | .ok letters => pure letters
  | .error e => Decoder.fail (e.fault code (some offset))

end ApkFormats.Resource
