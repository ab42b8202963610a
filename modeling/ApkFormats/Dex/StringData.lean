import ApkFormats.Leb128
import ApkFormats.Text.Utf16

/-!
# Strings of DEX files

A string is stored as the number of its UTF-16 units and the units themselves.
A unit takes one, two or three bytes by its size, so that a surrogate pair
takes six; a zero may be written in two bytes.  Surrogates have to come in
pairs, and zeros are dropped from the text.

`readUnit` reads one unit, `textOfUnits` makes the text, and `encodeUnit` and
`StringData.encode` write them.
-/

namespace ApkFormats.Dex

/-- Reads a byte that continues a unit, in the string at `start`, and gives its six bits. -/
def readContinuation (start : Nat) : Decoder Nat := do
  let position ← Decoder.position
  let b ← Decoder.u8
  if b / 0x40 = 2 then pure (b % 0x40)
  else Decoder.fail (.dex (.continuationByte b start position))

/-- Reads a unit of the string at `start`. -/
def readUnit (start : Nat) : Decoder Nat := do
  let position ← Decoder.position
  let a ← Decoder.u8
  if a < 0x80 then pure a
  else if a / 0x20 = 6 then do
    let b ← readContinuation start
    pure (a % 0x20 * 0x40 + b)
  else if a / 0x10 = 14 then do
    let b ← readContinuation start
    let c ← readContinuation start
    pure (a % 0x10 * 0x1000 + b * 0x40 + c)
  else Decoder.fail (.dex (.leadByte a start position))

/-- The text of some units, which stand at `start`. -/
def textOfUnits (start : Nat) (units : List Nat) : Except DexFault String :=
  match Text.Utf16.decode units with
  | .ok cs => .ok (String.ofList (cs.filter (· ≠ '\x00')))
  | .error unpaired =>
      match unpaired.reason with
      | .unpairedLow => .error (.unpairedLow start)
      | _ => .error (.unpairedHigh start)

/-- A string as it is stored. -/
structure StringData where
  /-- Declared number of units. -/
  length : Leb128.Stored
  /-- Offset of the first unit. -/
  offset : Nat
  text : String
  deriving DecidableEq, Repr

namespace StringData

/-- Reads the declared number of units at `offset`. -/
def readText (length : Leb128.Stored) (offset : Nat) : Decoder StringData := do
  let units ← Decoder.times (readUnit offset) length.value.toNat
  match textOfUnits offset units with
  | .ok text => pure ⟨length, offset, text⟩
  | .error fault => Decoder.fail (.dex fault)

/-- Reads a string; every declared unit needs a byte at least. -/
def read : Decoder StringData := do
  let length ← Leb128.stored .unsigned
  let offset ← Decoder.position
  let bufferSize ← Decoder.bufferSize
  Decoder.require (length.value.toNat ≤ bufferSize - offset)
    (.dex (.stringSize offset length.value.toNat (bufferSize - offset)))
  readText length offset

def encodeUnit (u : Nat) : List UInt8 :=
  if u ≠ 0 ∧ u < 0x80 then [UInt8.ofNat u]
  else if u < 0x800 then [UInt8.ofNat (0xC0 + u / 0x40), UInt8.ofNat (0x80 + u % 0x40)]
  else
    [UInt8.ofNat (0xE0 + u / 0x1000), UInt8.ofNat (0x80 + u / 0x40 % 0x40),
      UInt8.ofNat (0x80 + u % 0x40)]

/-- The bytes of a string, with its number of units. -/
def encode (s : String) : List UInt8 :=
  let units := Text.Utf16.encode s.toList
  Leb128.encodeUnsigned units.length ++ units.flatMap encodeUnit

end StringData

end ApkFormats.Dex
