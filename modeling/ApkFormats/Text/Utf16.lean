import ApkFormats.Text.Malformed

/-!
# UTF-16 code units

A character is one 16-bit unit, or a high surrogate followed by a low one.
`decode` refuses a text at its first surrogate without a partner;
`decodeLenient` puts the replacement character in place of each such unit;
`encode` writes the units of a text.
-/

namespace ApkFormats.Text.Utf16

/-- Whether a unit is the first half of a surrogate pair. -/
def isHigh (u : Nat) : Bool :=
  0xD800 ≤ u && u ≤ 0xDBFF

/-- Whether a unit is the second half of a surrogate pair. -/
def isLow (u : Nat) : Bool :=
  0xDC00 ≤ u && u ≤ 0xDFFF

/-- The character that a surrogate pair stands for. -/
def joinPair (high low : Nat) : Char :=
  Char.ofNat (0x10000 + 0x400 * (high - 0xD800) + (low - 0xDC00))

/-- A surrogate without its partner. -/
structure Unpaired where
  index : Nat
  unit : Nat
  reason : Encoding.Refusal
  deriving DecidableEq, Repr

/-- Reads units from index `i` on, with the characters read so far. -/
def decodeFrom (i : Nat) (done : List Char) : List Nat → Except Unpaired (List Char)
  | [] => .ok done.reverse
  | u :: rest =>
      if isHigh u then
        match rest with
        | [] => .error ⟨i, u, .unexpectedEnd⟩
        | v :: rest' =>
            if isLow v then decodeFrom (i + 2) (joinPair u v :: done) rest'
            else .error ⟨i, u, .unpairedHigh⟩
      else if isLow u then .error ⟨i, u, .unpairedLow⟩
      else decodeFrom (i + 1) (Char.ofNat u :: done) rest

/-- The characters that some units encode, or the first surrogate without a partner. -/
def decode (units : List Nat) : Except Unpaired (List Char) :=
  decodeFrom 0 [] units

/-- The refused bytes, when the units are stored as little-endian bytes. -/
def Unpaired.malformed (e : Unpaired) : Malformed :=
  ⟨.utf16, 2 * e.index, 2 * e.index + 1, UInt8.ofNat (e.unit % 256), e.reason⟩

def replacement : Char := Char.ofNat 0xFFFD

/-- The characters that some units encode, surrogates without a partner replaced one by one. -/
def decodeLenient : List Nat → List Char
  | [] => []
  | [u] => if isHigh u || isLow u then [replacement] else [Char.ofNat u]
  | u :: v :: rest =>
      if isHigh u && isLow v then joinPair u v :: decodeLenient rest
      else if isHigh u || isLow u then replacement :: decodeLenient (v :: rest)
      else Char.ofNat u :: decodeLenient (v :: rest)

def encodeChar (c : Char) : List Nat :=
  let n := c.toNat
  if n < 0x10000 then [n]
  else [0xD800 + (n - 0x10000) / 0x400, 0xDC00 + (n - 0x10000) % 0x400]

def encode (cs : List Char) : List Nat :=
  cs.flatMap encodeChar

end ApkFormats.Text.Utf16
