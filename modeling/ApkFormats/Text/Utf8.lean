import ApkFormats.Text.Malformed

/-!
# UTF-8

A character is a lead byte and up to three continuation bytes.  The lead byte
fixes how many bytes follow and the interval of the first of them, so that
overlong forms, surrogates and codes above `10FFFF` are refused at the earliest
byte that rules the text out.

`decode` reads a whole text and refuses it at its first malformed character;
`encode` writes one.
-/

namespace ApkFormats.Text.Utf8

/-- A character whose lead byte has been read. -/
structure Begun where
  start : Nat
  lead : UInt8
  /-- Bits of the code point read so far. -/
  code : Nat
  /-- Number of continuation bytes still to come. -/
  owed : Nat
  /-- Least value of the next byte. -/
  low : Nat
  /-- Greatest value of the next byte. -/
  high : Nat

/-- What a lead byte above ASCII begins, or nothing for a byte that starts no character. -/
def begin? (start : Nat) (lead : UInt8) : Option Begun :=
  let n := lead.toNat
  if n < 0xC2 then none
  else if n < 0xE0 then some ⟨start, lead, n - 0xC0, 1, 0x80, 0xBF⟩
  else if n < 0xF0 then
    some ⟨start, lead, n - 0xE0, 2,
      if n = 0xE0 then 0xA0 else 0x80, if n = 0xED then 0x9F else 0xBF⟩
  else if n < 0xF5 then
    some ⟨start, lead, n - 0xF0, 3,
      if n = 0xF0 then 0x90 else 0x80, if n = 0xF4 then 0x8F else 0xBF⟩
  else none

/-- Reads bytes from offset `i` on, with the character begun and the characters read so far. -/
def decodeFrom (i : Nat) (begun : Option Begun) (done : List Char) :
    List UInt8 → Except Malformed (List Char)
  | [] =>
      match begun with
      | none => .ok done.reverse
      | some c => .error ⟨.utf8, c.start, i - 1, c.lead, .unexpectedEnd⟩
  | b :: rest =>
      match begun with
      | none =>
          if b < 0x80 then decodeFrom (i + 1) none (Char.ofNat b.toNat :: done) rest
          else
            match begin? i b with
            | some c => decodeFrom (i + 1) (some c) done rest
            | none => .error ⟨.utf8, i, i, b, .startByte⟩
      | some c =>
          if c.low ≤ b.toNat ∧ b.toNat ≤ c.high then
            let code := 64 * c.code + b.toNat % 64
            if c.owed ≤ 1 then decodeFrom (i + 1) none (Char.ofNat code :: done) rest
            else
              decodeFrom (i + 1) (some ⟨c.start, c.lead, code, c.owed - 1, 0x80, 0xBF⟩) done rest
          else .error ⟨.utf8, c.start, i - 1, c.lead, .continuationByte⟩

/-- The characters that some bytes encode, or the first place where they encode none. -/
def decode (bytes : List UInt8) : Except Malformed (List Char) :=
  decodeFrom 0 none [] bytes

def encodeChar (c : Char) : List UInt8 :=
  let n := c.toNat
  if n < 0x80 then [UInt8.ofNat n]
  else if n < 0x800 then [UInt8.ofNat (0xC0 + n / 64), UInt8.ofNat (0x80 + n % 64)]
  else if n < 0x10000 then
    [UInt8.ofNat (0xE0 + n / 4096), UInt8.ofNat (0x80 + n / 64 % 64), UInt8.ofNat (0x80 + n % 64)]
  else
    [UInt8.ofNat (0xF0 + n / 262144), UInt8.ofNat (0x80 + n / 4096 % 64),
      UInt8.ofNat (0x80 + n / 64 % 64), UInt8.ofNat (0x80 + n % 64)]

def encode (cs : List Char) : List UInt8 :=
  cs.flatMap encodeChar

end ApkFormats.Text.Utf8
