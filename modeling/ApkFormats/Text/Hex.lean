/-!
# Hexadecimal number text

Numbers in messages and identifiers are written in lowercase hexadecimal.  A
negative number is written as its absolute value behind a minus sign, and a
fixed width counts the sign and the `0x` mark as well as the digits.
-/

namespace ApkFormats.Text

/-- Lowercase hexadecimal digits of a number, without leading zeros. -/
def hexDigits (n : Nat) : String :=
  String.ofList (Nat.toDigits 16 n)

/-- Puts zeros in front of a text until it has at least `width` characters. -/
def zeroPadded (width : Nat) (s : String) : String :=
  String.ofList (List.replicate (width - s.length) '0') ++ s

/-- Sign, mark and digits of a number, with zeros between mark and digits up to `width`. -/
def signedHex (mark : String) (width : Nat) (n : Int) : String :=
  let sign := if n < 0 then "-" else ""
  sign ++ mark ++ zeroPadded (width - sign.length - mark.length) (hexDigits n.natAbs)

/-- A number as `0x` and its digits, `-0x` and the digits of its absolute value when negative. -/
def hex (n : Int) : String :=
  signedHex "0x" 0 n

/-- A number as `0x` and its digits, at least `width` characters long in all. -/
def hexWide (width : Nat) (n : Int) : String :=
  signedHex "0x" width n

/-- Bare digits of a number, at least `width` characters long with the sign. -/
def hexBare (width : Nat) (n : Int) : String :=
  signedHex "" width n

def hexByte (b : UInt8) : String :=
  zeroPadded 2 (hexDigits b.toNat)

/-- Value of a hexadecimal digit of either case. -/
def hexDigit? (c : Char) : Option Nat :=
  if '0' ≤ c ∧ c ≤ '9' then some (c.toNat - '0'.toNat)
  else if 'a' ≤ c ∧ c ≤ 'f' then some (c.toNat - 'a'.toNat + 10)
  else if 'A' ≤ c ∧ c ≤ 'F' then some (c.toNat - 'A'.toNat + 10)
  else none

/-- Value of hexadecimal digits, the most significant first, on top of a value read so far. -/
def hexValueFrom : (seen : Nat) → List Char → Option Nat
  | seen, [] => some seen
  | seen, c :: rest =>
      match hexDigit? c with
      | some d => hexValueFrom (16 * seen + d) rest
      | none => none

/-- Value of a list of hexadecimal digits, or nothing when another character is among them. -/
def hexValue? (digits : List Char) : Option Nat :=
  hexValueFrom 0 digits

end ApkFormats.Text
