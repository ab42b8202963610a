/-!
# Bytes, little-endian numbers and bit fields

A file is a buffer of bytes.  Every number in it is stored with its least
significant byte first; `littleEndian` reads such a number and
`toLittleEndian` writes one; `wordBytes` and `halfWordBytes` write several of
four or two bytes each.  `splitBits` cuts a number into consecutive bit fields.

A number that is written takes exactly the bytes of its width.
-/

namespace ApkFormats

/-- A buffer of bytes, addressed by offset. -/
abbrev Bytes := Array UInt8

/-- Index word that stands for "no entry". -/
def noIndex : Nat := 0xFFFFFFFF

/-- Number whose bytes are given, least significant byte first. -/
def littleEndian : List UInt8 → Nat
  | [] => 0
  | b :: rest => b.toNat + 256 * littleEndian rest

/-- The low `width` bytes of a number, least significant byte first. -/
def toLittleEndian : (width : Nat) → Nat → List UInt8
  | 0, _ => []
  | width + 1, n => UInt8.ofNat (n % 256) :: toLittleEndian width (n / 256)

def wordBytes (ns : List Nat) : List UInt8 :=
  ns.flatMap (toLittleEndian 4)

def halfWordBytes (ns : List Nat) : List UInt8 :=
  ns.flatMap (toLittleEndian 2)

/-- Zeros that bring a length to a multiple of four. -/
def padding (length : Nat) : List UInt8 :=
  List.replicate ((4 - length % 4) % 4) 0

/-- Consecutive bit fields of a number, least significant field first.

A negative number counts as infinite two's complement. -/
def splitBits (n : Int) : (widths : List Nat) → List Int
  | [] => []
  | w :: ws => n % (1 <<< w : Nat) :: splitBits (n >>> w) ws

/-- Splits a list of bytes into the 16-bit numbers that its pairs spell. -/
def halfWords : List UInt8 → List Nat
  | a :: b :: rest => (a.toNat + 256 * b.toNat) :: halfWords rest
  | _ => []

@[simp] theorem length_toLittleEndian (width n : Nat) :
    (toLittleEndian width n).length = width := by
  induction width generalizing n with
  | zero => rfl
  | succ width ih => simp [toLittleEndian, ih]

end ApkFormats
