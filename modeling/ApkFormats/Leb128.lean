import ApkFormats.Decoder

/-!
# LEB128 numbers

A LEB128 number is a row of bytes that carry seven bits each, the least
significant group first.  Every byte but the last has its high bit set, and no
number takes more than five bytes.

* `readGroups` reads the bytes of one number;
* `Kind.value` is the number that the bytes stand for: unsigned, unsigned less
  one, or signed by the top bit of the last group;
* `encodeUnsigned` and `encodeSigned` write the shortest bytes of a number.
-/

namespace ApkFormats.Leb128

/-- How the groups of a number are to be understood. -/
inductive Kind where
  | unsigned
  /-- One less than the unsigned number, so that a single zero byte stands for `-1`. -/
  | unsignedMinusOne
  | signed
  deriving DecidableEq, Repr

def Kind.name : Kind → String
  | .unsigned => "Uleb128"
  | .unsignedMinusOne => "Uleb128p1"
  | .signed => "Sleb128"

/-- Whether another byte follows this one. -/
def continues (b : UInt8) : Bool :=
  0x80 ≤ b

/-- Number that the low seven bits of some bytes spell, least significant group first. -/
def payload : List UInt8 → Nat
  | [] => 0
  | b :: rest => b.toNat % 128 + 128 * payload rest

/-- Whether the last group has its top bit set. -/
def isNegative (groups : List UInt8) : Bool :=
  match groups.getLast? with
  | some b => 64 ≤ b.toNat % 128
  | none => false

/-- Number that some bytes stand for. -/
def Kind.value (kind : Kind) (groups : List UInt8) : Int :=
  match kind with
  | .unsigned => payload groups
  | .unsignedMinusOne => (payload groups : Int) - 1
  | .signed =>
      if isNegative groups then (payload groups : Int) - (1 <<< (7 * groups.length) : Nat)
      else payload groups

/-- Reads the bytes of a number that starts at `start`, when it may take `room` more bytes. -/
def readGroups (start : Nat) : (room : Nat) → Decoder (List UInt8)
  | 0 => Decoder.fail (.longLeb128 start)
  | room + 1 => do
      let b ← Decoder.byte
      if continues b then do
        let rest ← readGroups start room
        pure (b :: rest)
      else pure [b]

def groups : Decoder (List UInt8) := do
  let start ← Decoder.position
  readGroups start maxLeb128Bytes

/-- A number as it is stored. -/
structure Stored where
  groups : List UInt8
  value : Int
  deriving DecidableEq, Repr

def Stored.length (s : Stored) : Nat :=
  s.groups.length

def stored (kind : Kind) : Decoder Stored := do
  let bytes ← groups
  pure ⟨bytes, kind.value bytes⟩

def unsigned : Decoder Nat := do
  let bytes ← groups
  pure (payload bytes)

def unsignedMinusOne : Decoder Int := do
  let bytes ← groups
  pure (Kind.value .unsignedMinusOne bytes)

def signed : Decoder Int := do
  let bytes ← groups
  pure (Kind.value .signed bytes)

/-- The number of a kind at some position of a buffer. -/
def decodeAt (kind : Kind) (buffer : Bytes) (position : Int) : Except PlacedError Stored :=
  ((stored kind).runAt kind.name buffer position).map Prod.fst

/-- The shortest bytes of an unsigned number. -/
def encodeUnsigned (n : Nat) : List UInt8 :=
  if n < 128 then [UInt8.ofNat n]
  else UInt8.ofNat (128 + n % 128) :: encodeUnsigned (n / 128)
termination_by n

/-- The shortest bytes of a signed number. -/
def encodeSigned (n : Int) : List UInt8 :=
  if -64 ≤ n ∧ n < 64 then [UInt8.ofNat (n % 128).toNat]
  else UInt8.ofNat (128 + (n % 128).toNat) :: encodeSigned (n / 128)
termination_by n.natAbs
decreasing_by omega

end ApkFormats.Leb128
