import ApkFormats.Dex.Code

/-!
# Members of classes

The members of a class are four lists: static and instance fields, direct and
virtual methods.  Each member is stored with the difference of its index to the
one before it in its list.  The code of a method is read where its offset
points; afterwards the list goes on where it was left.
-/

namespace ApkFormats.Dex

structure FieldEntry where
  /-- Difference to the index of the field before it. -/
  indexDiff : Nat
  flags : Nat
  deriving DecidableEq, Repr

def FieldEntry.read : Decoder FieldEntry := do
  let indexDiff ← Leb128.unsigned
  let flags ← Leb128.unsigned
  pure ⟨indexDiff, flags⟩

structure MethodEntry where
  /-- Difference to the index of the method before it. -/
  indexDiff : Nat
  flags : Nat
  /-- Offset of the code, or zero for a method without code. -/
  codeOffset : Nat
  code : Option Code
  deriving DecidableEq, Repr

/-- Reads the code at an offset, of which there is none at offset zero, and comes back. -/
def Code.readAway (offset : Nat) : Decoder (Option Code) :=
  if offset = 0 then pure none
  else do
    let back ← Decoder.position
    Decoder.goTo offset
    let code ← Code.read
    Decoder.goTo back
    pure (some code)

def MethodEntry.read : Decoder MethodEntry := do
  let indexDiff ← Leb128.unsigned
  let flags ← Leb128.unsigned
  let codeOffset ← Leb128.unsigned
  let code ← Code.readAway codeOffset
  pure ⟨indexDiff, flags, codeOffset, code⟩

/-- Declared numbers of the members of a class. -/
structure MemberCounts where
  staticFields : Leb128.Stored
  instanceFields : Leb128.Stored
  directMethods : Leb128.Stored
  virtualMethods : Leb128.Stored
  deriving DecidableEq, Repr

namespace MemberCounts

def read : Decoder MemberCounts := do
  let staticFields ← Leb128.stored .unsigned
  let instanceFields ← Leb128.stored .unsigned
  let directMethods ← Leb128.stored .unsigned
  let virtualMethods ← Leb128.stored .unsigned
  pure ⟨staticFields, instanceFields, directMethods, virtualMethods⟩

/-- The numbers in the order of the file. -/
def toList (c : MemberCounts) : List Leb128.Stored :=
  [c.staticFields, c.instanceFields, c.directMethods, c.virtualMethods]

/-- Least number of bytes that the members take: two for a field, three for a method. -/
def leastSize (c : MemberCounts) : Nat :=
  2 * (c.staticFields.value.toNat + c.instanceFields.value.toNat) +
    3 * (c.directMethods.value.toNat + c.virtualMethods.value.toNat)

end MemberCounts

/-- The members of a class as they are stored. -/
structure ClassData where
  counts : MemberCounts
  staticFields : List FieldEntry
  instanceFields : List FieldEntry
  directMethods : List MethodEntry
  virtualMethods : List MethodEntry
  deriving DecidableEq, Repr

namespace ClassData

def readMembers (counts : MemberCounts) : Decoder ClassData := do
  let staticFields ← Decoder.times FieldEntry.read counts.staticFields.value.toNat
  let instanceFields ← Decoder.times FieldEntry.read counts.instanceFields.value.toNat
  let directMethods ← Decoder.times MethodEntry.read counts.directMethods.value.toNat
  let virtualMethods ← Decoder.times MethodEntry.read counts.virtualMethods.value.toNat
  pure ⟨counts, staticFields, instanceFields, directMethods, virtualMethods⟩

def read : Decoder ClassData := do
  let start ← Decoder.position
  let counts ← MemberCounts.read
  let cursor ← Decoder.position
  let bufferSize ← Decoder.bufferSize
  Decoder.require (counts.leastSize ≤ bufferSize - cursor)
    (.dex (.memberCount start counts.leastSize (bufferSize - cursor)))
  readMembers counts

end ClassData

end ApkFormats.Dex
