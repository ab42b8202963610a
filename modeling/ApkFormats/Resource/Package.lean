import ApkFormats.Resource.Localized
import ApkFormats.Text.CharClass

/-!
# Packages of a resource table

A package starts with its number, its name in a fixed field, and the offsets of
the two pools that name its types and its keys.  The chunks after the key pool
are the entries and the specifications of its types, in any order.

The strings of the package are gathered while it is decoded, from the string
pool that the table has by then.
-/

namespace ApkFormats.Resource

structure TypeSpec where
  header : ChunkHeader
  id : Nat
  reserved0 : Nat
  reserved1 : Nat
  entryCount : Nat
  deriving DecidableEq, Repr

namespace TypeSpec

def read : Decoder TypeSpec := do
  let header ← ChunkHeader.read (some typeSpecType)
  let id ← Decoder.u8
  let reserved0 ← Decoder.u8
  let reserved1 ← Decoder.u16
  let entryCount ← Decoder.u32
  pure ⟨header, id, reserved0, reserved1, entryCount⟩

def summary (s : TypeSpec) : String :=
  s!"<TypeSpec id:{s.id} entry count:{s.entryCount}>"

end TypeSpec

/-- A chunk after the key pool of a package. -/
inductive PackageChunk where
  | entries (chunk : TypeEntries)
  | spec (chunk : TypeSpec)
  deriving DecidableEq, Repr

/-- Reads the chunk of some type at the cursor, which is at a position. -/
def PackageChunk.read (keys : StringPool) (type position : Nat) : Decoder PackageChunk :=
  if type = typeEntriesType then do
    let chunk ← TypeEntries.read keys
    pure (.entries chunk)
  else if type = typeSpecType then do
    let chunk ← TypeSpec.read
    pure (.spec chunk)
  else Decoder.fail (.table (.unknownChunk type position))

/-- Reads the chunks from a position to the end of a package. -/
def readPackageChunks (keys : StringPool) (stop position : Nat) : Decoder (List PackageChunk) :=
  if _ : position < stop then do
    Decoder.goTo position
    let header ← ChunkHeader.read none
    Decoder.require (header.stop ≤ stop) (.table (.chunkPastPackage position stop))
    Decoder.goTo position
    let chunk ← PackageChunk.read keys header.type position
    let rest ← readPackageChunks keys stop (position + header.size)
    pure (chunk :: rest)
  else pure []
termination_by stop - position
decreasing_by
  have := header.size_pos
  omega

def nameSize : Nat := 256

/-- The name that a fixed field of UTF-16 units holds: up to a zero, without blanks around it. -/
def decodeName (bytes : List UInt8) : String :=
  let cs := Text.Utf16.decodeLenient (halfWords bytes)
  String.ofList (Text.stripBlanks (cs.takeWhile (· ≠ '\x00')))

structure Package where
  header : ChunkHeader
  id : Nat
  name : String
  /-- Offset of the pool of type names from the start of the package. -/
  typeStringsOffset : Nat
  lastPublicType : Nat
  /-- Offset of the pool of keys from the start of the package. -/
  keyStringsOffset : Nat
  lastPublicKey : Nat
  typePool : StringPool
  keyPool : StringPool
  /-- Chunks after the key pool, in the order of the file. -/
  chunks : List PackageChunk
  localized : Localized
  deriving DecidableEq, Repr

def entriesAmong (chunks : List PackageChunk) : List TypeEntries :=
  chunks.filterMap fun chunk =>
    match chunk with
    | .entries e => some e
    | .spec _ => none

def specsAmong (chunks : List PackageChunk) : List TypeSpec :=
  chunks.filterMap fun chunk =>
    match chunk with
    | .entries _ => none
    | .spec s => some s

/-- Number of the first type of a name, where types are named by a pool. -/
def typeIdIn? (types : StringPool) (name : String) : Option Nat :=
  (types.strings.toList.idxOf? name).map (· + 1)

/-- Name of the type whose entries are gathered by language and region. -/
def stringTypeName : String := "string"

/-- The strings among the chunks of a package. -/
def gatherStrings (strings : Option StringPool) (types : StringPool) (chunks : List PackageChunk) :
    Except IndexFault Localized :=
  match typeIdIn? types stringTypeName with
  | some id => Localized.ofChunks strings ((entriesAmong chunks).filter fun chunk => chunk.id == id)
  | none => .ok .empty

namespace Package

/-- Reads a package whose values point into a string pool. -/
def read (strings : Option StringPool) : Decoder Package := do
  let header ← ChunkHeader.read (some packageType)
  let id ← Decoder.u32
  let nameBytes ← Decoder.take nameSize
  let typeStringsOffset ← Decoder.u32
  let lastPublicType ← Decoder.u32
  let keyStringsOffset ← Decoder.u32
  let lastPublicKey ← Decoder.u32
  Decoder.goTo (header.offset + typeStringsOffset)
  let typePool ← StringPool.read
  Decoder.goTo (header.offset + keyStringsOffset)
  let keyPool ← StringPool.read
  let chunks ← readPackageChunks keyPool header.stop keyPool.header.stop
  let localized ← Decoder.resolved (gatherStrings strings typePool chunks)
  let name := decodeName nameBytes
  Decoder.note (.package name id typePool.strings.size keyPool.strings.size)
  pure ⟨header, id, name, typeStringsOffset, lastPublicType, keyStringsOffset, lastPublicKey,
    typePool, keyPool, chunks, localized⟩

def entryChunks (p : Package) : List TypeEntries :=
  entriesAmong p.chunks

def specs (p : Package) : List TypeSpec :=
  specsAmong p.chunks

def entryChunksOf (p : Package) (type : Int) : List TypeEntries :=
  p.entryChunks.filter fun chunk => (chunk.id : Int) == type

def summary (p : Package) : String :=
  "<Package offset:" ++ Text.hexWide 8 p.header.offset ++ ", size:" ++ Text.hex p.header.size ++
    ", name:" ++ Text.quoted p.name ++ ">"

end Package

end ApkFormats.Resource
