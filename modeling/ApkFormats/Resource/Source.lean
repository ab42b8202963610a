import ApkFormats.Resource.Table

/-!
# Writing resource tables

A table is written from its global strings and its packages, a package from the
names of its types and keys and from a row of chunks.  `TableSource.encode`
gives the bytes: global strings and keys are stored in UTF-8, names of types in
UTF-16.
-/

namespace ApkFormats.Resource

/-- A language or region as it is written. -/
inductive CodeSource where
  | none
  | letters (first second : Char)
  /-- Three packed letters, counted from a first letter. -/
  | packed (first second third : Fin 32)
  deriving DecidableEq, Repr

namespace CodeSource

/-- The code that is written, where packed letters count from `base`. -/
def text (base : Char) : CodeSource → Option String
  | .none => Option.none
  | .letters first second => some (String.ofList [first, second])
  | .packed first second third =>
      some (String.ofList
        ([first, second, third].map fun part => Char.ofNat (base.toNat + part.val)))

def encode : CodeSource → List UInt8
  | .none => [0, 0]
  | .letters first second => [UInt8.ofNat first.toNat, UInt8.ofNat second.toNat]
  | .packed first second third =>
      [UInt8.ofNat (0x80 + 4 * third.val + second.val / 8),
        UInt8.ofNat (0x20 * (second.val % 8) + first.val)]

end CodeSource

structure ConfigSource where
  language : CodeSource
  region : CodeSource
  density : Nat
  deriving DecidableEq, Repr

namespace ConfigSource

def fixedSize : Nat := 64

def encode (c : ConfigSource) : List UInt8 :=
  wordBytes [fixedSize, 0] ++ c.language.encode ++ c.region.encode ++
    halfWordBytes [0, c.density] ++ List.replicate (fixedSize - 16) 0

end ConfigSource

/-- A place for an entry as it is written. -/
inductive EntrySource where
  | absent
  | simple (key type data : Nat)
  | complex (key : Nat)
  deriving DecidableEq, Repr

namespace EntrySource

def toEntry? : EntrySource → Option Entry
  | .absent => Option.none
  | .simple key type data => some ⟨8, 0, key, .simple ⟨8, 0, type, data⟩⟩
  | .complex key => some ⟨16, 1, key, .complex 0 0⟩

/-- The bytes of an entry, of which there are none where there is no entry. -/
def encode : EntrySource → List UInt8
  | .absent => []
  | .simple key type data =>
      halfWordBytes [8, 0] ++ wordBytes [key] ++ halfWordBytes [8, 0x100 * type] ++ wordBytes [data]
  | .complex key => halfWordBytes [16, 1] ++ wordBytes [key, 0, 0]

/-- Offsets of some entries that are laid end to end from `start` on. -/
def offsetsFrom (start : Nat) : List EntrySource → List Nat
  | [] => []
  | .absent :: rest => noIndex :: offsetsFrom start rest
  | e :: rest => start :: offsetsFrom (start + e.encode.length) rest

end EntrySource

inductive ChunkSource where
  | spec (id count : Nat)
  | entries (id : Nat) (config : ConfigSource) (places : List EntrySource)
  deriving DecidableEq, Repr

namespace ChunkSource

def entriesHeaderSize : Nat := chunkHeaderSize + 12 + ConfigSource.fixedSize

def encode : ChunkSource → List UInt8
  | .spec id count =>
      encodeChunk typeSpecType (halfWordBytes [id, 0] ++ wordBytes [count])
        (List.replicate (4 * count) 0)
  | .entries id config places =>
      encodeChunk typeEntriesType
        (halfWordBytes [id, 0] ++
          wordBytes [places.length, entriesHeaderSize + 4 * places.length] ++ config.encode)
        (wordBytes (EntrySource.offsetsFrom 0 places) ++ places.flatMap EntrySource.encode)

end ChunkSource

structure PackageSource where
  id : Nat
  name : String
  types : List String
  keys : List String
  chunks : List ChunkSource
  deriving DecidableEq, Repr

namespace PackageSource

def headerSize : Nat := 288

/-- The field of a name, filled up with zeros. -/
def nameField (name : String) : List UInt8 :=
  let bytes := halfWordBytes (Text.Utf16.encode name.toList)
  bytes ++ List.replicate (nameSize - bytes.length) 0

def encode (p : PackageSource) : List UInt8 :=
  let typePool := StringPool.encode false p.types
  encodeChunk packageType
    (wordBytes [p.id] ++ nameField p.name ++
      wordBytes [headerSize, p.types.length, headerSize + typePool.length, p.keys.length, 0])
    (typePool ++ StringPool.encode true p.keys ++ p.chunks.flatMap ChunkSource.encode)

end PackageSource

/-- A resource table as it is written. -/
structure TableSource where
  strings : List String
  packages : List PackageSource
  deriving DecidableEq, Repr

/-- The bytes of a resource table. -/
def TableSource.encode (t : TableSource) : List UInt8 :=
  encodeChunk resourceTableType (wordBytes [t.packages.length])
    (StringPool.encode true t.strings ++ t.packages.flatMap PackageSource.encode)

end ApkFormats.Resource
