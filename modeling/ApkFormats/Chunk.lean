import ApkFormats.Decoder

/-!
# Chunk headers

Binary XML and resource tables are made of chunks.  A chunk starts with its
type, the size of its header and its size as a whole.  `ChunkHeader.read`
accepts a header only when the two sizes are in order and the chunk ends inside
the buffer; the type of headers keeps the first fact, so that going from a
chunk to its successor always makes progress.

`encodeChunk` writes a chunk from the header fields after the common ones and
its body.
-/

namespace ApkFormats

def stringPoolType : Nat := 0x0001

def resourceTableType : Nat := 0x0002

def packageType : Nat := 0x0200

/-- Type word of the entries of one resource type in one configuration. -/
def typeEntriesType : Nat := 0x0201

/-- Type word of the specification of one resource type. -/
def typeSpecType : Nat := 0x0202

/-- Size of the three fields that every chunk header starts with. -/
def chunkHeaderSize : Nat := 8

/-- The fields that every chunk starts with, and where it starts. -/
structure ChunkHeader where
  type : Nat
  headerSize : Nat
  /-- Size of the chunk, header included. -/
  size : Nat
  offset : Nat
  /-- The header holds at least these fields. -/
  le_headerSize : chunkHeaderSize ≤ headerSize
  /-- The chunk holds at least its header. -/
  headerSize_le : headerSize ≤ size
  deriving DecidableEq, Repr

namespace ChunkHeader

/-- Offset of the first byte after the header. -/
def payload (h : ChunkHeader) : Nat :=
  h.offset + h.headerSize

/-- Offset of the first byte after the chunk. -/
def stop (h : ChunkHeader) : Nat :=
  h.offset + h.size

theorem headerSize_pos (h : ChunkHeader) : 0 < h.headerSize :=
  Nat.lt_of_lt_of_le (by decide) h.le_headerSize

theorem size_pos (h : ChunkHeader) : 0 < h.size :=
  Nat.lt_of_lt_of_le h.headerSize_pos h.headerSize_le

/-- Goes on only when the type of the chunk at an offset is the expected one, if there is one. -/
def requireType (expected : Option Nat) (offset type : Nat) : Decoder Unit :=
  match expected with
  | some wanted =>
      Decoder.require (type == wanted) (.chunk (.unexpectedType wanted offset type))
  | none => pure ()

/-- Reads a header, of a given type where one is expected. -/
def read (expected : Option Nat) : Decoder ChunkHeader := do
  let offset ← Decoder.position
  let type ← Decoder.u16
  let headerSize ← Decoder.u16
  let size ← Decoder.u32
  let bufferSize ← Decoder.bufferSize
  requireType expected offset type
  if inOrder : chunkHeaderSize ≤ headerSize ∧ headerSize ≤ size then do
    Decoder.require (offset + size ≤ bufferSize) (.chunk (.pastBuffer offset size bufferSize))
    pure ⟨type, headerSize, size, offset, inOrder.1, inOrder.2⟩
  else Decoder.fail (.chunk (.sizes offset headerSize size))

end ChunkHeader

/-- The bytes of a chunk with some header fields and a body. -/
def encodeChunk (type : Nat) (fields body : List UInt8) : List UInt8 :=
  toLittleEndian 2 type ++ toLittleEndian 2 (chunkHeaderSize + fields.length) ++
    toLittleEndian 4 (chunkHeaderSize + fields.length + body.length) ++ fields ++ body

end ApkFormats
