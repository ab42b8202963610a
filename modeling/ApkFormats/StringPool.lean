import ApkFormats.Chunk
import ApkFormats.Text.Utf8
import ApkFormats.Text.Utf16

/-!
# String pools

A string pool is a chunk that holds the strings of a document or table, each at
an offset of its own.  A string is stored in UTF-8 behind two length marks (its
UTF-16 length, then its length in bytes) or in UTF-16 behind one, and has to
lie inside the chunk.  Style spans are counted but not decoded.

Length marks have a short and a long form.  They are read at the cursor by
`shortMark` and `longMark`, and at an offset of some bytes by `shortMarkAt` and
`longMarkAt`.

`encode` writes the pool of some strings in either encoding.
-/

namespace ApkFormats

structure StringPool where
  header : ChunkHeader
  stringCount : Nat
  styleCount : Nat
  flags : Nat
  /-- Offset of the string data from the start of the chunk. -/
  stringsStart : Nat
  /-- Offset of the style data from the start of the chunk. -/
  stylesStart : Nat
  strings : Array String
  deriving DecidableEq, Repr

namespace StringPool

/-- Whether a flag word marks a pool as stored in UTF-8. -/
def storesUtf8 (flags : Nat) : Bool :=
  flags / 256 % 2 == 1

/-- Whether a pool is stored in UTF-8. -/
def isUtf8 (pool : StringPool) : Bool :=
  storesUtf8 pool.flags

def fixedSize : Nat := 28

/-- Reads a length mark of one byte, or of two when the first one has its high bit set. -/
def shortMark : Decoder Nat := do
  let first ← Decoder.u8
  if first < 0x80 then pure first
  else do
    let second ← Decoder.u8
    pure (first % 0x80 * 0x100 + second)

/-- Reads a length mark of one unit, or of two when the first one has its high bit set. -/
def longMark : Decoder Nat := do
  let first ← Decoder.u16
  if first < 0x8000 then pure first
  else do
    let second ← Decoder.u16
    pure (first % 0x8000 * 0x10000 + second)

/-- The number of `width` bytes at an offset of some data, which has to lie inside it. -/
def markNumber (data : Bytes) (offset : Int) (skipped width : Nat) : Except Fault Nat :=
  if offset < 0 ∨ (data.size : Int) < offset + (skipped + width : Nat) then
    .error (.pool (.lengthMark offset (skipped + width) data.size))
  else
    let start := offset.toNat + skipped
    .ok (littleEndian (data.extract start (start + width)).toList)

/-- The length mark of one or two bytes at an offset of some data, and how many it takes. -/
def shortMarkAt (data : Bytes) (offset : Int) : Except Fault (Nat × Nat) := do
  let first ← markNumber data offset 0 1
  if first < 0x80 then pure (first, 1)
  else do
    let second ← markNumber data offset 1 1
    pure (first % 0x80 * 0x100 + second, 2)

/-- The length mark of one or two units at an offset of some data, and how many bytes it takes. -/
def longMarkAt (data : Bytes) (offset : Int) : Except Fault (Nat × Nat) := do
  let first ← markNumber data offset 0 2
  if first < 0x8000 then pure (first, 2)
  else do
    let second ← markNumber data offset 2 2
    pure (first % 0x8000 * 0x10000 + second, 4)

/-- The text that some bytes encode. -/
def decodeText (utf8 : Bool) (bytes : List UInt8) : Except Text.Malformed String :=
  if utf8 then (Text.Utf8.decode bytes).map String.ofList
  else
    match Text.Utf16.decode (halfWords bytes) with
    | .ok cs => .ok (String.ofList cs)
    | .error unpaired => .error unpaired.malformed

def byteLength (utf8 : Bool) : Decoder Nat :=
  if utf8 then do
    let _ ← shortMark
    shortMark
  else do
    let units ← longMark
    pure (2 * units)

/-- Reads the string at an offset of the buffer, which has to lie inside the chunk. -/
def readString (header : ChunkHeader) (utf8 : Bool) (start : Nat) : Decoder String := do
  Decoder.require (start < header.stop)
    (.pool (.stringStart start header.offset header.stop))
  Decoder.goTo start
  let length ← byteLength utf8
  let cursor ← Decoder.position
  Decoder.require (cursor + length ≤ header.stop)
    (.pool (.stringEnd start length header.stop))
  let bytes ← Decoder.take length
  match decodeText utf8 bytes with
  | .ok s => pure s
  | .error malformed => Decoder.fail (.pool (.malformed start malformed))

/-- Takes a note of style spans, when there are some. -/
def noteStyles (styleCount offset : Nat) : Decoder Unit :=
  if styleCount ≠ 0 then Decoder.note (.styleSpans styleCount offset) else pure ()

/-- Reads a string pool and leaves the cursor after its chunk. -/
def read : Decoder StringPool := do
  let header ← ChunkHeader.read (some stringPoolType)
  Decoder.require (fixedSize ≤ header.headerSize)
    (.pool (.headerSize header.offset header.headerSize))
  let stringCount ← Decoder.u32
  let styleCount ← Decoder.u32
  let flags ← Decoder.u32
  let stringsStart ← Decoder.u32
  let stylesStart ← Decoder.u32
  Decoder.goTo header.payload
  Decoder.require (header.payload + 4 * stringCount ≤ header.stop)
    (.pool (.stringCount header.offset stringCount))
  let offsets ← Decoder.times Decoder.u32 stringCount
  noteStyles styleCount header.offset
  let strings ← Decoder.each
    (fun offset => readString header (storesUtf8 flags) (header.offset + stringsStart + offset))
    offsets
  Decoder.note (.stringPool header.offset stringCount (storesUtf8 flags))
  Decoder.goTo header.stop
  pure ⟨header, stringCount, styleCount, flags, stringsStart, stylesStart, strings.toArray⟩

def stringAt (pool : StringPool) (index : Int) : Except IndexFault String :=
  if index = noIndex ∨ index < 0 then .error (.poolString index pool.strings.size)
  else
    match pool.strings[index.toNat]? with
    | some s => .ok s
    | none => .error (.poolString index pool.strings.size)

/-- The bytes of a length mark that counts bytes. -/
def encodeShortMark (n : Nat) : List UInt8 :=
  if n < 0x80 then [UInt8.ofNat n] else [UInt8.ofNat (0x80 + n / 0x100), UInt8.ofNat (n % 0x100)]

/-- The bytes of a length mark that counts units. -/
def encodeLongMark (n : Nat) : List UInt8 :=
  if n < 0x8000 then toLittleEndian 2 n
  else toLittleEndian 2 (0x8000 + n / 0x10000) ++ toLittleEndian 2 (n % 0x10000)

/-- The bytes of one string: its marks, its text and a zero. -/
def encodeString (utf8 : Bool) (s : String) : List UInt8 :=
  let units := Text.Utf16.encode s.toList
  if utf8 then
    let bytes := Text.Utf8.encode s.toList
    encodeShortMark units.length ++ encodeShortMark bytes.length ++ bytes ++ [0]
  else encodeLongMark units.length ++ halfWordBytes units ++ [0, 0]

/-- Offsets of some pieces that are laid end to end from `start` on. -/
def offsetsFrom (start : Nat) : List (List UInt8) → List Nat
  | [] => []
  | piece :: rest => start :: offsetsFrom (start + piece.length) rest

/-- The bytes of the pool of some strings. -/
def encode (utf8 : Bool) (strings : List String) : List UInt8 :=
  let pieces := strings.map (encodeString utf8)
  let data := pieces.flatten
  let fields :=
    wordBytes [strings.length, 0, if utf8 then 0x100 else 0, fixedSize + 4 * strings.length, 0]
  encodeChunk stringPoolType fields
    (wordBytes (offsetsFrom 0 pieces) ++ data ++ padding data.length)

end StringPool

end ApkFormats
