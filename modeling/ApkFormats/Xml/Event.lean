import ApkFormats.Xml.Element

/-!
# Records of a document as events

The body of a document is a row of records.  For the tree each record is one
`Event`: an element starts, the innermost element ends, a text is given, the
document ends, or nothing happens.

`Event.read` decodes the record at a position; strings are looked up in the
pool of the document.
-/

namespace ApkFormats.Xml

def documentStartTag : Nat := 0x00100100

def documentEndTag : Nat := 0x00100101

def elementStartTag : Nat := 0x00100102

def elementEndTag : Nat := 0x00100103

def textTag : Nat := 0x00100104

def literalTag : Nat := 0x00100105

def entityTag : Nat := 0x00100106

/-- Size of the fields that every record of an element or a text starts with. -/
def nodeHeaderSize : Nat := 16

def attributeSize : Nat := 20

/-- Least size of a record by its tag. -/
def leastRecordSize (tag : Nat) : Nat :=
  if tag = elementStartTag then nodeHeaderSize + 20
  else if tag = elementEndTag then nodeHeaderSize + 8
  else if tag = textTag then nodeHeaderSize + 12
  else chunkHeaderSize

/-- What a record means for the tree. -/
inductive Event where
  | start (name : String) (uri : Option String) (attributes : List Attribute)
  | finish
  | text (content : String)
  | documentEnd
  /-- Nothing that the tree shows. -/
  | ignored
  deriving DecidableEq, Repr

/-- The string of an index word, in the record at a position. -/
def lookup (pool : StringPool) (record index : Nat) : Decoder String :=
  match pool.stringAt index with
  | .ok s => pure s
  | .error fault => Decoder.fail (.xml (.string record fault))

/-- The string of an index word, unless the word stands for none. -/
def lookupOptional (pool : StringPool) (record index : Nat) : Decoder (Option String) :=
  if index = noIndex then pure none
  else do
    let s ← lookup pool record index
    pure (some s)

/-- Reads the attribute at the cursor, in the record at a position. -/
def Attribute.read (pool : StringPool) (record : Nat) : Decoder Attribute := do
  let uriIndex ← Decoder.u32
  let nameIndex ← Decoder.u32
  let rawString ← Decoder.u32
  let flags ← Decoder.u32
  let data ← Decoder.u32
  let name ← lookup pool record nameIndex
  let uri ← lookupOptional pool record uriIndex
  match Value.ofAttribute rawString flags data pool with
  | .ok value => pure ⟨uri, name, value⟩
  | .error fault => Decoder.fail (.xml (.attribute record (keyOf uri name) fault))

/-- Reads the start of an element from the record of some size at a position. -/
def Event.readStart (pool : StringPool) (record size : Nat) : Decoder Event := do
  let uriIndex ← Decoder.u32
  let nameIndex ← Decoder.u32
  let attributeStart ← Decoder.u16
  let stride ← Decoder.u16
  let count ← Decoder.u16
  let _idIndex ← Decoder.u16
  let _classIndex ← Decoder.u16
  let _styleIndex ← Decoder.u16
  let first := record + nodeHeaderSize + attributeStart
  Decoder.require
    (count == 0 || (attributeSize ≤ stride && first + count * stride ≤ record + size))
    (.xml (.attributeRoom record count))
  let uri ← lookupOptional pool record uriIndex
  let name ← lookup pool record nameIndex
  let attributes ← Decoder.each
    (fun i => do
      Decoder.goTo (first + i * stride)
      Attribute.read pool record)
    (List.range count)
  pure (.start name uri attributes)

/-- Reads what the record of some tag and size at a position means for the tree. -/
def Event.read (pool : StringPool) (record tag size : Nat) : Decoder Event := do
  Decoder.goTo (record + nodeHeaderSize)
  if tag = elementStartTag then Event.readStart pool record size
  else if tag = elementEndTag then pure .finish
  else if tag = documentEndTag then pure .documentEnd
  else if tag = textTag then do
    let index ← Decoder.u32
    let content ← lookup pool record index
    pure (.text content)
  else if tag = documentStartTag ∨ tag = literalTag ∨ tag = entityTag then do
    Decoder.note (.ignoredRecord tag record)
    pure .ignored
  else Decoder.fail (.xml (.unknownTag record tag))

end ApkFormats.Xml
