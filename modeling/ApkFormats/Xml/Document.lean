import ApkFormats.Xml.Builder

/-!
# Binary XML documents

A document starts with fixed bytes and its size.  Its string pool follows, and
then its records up to the declared size or up to a record that ends the
document.  Records before the first element (resource identifiers, namespace
declarations) are passed over.

`Document.decode` gives the tree or says why the bytes cannot be read.
-/

namespace ApkFormats.Xml

/-- The bytes that every document starts with. -/
def magic : List UInt8 := [0x03, 0x00, 0x08, 0x00]

structure Document where
  fileSize : Nat
  pool : StringPool
  root : Element
  deriving Repr

/-- Reads the records from a position on and builds their tree.

`started` tells whether an element has started: records before the first one
are passed over. -/
def readRecords (pool : StringPool) (fileSize : Nat) (started : Bool) (b : Builder)
    (record : Nat) : Decoder Builder :=
  if _ : record < fileSize then do
    Decoder.goTo record
    let tag ← Decoder.u32
    let size ← Decoder.u32
    if _ : chunkHeaderSize ≤ size ∧ record + size ≤ fileSize ∧ leastRecordSize tag ≤ size then
      if !started && tag != elementStartTag then do
        Decoder.note (.skippedRecord tag record)
        readRecords pool fileSize false b (record + size)
      else do
        let event ← Event.read pool record tag size
        match b.apply record event with
        | .ok b' =>
            if event = .documentEnd then pure b'
            else readRecords pool fileSize true b' (record + size)
        | .error fault => Decoder.fail (.xml fault)
    else Decoder.fail (.xml (.recordSize record tag size))
  else pure b
termination_by fileSize - record
decreasing_by
  all_goals
    simp only [chunkHeaderSize] at *
    omega

namespace Document

def read : Decoder Document := do
  Decoder.fixed magic
  let fileSize ← Decoder.u32
  let bufferSize ← Decoder.bufferSize
  Decoder.require (fileSize ≤ bufferSize) (.xml (.declaredSize fileSize bufferSize))
  let pool ← StringPool.read
  let b ← readRecords pool fileSize false .empty pool.header.stop
  match b.root? with
  | some root => pure ⟨fileSize, pool, root⟩
  | none => Decoder.fail (.xml (.noElement pool.header.stop))

def subject : String := "AXML"

/-- The document that some bytes encode. -/
def decode (buffer : Bytes) : Except DecodeError Document :=
  (read buffer 0).result.mapError (Fault.unreadable subject)

/-- The namespaces of attributes in the order of their first use, each with its short form. -/
def namespaces (d : Document) : List (String × String) :=
  let uris := d.root.elements.flatMap fun e => e.attributes.filterMap Attribute.uri
  uris.eraseDups.map fun uri => (uri, lastSegment uri)

end Document

end ApkFormats.Xml
