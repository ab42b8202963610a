import ApkFormats.Decoder

/-!
# Headers of DEX files

A DEX file starts with a header of fixed size: its version, its checksum and
signature, and for every table its offset and number of rows.  Only files of a
known version whose numbers have their least significant byte first are read;
checksum and signature are kept but not compared with the content.
-/

namespace ApkFormats.Dex

/-- The bytes that every DEX file starts with. -/
def magic : List UInt8 := [0x64, 0x65, 0x78, 0x0A]

/-- Versions that can be read. -/
def supportedVersions : List String :=
  ["035", "036", "037", "038", "039", "040", "041"]

/-- Tag of files whose numbers have their least significant byte first. -/
def byteOrderTag : Nat := 0x12345678

/-- The bytes that mark a version: its digits and a zero. -/
def versionBytes (version : String) : List UInt8 :=
  version.toList.map (fun c => UInt8.ofNat c.toNat) ++ [0]

/-- The supported version that some bytes mark. -/
def versionOf? (bytes : List UInt8) : Option String :=
  supportedVersions.find? fun version => versionBytes version == bytes

/-- Where a table lies and how many rows it has. -/
structure TableRef where
  size : Nat
  /-- Offset of the first row. -/
  offset : Nat
  deriving DecidableEq, Repr

structure Header where
  /-- The first eight bytes, version included. -/
  magic : List UInt8
  version : String
  /-- Checksum of what follows it. -/
  checksum : Nat
  /-- Signature of what follows it. -/
  signature : List UInt8
  fileSize : Nat
  headerSize : Nat
  byteOrder : Nat
  /-- The section of statically linked files. -/
  link : TableRef
  /-- Offset of the map, or zero. -/
  mapOffset : Nat
  strings : TableRef
  types : TableRef
  protos : TableRef
  fields : TableRef
  methods : TableRef
  classes : TableRef
  data : TableRef
  deriving DecidableEq, Repr

def TableRef.read : Decoder TableRef := do
  let size ← Decoder.u32
  let offset ← Decoder.u32
  pure ⟨size, offset⟩

namespace Header

def read : Decoder Header := do
  let start ← Decoder.take 8
  Decoder.require (start.take 4 == Dex.magic) (.stream (.fixedBytes Dex.magic (start.take 4)))
  match versionOf? (start.drop 4) with
  | none => Decoder.fail (.dex (.version (start.drop 4)))
  | some version => do
      let checksum ← Decoder.u32
      let signature ← Decoder.take 20
      let fileSize ← Decoder.u32
      let headerSize ← Decoder.u32
      Decoder.require (headerSize == dexHeaderSize) (.dex (.headerSize headerSize))
      let byteOrder ← Decoder.u32
      Decoder.require (byteOrder == byteOrderTag) (.dex (.byteOrder byteOrder))
      let link ← TableRef.read
      let mapOffset ← Decoder.u32
      let strings ← TableRef.read
      let types ← TableRef.read
      let protos ← TableRef.read
      let fields ← TableRef.read
      let methods ← TableRef.read
      let classes ← TableRef.read
      let data ← TableRef.read
      pure ⟨start, version, checksum, signature, fileSize, headerSize, byteOrder, link, mapOffset,
        strings, types, protos, fields, methods, classes, data⟩

inductive Field where
  | bytes (content : List UInt8)
  | number (n : Nat)
  deriving DecidableEq, Repr

/-- The fields of a header with their names, in the order of the file. -/
def namedFields (h : Header) : List (String × Field) :=
  [("magic", .bytes h.magic), ("checksum", .number h.checksum),
    ("signature", .bytes h.signature), ("file_size", .number h.fileSize),
    ("header_size", .number h.headerSize), ("endian_tag", .number h.byteOrder),
    ("link_size", .number h.link.size), ("link_off", .number h.link.offset),
    ("map_off", .number h.mapOffset), ("string_ids_size", .number h.strings.size),
    ("string_ids_off", .number h.strings.offset), ("type_ids_size", .number h.types.size),
    ("type_ids_off", .number h.types.offset), ("proto_ids_size", .number h.protos.size),
    ("proto_ids_off", .number h.protos.offset), ("field_ids_size", .number h.fields.size),
    ("field_ids_off", .number h.fields.offset), ("method_ids_size", .number h.methods.size),
    ("method_ids_off", .number h.methods.offset), ("class_defs_size", .number h.classes.size),
    ("class_defs_off", .number h.classes.offset), ("data_size", .number h.data.size),
    ("data_off", .number h.data.offset)]

/-- The field of a name. -/
def field? (h : Header) (name : String) : Option Field :=
  h.namedFields.lookup name

end Header

end ApkFormats.Dex
