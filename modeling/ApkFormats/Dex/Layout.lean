import ApkFormats.Dex.Draft
import ApkFormats.Dex.MapList

/-!
# Layout of DEX files

A file consists of the header, the tables and the data.  The data are pieces
laid end to end: strings, lists of types, the code and the members of each
class, and the map.  The offset at which a piece comes to lie stands in the
piece or the table that refers to it.

`Draft.encode` gives the bytes of a draft.  Checksum and signature are left to
the caller: no decoder looks at them.
-/

namespace ApkFormats.Dex

/-- Places the pieces of a list one after the other from `start` on, when `place` gives the bytes
of a piece from an offset on and the offset to refer to it by. -/
def placeAll {α : Type} (place : (start : Nat) → α → List UInt8 × Nat) (start : Nat) :
    List α → List UInt8 × List Nat
  | [] => ([], [])
  | a :: rest =>
      let (bytes, offset) := place start a
      let (more, offsets) := placeAll place (start + bytes.length) rest
      (bytes ++ more, offset :: offsets)

/-- A string with the zero after it. -/
def placeString (start : Nat) (s : String) : List UInt8 × Nat :=
  (StringData.encode s ++ [0], start)

/-- A list of types at a multiple of four; an empty list takes no place. -/
def placeTypeList (start : Nat) (types : List Nat) : List UInt8 × Nat :=
  if types.isEmpty then ([], 0)
  else
    let pad := padding start
    (pad ++ wordBytes [types.length] ++ halfWordBytes types, start + pad.length)

/-- Debug information with the end mark of its instructions; without it nothing takes a place. -/
def placeDebug (start : Nat) : Option DebugSource → List UInt8 × Nat
  | some debug => (debug.encode ++ [0], start)
  | none => ([], 0)

/-- The code of a method at a multiple of four, behind its debug information. -/
def placeCode (start : Nat) : Option CodeSource → List UInt8 × Nat
  | some code =>
      let (debug, debugOffset) := placeDebug start code.debug
      let pad := padding (start + debug.length)
      (debug ++ pad ++ code.encode debugOffset, start + debug.length + pad.length)
  | none => ([], 0)

/-- The differences of some indices, each to the one before it and the first one to `before`. -/
def differences (before : Nat) : List Nat → List Nat
  | [] => []
  | index :: rest => (index - before) :: differences index rest

def encodeFields (fields : List FieldSource) : List UInt8 :=
  ((differences 0 (fields.map FieldSource.index)).zip fields).flatMap fun item =>
    Leb128.encodeUnsigned item.1 ++ Leb128.encodeUnsigned item.2.flags

/-- The bytes of a list of methods whose codes stand at some offsets. -/
def encodeMethods (methods : List MethodSource) (codeOffsets : List Nat) : List UInt8 :=
  ((differences 0 (methods.map MethodSource.index)).zip (methods.zip codeOffsets)).flatMap
    fun item =>
      Leb128.encodeUnsigned item.1 ++ Leb128.encodeUnsigned item.2.1.flags ++
        Leb128.encodeUnsigned item.2.2

/-- The bytes of the members of a class whose codes stand at some offsets. -/
def encodeMembers (m : MemberSource) (directOffsets virtualOffsets : List Nat) : List UInt8 :=
  [m.staticFields.length, m.instanceFields.length, m.directMethods.length,
      m.virtualMethods.length].flatMap Leb128.encodeUnsigned ++
    encodeFields m.staticFields ++ encodeFields m.instanceFields ++
    encodeMethods m.directMethods directOffsets ++ encodeMethods m.virtualMethods virtualOffsets

/-- The codes of a class and, behind them, its members if they are written. -/
def placeClass (start : Nat) (c : ClassSource) : List UInt8 × Nat :=
  let (direct, directOffsets) := placeAll placeCode start (c.members.directMethods.map (·.code))
  let afterDirect := start + direct.length
  let (virtual, virtualOffsets) :=
    placeAll placeCode afterDirect (c.members.virtualMethods.map (·.code))
  let codes := direct ++ virtual
  if c.hasMembers then
    (codes ++ encodeMembers c.members directOffsets virtualOffsets, start + codes.length)
  else (codes, 0)

def encodeMap (items : List MapItem) : List UInt8 :=
  wordBytes [items.length] ++
    items.flatMap fun item =>
      halfWordBytes [item.type, item.unused] ++ wordBytes [item.size, item.offset]

/-- The size and offset of a table that starts somewhere; an empty table has no offset. -/
def tableRef (size start : Nat) : TableRef :=
  ⟨size, if size = 0 then 0 else start⟩

/-- The two words of a table in a header. -/
def TableRef.words (t : TableRef) : List Nat :=
  [t.size, t.offset]

/-- Version, checksum and signature of a file. -/
structure Stamp where
  version : String
  checksum : Nat
  /-- Signature, of twenty bytes. -/
  signature : List UInt8
  deriving DecidableEq, Repr

/-- The bytes of a file up to the end of the signature. -/
def Stamp.encode (s : Stamp) : List UInt8 :=
  magic ++ versionBytes s.version ++ wordBytes [s.checksum] ++ s.signature

namespace Draft

variable (d : Draft)

def stringIdsStart : Nat := dexHeaderSize

def typeIdsStart : Nat := stringIdsStart + 4 * d.strings.length

def protoIdsStart : Nat := d.typeIdsStart + 4 * d.types.length

def fieldIdsStart : Nat := d.protoIdsStart + 12 * d.protos.length

def methodIdsStart : Nat := d.fieldIdsStart + 8 * d.fields.length

def classDefsStart : Nat := d.methodIdsStart + 8 * d.methods.length

def dataStart : Nat := d.classDefsStart + 32 * d.classes.length

/-- The data of a draft before the map, and the offsets in it that the tables refer to. -/
structure Data where
  bytes : List UInt8
  strings : List Nat
  parameters : List Nat
  interfaces : List Nat
  members : List Nat

/-- Places the data of a draft. -/
def placeData : Data :=
  let (strings, stringOffsets) := placeAll placeString d.dataStart d.strings
  let afterStrings := d.dataStart + strings.length
  let (parameters, parameterOffsets) :=
    placeAll placeTypeList afterStrings (d.protos.map (·.parameters))
  let afterParameters := afterStrings + parameters.length
  let (interfaces, interfaceOffsets) :=
    placeAll placeTypeList afterParameters (d.classes.map (·.interfaces))
  let afterInterfaces := afterParameters + interfaces.length
  let (members, memberOffsets) := placeAll placeClass afterInterfaces d.classes
  ⟨strings ++ parameters ++ interfaces ++ members, stringOffsets, parameterOffsets,
    interfaceOffsets, memberOffsets⟩

/-- The sections that the map of a draft lists when it stands at an offset. -/
def mapItems (mapOffset : Nat) : List MapItem :=
  [⟨0x0000, 0, 1, 0⟩, ⟨0x0001, 0, d.strings.length, stringIdsStart⟩,
    ⟨0x0002, 0, d.types.length, d.typeIdsStart⟩, ⟨0x1000, 0, 1, mapOffset⟩]

/-- The words of a row of the table of classes. -/
def classWords (c : ClassSource) (interfaces members : Nat) : List Nat :=
  [c.type, c.flags, c.superclass.getD noIndex, interfaces, c.sourceFile.getD noIndex, 0, members, 0]

/-- The tables of a draft whose data are placed. -/
def encodeTables (data : Data) : List UInt8 :=
  wordBytes data.strings ++ wordBytes d.types ++
    ((d.protos.zip data.parameters).flatMap fun item =>
      wordBytes [item.1.shorty, item.1.returnType, item.2]) ++
    (d.fields.flatMap fun f => halfWordBytes [f.owner, f.type] ++ wordBytes [f.name]) ++
    (d.methods.flatMap fun m => halfWordBytes [m.owner, m.proto] ++ wordBytes [m.name]) ++
    ((d.classes.zip (data.interfaces.zip data.members)).flatMap fun item =>
      wordBytes (classWords item.1 item.2.1 item.2.2))

/-- The tables of a draft as its header refers to them. -/
def tableRefs : List TableRef :=
  [tableRef d.strings.length stringIdsStart, tableRef d.types.length d.typeIdsStart,
    tableRef d.protos.length d.protoIdsStart, tableRef d.fields.length d.fieldIdsStart,
    tableRef d.methods.length d.methodIdsStart, tableRef d.classes.length d.classDefsStart]

/-- The bytes of a draft. -/
def encode (stamp : Stamp) : List UInt8 :=
  let data := d.placeData
  let pad := padding (d.dataStart + data.bytes.length)
  let mapOffset := d.dataStart + data.bytes.length + pad.length
  let content := data.bytes ++ pad ++ encodeMap (d.mapItems mapOffset)
  stamp.encode ++
    wordBytes ([d.dataStart + content.length, dexHeaderSize, byteOrderTag, 0, 0, mapOffset] ++
      d.tableRefs.flatMap TableRef.words ++ [content.length, d.dataStart]) ++
    d.encodeTables data ++ content

end Draft

end ApkFormats.Dex
