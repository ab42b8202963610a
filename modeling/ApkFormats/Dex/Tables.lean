import ApkFormats.Dex.Header
import ApkFormats.Dex.MapList
import ApkFormats.Dex.Rows

/-!
# Tables of a DEX file and lookups in them

`Tables` holds the rows of every table of a file.  A lookup takes an index and
gives the row, the string or the name of the type it stands for, or the fault
that there is none; the word for "no index" never stands for a row.

A descriptor names a type: primitive types by one letter, an array by a bracket
in front of its element type, any other type by itself.  For reading, primitive
types are spelled out and arrays are marked behind the element type.
-/

namespace ApkFormats.Dex

section Descriptors

/-! ## Descriptors of types -/

/-- Spelled-out names of the primitive types; characters count as short numbers. -/
def primitiveNames : List (String × String) :=
  [("V", "void"), ("Z", "boolean"), ("B", "byte"), ("S", "short"), ("C", "short"), ("I", "int"),
    ("J", "long"), ("F", "float"), ("D", "double")]

/-- The name of the type that some characters describe. -/
def resolveChars : List Char → String
  | '[' :: element => resolveChars element ++ "[]"
  | cs =>
      let descriptor := String.ofList cs
      (primitiveNames.lookup descriptor).getD descriptor

/-- The name of the type that a descriptor describes. -/
def resolveDescriptor (descriptor : String) : String :=
  resolveChars descriptor.toList

end Descriptors

/-- The header, the map and the tables of a file. -/
structure Tables where
  header : Header
  map : Option (List MapItem)
  stringIds : Array StringId
  typeIds : Array TypeId
  protoIds : Array ProtoId
  fieldIds : Array FieldId
  methodIds : Array MethodId
  classDefs : Array ClassDef
  deriving DecidableEq, Repr

namespace Tables

/-- Reads the header, the map and all tables of a file. -/
def read : Decoder Tables := do
  let header ← Header.read
  let bufferSize ← Decoder.bufferSize
  Decoder.require (header.fileSize ≤ bufferSize) (.dex (.fileSize header.fileSize bufferSize))
  let map ← Decoder.atOffset header.mapOffset MapItem.readAll
  let strings ← readTable StringId.layout StringId.read header.strings
  let types ← readTable TypeId.layout TypeId.read header.types
  let protos ← readTable ProtoId.layout ProtoId.read header.protos
  let fields ← readTable FieldId.layout FieldId.read header.fields
  let methods ← readTable MethodId.layout MethodId.read header.methods
  let classes ← readTable ClassDef.layout ClassDef.read header.classes
  pure ⟨header, map, strings.toArray, types.toArray, protos.toArray, fields.toArray,
    methods.toArray, classes.toArray⟩

/-- The item of an array at an index that is not the word for "no index". -/
def itemAt? {α : Type} (rows : Array α) (index : Int) : Option α :=
  if index = noIndex ∨ index < 0 then none else rows[index.toNat]?

/-- The row of a table at an index. -/
def rowAt {α : Type} (kind : RowKind) (rows : Array α) (index : Int) : Except IndexFault α :=
  match itemAt? rows index with
  | some row => .ok row
  | none => .error (.row kind index rows.size)

variable (t : Tables)

def strings : Array String :=
  t.stringIds.map fun row => row.data.text

def stringAt (index : Int) : Except IndexFault String :=
  match itemAt? t.stringIds index with
  | some row => .ok row.data.text
  | none => .error (.dexString index t.stringIds.size)

def fieldIdAt (index : Int) : Except IndexFault FieldId :=
  rowAt .field t.fieldIds index

def methodIdAt (index : Int) : Except IndexFault MethodId :=
  rowAt .method t.methodIds index

def protoIdAt (index : Int) : Except IndexFault ProtoId :=
  rowAt .proto t.protoIds index

/-- The descriptor of the type at an index. -/
def typeDescriptor (index : Int) : Except IndexFault String := do
  let row ← rowAt .type t.typeIds index
  t.stringAt row.descriptor

/-- The name of the type at an index. -/
def typeName (index : Int) : Except IndexFault String := do
  let descriptor ← t.typeDescriptor index
  .ok (resolveDescriptor descriptor)

/-- The short descriptor of the prototype of a method. -/
def methodShorty (m : MethodId) : Except IndexFault String := do
  let proto ← t.protoIdAt m.proto
  t.stringAt proto.shorty

end Tables

end ApkFormats.Dex
