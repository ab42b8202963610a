import ApkFormats.Dex.ClassData
import ApkFormats.Dex.Header
import ApkFormats.Dex.StringData

/-!
# Rows of the tables of a DEX file

A DEX file has one table each of strings, types, prototypes, fields, methods
and classes, whose rows refer to each other by index.  A row may also point to
data elsewhere in the file, which is read together with it.
-/

namespace ApkFormats.Dex

structure StringId where
  dataOffset : Nat
  data : StringData
  deriving DecidableEq, Repr

structure TypeId where
  /-- Index of the descriptor among the strings. -/
  descriptor : Nat
  deriving DecidableEq, Repr

structure ProtoId where
  /-- Index of the short descriptor among the strings. -/
  shorty : Nat
  /-- Index of the type of the result. -/
  returnType : Nat
  /-- Offset of the parameters' types, or zero. -/
  parametersOffset : Nat
  parameters : Option (List Nat)
  deriving DecidableEq, Repr

structure FieldId where
  owner : Nat
  type : Nat
  /-- Index of the name among the strings. -/
  name : Nat
  deriving DecidableEq, Repr

structure MethodId where
  owner : Nat
  proto : Nat
  /-- Index of the name among the strings. -/
  name : Nat
  deriving DecidableEq, Repr

structure ClassDef where
  type : Nat
  flags : Nat
  /-- Index of the type of the superclass, or no index. -/
  superclass : Nat
  /-- Offset of the interfaces' types, or zero. -/
  interfacesOffset : Nat
  /-- Index of the name of the source file among the strings, or no index. -/
  sourceFile : Nat
  /-- Offset of the annotations, or zero. -/
  annotationsOffset : Nat
  /-- Offset of the members, or zero. -/
  dataOffset : Nat
  /-- Offset of the first values of static fields, or zero. -/
  staticValuesOffset : Nat
  interfaces : Option (List Nat)
  data : Option ClassData
  deriving DecidableEq, Repr

def StringId.read : Decoder StringId := do
  let dataOffset ← Decoder.u32
  Decoder.goTo dataOffset
  let data ← StringData.read
  pure ⟨dataOffset, data⟩

def TypeId.read : Decoder TypeId := do
  let descriptor ← Decoder.u32
  pure ⟨descriptor⟩

def ProtoId.read : Decoder ProtoId := do
  let shorty ← Decoder.u32
  let returnType ← Decoder.u32
  let parametersOffset ← Decoder.u32
  let parameters ← Decoder.atOffset parametersOffset readTypeList
  pure ⟨shorty, returnType, parametersOffset, parameters⟩

def FieldId.read : Decoder FieldId := do
  let owner ← Decoder.u16
  let type ← Decoder.u16
  let name ← Decoder.u32
  pure ⟨owner, type, name⟩

def MethodId.read : Decoder MethodId := do
  let owner ← Decoder.u16
  let proto ← Decoder.u16
  let name ← Decoder.u32
  pure ⟨owner, proto, name⟩

def ClassDef.read : Decoder ClassDef := do
  let type ← Decoder.u32
  let flags ← Decoder.u32
  let superclass ← Decoder.u32
  let interfacesOffset ← Decoder.u32
  let sourceFile ← Decoder.u32
  let annotationsOffset ← Decoder.u32
  let dataOffset ← Decoder.u32
  let staticValuesOffset ← Decoder.u32
  let interfaces ← Decoder.atOffset interfacesOffset readTypeList
  let data ← Decoder.atOffset dataOffset ClassData.read
  pure ⟨type, flags, superclass, interfacesOffset, sourceFile, annotationsOffset, dataOffset,
    staticValuesOffset, interfaces, data⟩

/-- Where a kind of row is stored: the name of its table and the size of a row. -/
structure RowLayout where
  table : String
  stride : Nat

def StringId.layout : RowLayout := ⟨"StringIdItem", 4⟩

def TypeId.layout : RowLayout := ⟨"TypeIdItem", 4⟩

def ProtoId.layout : RowLayout := ⟨"ProtoIdItem", 12⟩

def FieldId.layout : RowLayout := ⟨"FieldIdItem", 8⟩

def MethodId.layout : RowLayout := ⟨"MethodIdItem", 8⟩

def ClassDef.layout : RowLayout := ⟨"ClassDefItem", 32⟩

def readRows {α : Type} (layout : RowLayout) (row : Decoder α) (size offset : Nat) :
    Decoder (List α) :=
  Decoder.each
    (fun i => do
      Decoder.goTo (offset + i * layout.stride)
      row)
    (List.range size)

/-- Reads the rows of a table, which has to end inside the buffer unless it is empty. -/
def readTable {α : Type} (layout : RowLayout) (row : Decoder α) (ref : TableRef) :
    Decoder (List α) :=
  if ref.size = 0 then pure []
  else do
    let bufferSize ← Decoder.bufferSize
    Decoder.require (ref.offset + ref.size * layout.stride ≤ bufferSize)
      (.dex (.tableSize layout.table ref.offset ref.size))
    readRows layout row ref.size ref.offset

end ApkFormats.Dex
