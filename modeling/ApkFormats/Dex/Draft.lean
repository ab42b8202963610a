import ApkFormats.Dex.CodeSource
import ApkFormats.Dex.Rows

/-!
# Drafts of DEX files

A draft is a DEX file under construction.  Strings, types and prototypes are
entered once and have the index of their first entry; fields, methods and
classes are entered as often as they are given.  `Draft.apply` makes one entry
and `Draft.ofEntries` the entries of a list in turn.
-/

namespace ApkFormats.Dex

/-- Enters an item in a list that holds each item once, and gives its index. -/
def enter {α : Type} [BEq α] (items : List α) (a : α) : List α × Nat :=
  if items.contains a then (items, items.idxOf a) else (items ++ [a], items.length)

structure ProtoSource where
  /-- Index of the short descriptor among the strings. -/
  shorty : Nat
  /-- Index of the type of the result. -/
  returnType : Nat
  parameters : List Nat
  deriving DecidableEq, Repr

/-- A field of a class as it is written, with its index. -/
structure FieldSource where
  /-- Index in the table of fields. -/
  index : Nat
  flags : Nat
  deriving DecidableEq, Repr

/-- A method of a class as it is written, with its index. -/
structure MethodSource where
  /-- Index in the table of methods. -/
  index : Nat
  flags : Nat
  code : Option CodeSource
  deriving DecidableEq, Repr

/-- The members of a class as they are written. -/
structure MemberSource where
  staticFields : List FieldSource
  instanceFields : List FieldSource
  directMethods : List MethodSource
  virtualMethods : List MethodSource
  deriving DecidableEq, Repr

structure ClassSource where
  type : Nat
  flags : Nat
  superclass : Option Nat
  interfaces : List Nat
  /-- Index of the name of the source file among the strings, when it is known. -/
  sourceFile : Option Nat
  members : MemberSource
  /-- Whether the members are written. -/
  hasMembers : Bool
  deriving DecidableEq, Repr

/-- A DEX file under construction. -/
structure Draft where
  /-- Strings, each once. -/
  strings : List String
  /-- Indices of the types' descriptors among the strings, each once. -/
  types : List Nat
  /-- Prototypes, each once. -/
  protos : List ProtoSource
  fields : List FieldId
  methods : List MethodId
  classes : List ClassSource
  deriving DecidableEq, Repr

/-- The letter of a type in short descriptors: one letter for all that are no primitive types. -/
def shortLetter (descriptor : String) : Char :=
  match descriptor.toList with
  | '[' :: _ => 'L'
  | c :: _ => c
  | [] => 'L'

/-- The short descriptor of a result type and parameter types. -/
def shortDescriptor (result : String) (parameters : List String) : String :=
  String.ofList ((result :: parameters).map shortLetter)

/-- Something that is entered in a draft, by its names. -/
inductive DraftEntry where
  | string (s : String)
  | type (descriptor : String)
  | proto (result : String) (parameters : List String)
  | field (owner type name : String)
  | method (owner result : String) (parameters : List String) (name : String)
  | classDef (name : String) (superclass : Option String) (flags : Nat) (interfaces : List String)
      (sourceFile : Option String) (members : MemberSource) (hasMembers : Bool)
  deriving DecidableEq, Repr

namespace Draft

def empty : Draft := ⟨[], [], [], [], [], []⟩

def addString (d : Draft) (s : String) : Draft × Nat :=
  let (strings, index) := enter d.strings s
  ({ d with strings }, index)

/-- Enters a type by its descriptor. -/
def addType (d : Draft) (descriptor : String) : Draft × Nat :=
  let (d, string) := d.addString descriptor
  let (types, index) := enter d.types string
  ({ d with types }, index)

/-- Enters some types by their descriptors. -/
def addTypes (d : Draft) : List String → Draft × List Nat
  | [] => (d, [])
  | descriptor :: rest =>
      let (d, index) := d.addType descriptor
      let (d, more) := d.addTypes rest
      (d, index :: more)

/-- Enters a type or a string when there is one. -/
def addOptional (add : Draft → String → Draft × Nat) (d : Draft) :
    Option String → Draft × Option Nat
  | some s =>
      let (d, index) := add d s
      (d, some index)
  | none => (d, none)

/-- Enters a prototype by the descriptors of its result and parameters. -/
def addProto (d : Draft) (result : String) (parameters : List String) : Draft × Nat :=
  let (d, shorty) := d.addString (shortDescriptor result parameters)
  let (d, returnType) := d.addType result
  let (d, types) := d.addTypes parameters
  let (protos, index) := enter d.protos ⟨shorty, returnType, types⟩
  ({ d with protos }, index)

/-- Enters a field by the descriptors of its class and its type and by its name. -/
def addField (d : Draft) (owner type name : String) : Draft :=
  let (d, owner) := d.addType owner
  let (d, type) := d.addType type
  let (d, name) := d.addString name
  { d with fields := d.fields ++ [⟨owner, type, name⟩] }

/-- Enters a method by the descriptors of its class, its result and its parameters and by its
name. -/
def addMethod (d : Draft) (owner result : String) (parameters : List String) (name : String) :
    Draft :=
  let (d, owner) := d.addType owner
  let (d, proto) := d.addProto result parameters
  let (d, name) := d.addString name
  { d with methods := d.methods ++ [⟨owner, proto, name⟩] }

/-- Makes one entry. -/
def apply (d : Draft) : DraftEntry → Draft
  | .string s => (d.addString s).1
  | .type descriptor => (d.addType descriptor).1
  | .proto result parameters => (d.addProto result parameters).1
  | .field owner type name => d.addField owner type name
  | .method owner result parameters name => d.addMethod owner result parameters name
  | .classDef name superclass flags interfaces sourceFile members hasMembers =>
      let (d, type) := d.addType name
      let (d, superclass) := addOptional addType d superclass
      let (d, interfaces) := d.addTypes interfaces
      let (d, sourceFile) := addOptional addString d sourceFile
      { d with
        classes := d.classes ++
          [⟨type, flags, superclass, interfaces, sourceFile, members, hasMembers⟩] }

/-- The draft of some entries, made in turn. -/
def ofEntries (entries : List DraftEntry) : Draft :=
  entries.foldl apply empty

end Draft

end ApkFormats.Dex
