import ApkFormats.Xml.Document

/-!
# Writing binary XML documents

A document is written from a `Source`: a tree of elements with the raw strings
and typed numbers of their attributes.  `Source.toElement` is the element that a
source stands for, `Source.encode` its records: the start of the element with
its attributes, its text, its children, and its end.

A `Manuscript` is a source with what stands around it.  Its strings form one
pool, each string once, in the order in which the records first name them.
-/

namespace ApkFormats.Xml

inductive SourceValue where
  | text (s : String)
  | number (type data : Nat)
  deriving DecidableEq, Repr

/-- Flag word of a typed value: the type byte above the size of a value. -/
def typeFlags (type : Nat) : Nat :=
  type * 0x1000000 + 8

def SourceValue.toValue : SourceValue → Value
  | .text s => .text s
  | .number type data => .ofNumber type data (typeFlags type)

/-- The strings that a value names. -/
def SourceValue.strings : SourceValue → List String
  | .text s => [s]
  | .number _ _ => []

/-- Index words of a string, type flags and number of a value. -/
def SourceValue.encode (pool : List String) : SourceValue → List UInt8
  | .text s => wordBytes [pool.idxOf s, typeFlags 0x03, pool.idxOf s]
  | .number type data => wordBytes [noIndex, typeFlags type, data]

structure SourceAttribute where
  uri : Option String
  /-- Name without the namespace. -/
  name : String
  value : SourceValue
  deriving DecidableEq, Repr

/-- Index word of a string in a pool, or the word for none. -/
def optionalIndex (pool : List String) : Option String → Nat
  | some s => pool.idxOf s
  | none => noIndex

namespace SourceAttribute

def toAttribute (a : SourceAttribute) : Attribute :=
  ⟨a.uri, a.name, a.value.toValue⟩

/-- The strings that an attribute names, in the order in which they join the pool. -/
def strings (a : SourceAttribute) : List String :=
  a.value.strings ++ a.uri.toList ++ [a.name]

def encode (pool : List String) (a : SourceAttribute) : List UInt8 :=
  wordBytes [optionalIndex pool a.uri, pool.idxOf a.name] ++ a.value.encode pool

end SourceAttribute

/-- An element as it is written, with everything below it. -/
structure Source where
  name : String
  uri : Option String
  attributes : List SourceAttribute
  text : Option String
  children : List Source
  deriving Repr

/-- The bytes of a record: tag, size, line number, the word for no comment, and a body. -/
def encodeRecord (tag : Nat) (body : List UInt8) : List UInt8 :=
  wordBytes [tag, nodeHeaderSize + body.length, 1, noIndex] ++ body

def encodeText (pool : List String) (s : String) : List UInt8 :=
  encodeRecord textTag (wordBytes [pool.idxOf s] ++ halfWordBytes [8, 0] ++ wordBytes [0])

/-- Size of the fields of an element's start before its attributes. -/
def startSize : Nat := 20

def encodeStart (pool : List String) (uri : Option String) (name : String)
    (attributes : List SourceAttribute) : List UInt8 :=
  encodeRecord elementStartTag
    (wordBytes [optionalIndex pool uri, pool.idxOf name] ++
      halfWordBytes [startSize, attributeSize, attributes.length, 0, 0, 0] ++
      attributes.flatMap (SourceAttribute.encode pool))

def encodeEnd (pool : List String) (uri : Option String) (name : String) : List UInt8 :=
  encodeRecord elementEndTag (wordBytes [optionalIndex pool uri, pool.idxOf name])

namespace Source

mutual

def toElement : Source → Element
  | ⟨name, uri, attributes, text, children⟩ =>
      ⟨name, uri, attributes.map SourceAttribute.toAttribute, text, toElements children⟩

def toElements : List Source → List Element
  | [] => []
  | s :: rest => s.toElement :: toElements rest

end

mutual

/-- The strings that the records of an element name, in the order in which they join the pool. -/
def strings : Source → List String
  | ⟨name, uri, attributes, text, children⟩ =>
      attributes.flatMap SourceAttribute.strings ++ uri.toList ++ [name] ++ text.toList ++
        allStrings children

/-- The strings that the records of some elements name. -/
def allStrings : List Source → List String
  | [] => []
  | s :: rest => s.strings ++ allStrings rest

end

mutual

def encode (pool : List String) : Source → List UInt8
  | ⟨name, uri, attributes, text, children⟩ =>
      encodeStart pool uri name attributes ++ text.toList.flatMap (encodeText pool) ++
        encodeAll pool children ++ encodeEnd pool uri name

def encodeAll (pool : List String) : List Source → List UInt8
  | [] => []
  | s :: rest => s.encode pool ++ encodeAll pool rest

end

end Source

/-- A short form that is declared for a namespace. -/
structure NamespaceDeclaration where
  short : String
  uri : String
  deriving DecidableEq, Repr

namespace NamespaceDeclaration

def strings (d : NamespaceDeclaration) : List String :=
  [d.short, d.uri]

/-- The record of some tag with the strings of a declaration. -/
def encode (pool : List String) (tag : Nat) (d : NamespaceDeclaration) : List UInt8 :=
  encodeRecord tag (wordBytes [pool.idxOf d.short, pool.idxOf d.uri])

end NamespaceDeclaration

/-- A record before the first element. -/
inductive Opening where
  /-- The identifiers of the first strings of the pool. -/
  | resourceIds (ids : List Nat)
  | namespaceStart (declaration : NamespaceDeclaration)
  deriving DecidableEq, Repr

namespace Opening

/-- Type word of a list of resource identifiers, with the size of its header. -/
def resourceIdsTag : Nat := 0x00080180

/-- The strings that a record before the first element names. -/
def strings : Opening → List String
  | .resourceIds _ => []
  | .namespaceStart d => d.strings

/-- The bytes of a record before the first element. -/
def encode (pool : List String) : Opening → List UInt8
  | .resourceIds ids => wordBytes (resourceIdsTag :: (chunkHeaderSize + 4 * ids.length) :: ids)
  | .namespaceStart d => d.encode pool documentStartTag

end Opening

/-- A document as it is written. -/
structure Manuscript where
  /-- Strings at the start of the pool. -/
  reserved : List String
  openings : List Opening
  root : Source
  closings : List NamespaceDeclaration
  deriving Repr

namespace Manuscript

/-- The pool: every string once, in the order in which the strings are first named. -/
def pool (m : Manuscript) : List String :=
  (m.reserved ++ m.openings.flatMap Opening.strings ++ m.root.strings ++
    m.closings.flatMap NamespaceDeclaration.strings).eraseDups

def records (m : Manuscript) : List UInt8 :=
  m.openings.flatMap (Opening.encode m.pool) ++ m.root.encode m.pool ++
    m.closings.flatMap (NamespaceDeclaration.encode m.pool documentEndTag)

/-- The bytes of a document, with its strings in either encoding. -/
def encode (utf8 : Bool) (m : Manuscript) : List UInt8 :=
  let body := StringPool.encode utf8 m.pool ++ m.records
  magic ++ wordBytes [chunkHeaderSize + body.length] ++ body

end Manuscript

end ApkFormats.Xml
