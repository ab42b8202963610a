import ApkFormats.Resource.Id
import ApkFormats.Resource.Package

/-!
# Lookups in a package

A well-formed package may be asked for something that it does not hold, and a
question may be no identifier at all; `LookupError` tells which.

* `Package.find` gives the text of a string in a language or region, or the
  texts of a drawable in every configuration that has one;
* `Package.wordText` and `Package.numberText` turn the number of a resource into
  words and back.
-/

namespace ApkFormats.Resource

open Text

inductive Missing where
  | anyPackage
  | type (name : String)
  | key (name : String)
  /-- No configuration reaches as far as this entry. -/
  | stringEntry (entry : Nat)
  | number (n : Int)
  | words (id : String)
  deriving DecidableEq, Repr

def Missing.text : Missing → String
  | .anyPackage => "resource table has no packages"
  | .type name => "no resource type " ++ quoted name
  | .key name => "no resource key " ++ quoted name
  | .stringEntry entry => "string resource " ++ hexWide 6 entry ++ " not in table"
  | .number n => "resource " ++ hexWide 10 n ++ " not in table"
  | .words id => "resource " ++ quoted id ++ " not in table"

inductive LookupError where
  | invalidIndex (fault : IndexFault)
  | invalidIdentifier (id : String)
  | notFound (what : Missing)
  deriving DecidableEq, Repr

def LookupError.text : LookupError → String
  | .invalidIndex fault => fault.text
  | .invalidIdentifier id => "invalid resource id " ++ quoted id
  | .notFound what => what.text

inductive Found where
  /-- There is such a resource, but no text of it here. -/
  | nothing
  | text (s : String)
  /-- The texts of all configurations. -/
  | texts (all : List String)
  deriving DecidableEq, Repr

/-- Types whose values are given for every configuration. -/
def drawableTypeNames : List String := ["drawable", "mipmap"]

namespace Package

variable (p : Package)

/-- Name of a type; types count from one. -/
def typeName? (type : Int) : Option String :=
  if 1 ≤ type then p.typePool.strings[(type - 1).toNat]? else none

def typeNameAt (type : Int) : Except LookupError String :=
  match p.typeName? type with
  | some name => .ok name
  | none => .error (.invalidIndex (.resourceType type p.typePool.strings.size))

/-- Number of the first type of a name. -/
def typeId (name : String) : Except LookupError Nat :=
  match typeIdIn? p.typePool name with
  | some id => .ok id
  | none => .error (.notFound (.type name))

def keyAt (index : Int) : Except LookupError String :=
  (p.keyPool.stringAt index).mapError .invalidIndex

/-- Index of a key. -/
def keyId (name : String) : Except LookupError Nat :=
  match p.keyPool.strings.toList.idxOf? name with
  | some index => .ok index
  | none => .error (.notFound (.key name))

/-- The words that name the resource of a number. -/
def wordText (n : Int) : Except LookupError String :=
  match (p.entryChunksOf (typeOf n)).findSome? fun chunk => chunk.entry? (entryOf n) with
  | some entry => do
      let type ← p.typeNameAt (typeOf n)
      let key ← p.keyAt entry.key
      .ok ("@" ++ type ++ "/" ++ key)
  | none => .error (.notFound (.number n))

/-- The words that name the resource of a number, which is given as text. -/
def wordTextOf (id : String) : Except LookupError String :=
  match hexId? id with
  | some n => p.wordText n
  | none => .error (.invalidIdentifier id)

/-- The number of the resource that is named by words, as text. -/
def numberText (id : String) : Except LookupError String :=
  match wordId? id with
  | none => .error (.invalidIdentifier id)
  | some (typeName, key) => do
      let type ← p.typeId typeName
      match (p.entryChunksOf type).findSome? fun chunk => chunk.indexOf? key with
      | some entry => .ok (hexText p.id type entry)
      | none => .error (.notFound (.words id))

/-- The number of an identifier in either form; the number of words is read off its text. -/
def numberOf (id : String) : Except LookupError Nat :=
  match parse? id with
  | none => .error (.invalidIdentifier id)
  | some (.number n) => .ok n
  | some (.words _ _) => do
      let text ← p.numberText id
      .ok ((hexValue? (text.toList.drop 3)).getD 0)

/-- Whether the entries of a type reach as far as an entry in some configuration. -/
def reaches (type entry : Nat) : Bool :=
  (p.entryChunksOf type).any fun chunk => entry < chunk.entryCount

/-- Whether an identifier stands for a string that is looked up by language and region. -/
def asksForString (id : String) : Bool :=
  match p.numberOf id with
  | .ok n => p.typeName? (typeOf n) == some stringTypeName && p.reaches (typeOf n) (entryOf n)
  | .error _ => false

/-- The text of a string entry in the bucket that a language and a region select. -/
def findString (type entry : Nat) (language region : Option String) :
    Except LookupError Found :=
  if p.reaches type entry then
    match (p.localized.select language region).text? entry with
    | some s => .ok (.text s)
    | none => .ok .nothing
  else .error (.notFound (.stringEntry entry))

/-- The text of a value at an index of a chunk, when there is one. -/
def textAt (strings : Option StringPool) (entry : Nat) (chunk : TypeEntries) :
    Except LookupError (Option String) :=
  match chunk.entry? entry with
  | none => .ok none
  | some e =>
      match e.resolve strings with
      | .ok value => .ok (value.map Value.shown)
      | .error fault => .error (.invalidIndex fault)

/-- What an identifier stands for, with strings looked up in a pool. -/
def find (strings : Option StringPool) (id : String) (language region : Option String) :
    Except LookupError Found := do
  let n ← p.numberOf id
  let type := typeOf n
  let entry := entryOf n
  match p.typeName? type with
  | none => .ok .nothing
  | some name =>
      if name = stringTypeName then p.findString type entry language region
      else if name ∈ drawableTypeNames then do
        let texts ← (p.entryChunksOf type).mapM (textAt strings entry)
        .ok (.texts (texts.filterMap fun t => t))
      else .ok .nothing

end Package

end ApkFormats.Resource
