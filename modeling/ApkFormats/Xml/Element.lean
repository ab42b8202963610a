import ApkFormats.Value

/-!
# Elements of a document

An element has a name, an optional namespace, attributes in the order of the
file, at most one text and children.  Attributes are asked for by key: the name
alone, or the last segment of the namespace and the name.

`walk` lists an element and everything below it in document order, with the
depth of each.
-/

namespace ApkFormats.Xml

/-- The part of a namespace after its last slash. -/
def lastSegment (uri : String) : String :=
  String.ofList (uri.toList.reverse.takeWhile (· ≠ '/')).reverse

/-- An attribute of an element. -/
structure Attribute where
  uri : Option String
  /-- Name without the namespace. -/
  name : String
  value : Value
  deriving DecidableEq, Repr

/-- Name of an attribute behind the short form of its namespace. -/
def keyOf (uri : Option String) (name : String) : String :=
  match uri with
  | some u => lastSegment u ++ ":" ++ name
  | none => name

/-- What an attribute is asked for by. -/
def Attribute.key (a : Attribute) : String :=
  keyOf a.uri a.name

/-- An element with everything below it. -/
structure Element where
  name : String
  uri : Option String
  /-- Attributes in the order of the file; keys may repeat. -/
  attributes : List Attribute
  text : Option String
  /-- Elements directly below, in the order of the file. -/
  children : List Element
  deriving Repr

namespace Element

/-- The value of the first attribute with a key. -/
def get? (e : Element) (key : String) : Option Value :=
  (e.attributes.find? (fun a => a.key == key)).map Attribute.value

/-- The children of a name. -/
def childrenNamed (e : Element) (name : String) : List Element :=
  e.children.filter (fun child => child.name == name)

/-- The first child of a name. -/
def child? (e : Element) (name : String) : Option Element :=
  e.children.find? (fun child => child.name == name)

mutual

/-- An element and everything below it in document order, each with its depth. -/
def walk (depth : Nat) : Element → List (Nat × Element)
  | ⟨name, uri, attributes, text, children⟩ =>
      (depth, ⟨name, uri, attributes, text, children⟩) :: walkAll (depth + 1) children

/-- Some elements and everything below them in document order, each with its depth. -/
def walkAll (depth : Nat) : List Element → List (Nat × Element)
  | [] => []
  | e :: rest => walk depth e ++ walkAll depth rest

end

/-- An element and everything below it in document order. -/
def elements (e : Element) : List Element :=
  (e.walk 0).map Prod.snd

def summary (e : Element) : String :=
  s!"<Element {e.name} attrs={e.attributes.length} children={e.children.length}>"

end Element

def textSummary (s : String) : String :=
  "Text(" ++ Text.quoted s ++ ")"

end ApkFormats.Xml
