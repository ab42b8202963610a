import ApkFormats.Xml.Document

/-!
# Documents as XML text

For writing, a document becomes a tree of `Markup`, whose elements have each
attribute key once: a repeated key keeps its first place and takes its last
value.  The root also binds the short forms of all namespaces.

`Markup.render` writes such a tree.  Special characters of texts and attribute
values are escaped, so that both can be read back; names are written as they
are.  A name that starts with an opening brace has a namespace in braces in
front: `Document.isWritable` tells whether all such braces are closed.  No short
forms are made up for such namespaces here; braces are written as they are too.
-/

namespace ApkFormats.Xml

structure Markup where
  tag : String
  /-- Attributes in the order in which they are written; no key repeats. -/
  attributes : List (String × String)
  text : Option String
  children : List Markup
  deriving Repr

/-- Gives a key a value: in its old place when the list has it, at the end otherwise. -/
def put (pairs : List (String × String)) (key value : String) : List (String × String) :=
  match pairs with
  | [] => [(key, value)]
  | (k, v) :: rest => if k = key then (k, value) :: rest else (k, v) :: put rest key value

/-- Gives several keys their values in turn. -/
def putAll (pairs : List (String × String)) (more : List (String × String)) :
    List (String × String) :=
  more.foldl (fun acc kv => put acc kv.1 kv.2) pairs

mutual

def Element.toMarkup : Element → Markup
  | ⟨name, _, attributes, text, children⟩ =>
      ⟨name, putAll [] (attributes.map fun a => (a.key, a.value.shown)), text, toMarkups children⟩

def Element.toMarkups : List Element → List Markup
  | [] => []
  | e :: rest => e.toMarkup :: toMarkups rest

end

/-- A document as it is written: its root, on which the namespaces are bound. -/
def Document.toMarkup (d : Document) : Markup :=
  let root := d.root.toMarkup
  { root with
    attributes := putAll root.attributes (d.namespaces.map fun n => ("xmlns:" ++ n.2, n.1)) }

/-- A character of a text, escaped where it would read as markup. -/
def escapeTextChar (c : Char) : String :=
  if c = '&' then "&amp;"
  else if c = '<' then "&lt;"
  else if c = '>' then "&gt;"
  else c.toString

/-- A character of an attribute value, escaped where it would end or change the value. -/
def escapeValueChar (c : Char) : String :=
  if c = '"' then "&quot;"
  else if c = '\r' then "&#13;"
  else if c = '\n' then "&#10;"
  else if c = '\t' then "&#09;"
  else escapeTextChar c

/-- A text as it is written between tags. -/
def escapeText (s : String) : String :=
  String.join (s.toList.map escapeTextChar)

/-- An attribute value as it is written between quotes. -/
def escapeValue (s : String) : String :=
  String.join (s.toList.map escapeValueChar)

def renderAttribute (pair : String × String) : String :=
  " " ++ pair.1 ++ "=\"" ++ escapeValue pair.2 ++ "\""

/-- What an opening tag holds between its brackets. -/
def renderTag (tag : String) (attributes : List (String × String)) : String :=
  tag ++ String.join (attributes.map renderAttribute)

mutual

/-- A tree as XML text. -/
def Markup.render : Markup → String
  | ⟨tag, attributes, text, children⟩ =>
      let content := text.getD ""
      if content.isEmpty && children.isEmpty then "<" ++ renderTag tag attributes ++ " />"
      else
        "<" ++ renderTag tag attributes ++ ">" ++ escapeText content ++ renderAll children ++
          "</" ++ tag ++ ">"

/-- Some trees as XML text, one after the other. -/
def Markup.renderAll : List Markup → String
  | [] => ""
  | m :: rest => m.render ++ renderAll rest

end

/-- Whether a name can be written: an opening brace at its start has to be closed. -/
def isWritableName (name : String) : Bool :=
  match name.toList with
  | '\x7b' :: rest => rest.contains '\x7d'
  | _ => true

mutual

/-- Tags and attribute keys of a tree. -/
def Markup.names : Markup → List String
  | ⟨tag, attributes, _, children⟩ => tag :: attributes.map Prod.fst ++ namesOfAll children

/-- Tags and attribute keys of some trees. -/
def Markup.namesOfAll : List Markup → List String
  | [] => []
  | m :: rest => m.names ++ namesOfAll rest

end

/-- Whether a document can be written as XML text. -/
def Document.isWritable (d : Document) : Bool :=
  d.toMarkup.names.all isWritableName

/-- A document as XML text. -/
def Document.toXml (d : Document) : String :=
  d.toMarkup.render

end ApkFormats.Xml
