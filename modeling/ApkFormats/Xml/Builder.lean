import ApkFormats.Xml.Event

/-!
# Building the tree from events

While a document is read, the elements that have started and not yet ended form
a stack, innermost first; each already holds its finished children.
`Builder.apply` is the effect of one event on the stack, and `Builder.root?`
closes what is still open.

An element may only start inside an open one, or as the one root; the end of an
element needs an open one.  A later text of an element takes the place of an
earlier one, and a text outside all elements is dropped.
-/

namespace ApkFormats.Xml

/-- A tree under construction. -/
structure Builder where
  /-- Elements that have not ended, innermost first. -/
  opened : List Element
  /-- The root, once it has ended. -/
  finished : Option Element

namespace Builder

def empty : Builder := ⟨[], none⟩

/-- Adds a finished element after the children of another one. -/
def addChild (parent child : Element) : Element :=
  { parent with children := parent.children ++ [child] }

/-- The effect of an event whose record is at a position. -/
def apply (b : Builder) (record : Nat) : Event → Except XmlFault Builder
  | .start name uri attributes =>
      match b.opened, b.finished with
      | [], some _ => .error (.secondRoot record name)
      | opened, finished => .ok ⟨⟨name, uri, attributes, none, []⟩ :: opened, finished⟩
  | .finish =>
      match b.opened with
      | [] => .error (.unopened record)
      | [e] => .ok ⟨[], some e⟩
      | e :: parent :: outer => .ok ⟨addChild parent e :: outer, b.finished⟩
  | .text content =>
      match b.opened with
      | [] => .ok b
      | e :: outer => .ok ⟨{ e with text := some content } :: outer, b.finished⟩
  | .documentEnd => .ok b
  | .ignored => .ok b

/-- Ends an innermost element and all elements around it. -/
def closeAll (innermost : Element) : List Element → Element
  | [] => innermost
  | parent :: outer => closeAll (addChild parent innermost) outer

/-- The root of the tree, when one has started. -/
def root? (b : Builder) : Option Element :=
  match b.opened with
  | [] => b.finished
  | e :: outer => some (closeAll e outer)

end Builder

end ApkFormats.Xml
