import ApkFormats.Text.Hex
import ApkFormats.Text.Quoted
import ApkFormats.Text.CharClass

/-!
# Resource identifiers

A resource is named by a number or by words.  A number is `0x` and exactly
eight hexadecimal digits: package, type and entry of the resource.  Words are
the name of its type and its key with a slash between them.  Either form may
have an `@` in front.

`parse` tells the two forms apart, and `hexText` writes the number of a
package, a type and an entry; with values too large for their place the text is
longer than eight digits.
-/

namespace ApkFormats.Resource

open Text

/-- An identifier without its leading `@`. -/
def bare : List Char → List Char
  | '@' :: rest => rest
  | cs => cs

/-- The number of an identifier that is given by its number. -/
def hexId? (id : String) : Option Nat :=
  match bare id.toList with
  | '0' :: 'x' :: digits => if digits.length = 8 then hexValue? digits else none
  | _ => none

/-- Whether some characters form a word. -/
def isWordText (cs : List Char) : Bool :=
  !cs.isEmpty && cs.all isWord

/-- Type name and key of an identifier that is given by words. -/
def wordId? (id : String) : Option (String × String) :=
  let cs := bare id.toList
  let type := cs.takeWhile (· ≠ '/')
  match cs.dropWhile (· ≠ '/') with
  | _ :: key =>
      if isWordText type && isWordText key then some (String.ofList type, String.ofList key)
      else none
  | [] => none

inductive Id where
  | number (n : Nat)
  | words (type key : String)
  deriving DecidableEq, Repr

/-- The identifier that a text spells. -/
def parse? (id : String) : Option Id :=
  match hexId? id with
  | some n => some (.number n)
  | none => (wordId? id).map fun w => .words w.1 w.2

/-- Text of the identifier of an entry of some type in a package. -/
def hexText (package type entry : Nat) : String :=
  "@0x" ++ hexBare 2 package ++ hexBare 2 type ++ hexBare 4 entry

/-- Number of the type in a resource number. -/
def typeOf (n : Int) : Nat :=
  (n / 0x10000 % 0x100).toNat

/-- Number of the entry in a resource number. -/
def entryOf (n : Int) : Nat :=
  (n % 0x10000).toNat

end ApkFormats.Resource
