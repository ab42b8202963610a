import ApkFormats.Text.Hex
import ApkFormats.Text.Quoted

/-!
# What a decoder reports while it works

Decoders take notes of what they skip, ignore or finish.  A note never changes
what is decoded; most of them matter only to someone who looks for the reason
of an unexpected result.
-/

namespace ApkFormats

open Text

inductive Note where
  /-- A string pool holds style spans, which are not decoded. -/
  | styleSpans (count offset : Nat)
  | stringPool (offset count : Nat) (utf8 : Bool)
  | skippedRecord (tag position : Nat)
  | ignoredRecord (tag position : Nat)
  | dexFile (version : String) (strings types methods classes : Nat)
  | secondPool (position : Nat)
  | package (name : String) (id types keys : Nat)
  | table (strings : Nat) (packages : List String)
  deriving DecidableEq, Repr

/-- Whether a note warns of something that is probably wrong with the file. -/
def Note.isWarning : Note → Bool
  | .secondPool _ => true
  | _ => false

def Note.text : Note → String
  | .styleSpans count offset => s!"Ignoring {count} style spans in string pool at " ++ hex offset
  | .stringPool offset count utf8 =>
      "String pool at " ++ hex offset ++ s!": {count} " ++
        (if utf8 then "UTF-8" else "UTF-16") ++ " strings"
  | .skippedRecord tag position =>
      "Skipping record " ++ hex tag ++ " before first start tag at " ++ hex position
  | .ignoredRecord tag position => "Ignoring record " ++ hex tag ++ " at " ++ hex position
  | .dexFile version strings types methods classes =>
      "Decoded dex " ++ version ++
        s!": {strings} strings, {types} types, {methods} methods, {classes} classes"
  | .secondPool position =>
      "Second global string pool at " ++ hex position ++ " replaces the first"
  | .package name id types keys =>
      "Package " ++ quoted name ++ " (id " ++ hex id ++ s!"): {types} types, {keys} keys"
  | .table strings packages =>
      s!"Decoded resource table: {strings} strings, packages " ++ ", ".intercalate packages

end ApkFormats
