import ApkFormats.Dex.ClassView

/-!
# DEX files

A DEX file is decoded at once: header, map and tables first, then the view of
every class.  An index that dangles in a class makes the file corrupt, so every
class of a decoded file is resolved.
-/

namespace ApkFormats.Dex

structure File where
  tables : Tables
  classes : List ClassView
  bufferSize : Nat
  deriving DecidableEq, Repr

namespace File

def read : Decoder File := do
  let tables ← Tables.read
  let classes ← Decoder.resolved (tables.classDefs.toList.mapM (ClassView.resolve tables))
  Decoder.note (.dexFile tables.header.version tables.stringIds.size tables.typeIds.size
    tables.methodIds.size tables.classDefs.size)
  let bufferSize ← Decoder.bufferSize
  pure ⟨tables, classes, bufferSize⟩

def subject : String := "DEX"

/-- The file that some bytes encode. -/
def decode (buffer : Bytes) : Except DecodeError File :=
  (read buffer 0).within subject

/-- The first class of a name. -/
def findClass? (f : File) (name : String) : Option ClassView :=
  f.classes.find? fun c => c.name == name

def summary (f : File) : String :=
  s!"<Dex classes={f.classes.length}, datasize={f.bufferSize}>"

end File

end ApkFormats.Dex
