import ApkFormats.Dex.File

/-!
# Kinds of files

The kinds of files inside a package are told apart by their first bytes.
-/

namespace ApkFormats

/-- A kind of file that is known by its first bytes. -/
inductive FileKind where
  | dex
  | xml
  | resources
  | elf
  | certificate
  deriving DecidableEq, Repr

/-- The bytes that a kind of file starts with. -/
def FileKind.magic : FileKind → List UInt8
  | .dex => [0x64, 0x65, 0x78, 0x0A, 0x30, 0x33, 0x35, 0x00]
  | .xml => [0x03, 0x00, 0x08, 0x00]
  | .resources => [0x02, 0x00, 0x0C, 0x00]
  | .elf => [0x7F, 0x45, 0x4C, 0x46]
  | .certificate => [0x30, 0x82]

/-- Whether a buffer starts with some bytes. -/
def startsWith (buffer : Bytes) (start : List UInt8) : Bool :=
  (buffer.extract 0 start.length).toList == start

/-- Whether a buffer starts like a kind of file. -/
def FileKind.matches (kind : FileKind) (buffer : Bytes) : Bool :=
  startsWith buffer kind.magic

/-- Whether a buffer is a DEX file that can be decoded. -/
def isValidDex (buffer : Bytes) : Bool :=
  match Dex.File.decode buffer with
  | .ok _ => true
  | .error _ => false

end ApkFormats
