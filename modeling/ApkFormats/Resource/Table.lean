import ApkFormats.Resource.Lookup

/-!
# Resource tables

A resource table is a row of chunks: the table header, which tells how many
packages follow, the global string pool, and the packages.  Packages of one
name are one package, in the place of the first and with the content of the
last.

Lookups that name no package ask the first one.
-/

namespace ApkFormats.Resource

structure Table where
  packageCount : Nat
  pool : Option StringPool
  /-- Packages in the order of their first chunks. -/
  packages : List Package
  deriving DecidableEq, Repr

/-- Puts a package in the place of the one with its name, or at the end. -/
def putPackage (p : Package) : List Package → List Package
  | [] => [p]
  | q :: rest => if q.name = p.name then p :: rest else q :: putPackage p rest

namespace Table

def empty : Table := ⟨0, none, []⟩

def strings (t : Table) : List String :=
  match t.pool with
  | some pool => pool.strings.toList
  | none => []

/-- Takes a note when a pool is about to take the place of another one. -/
def noteSecondPool (t : Table) (position : Nat) : Decoder Unit :=
  if t.pool.isSome then Decoder.note (.secondPool position) else pure ()

/-- Reads the chunk with a header into a table; the cursor is at the chunk. -/
def readChunk (t : Table) (header : ChunkHeader) (position : Nat) : Decoder Table :=
  if header.type = stringPoolType then do
    t.noteSecondPool position
    let pool ← StringPool.read
    pure { t with pool := some pool }
  else if header.type = resourceTableType then do
    Decoder.goTo (position + chunkHeaderSize)
    let packageCount ← Decoder.u32
    pure { t with packageCount }
  else if header.type = packageType then do
    Decoder.require t.pool.isSome (.table (.packageBeforePool position))
    let package ← Package.read t.pool
    pure { t with packages := putPackage package t.packages }
  else Decoder.fail (.table (.unknownChunk header.type position))

/-- Distance from a chunk to the next one at top level: the chunks of a table stand in it. -/
def advance (header : ChunkHeader) : Nat :=
  if header.type = resourceTableType then header.headerSize else header.size

theorem advance_pos (header : ChunkHeader) : 0 < advance header := by
  unfold advance
  split
  · exact header.headerSize_pos
  · exact header.size_pos

/-- Reads the chunks from a position to the end of the buffer into a table. -/
def readChunks (stop : Nat) (t : Table) (position : Nat) : Decoder Table :=
  if _ : position < stop then do
    Decoder.goTo position
    let header ← ChunkHeader.read none
    Decoder.goTo position
    let t' ← t.readChunk header position
    readChunks stop t' (position + advance header)
  else pure t
termination_by stop - position
decreasing_by
  have := advance_pos header
  omega

def read : Decoder Table := do
  let stop ← Decoder.bufferSize
  let t ← readChunks stop empty 0
  Decoder.note (.table t.strings.length (t.packages.map Package.name))
  pure t

def subject : String := "ARSC"

/-- How decoding a buffer ends, with the notes taken. -/
def run (buffer : Bytes) : Outcome Table :=
  read buffer 0

/-- The table that some bytes encode. -/
def decode (buffer : Bytes) : Except DecodeError Table :=
  (run buffer).within subject

/-- The package that is asked when none is named. -/
def firstPackage (t : Table) : Except LookupError Package :=
  match t.packages with
  | p :: _ => .ok p
  | [] => .error (.notFound .anyPackage)

/-- What an identifier stands for. -/
def find (t : Table) (id : String) (language region : Option String) :
    Except LookupError Found := do
  let p ← t.firstPackage
  p.find t.pool id language region

/-- The words that name the resource of a number. -/
def wordText (t : Table) (n : Int) : Except LookupError String := do
  let p ← t.firstPackage
  p.wordText n

/-- The words that name the resource of a number, which is given as text. -/
def wordTextOf (t : Table) (id : String) : Except LookupError String := do
  let p ← t.firstPackage
  p.wordTextOf id

/-- The number of the resource that is named by words, as text. -/
def numberText (t : Table) (id : String) : Except LookupError String := do
  let p ← t.firstPackage
  p.numberText id

end Table

end ApkFormats.Resource
