import ApkFormats.Resource.Locale
import ApkFormats.Value

/-!
# Entries of one resource type in one configuration

A package holds, for each of its types and configurations, a chunk with the
entries of that type.  The chunk lists the offset of every entry, or the word
for "no entry".  An entry names its key in the key pool of the package; a simple
entry has a value, a complex one a parent and a number of items that are not
decoded.

Of a configuration only language and region are decoded.
-/

namespace ApkFormats.Resource

/-- What entries are decoded for: a language and a region, each optional. -/
structure Config where
  size : Nat
  imsi : Nat
  language : Option String
  region : Option String
  deriving DecidableEq, Repr

namespace Config

def leastSize : Nat := 12

/-- Reads a configuration and leaves the cursor after it. -/
def read : Decoder Config := do
  let start ← Decoder.position
  let size ← Decoder.u32
  Decoder.require (leastSize ≤ size) (.table (.configSize start size))
  let imsi ← Decoder.u32
  let language ← readCode firstLanguageLetter
  let region ← readCode firstRegionLetter
  Decoder.goTo (start + size)
  pure ⟨size, imsi, language, region⟩

/-- Language and region as one code; without a language there is none. -/
def locale (c : Config) : Option String :=
  match c.language, c.region with
  | none, _ => none
  | some language, none => some language
  | some language, some region => some (language ++ "-r" ++ region)

def summary (c : Config) : String :=
  s!"<ResTableConfig size:{c.size}, imsi:{c.imsi}, la:" ++ Text.quotedOrNone c.language ++ " cn:" ++
    Text.quotedOrNone c.region ++ ">"

end Config

structure StoredValue where
  size : Nat
  reserved : Nat
  type : Nat
  data : Nat
  deriving DecidableEq, Repr

def StoredValue.read : Decoder StoredValue := do
  let size ← Decoder.u16
  let reserved ← Decoder.u8
  let type ← Decoder.u8
  let data ← Decoder.u32
  pure ⟨size, reserved, type, data⟩

inductive EntryContent where
  | simple (value : StoredValue)
  /-- Items that are not decoded, on top of those of a parent. -/
  | complex (parent count : Nat)
  deriving DecidableEq, Repr

structure Entry where
  size : Nat
  flags : Nat
  key : Nat
  content : EntryContent
  deriving DecidableEq, Repr

namespace Entry

/-- Number of bytes that are read of every entry. -/
def fixedSize : Nat := 16

/-- Whether a flag word marks an entry as complex. -/
def marksComplex (flags : Nat) : Bool :=
  flags % 2 == 1

def isComplex (e : Entry) : Bool :=
  marksComplex e.flags

/-- Reads what an entry with some flags holds. -/
def readContent (flags : Nat) : Decoder EntryContent :=
  if marksComplex flags then do
    let parent ← Decoder.u32
    let count ← Decoder.u32
    pure (.complex parent count)
  else do
    let value ← StoredValue.read
    pure (.simple value)

def read : Decoder Entry := do
  let size ← Decoder.u16
  let flags ← Decoder.u16
  let key ← Decoder.u32
  let content ← readContent flags
  pure ⟨size, flags, key, content⟩

def value? (e : Entry) : Option StoredValue :=
  match e.content with
  | .simple value => some value
  | .complex _ _ => none

/-- The value of a simple entry, with strings looked up in a pool where there is one. -/
def resolve (strings : Option StringPool) (e : Entry) : Except IndexFault (Option Value) :=
  match e.value? with
  | some v => (Value.ofTyped v.type v.data (Value.flagsOfType v.type) strings).map some
  | none => .ok none

def summary (e : Entry) : String :=
  s!"<Entry size:{e.size}, key:{e.key}, flags:" ++ Text.hex e.flags ++ ">"

end Entry

structure TypeEntries where
  header : ChunkHeader
  /-- Number of the type; types count from one. -/
  id : Nat
  flags : Nat
  reserved : Nat
  entryCount : Nat
  /-- Offset of the entries from the start of the chunk. -/
  entriesStart : Nat
  config : Config
  entries : Array (Option Entry)
  /-- Key of every entry there is with the entry's index, in the order of the indices. -/
  namedIndices : List (String × Nat)
  deriving DecidableEq, Repr

namespace TypeEntries

/-- Reads the entry with an index that a chunk stores at an offset, and looks up its key. -/
def readEntry (keys : StringPool) (header : ChunkHeader) (base : Nat) (item : Nat × Nat) :
    Decoder (Option (Entry × String)) :=
  if item.2 = noIndex then pure none
  else do
    let place := base + item.2
    Decoder.require (place + Entry.fixedSize ≤ header.stop)
      (.table (.entryPlace header.offset item.1 place))
    Decoder.goTo place
    let entry ← Entry.read
    let key ← Decoder.resolved (keys.stringAt entry.key)
    pure (some (entry, key))

/-- The key of every entry there is with the entry's index, from `index` on. -/
def namedFrom (index : Nat) : List (Option (Entry × String)) → List (String × Nat)
  | [] => []
  | none :: rest => namedFrom (index + 1) rest
  | some (_, key) :: rest => (key, index) :: namedFrom (index + 1) rest

/-- Reads a chunk of entries whose keys stand in a pool. -/
def read (keys : StringPool) : Decoder TypeEntries := do
  let header ← ChunkHeader.read (some typeEntriesType)
  let id ← Decoder.u8
  let flags ← Decoder.u8
  let reserved ← Decoder.u16
  let entryCount ← Decoder.u32
  let entriesStart ← Decoder.u32
  let config ← Config.read
  let cursor ← Decoder.position
  Decoder.require (cursor ≤ header.payload)
    (.table (.configRoom header.offset header.headerSize))
  Decoder.goTo header.payload
  Decoder.require (header.payload + 4 * entryCount ≤ header.stop)
    (.table (.entryCount header.offset entryCount))
  let offsets ← Decoder.times Decoder.u32 entryCount
  let items ← Decoder.each (readEntry keys header (header.offset + entriesStart))
    ((List.range entryCount).zip offsets)
  pure ⟨header, id, flags, reserved, entryCount, entriesStart, config,
    (items.map fun item => item.map Prod.fst).toArray, namedFrom 0 items⟩

/-- The entry at an index, when there is one. -/
def entry? (t : TypeEntries) (index : Int) : Option Entry :=
  if index < 0 then none else (t.entries[index.toNat]?).join

/-- The greatest index whose entry has a key. -/
def indexOf? (t : TypeEntries) (key : String) : Option Nat :=
  t.namedIndices.reverse.lookup key

/-- The keys of a chunk, each once, with the greatest index whose entry has the key. -/
def keys (t : TypeEntries) : List (String × Nat) :=
  (t.namedIndices.map Prod.fst).eraseDups.filterMap fun key =>
    (t.indexOf? key).map fun index => (key, index)

def summary (t : TypeEntries) : String :=
  "<TableType offset:" ++ Text.hex t.header.offset ++
    s!", id:{t.id}, count:{t.entryCount}, start:" ++
    Text.hex t.entriesStart ++ ">"

end TypeEntries

end ApkFormats.Resource
