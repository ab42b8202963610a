import ApkFormats.Resource.TypeEntries

/-!
# Strings by language and region

The strings of a package are gathered from all configurations into buckets: one
for configurations without language and region, one for each language and one
for each region.  A bucket holds at most one text per index.  Among the
configurations that go into a bucket, the first one in the file that has a text
for an index gives it.
-/

namespace ApkFormats.Resource

/-- Texts by index; an index may be known without having a text. -/
abbrev Bucket := List (Option String)

namespace Bucket

/-- Fills the gaps of a bucket from another one. -/
def fillFrom : Bucket → Bucket → Bucket
  | [], other => other
  | bucket, [] => bucket
  | a :: rest, b :: other => (a <|> b) :: fillFrom rest other

def text? (bucket : Bucket) (index : Nat) : Option String :=
  (bucket[index]?).join

end Bucket

/-- Fills the gaps of the bucket of a name, which comes last when it is new. -/
def fillNamed (name : String) (more : Bucket) :
    List (String × Bucket) → List (String × Bucket)
  | [] => [(name, more)]
  | (other, bucket) :: rest =>
      if other = name then (other, bucket.fillFrom more) :: rest
      else (other, bucket) :: fillNamed name more rest

/-- The strings of a package in all their buckets. -/
structure Localized where
  plain : Bucket
  byLanguage : List (String × Bucket)
  byRegion : List (String × Bucket)
  deriving DecidableEq, Repr

namespace Localized

def empty : Localized := ⟨[], [], []⟩

/-- Adds the texts of a configuration to the buckets that it belongs to. -/
def add (l : Localized) (config : Config) (texts : Bucket) : Localized :=
  match config.language, config.region with
  | none, none => { l with plain := l.plain.fillFrom texts }
  | some language, none => { l with byLanguage := fillNamed language texts l.byLanguage }
  | none, some region => { l with byRegion := fillNamed region texts l.byRegion }
  | some language, some region =>
      { l with
        byLanguage := fillNamed language texts l.byLanguage
        byRegion := fillNamed region texts l.byRegion }

/-- The bucket of a language, when there is one. -/
def ofLanguage? (l : Localized) (language : Option String) : Option Bucket :=
  language.bind fun name => l.byLanguage.lookup name

/-- The bucket that a language and a region select: the first of the two that has one. -/
def select (l : Localized) (language region : Option String) : Bucket :=
  match l.ofLanguage? language with
  | some bucket => bucket
  | none =>
      match region.bind fun name => l.byRegion.lookup name with
      | some bucket => bucket
      | none => l.plain

/-- The texts of the entries of a chunk, looked up in a pool. -/
def textsOf (strings : Option StringPool) (chunk : TypeEntries) : Except IndexFault Bucket :=
  chunk.entries.toList.mapM fun slot =>
    match slot with
    | none => .ok none
    | some entry => (entry.resolve strings).map fun value => value.map Value.shown

/-- The buckets of some chunks of strings, in their order in the file. -/
def ofChunks (strings : Option StringPool) (chunks : List TypeEntries) :
    Except IndexFault Localized :=
  chunks.foldlM (fun l chunk => (textsOf strings chunk).map (l.add chunk.config)) empty

end Localized

end ApkFormats.Resource
