import ApkFormats.CommandLine.Options
import ApkFormats.FileKind
import ApkFormats.Log.Record
import ApkFormats.Resource.Table
import ApkFormats.Xml.Markup

/-!
# Dumping a file

A dump of a file is a list of log records and an exit code.  What the decoders
remark comes first, then the results: the text of a document, the classes of a
DEX file or the strings of a resource table, or what was asked for.  When the
file cannot be decoded or does not hold what was asked for, one error takes the
place of the results.

A run breaks off when a string is to be looked up by a language or region that
is no code at all, and when a document has a name that cannot be written.
-/

namespace ApkFormats.CommandLine

open Log

/-- What a run logs, and how it ends. -/
structure Report where
  records : List Record
  exitCode : Nat
  deriving DecidableEq, Repr

def mainLogger : String := "main"

/-- Name of the logger of a note. -/
def noteLogger : Note → String
  | .styleSpans _ _ => "string_pool"
  | .stringPool _ _ _ => "string_pool"
  | .skippedRecord _ _ => "axml"
  | .ignoredRecord _ _ => "axml"
  | .dexFile _ _ _ _ _ => "dex"
  | .secondPool _ => "arsc"
  | .package _ _ _ _ => "arsc"
  | .table _ _ => "arsc"

def noteRecord (n : Note) : Record :=
  .ofText (noteLogger n) (if n.isWarning then warningLevel else debugLevel) n.text

def resultRecord (s kind reference : String) : Record :=
  { Record.ofText mainLogger infoLevel s with
    isResult := true
    kind := some (.text kind)
    reference := .text reference }

def errorRecord (s : String) : Record :=
  .ofText mainLogger errorLevel s

def Report.failure (before : List Record) (s : String) : Report :=
  ⟨before ++ [errorRecord s], 1⟩

def Report.success (before results : List Record) : Report :=
  ⟨before ++ results, 0⟩

/-- The results of a class: its own line and the lines of its members. -/
def classRecords (c : Dex.ClassView) : List Record :=
  resultRecord c.definition "class" c.name ::
    (c.fields.map fun f => resultRecord ("    " ++ f.definition) "field" c.name) ++
    (c.methods.map fun m => resultRecord ("    " ++ m.definition) "method" c.name)

/-- What is asked for, unless the question is empty. -/
def Options.question (o : Options) : Option String :=
  o.find.filter fun s => !s.isEmpty

/-- The dump of a DEX file: the class that is asked for, or all classes. -/
def dumpDex (before : List Record) (o : Options) (f : Dex.File) : Report :=
  match o.question with
  | some name =>
      match f.findClass? name with
      | some c => .success before (classRecords c)
      | none => .failure before s!"Class {name} not found"
  | none => .success before (f.classes.flatMap classRecords)

def foundRecords (id : String) : Resource.Found → List Record
  | .nothing => [resultRecord "" "resource" id]
  | .text s => [resultRecord s "resource" id]
  | .texts all => all.map fun s => resultRecord s "resource" id

/-- Remark on the number of types that a package has entries of. -/
def packageRecord (p : Resource.Package) : Record :=
  let types := (p.entryChunks.map Resource.TypeEntries.id).eraseDups.length
  .ofText mainLogger debugLevel s!"Package {p.name}: {types} types"

def stringRecords (strings : List String) : List Record :=
  ((List.range strings.length).zip strings).map fun item =>
    resultRecord item.2 "string" (toString item.1)

/-- Why a run breaks off without a report. -/
inductive Breakdown where
  /-- A bucket of strings is looked up by an empty list of codes. -/
  | emptySelector
  /-- A name of a document opens a brace that it does not close. -/
  | openBrace
  deriving DecidableEq, Repr

/-- Wording of a breakdown: a list is no key of a map, and a name that is cut at a brace that it
does not hold stays in one piece. -/
def Breakdown.text : Breakdown → String
  | .emptySelector => "unhashable type: 'list'"
  | .openBrace => "not enough values to unpack (expected 2, got 1)"

def Options.languageCode (o : Options) : Option String :=
  o.language.bind Selector.code?

def Options.regionCode (o : Options) : Option String :=
  o.region.bind Selector.code?

/-- Whether selecting a bucket comes to an empty list of codes: the region counts only when the
language has no bucket. -/
def Options.meetsEmptySelector (o : Options) (l : Resource.Localized) : Bool :=
  o.language == some .emptyList ||
    ((l.ofLanguage? o.languageCode).isNone && o.region == some .emptyList)

/-- Whether a lookup in a table has to select a bucket by an empty list of codes. -/
def breaksOn (o : Options) (t : Resource.Table) (id : String) : Bool :=
  match t.firstPackage with
  | .ok p => p.asksForString id && o.meetsEmptySelector p.localized
  | .error _ => false

/-- The dump of a resource table: the resource that is asked for, or all strings. -/
def dumpTable (before : List Record) (o : Options) (t : Resource.Table) :
    Except Breakdown Report :=
  match o.question with
  | some id =>
      if breaksOn o t id then .error .emptySelector
      else
        match t.find id o.languageCode o.regionCode with
        | .ok found => .ok (.success before (foundRecords id found))
        | .error e => .ok (.failure before s!"Lookup of {id} failed: {e.text}")
  | none => .ok (.success (before ++ t.packages.map packageRecord) (stringRecords t.strings))

/-- The dump of a document: its text. -/
def dumpDocument (before : List Record) (file : String) (d : Xml.Document) :
    Except Breakdown Report :=
  if d.isWritable then .ok (.success before [resultRecord d.toXml "xml" file])
  else .error .openBrace

def decodeFailure (before : List Record) (file : String) (e : DecodeError) : Report :=
  .failure before s!"Failed to decode {file}: {e.text}"

/-- The dump of a file of some name with some content. -/
def dump (o : Options) (file : String) (content : Bytes) : Except Breakdown Report :=
  if FileKind.xml.matches content then
    let run := Xml.Document.read content 0
    let before := run.notes.map noteRecord
    match run.result.mapError (Fault.unreadable Xml.Document.subject) with
    | .ok d => dumpDocument before file d
    | .error e => .ok (decodeFailure before file e)
  else if FileKind.resources.matches content then
    let run := Resource.Table.run content
    let before := run.notes.map noteRecord
    match run.within Resource.Table.subject with
    | .ok t => dumpTable before o t
    | .error e => .ok (decodeFailure before file e)
  else if startsWith content Dex.magic then
    let run := Dex.File.read content 0
    let before := run.notes.map noteRecord
    match run.within Dex.File.subject with
    | .ok f => .ok (dumpDex before o f)
    | .error e => .ok (decodeFailure before file e)
  else if FileKind.elf.matches content || FileKind.certificate.matches content then
    .ok (.failure [] s!"{file} is a native library or certificate, not a dumpable file")
  else .ok (.failure [] s!"Unrecognized file format: {file}")

/-- The least level of records that a run shows of a logger. -/
def threshold (o : Options) (logger : String) : Int :=
  if o.verbose then debugLevel
  else if logger = mainLogger then infoLevel
  else warningLevel

def layoutOf (o : Options) : Layout :=
  if o.json then .json [("message", "message")] else .plain

/-- A record as it is written; records of a run have no arguments that could fail to fit. -/
def written (layout : Layout) (terminal : Bool) (r : Record) : String :=
  match r.render layout terminal with
  | .ok s => s
  | .error _ => ""

def Report.text (report : Report) (o : Options) (terminal : Bool) : String :=
  let shown := report.records.filter fun r => threshold o r.logger ≤ r.level
  String.join (shown.map (written (layoutOf o) terminal))

def missingFileText (file : String) : String :=
  "[Errno 2] No such file or directory: " ++ Text.quoted file

end ApkFormats.CommandLine
