import ApkFormats.Text.CharClass

/-!
# Command line options

`parse` reads the arguments of a call.  Options may stand anywhere before a
lone `--`; long ones may be shortened as long as they stay unambiguous and may
have their value behind `=`; letters may be joined, also behind the `=` of a
single letter.  One argument that is no option names the file; there may be no
second one.

A call for help is answered as soon as it is met; everything before it has to
be in order by then, and so have the letters joined to it.  Other options that
do not exist only count at the end.
-/

namespace ApkFormats.CommandLine

/-- What an option asks for. -/
inductive Switch where
  | help
  | verbose
  | json
  | find
  | language
  | region
  deriving DecidableEq, Repr

def Switch.takesValue : Switch → Bool
  | .help => false
  | .verbose => false
  | .json => false
  | .find => true
  | .language => true
  | .region => true

def longNames : List (String × Switch) :=
  [("--help", .help), ("--verbose", .verbose), ("--json", .json), ("--find", .find),
    ("--lang", .language), ("--country", .region)]

def letters : List (Char × Switch) :=
  [('h', .help), ('v', .verbose), ('j', .json)]

/-- An argument by itself. -/
inductive Token where
  | plain (s : String)
  /-- The lone `--` that ends the options. -/
  | separator
  | long (switch : Switch) (value : Option String)
  /-- Options by their letters, of which the first one exists. -/
  | letters (cs : List Char)
  | unknown
  deriving DecidableEq, Repr

/-- Whether some characters are decimal digits, at least one of them. -/
def areDigits (cs : List Char) : Bool :=
  !cs.isEmpty && cs.all Text.isDecimalDigit

/-- Some characters without a line end at their end. -/
def withoutLineEnd (cs : List Char) : List Char :=
  if cs.getLast? = some '\n' then cs.dropLast else cs

/-- Whether an argument reads as a negative number, perhaps with a line end behind it. -/
def isNegativeNumber (cs : List Char) : Bool :=
  match withoutLineEnd cs with
  | '-' :: rest =>
      areDigits rest ||
        (match rest.dropWhile Text.isDecimalDigit with
        | '.' :: fraction => areDigits fraction
        | _ => false)
  | _ => false

/-- An argument cut at its first `=`. -/
def cutAtEquals (cs : List Char) : String × Option String :=
  let name := String.ofList (cs.takeWhile (· ≠ '='))
  match cs.dropWhile (· ≠ '=') with
  | _ :: value => (name, some (String.ofList value))
  | [] => (name, none)

/-- The options whose long names start with a text. -/
def longMatches (start : String) : List Switch :=
  (longNames.filter fun entry => start.toList.isPrefixOf entry.1.toList).map Prod.snd

/-- What an argument that names no option is. -/
def unnamed (cs : List Char) : Token :=
  if isNegativeNumber cs || cs.contains ' ' then .plain (String.ofList cs) else .unknown

/-- The letters that are joined to a first one: a single `=` in front of them is passed over. -/
def lettersBehind : List Char → List Char
  | '=' :: c :: more => c :: more
  | cs => cs

/-- What an argument before the lone `--` is, or nothing when its name is ambiguous. -/
def classify (argument : String) : Option Token :=
  match argument.toList with
  | '-' :: '-' :: rest =>
      let cs := '-' :: '-' :: rest
      let (name, value) := cutAtEquals cs
      match longNames.lookup name with
      | some switch => some (.long switch value)
      | none =>
          match longMatches name with
          | [] => some (unnamed cs)
          | [switch] => some (.long switch value)
          | _ => none
  | '-' :: c :: more =>
      match letters.lookup c with
      | some _ => some (.letters (c :: lettersBehind more))
      | none => some (unnamed ('-' :: c :: more))
  | _ => some (.plain argument)

/-- What the arguments of a call are, or nothing when one of them is ambiguous. -/
def tokens? : List String → Option (List Token)
  | [] => some []
  | argument :: rest =>
      if argument = "--" then some (.separator :: rest.map .plain)
      else do
        let token ← classify argument
        let more ← tokens? rest
        some (token :: more)

/-- A language or region as it is given. -/
inductive Selector where
  | code (s : String)
  /-- An empty list of codes: all that is left of a value that is a lone `--`. -/
  | emptyList
  deriving DecidableEq, Repr

/-- The code that is selected by, when there is one. -/
def Selector.code? : Selector → Option String
  | .code s => some s
  | .emptyList => none

/-- The selector that a value gives.  A lone `--` is dropped from every value, as older parsers of
options do; newer ones keep it. -/
def Selector.ofValue (value : String) : Selector :=
  if value = "--" then .emptyList else .code value

/-- What a call asks for. -/
structure Options where
  verbose : Bool
  json : Bool
  find : Option String
  language : Option Selector
  region : Option Selector
  file : Option String
  deriving DecidableEq, Repr

def Options.none : Options := ⟨false, false, .none, .none, .none, .none⟩

def Options.switchOn (o : Options) : Switch → Options
  | .verbose => { o with verbose := true }
  | .json => { o with json := true }
  | _ => o

/-- Sets an option with a value, from which a lone `--` is dropped. -/
def Options.assign (o : Options) (value : String) : Switch → Options
  | .find => { o with find := some (if value = "--" then "" else value) }
  | .language => { o with language := some (.ofValue value) }
  | .region => { o with region := some (.ofValue value) }
  | _ => o

inductive Call where
  | help
  | invalid
  | run (options : Options)
  deriving DecidableEq, Repr

/-- The options that joined letters name, or nothing when one of them names none. -/
def joined? (cs : List Char) : Option (List Switch) :=
  cs.mapM fun c => letters.lookup c

/-- Sets options without values in turn, up to a call for help. -/
def switchAll (o : Options) : List Switch → Option Options
  | [] => some o
  | .help :: _ => none
  | switch :: rest => switchAll (o.switchOn switch) rest

/-- What has been read of the arguments of a call. -/
structure Reading where
  options : Options
  /-- Whether there was an argument that nothing takes. -/
  surplus : Bool
  /-- The option that waits for its value. -/
  awaiting : Option Switch
  /-- Whether the argument before this one named the file. -/
  fileIsLast : Bool
  deriving DecidableEq, Repr

namespace Reading

def start : Reading := ⟨.none, false, none, false⟩

def withOptions (r : Reading) (o : Options) : Reading :=
  { r with options := o, awaiting := none, fileIsLast := false }

def withSurplus (r : Reading) : Reading :=
  { r with surplus := true, fileIsLast := false }

/-- Reads an argument that is no option: the value that an option waits for, or the file. -/
def takePlain (r : Reading) (s : String) : Reading :=
  match r.awaiting with
  | some switch => r.withOptions (r.options.assign s switch)
  | none =>
      match r.options.file with
      | some _ => r.withSurplus
      | none => { r with options := { r.options with file := some s }, fileIsLast := true }

/-- Reads some options without values, up to a call for help. -/
def takeSwitches (r : Reading) (switches : List Switch) : Except Call Reading :=
  match switchAll r.options switches with
  | some o => .ok (r.withOptions o)
  | none => .error .help

def takeLong (r : Reading) (switch : Switch) (value : Option String) : Except Call Reading :=
  match switch.takesValue, value with
  | true, some s => .ok (r.withOptions (r.options.assign s switch))
  | true, none => .ok { r with awaiting := some switch, fileIsLast := false }
  | false, some _ => .error .invalid
  | false, none => r.takeSwitches [switch]

/-- Reads options that are given by joined letters, which all have to exist. -/
def takeLetters (r : Reading) (cs : List Char) : Except Call Reading :=
  match joined? cs with
  | none => .error .invalid
  | some switches => r.takeSwitches switches

/-- Reads one more token, or answers the call at once.

An option that waits for its value gets it from the next plain argument or not
at all.  The lone `--` has to stand beside the file, or before it. -/
def step (r : Reading) (token : Token) : Except Call Reading :=
  match token with
  | .plain s => .ok (r.takePlain s)
  | other =>
      if r.awaiting.isSome then .error .invalid
      else
        match other with
        | .plain s => .ok (r.takePlain s)
        | .separator => .ok (if r.options.file.isSome && !r.fileIsLast then r.withSurplus else r)
        | .long switch value => r.takeLong switch value
        | .letters cs => r.takeLetters cs
        | .unknown => .ok r.withSurplus

def steps (r : Reading) : List Token → Call
  | [] => if r.surplus || r.awaiting.isSome then .invalid else .run r.options
  | token :: rest =>
      match r.step token with
      | .ok r' => r'.steps rest
      | .error call => call

end Reading

/-- Reads the arguments of a call; a call that names no file asks for help. -/
def parse (arguments : List String) : Call :=
  match tokens? arguments with
  | none => .invalid
  | some tokens =>
      match Reading.start.steps tokens with
      | .run o => if (o.file.getD "").isEmpty then .help else .run o
      | call => call

def helpText : String :=
  "\n".intercalate
    ["usage: main.py [-h] [-v] [-j] [--find ID] [--lang LANG] [--country COUNTRY]",
      "               [FILE]",
      "",
      "Dump Android DEX, binary XML and resources.arsc files",
      "",
      "positional arguments:",
      "  FILE",
      "",
      "options:",
      "  -h, --help         show this help message and exit",
      "  -v, --verbose      Enable verbose logging",
      "  -j, --json         Output results as JSON objects, one per line",
      "  --find ID          Resource id to look up ('@string/app_name',",
      "                     '@0x7f040001'), or a class descriptor",
      "                     ('Lcom/example/Main;') for DEX files",
      "  --lang LANG        Language code for string lookups. Example: --lang ja",
      "  --country COUNTRY  Country code for string lookups. Example: --country JP",
      ""]

end ApkFormats.CommandLine
