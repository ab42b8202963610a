import ApkFormats.Log.Clock
import ApkFormats.Log.Format
import ApkFormats.Text.Utf8

/-!
# Log records

A record carries a message with its level, the name of its logger and a few
optional parts.  Results of a run are records too; they differ from remarks in
that plain output shows their message alone.

A record comes to a stream as an `Emission`: `Record.message` has put its
arguments in the places of its marks, and the call that made it has added
attributes of its own.  `Record.render` writes a record as a line, in plain form
or as JSON.
-/

namespace ApkFormats.Log

def debugLevel : Int := 10

def infoLevel : Int := 20

def warningLevel : Int := 30

def errorLevel : Int := 40

def levelNames : List (Int × String) :=
  [(0, "NOTSET"), (debugLevel, "DEBUG"), (infoLevel, "INFO"), (warningLevel, "WARNING"),
    (errorLevel, "ERROR"), (50, "CRITICAL")]

def levelName (level : Int) : String :=
  (levelNames.lookup level).getD s!"Level {level}"

structure Record where
  /-- Message, with marks for the arguments. -/
  content : Scalar
  arguments : Option (List Scalar)
  logger : String
  level : Int
  line : Int
  /-- Whether the record is a result rather than a remark. -/
  isResult : Bool
  kind : Option Scalar
  reference : Scalar
  exceptionText : String
  stackText : String
  /-- Time of the record in seconds. -/
  seconds : Int
  /-- Milliseconds on top of them. -/
  milliseconds : Int
  deriving DecidableEq, Repr

section Colours

/-! ## Colours

On a terminal every logger has a colour of its own, which the Adler-32 checksum
of its name picks.  That checksum is made of two sums modulo 65521: the sum of
one and all bytes, and the sum of the first sum's values after each byte. -/

def adlerModulus : Nat := 65521

/-- The two sums after some bytes, on top of the two sums before them. -/
def adlerSums (a b : Nat) : List UInt8 → Nat × Nat
  | [] => (a, b)
  | byte :: rest =>
      let a' := (a + byte.toNat) % adlerModulus
      adlerSums a' ((b + a') % adlerModulus) rest

def adler32 (bytes : List UInt8) : Nat :=
  let sums := adlerSums 1 0 bytes
  0x10000 * sums.2 + sums.1

/-- Number of the terminal colour of a logger. -/
def colour (logger : String) : Nat :=
  31 + adler32 (Text.Utf8.encode logger.toList) % 7

/-- A text between the codes that switch a logger's colour on and all colours off. -/
def coloured (logger s : String) : String :=
  s!"\x1b[{colour logger}m" ++ s ++ "\x1b[0m"

end Colours

inductive Layout where
  | plain
  /-- A JSON object with some attributes of the record under keys of their own. -/
  | json (attributes : List (String × String))
  deriving DecidableEq, Repr

inductive RenderFault where
  | format (fault : FormatFault)
  | unknownAttribute (name : String)
  deriving DecidableEq, Repr

namespace Record

/-- A record with a plain text and nothing else. -/
def ofText (logger : String) (level : Int) (s : String) : Record :=
  ⟨.text s, none, logger, level, 1, false, none, .absent, "", "", 0, 0⟩

/-- The message with its arguments filled in. -/
def message (r : Record) : Except FormatFault String :=
  fill r.content.shown (r.arguments.getD [])

/-- Whether the message is a text and not another value. -/
def hasTextContent (r : Record) : Bool :=
  match r.content with
  | .text _ => true
  | _ => false

/-- Puts a text on lines of its own after another one, unless it is empty. -/
def onNewLine (before after : String) : String :=
  if after.isEmpty then before
  else if before.toList.getLast? = some '\n' then before ++ after
  else before ++ "\n" ++ after

/-- A text with blanks behind it up to a width. -/
def leftAligned (width : Nat) (s : String) : String :=
  s ++ String.ofList (List.replicate (width - s.length) ' ')

/-- The plain line of a record with some message. -/
def plainLine (r : Record) (message : String) : String :=
  let line := leftAligned 8 (levelName r.level) ++ " " ++ message
  onNewLine (onNewLine line r.exceptionText) r.stackText

/-- A record in plain form; on a terminal the messages of remarks are coloured. -/
def renderPlain (terminal : Bool) (r : Record) : Except FormatFault String :=
  if r.hasTextContent && r.isResult then r.message
  else
    let shown := if r.hasTextContent && terminal then coloured r.logger r.content.shown
      else r.content.shown
    (fill shown (r.arguments.getD [])).map r.plainLine

/-- The value of an attribute of a record with some message. -/
def attribute? (r : Record) (message : String) (name : String) : Option JsonValue :=
  match name with
  | "message" => some (.scalar (.text message))
  | "msg" => some (.scalar r.content)
  | "args" =>
      match r.arguments with
      | some items => some (.list items)
      | none => some (.scalar .absent)
  | "name" => some (.scalar (.text r.logger))
  | "levelname" => some (.scalar (.text (levelName r.level)))
  | "levelno" => some (.scalar (.number r.level))
  | "lineno" => some (.scalar (.number r.line))
  | "asctime" => some (.scalar (.text (timeText r.seconds r.milliseconds)))
  | _ => none

/-- Adds a text under a key, unless it is empty. -/
def putText (members : Members) (key s : String) : Members :=
  if s.isEmpty then members else members.put key (.scalar (.text s))

/-- Adds what kind of record it is, and for a result what it belongs to. -/
def putKind (r : Record) (members : Members) : Members :=
  if r.isResult then
    let typed := members.put "type" (.scalar (r.kind.getD (.text "result")))
    if r.reference = .absent then typed else typed.put "ref" (.scalar r.reference)
  else members.put "type" (.scalar (.text "info"))

end Record

/-- A record as it comes to a stream. -/
structure Emission where
  record : Record
  /-- The message, with the arguments in their places. -/
  message : String
  /-- Attributes of the call that made the record, such as its file and its process. -/
  others : Members := []

namespace Emission

def attribute? (e : Emission) (name : String) : Option JsonValue :=
  (e.record.attribute? e.message name).or (e.others.lookup name)

/-- The members of an object that stand for some attributes. -/
def attributes (e : Emission) : List (String × String) → Except RenderFault Members
  | [] => .ok []
  | (key, name) :: rest =>
      match e.attribute? name with
      | some value => (e.attributes rest).map ((key, value) :: ·)
      | none => .error (.unknownAttribute name)

/-- The object that stands for a record with some of its attributes. -/
def members (e : Emission) (wanted : List (String × String)) : Except RenderFault Members := do
  let shown ← e.attributes wanted
  .ok (e.record.putKind (Record.putText (Record.putText shown "exc_info" e.record.exceptionText)
    "stack_info" e.record.stackText))

def renderJson (wanted : List (String × String)) (e : Emission) : Except RenderFault String :=
  (e.members wanted).map Members.json

end Emission

namespace Record

/-- A record as a JSON object with some of its attributes. -/
def renderJson (wanted : List (String × String)) (r : Record) : Except RenderFault String := do
  let message ← r.message.mapError RenderFault.format
  Emission.renderJson wanted ⟨r, message, []⟩

/-- A record as it is written to a stream, line end included. -/
def render (layout : Layout) (terminal : Bool) (r : Record) : Except RenderFault String :=
  let line :=
    match layout with
    | .plain => (r.renderPlain terminal).mapError RenderFault.format
    | .json wanted => r.renderJson wanted
  line.map (· ++ "\n")

end Record

end ApkFormats.Log
