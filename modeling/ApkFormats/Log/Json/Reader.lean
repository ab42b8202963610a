import ApkFormats.Log.Json

/-!
# Reading JSON texts

A JSON text is read character by character.  After some characters a `Reader`
knows two things: its `Place`, which is what may come next inside the values that
are still open, and its `Scan`, which is the word or the text that it is in the
middle of.

`Json.parse?` gives the value of a whole text.  The members of an object are
kept in their order, also when a key repeats; a number is kept as it is written,
as a coefficient and a power of ten.
-/

namespace ApkFormats.Log

inductive Json where
  | null
  | boolean (b : Bool)
  /-- A coefficient times a power of ten. -/
  | number (coefficient exponent : Int)
  | text (s : String)
  | array (items : List Json)
  | object (members : List (String × Json))
  deriving Repr

namespace Json

/-- An array or an object that one of its values is read for. -/
inductive Frame where
  /-- The items of an array so far, the last one first. -/
  | items (done : List Json)
  /-- The members of an object so far, the last one first, and the key of the next one. -/
  | members (done : List (String × Json)) (key : String)

/-- What may come next, inside the values that are still open. -/
inductive Place where
  | value (outer : List Frame)
  | firstItem (outer : List Frame)
  | firstKey (outer : List Frame)
  | key (done : List (String × Json)) (outer : List Frame)
  /-- The colon behind a key. -/
  | colon (done : List (String × Json)) (key : String) (outer : List Frame)
  /-- A comma behind an item, or the end of the array. -/
  | behindItem (done : List Json) (outer : List Frame)
  /-- A comma behind a member, or the end of the object. -/
  | behindMember (done : List (String × Json)) (outer : List Frame)
  /-- Nothing but blanks behind the whole value. -/
  | finished (v : Json)

namespace Place

/-- The place behind a value that stands inside some others. -/
def behind (v : Json) : List Frame → Place
  | [] => .finished v
  | .items done :: outer => .behindItem (v :: done) outer
  | .members done name :: outer => .behindMember ((name, v) :: done) outer

/-- What a value at a place stands inside of, when one may stand there. -/
def frames? : Place → Option (List Frame)
  | .value outer => some outer
  | .firstItem outer => some (.items [] :: outer)
  | _ => none

def value? (p : Place) (v : Json) : Option Place :=
  p.frames?.map (behind v)

/-- The place behind a text, which is a key or a value. -/
def text? (p : Place) (s : String) : Option Place :=
  match p with
  | .firstKey outer => some (.colon [] s outer)
  | .key done outer => some (.colon done s outer)
  | p => p.value? (.text s)

def endArray? : Place → Option Place
  | .firstItem outer => some (behind (.array []) outer)
  | .behindItem done outer => some (behind (.array done.reverse) outer)
  | _ => none

def endObject? : Place → Option Place
  | .firstKey outer => some (behind (.object []) outer)
  | .behindMember done outer => some (behind (.object done.reverse) outer)
  | _ => none

def comma? : Place → Option Place
  | .behindItem done outer => some (.value (.items done :: outer))
  | .behindMember done outer => some (.key done outer)
  | _ => none

def colon? : Place → Option Place
  | .colon done name outer => some (.value (.members done name :: outer))
  | _ => none

def mark? (p : Place) (c : Char) : Option Place :=
  if c = '[' then p.frames?.map .firstItem
  else if c = ']' then p.endArray?
  else if c = '\x7b' then p.frames?.map .firstKey
  else if c = '\x7d' then p.endObject?
  else if c = ',' then p.comma?
  else if c = ':' then p.colon?
  else none

/-- The whole value, when there is one. -/
def finished? : Place → Option Json
  | .finished v => some v
  | _ => none

end Place

/-- The number that some decimal digits spell. -/
def decimalValue (digits : List Char) : Nat :=
  Nat.ofDigitChars 10 digits 0

/-- Digits of a number without needless zeros in front. -/
def isWhole (digits : List Char) : Bool :=
  digits == ['0'] || (digits.head? != some '0' && !digits.isEmpty)

/-- The digits behind the point, when there is one, and what follows them. -/
def fraction? : List Char → Option (List Char × List Char)
  | '.' :: rest =>
      let digits := rest.takeWhile Char.isDigit
      if digits.isEmpty then none else some (digits, rest.dropWhile Char.isDigit)
  | rest => some ([], rest)

/-- The exponent that is all that is left of a number. -/
def exponent? : List Char → Option Int
  | [] => some 0
  | e :: rest =>
      let (negative, digits) :=
        match rest with
        | '-' :: digits => (true, digits)
        | '+' :: digits => (false, digits)
        | digits => (false, digits)
      if (e = 'e' ∨ e = 'E') ∧ digits ≠ [] ∧ digits.all Char.isDigit then
        some (if negative then -(decimalValue digits : Int) else decimalValue digits)
      else none

/-- The number that some characters without a sign spell. -/
def unsignedNumber? (cs : List Char) : Option (Nat × Int) := do
  let whole := cs.takeWhile Char.isDigit
  let (fraction, rest) ← fraction? (cs.dropWhile Char.isDigit)
  let exponent ← exponent? rest
  if isWhole whole then some (decimalValue (whole ++ fraction), exponent - fraction.length)
  else none

/-- The number that some characters spell. -/
def number? : List Char → Option Json
  | '-' :: cs => (unsignedNumber? cs).map fun n => .number (-(n.1 : Int)) n.2
  | cs => (unsignedNumber? cs).map fun n => .number n.1 n.2

def word? (cs : List Char) : Option Json :=
  if cs = "null".toList then some .null
  else if cs = "true".toList then some (.boolean true)
  else if cs = "false".toList then some (.boolean false)
  else number? cs

/-- What a reader is in the middle of. -/
inductive Scan where
  | between
  /-- A word, with its characters so far, the last one first. -/
  | word (cs : List Char)
  /-- A text, with its 16-bit units so far, the last one first. -/
  | text (units : List Nat)
  | escape (units : List Nat)
  /-- The hexadecimal digits of an escape in a text, the last one first. -/
  | code (units : List Nat) (digits : List Char)

/-- What is known after some characters of a text. -/
structure Reader where
  place : Place
  scan : Scan

def isBlank (c : Char) : Bool :=
  c == ' ' || c == '\t' || c == '\n' || c == '\r'

def isWordChar (c : Char) : Bool :=
  c.isAlphanum || c == '-' || c == '+' || c == '.'

/-- Escapes of a single letter, and what they stand for. -/
def escapes : List (Char × Char) :=
  [('"', '"'), ('\\', '\\'), ('/', '/'), ('b', '\x08'), ('f', '\x0c'), ('n', '\n'), ('r', '\r'),
    ('t', '\t')]

namespace Reader

/-- Goes over a character that is in no word and no text. -/
def stepBetween (p : Place) (c : Char) : Option Reader :=
  if isBlank c then some ⟨p, .between⟩
  else if c = '"' then some ⟨p, .text []⟩
  else if isWordChar c then some ⟨p, .word [c]⟩
  else (p.mark? c).map (⟨·, .between⟩)

def endWord? (p : Place) (cs : List Char) : Option Place :=
  (word? cs.reverse).bind p.value?

/-- The place behind a text; a surrogate without a partner is refused. -/
def endText? (p : Place) (units : List Nat) : Option Place :=
  (Text.Utf16.decode units.reverse).toOption.bind fun cs => p.text? (String.ofList cs)

def step (r : Reader) (c : Char) : Option Reader :=
  match r.scan with
  | .between => stepBetween r.place c
  | .word cs =>
      if isWordChar c then some ⟨r.place, .word (c :: cs)⟩
      else (endWord? r.place cs).bind (stepBetween · c)
  | .text units =>
      if c = '"' then (endText? r.place units).map (⟨·, .between⟩)
      else if c = '\\' then some ⟨r.place, .escape units⟩
      else if c < ' ' then none
      else some ⟨r.place, .text ((Text.Utf16.encodeChar c).reverse ++ units)⟩
  | .escape units =>
      if c = 'u' then some ⟨r.place, .code units []⟩
      else (escapes.lookup c).map fun meant => ⟨r.place, .text (meant.toNat :: units)⟩
  | .code units digits =>
      if digits.length < 3 then some ⟨r.place, .code units (c :: digits)⟩
      else (Text.hexValue? (c :: digits).reverse).map fun u => ⟨r.place, .text (u :: units)⟩

def run? (r : Reader) (cs : List Char) : Option Reader :=
  cs.foldlM step r

/-- The value that has been read, at the end of a text. -/
def value? (r : Reader) : Option Json :=
  match r.scan with
  | .between => r.place.finished?
  | .word cs => (endWord? r.place cs).bind Place.finished?
  | _ => none

/-- Where every text is read from. -/
def start : Reader := ⟨.value [], .between⟩

end Reader

def parse? (s : String) : Option Json :=
  (Reader.start.run? s.toList).bind Reader.value?

end Json

/-- A scalar as the value that it is written as. -/
def Scalar.toJson : Scalar → Json
  | .absent => .null
  | .number n => .number n 0
  | .text s => .text s

/-- A value of a log record as the value that it is written as. -/
def JsonValue.toJson : JsonValue → Json
  | .scalar s => s.toJson
  | .list items => .array (items.map Scalar.toJson)

/-- The members of an object as the value that they are written as. -/
def Members.toJson (members : Members) : Json :=
  .object (members.map fun m => (m.1, m.2.toJson))

end ApkFormats.Log
