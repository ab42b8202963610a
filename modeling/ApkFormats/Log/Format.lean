import ApkFormats.Log.Json
import ApkFormats.Text.Quoted

/-!
# Messages with marks

A message may hold marks that stand for arguments.  A mark is a percent sign,
some flags, a width, a precision and a letter, of which only the sign and the
letter are needed; `%%` stands for the sign itself.  Width and precision are
spelled out, or taken from the arguments too.

`pieces` cuts a message at its marks, and `fill` puts the arguments in their
places or says which mark does not fit.
-/

namespace ApkFormats.Log

/-- Why the marks of a message and its arguments do not fit together. -/
inductive FormatFault where
  | tooMany
  | tooFew
  | notNumber (letter : Char) (given : String)
  /-- A mark for a number in another base than ten. -/
  | notWhole (letter : Char) (given : String)
  /-- A mark for a number with a point. -/
  | notReal (given : String)
  /-- A number that no number with a point comes near to. -/
  | tooLarge
  | notCharacter
  | noCodePoint
  /-- A code point of half a character, which no text holds. -/
  | surrogate (code : Nat)
  /-- A width or a precision that is taken from the arguments. -/
  | notAmount
  /-- A mark that calls its argument by a name. -/
  | named
  | unknownMark (letter : Char) (index : Nat)
  /-- The message ends inside a mark. -/
  | incomplete
  deriving DecidableEq, Repr

def FormatFault.text : FormatFault → String
  | .tooMany => "not all arguments converted during string formatting"
  | .tooFew => "not enough arguments for format string"
  | .notNumber letter given =>
      "%" ++ letter.toString ++ " format: a real number is required, not " ++ given
  | .notWhole letter given =>
      "%" ++ letter.toString ++ " format: an integer is required, not " ++ given
  | .notReal given => "must be real number, not " ++ given
  | .tooLarge => "int too large to convert to float"
  | .notCharacter => "%c requires int or char"
  | .noCodePoint => "%c arg not in range(0x110000)"
  | .surrogate code => "no text holds " ++ Text.hex code
  | .notAmount => "* wants int"
  | .named => "format requires a mapping"
  | .unknownMark letter index =>
      let shown := if 31 ≤ letter.toNat ∧ letter.toNat ≤ 126 then letter.toString else "?"
      "unsupported format character '" ++ shown ++ "' (" ++ Text.hex letter.toNat ++
        s!") at index {index}"
  | .incomplete => "incomplete format"

section Pieces

/-! ## Cutting a message -/

/-- A width or a precision. -/
inductive Amount where
  | digits (n : Nat)
  | argument
  deriving DecidableEq, Repr

/-- A mark without its letter. -/
structure Mark where
  left : Bool := false
  plus : Bool := false
  blank : Bool := false
  alternate : Bool := false
  zeros : Bool := false
  width : Option Amount := none
  precision : Option Amount := none
  deriving DecidableEq, Repr

inductive Piece where
  | char (c : Char)
  /-- A mark with its letter and the index of that, unless the message ends inside the mark. -/
  | mark (m : Mark) (letter : Option (Char × Nat))
  | named
  deriving DecidableEq, Repr

/-- How far into a mark a message has been read. -/
inductive Stage where
  | sign
  | flags
  | widthDigits
  | width
  | point
  | precisionDigits
  | precision
  | size
  deriving DecidableEq, Repr

namespace Mark

/-- The mark with another digit at the end of an amount. -/
def pushDigit (amount : Option Amount) (c : Char) : Option Amount :=
  match amount with
  | some (.digits n) => some (.digits (10 * n + (c.toNat - '0'.toNat)))
  | _ => some (.digits (c.toNat - '0'.toNat))

/-- A letter for a size, which says nothing about the argument. -/
def behindPrecision? (m : Mark) (c : Char) : Option (Stage × Mark) :=
  if c = 'h' ∨ c = 'l' ∨ c = 'L' then some (.size, m) else none

def behindWidth? (m : Mark) (c : Char) : Option (Stage × Mark) :=
  if c = '.' then some (.point, { m with precision := some (.digits 0) })
  else m.behindPrecision? c

def behindFlags? (m : Mark) (c : Char) : Option (Stage × Mark) :=
  if c = '*' then some (.width, { m with width := some .argument })
  else if c.isDigit then some (.widthDigits, { m with width := pushDigit m.width c })
  else m.behindWidth? c

/-- The flag that a character stands for. -/
def flag? (m : Mark) (c : Char) : Option Mark :=
  if c = '-' then some { m with left := true }
  else if c = '+' then some { m with plus := true }
  else if c = ' ' then some { m with blank := true }
  else if c = '#' then some { m with alternate := true }
  else if c = '0' then some { m with zeros := true }
  else none

/-- Goes over a character of a mark, unless it is the letter. -/
def goOn? (m : Mark) (stage : Stage) (c : Char) : Option (Stage × Mark) :=
  match stage with
  | .sign | .flags =>
      match m.flag? c with
      | some m => some (.flags, m)
      | none => m.behindFlags? c
  | .widthDigits =>
      if c.isDigit then some (.widthDigits, { m with width := pushDigit m.width c })
      else m.behindWidth? c
  | .width => m.behindWidth? c
  | .point =>
      if c = '*' then some (.precision, { m with precision := some .argument })
      else if c.isDigit then
        some (.precisionDigits, { m with precision := pushDigit m.precision c })
      else m.behindPrecision? c
  | .precisionDigits =>
      if c.isDigit then some (.precisionDigits, { m with precision := pushDigit m.precision c })
      else m.behindPrecision? c
  | .precision => m.behindPrecision? c
  | .size => none

end Mark

/-- Cuts characters into pieces, from index `index` on, possibly inside a mark. -/
def piecesFrom (index : Nat) : Option (Stage × Mark) → List Char → List Piece
  | none, [] => []
  | some (_, m), [] => [.mark m none]
  | none, c :: rest =>
      if c = '%' then piecesFrom (index + 1) (some (.sign, {})) rest
      else .char c :: piecesFrom (index + 1) none rest
  | some (stage, m), c :: rest =>
      if stage = .sign ∧ c = '%' then .char c :: piecesFrom (index + 1) none rest
      else if stage = .sign ∧ c = '(' then [.named]
      else
        match m.goOn? stage c with
        | some inside => piecesFrom (index + 1) (some inside) rest
        | none => .mark m (some (c, index)) :: piecesFrom (index + 1) none rest

def pieces (message : String) : List Piece :=
  piecesFrom 0 none message.toList

end Pieces

section Numbers

/-! ## Numbers with a point

A whole number that is shown with a point is rounded to 53 binary digits first,
and then to the decimal digits that are wanted, to the even neighbour both times
when it is halfway between two. -/

/-- A quotient, rounded. -/
def roundedDiv (n d : Nat) : Nat :=
  let above := 2 * (n % d)
  if above < d ∨ (above = d ∧ n / d % 2 = 0) then n / d else n / d + 1

/-- A number rounded to 53 binary digits, unless it is out of range. -/
def nearest? (n : Nat) : Option Nat :=
  let unit := 1 <<< (n.log2 - 52)
  let rounded := roundedDiv n unit * unit
  if rounded < 1 <<< 1024 then some rounded else none

/-- As many digits of a number as are wanted, and the power of ten of the first one. -/
def leadingDigits (count n : Nat) : List Char × Nat :=
  let digits := Nat.toDigits 10 n
  let surplus := digits.length - count
  let rounded := Nat.toDigits 10 (roundedDiv n (Nat.pow 10 surplus))
  (((rounded ++ List.replicate count '0').take count), rounded.length + surplus - 1)

/-- A point with the digits behind it. -/
def withPoint (alternate : Bool) (digits : List Char) : String :=
  if digits.isEmpty && !alternate then "" else "." ++ String.ofList digits

def withExponent (letter : Char) (alternate : Bool) (digits : List Char) (power : Nat) : String :=
  String.ofList (digits.take 1) ++ withPoint alternate (digits.drop 1) ++ letter.toString ++ "+" ++
    Text.zeroPadded 2 (toString power)

/-- Digits without the zeros at their end, the first one apart. -/
def withoutZeros (digits : List Char) : List Char :=
  digits.take 1 ++ ((digits.drop 1).reverse.dropWhile (· == '0')).reverse

/-- A number with a point: without an exponent (`f`), with one (`e`), or as it is shorter (`g`). -/
def realText (letter : Char) (alternate : Bool) (precision n : Nat) : String :=
  let exponent := if letter.isUpper then 'E' else 'e'
  match letter.toLower with
  | 'f' => toString n ++ withPoint alternate (List.replicate precision '0')
  | 'e' =>
      let (digits, power) := leadingDigits (precision + 1) n
      withExponent exponent alternate digits power
  | _ =>
      let count := max 1 precision
      let (digits, power) := leadingDigits count n
      let digits := if alternate then digits else withoutZeros digits
      if count ≤ power then withExponent exponent alternate digits power
      else
        String.ofList ((digits ++ List.replicate power '0').take (power + 1)) ++
          withPoint alternate (digits.drop (power + 1))

end Numbers

section Filling

/-! ## Filling in arguments -/

def Scalar.typeName : Scalar → String
  | .absent => "NoneType"
  | .number _ => "int"
  | .text _ => "str"

/-- A scalar as it is written in a program. -/
def Scalar.quoted : Scalar → String
  | .text s => Text.quoted s
  | a => a.shown

def Scalar.quotedAscii : Scalar → String
  | .text s => Text.quotedChars Text.isPrintableAscii s.toList
  | a => a.shown

/-- An argument as it is written, before it is brought to a width. -/
structure Field where
  /-- Sign and mark of the base; filling zeros stand behind them. -/
  front : String
  body : String
  isNumber : Bool

namespace Mark

variable (m : Mark)

def textField (precision : Option Nat) (s : String) : Field :=
  match precision with
  | some most => ⟨"", String.ofList (s.toList.take most), false⟩
  | none => ⟨"", s, false⟩

def signOf (n : Int) : String :=
  if n < 0 then "-" else if m.plus then "+" else if m.blank then " " else ""

def wholeField (precision : Option Nat) (letter : Char) (n : Int) : Field :=
  let (base, baseMark) :=
    if letter = 'o' then (8, "0o")
    else if letter = 'x' then (16, "0x")
    else if letter = 'X' then (16, "0X")
    else (10, "")
  let digits := (Nat.toDigits base n.natAbs).map fun c => if letter = 'X' then c.toUpper else c
  ⟨m.signOf n ++ (if m.alternate then baseMark else ""),
    Text.zeroPadded (precision.getD 0) (String.ofList digits), true⟩

def realField (precision : Option Nat) (letter : Char) (n : Int) : Except FormatFault Field :=
  match nearest? n.natAbs with
  | some size => .ok ⟨m.signOf n, realText letter m.alternate (precision.getD 6) size, true⟩
  | none => .error .tooLarge

def characterField : Scalar → Except FormatFault Field
  | .text s => if s.length = 1 then .ok ⟨"", s, false⟩ else .error .notCharacter
  | .absent => .error .notCharacter
  | .number n =>
      if n < 0 ∨ 0x110000 ≤ n then .error .noCodePoint
      else if n.toNat.isValidChar then .ok ⟨"", (Char.ofNat n.toNat).toString, false⟩
      else .error (.surrogate n.toNat)

/-- An argument in the way that a letter stands for. -/
def field (precision : Option Nat) (letter : Char) (index : Nat) (a : Scalar) :
    Except FormatFault Field :=
  if letter = 's' then .ok (textField precision a.shown)
  else if letter = 'r' then .ok (textField precision a.quoted)
  else if letter = 'a' then .ok (textField precision a.quotedAscii)
  else if letter = 'c' then characterField a
  else if letter ∈ ['d', 'i', 'u'] then
    match a with
    | .number n => .ok (m.wholeField precision letter n)
    | a => .error (.notNumber letter a.typeName)
  else if letter ∈ ['o', 'x', 'X'] then
    match a with
    | .number n => .ok (m.wholeField precision letter n)
    | a => .error (.notWhole letter a.typeName)
  else if letter ∈ ['e', 'f', 'g', 'E', 'F', 'G'] then
    match a with
    | .number n => m.realField precision letter n
    | a => .error (.notReal a.typeName)
  else .error (.unknownMark letter index)

/-- A field at a width; a negative one stands for a field at the left. -/
def justified (width : Int) (f : Field) : String :=
  let missing := width.natAbs - (f.front.length + f.body.length)
  let filling (c : Char) : String := String.ofList (List.replicate missing c)
  if m.left ∨ width < 0 then f.front ++ f.body ++ filling ' '
  else if m.zeros ∧ f.isNumber then f.front ++ filling '0' ++ f.body
  else filling ' ' ++ f.front ++ f.body

end Mark

/-- The first argument and those behind it. -/
def takeArgument : List Scalar → Except FormatFault (Scalar × List Scalar)
  | [] => .error .tooFew
  | a :: more => .ok (a, more)

/-- The size of an amount, and the arguments that are left. -/
def takeAmount : Option Amount → List Scalar → Except FormatFault (Option Int × List Scalar)
  | none, arguments => .ok (none, arguments)
  | some (.digits n), arguments => .ok (some n, arguments)
  | some .argument, arguments => do
      match ← takeArgument arguments with
      | (.number n, more) => .ok (some n, more)
      | _ => .error .notAmount

/-- What a mark with its letter stands for, and the arguments that are left. -/
def Mark.fill (m : Mark) (letter : Option (Char × Nat)) (arguments : List Scalar) :
    Except FormatFault (String × List Scalar) := do
  let (width, arguments) ← takeAmount m.width arguments
  let (precision, arguments) ← takeAmount m.precision arguments
  match letter with
  | none => .error .incomplete
  | some (letter, index) => do
      let (a, arguments) ← takeArgument arguments
      let f ← m.field (precision.map Int.toNat) letter index a
      .ok (m.justified (width.getD 0) f, arguments)

def fillPieces : List Piece → List Scalar → Except FormatFault String
  | [], [] => .ok ""
  | [], _ :: _ => .error .tooMany
  | .char c :: rest, arguments => (fillPieces rest arguments).map (c.toString ++ ·)
  | .mark m letter :: rest, arguments =>
      match m.fill letter arguments with
      | .ok (s, more) => (fillPieces rest more).map (s ++ ·)
      | .error fault => .error fault
  | .named :: _, _ => .error .named

/-- A message with its arguments; without arguments it stands as it is. -/
def fill (message : String) (arguments : List Scalar) : Except FormatFault String :=
  if arguments.isEmpty then .ok message else fillPieces (pieces message) arguments

end Filling

end ApkFormats.Log
