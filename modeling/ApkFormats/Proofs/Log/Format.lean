import ApkFormats.Log.Format
import ApkFormats.Note

/-!
# What messages with marks say

A message can be put together from parts, where a part is a text or a value that
a mark stands for.  Filling in the values gives the parts in their order, each as
it is shown; no text of a value is taken for a mark.

* `Part`: a part of a message, with its spelling, its arguments and its text;
* `fillPieces_parts`: a message is filled part by part;
* `Note.parts`: the parts of the remarks of a decoder;
* `Note.fill_parts`: the wording of a remark is its message with the values filled in.
-/

namespace ApkFormats

namespace Log

section Parts

/-! ## Parts of a message -/

/-- A part of a message. -/
inductive Part where
  | plain (s : String)
  | shown (a : Scalar)
  | quoted (a : Scalar)
  | decimal (n : Int)
  | hex (n : Int)
  deriving DecidableEq, Repr

namespace Part

/-- A part as it is spelled in a message; the percent signs of a text are doubled. -/
def spelled : Part → List Char
  | .plain s => s.toList.flatMap fun c => if c = '%' then ['%', '%'] else [c]
  | .shown _ => ['%', 's']
  | .quoted _ => ['%', 'r']
  | .decimal _ => ['%', 'd']
  | .hex _ => ['%', '#', 'x']

def arguments : Part → List Scalar
  | .plain _ => []
  | .shown a => [a]
  | .quoted a => [a]
  | .decimal n => [.number n]
  | .hex n => [.number n]

/-- What a part says. -/
def text : Part → String
  | .plain s => s
  | .shown a => a.shown
  | .quoted a => a.quoted
  | .decimal n => toString n
  | .hex n => Text.hex n

end Part

variable {m : Mark} {letter : Char} {index : Nat} {a : Scalar}

/-- Without a width a field stands as it is. -/
theorem justified_zero (m : Mark) (f : Field) : m.justified 0 f = f.front ++ f.body := by
  unfold Mark.justified
  split
  · simp
  · split <;> simp

theorem decimal_eq (n : Int) :
    (Mark.wholeField {} none 'd' n).front ++ (Mark.wholeField {} none 'd' n).body =
      toString n := by
  have hfront : (Mark.wholeField {} none 'd' n).front = if n < 0 then "-" else "" := by
    simp [Mark.wholeField, Mark.signOf]
  have hbody : (Mark.wholeField {} none 'd' n).body = Nat.repr n.natAbs := by
    simp [Mark.wholeField, Text.zeroPadded, Nat.repr]
  rw [hfront, hbody]
  cases n with
  | ofNat n => exact String.empty_append
  | negSucc n =>
      rw [if_pos (Int.negSucc_lt_zero n)]
      rfl

theorem hex_eq (n : Int) :
    (Mark.wholeField { alternate := true } none 'x' n).front ++
      (Mark.wholeField { alternate := true } none 'x' n).body = Text.hex n := by
  simp [Mark.wholeField, Mark.signOf, Text.hex, Text.signedHex, Text.hexDigits, Text.zeroPadded]

/-- Characters with the percent signs doubled. -/
theorem piecesFrom_plain (cs rest : List Char) (index : Nat) :
    ∃ behind, piecesFrom index none
        (cs.flatMap (fun c => if c = '%' then ['%', '%'] else [c]) ++ rest) =
      cs.map Piece.char ++ piecesFrom behind none rest := by
  induction cs generalizing index with
  | nil => exact ⟨index, rfl⟩
  | cons c cs ih =>
      by_cases hc : c = '%'
      · obtain ⟨behind, h⟩ := ih (index + 2)
        refine ⟨behind, ?_⟩
        simp [hc, piecesFrom, h]
      · obtain ⟨behind, h⟩ := ih (index + 1)
        refine ⟨behind, ?_⟩
        simp [hc, piecesFrom, h]

theorem fillPieces_chars (cs : List Char) (rest : List Piece) (arguments : List Scalar) :
    fillPieces (cs.map Piece.char ++ rest) arguments =
      (fillPieces rest arguments).map (String.ofList cs ++ ·) := by
  induction cs with
  | nil => cases h : fillPieces rest arguments <;> simp [h, Except.map]
  | cons c cs ih =>
      rw [List.map_cons, List.cons_append, fillPieces, ih]
      cases fillPieces rest arguments with
      | error fault => rfl
      | ok s =>
          rw [String.ofList_cons]
          simp [Except.map, String.append_assoc]

theorem fillPieces_mark {f : Field} (hwidth : m.width = none) (hprecision : m.precision = none)
    (hfield : m.field none letter index a = .ok f) (rest : List Piece) (arguments : List Scalar) :
    fillPieces (.mark m (some (letter, index)) :: rest) (a :: arguments) =
      (fillPieces rest arguments).map (f.front ++ f.body ++ ·) := by
  have hmark : m.fill (some (letter, index)) (a :: arguments) =
      .ok (f.front ++ f.body, arguments) := by
    simp [Mark.fill, hwidth, hprecision, takeAmount, takeArgument, bind, Except.bind, hfield,
      justified_zero]
  rw [fillPieces, hmark]

/-- A message that begins with a part says what the part says, and then what the rest says. -/
theorem fillPieces_part (part : Part) (rest : List Char) (index : Nat) (arguments : List Scalar) :
    ∃ behind, fillPieces (piecesFrom index none (part.spelled ++ rest))
        (part.arguments ++ arguments) =
      (fillPieces (piecesFrom behind none rest) arguments).map (part.text ++ ·) := by
  cases part with
  | plain s =>
      obtain ⟨behind, h⟩ := piecesFrom_plain s.toList rest index
      refine ⟨behind, ?_⟩
      rw [Part.spelled, h, Part.arguments, List.nil_append, fillPieces_chars]
      simp [Part.text]
  | shown a =>
      refine ⟨index + 2, (fillPieces_mark rfl rfl rfl _ _).trans ?_⟩
      rw [Mark.textField, String.empty_append]
      rfl
  | quoted a =>
      refine ⟨index + 2, (fillPieces_mark rfl rfl rfl _ _).trans ?_⟩
      rw [Mark.textField, String.empty_append]
      rfl
  | decimal n =>
      refine ⟨index + 2, (fillPieces_mark rfl rfl rfl _ _).trans ?_⟩
      rw [decimal_eq]
      rfl
  | hex n =>
      refine ⟨index + 3, (fillPieces_mark rfl rfl rfl _ _).trans ?_⟩
      rw [hex_eq]
      rfl

/-- A message of parts says what its parts say, in their order. -/
theorem fillPieces_parts (parts : List Part) (index : Nat) :
    fillPieces (piecesFrom index none (parts.flatMap Part.spelled))
        (parts.flatMap Part.arguments) =
      .ok (String.join (parts.map Part.text)) := by
  induction parts generalizing index with
  | nil => rfl
  | cons part parts ih =>
      obtain ⟨behind, h⟩ := fillPieces_part part (parts.flatMap Part.spelled) index
        (parts.flatMap Part.arguments)
      rw [List.flatMap_cons, List.flatMap_cons, h, ih behind, List.map_cons, String.join_cons]
      rfl

/-- The message of parts, with its marks. -/
def messageOf (parts : List Part) : String :=
  String.ofList (parts.flatMap Part.spelled)

theorem fill_parts {parts : List Part} (hsome : parts.flatMap Part.arguments ≠ []) :
    fill (messageOf parts) (parts.flatMap Part.arguments) =
      .ok (String.join (parts.map Part.text)) := by
  rw [fill, if_neg (by simpa using hsome), pieces, messageOf, String.toList_ofList]
  exact fillPieces_parts parts 0

end Parts

end Log

namespace Note

open Log Log.Part

/-! ## Remarks of a decoder -/

/-- The parts of a remark. -/
def parts : Note → List Part
  | .styleSpans count offset =>
      [plain "Ignoring ", decimal count, plain " style spans in string pool at ", hex offset]
  | .stringPool offset count utf8 =>
      [plain "String pool at ", hex offset, plain ": ", decimal count, plain " ",
        shown (.text (if utf8 then "UTF-8" else "UTF-16")), plain " strings"]
  | .skippedRecord tag position =>
      [plain "Skipping record ", hex tag, plain " before first start tag at ", hex position]
  | .ignoredRecord tag position => [plain "Ignoring record ", hex tag, plain " at ", hex position]
  | .dexFile version strings types methods classes =>
      [plain "Decoded dex ", shown (.text version), plain ": ", decimal strings, plain " strings, ",
        decimal types, plain " types, ", decimal methods, plain " methods, ", decimal classes,
        plain " classes"]
  | .secondPool position =>
      [plain "Second global string pool at ", hex position, plain " replaces the first"]
  | .package name id types keys =>
      [plain "Package ", quoted (.text name), plain " (id ", hex id, plain "): ", decimal types,
        plain " types, ", decimal keys, plain " keys"]
  | .table strings packages =>
      [plain "Decoded resource table: ", decimal strings, plain " strings, packages ",
        shown (.text (", ".intercalate packages))]

theorem text_eq_join (n : Note) : n.text = String.join (n.parts.map Part.text) := by
  unfold Note.text
  cases n <;>
    simp only [Note.parts, List.map_cons, List.map_nil, Part.text, Scalar.shown, Scalar.quoted,
      String.join_cons, String.join_nil, String.append_assoc, String.append_empty] <;> rfl

/-- The wording of a remark is its message with the values in the places of the marks. -/
theorem fill_parts (n : Note) :
    fill (messageOf n.parts) (n.parts.flatMap Part.arguments) = .ok n.text := by
  rw [text_eq_join]
  refine Log.fill_parts ?_
  cases n <;> exact List.cons_ne_nil _ _

example (count offset : Nat) :
    messageOf (Note.styleSpans count offset).parts =
      "Ignoring %d style spans in string pool at %#x" := by
  rfl

end Note

end ApkFormats
