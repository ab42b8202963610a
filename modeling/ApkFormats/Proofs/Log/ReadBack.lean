import ApkFormats.Log.Json.Reader
import ApkFormats.Proofs.Resource.Identifiers
import ApkFormats.Proofs.Text
import Mathlib.Data.List.TakeWhile

/-!
# JSON objects are read back

An object that is written as JSON is read back by `Json.parse?`, and its text is
printable ASCII, whatever texts it holds.

* `Json.Reader.run?_jsonString`: a text is read as the units of its characters;
* `Json.word?_number`: the text of a number is a word that stands for it;
* `Json.Reads`: some characters bring a reader behind a value, wherever one may
  stand; a word is only finished by the character behind it;
* `parse?_json`: an object is read back, its members in their order;
* `printable_json`: the characters of its text.
-/

namespace ApkFormats.Log

namespace Json

namespace Reader

variable {r r' : Reader} {cs : List Char} {p : Place} {outer : List Frame}

theorem run?_nil (r : Reader) : r.run? [] = some r :=
  rfl

theorem run?_cons (r : Reader) (c : Char) (cs : List Char) :
    r.run? (c :: cs) = (r.step c).bind fun r' => r'.run? cs :=
  rfl

theorem run?_append (r : Reader) (front back : List Char) :
    r.run? (front ++ back) = (r.run? front).bind fun r' => r'.run? back :=
  List.foldlM_append

theorem run?_append_of_some (h : r.run? cs = some r') (back : List Char) :
    r.run? (cs ++ back) = r'.run? back := by
  rw [run?_append, h, Option.bind_some]

section Texts

/-! ## Texts -/

/-- The escape of a unit is read as the unit. -/
theorem run?_unitEscape {u : Nat} (hu : u < 0x10000) (p : Place) (units : List Nat) :
    run? ⟨p, .text units⟩ (unitEscape u).toList = some ⟨p, .text (u :: units)⟩ := by
  have hlength : (Text.hexBare 4 u).toList.length = 4 := Text.length_hexBare (by decide) hu
  have hvalue := Text.hexValue?_hexBare 4 u
  obtain ⟨a, b, c, d, hdigits⟩ := List.length_eq_four.mp hlength
  rw [hdigits] at hvalue
  rw [unitEscape, String.toList_append, hdigits]
  simp [run?_cons, run?_nil, step, hvalue]

theorem run?_unitEscapes {us : List Nat} (hus : ∀ u ∈ us, u < 0x10000) (p : Place)
    (units : List Nat) :
    run? ⟨p, .text units⟩ (String.join (us.map unitEscape)).toList =
      some ⟨p, .text (us.reverse ++ units)⟩ := by
  induction us generalizing units with
  | nil => simp [run?_nil]
  | cons u us ih =>
      obtain ⟨hu, hus⟩ := List.forall_mem_cons.mp hus
      rw [List.map_cons, String.join_cons, String.toList_append,
        run?_append_of_some (run?_unitEscape hu p units), ih hus, List.reverse_cons,
        List.append_assoc, List.singleton_append]

theorem lt_of_mem_encodeChar {c : Char} {u : Nat} (hu : u ∈ Text.Utf16.encodeChar c) :
    u < 0x10000 := by
  have hmem : u ∈ Text.Utf16.encode [c] := by
    simpa [Text.Utf16.encode] using hu
  exact Text.Utf16.lt_of_mem_encode hmem

/-- An escape of a single letter is read as what it stands for. -/
theorem run?_escape {c letter : Char} (hletter : escapes.lookup letter = some c)
    (hcode : letter ≠ 'u') (p : Place) (units : List Nat) :
    run? ⟨p, .text units⟩ ['\\', letter] = some ⟨p, .text (c.toNat :: units)⟩ := by
  simp [run?_cons, run?_nil, step, hletter, hcode]

theorem run?_printable {c : Char} (hquote : c ≠ '"') (hback : c ≠ '\\') (hprint : ' ' ≤ c)
    (p : Place) (units : List Nat) :
    run? ⟨p, .text units⟩ [c] =
      some ⟨p, .text ((Text.Utf16.encodeChar c).reverse ++ units)⟩ := by
  simp [run?_cons, run?_nil, step, hquote, hback, hprint]

/-- A character is read as its units, however it is written. -/
theorem run?_jsonChar (c : Char) (p : Place) (units : List Nat) :
    run? ⟨p, .text units⟩ (jsonChar c).toList =
      some ⟨p, .text ((Text.Utf16.encodeChar c).reverse ++ units)⟩ := by
  unfold jsonChar
  split_ifs with hquote hback hline hreturn htab hbackspace hfeed hprint
  · subst hquote
    exact run?_escape rfl (by decide) p units
  · subst hback
    exact run?_escape rfl (by decide) p units
  · subst hline
    exact run?_escape rfl (by decide) p units
  · subst hreturn
    exact run?_escape rfl (by decide) p units
  · subst htab
    exact run?_escape rfl (by decide) p units
  · subst hbackspace
    exact run?_escape rfl (by decide) p units
  · subst hfeed
    exact run?_escape rfl (by decide) p units
  · rw [Char.toString, String.toList_singleton]
    exact run?_printable hquote hback hprint.1 p units
  · exact run?_unitEscapes (fun u hu => lt_of_mem_encodeChar hu) p units

theorem run?_jsonChars (cs : List Char) (p : Place) (units : List Nat) :
    run? ⟨p, .text units⟩ (String.join (cs.map jsonChar)).toList =
      some ⟨p, .text ((Text.Utf16.encode cs).reverse ++ units)⟩ := by
  induction cs generalizing units with
  | nil => simp [run?_nil, Text.Utf16.encode_nil]
  | cons c cs ih =>
      rw [List.map_cons, String.join_cons, String.toList_append,
        run?_append_of_some (run?_jsonChar c p units), ih, Text.Utf16.encode_cons,
        List.reverse_append, List.append_assoc]

/-- A text is read as its characters, as a key or as a value. -/
theorem run?_jsonString (s : String) (p : Place) :
    run? ⟨p, .between⟩ (jsonString s).toList = (p.text? s).map (⟨·, .between⟩) := by
  have hend : endText? p (Text.Utf16.encode s.toList).reverse = p.text? s := by
    simp [endText?, Text.Utf16.decode_encode, Except.toOption]
  have hopen : step ⟨p, .between⟩ '"' = some ⟨p, .text []⟩ := rfl
  have hclose (units : List Nat) :
      step ⟨p, .text units⟩ '"' = (endText? p units).map (⟨·, .between⟩) := rfl
  have htoList : (jsonString s).toList =
      '"' :: ((String.join (s.toList.map jsonChar)).toList ++ ['"']) := by
    simp [jsonString]
  rw [htoList, run?_cons, hopen, Option.bind_some,
    run?_append_of_some (run?_jsonChars s.toList p []), run?_cons, hclose, List.append_nil, hend]
  exact Option.bind_fun_some _

end Texts

end Reader

section Words

/-! ## Words -/

/-- Digits of a number start with a zero only when the number is zero. -/
theorem isWhole_toDigits (n : Nat) : isWhole (Nat.toDigits 10 n) = true := by
  rcases Nat.eq_zero_or_pos n with rfl | hpos
  · decide
  have hfirst : (Nat.toDigits 10 n).head? ≠ some '0' := by
    induction n using Nat.strongRecOn with
    | ind n ih =>
        rw [Nat.toDigits_eq_if (by decide)]
        split
        · simp
          omega
        · have hfront := ih (n / 10) (by omega) (by omega)
          rwa [List.head?_append_of_ne_nil _ Nat.toDigits_ne_nil]
  simp [isWhole, hfirst, Nat.toDigits_ne_nil]

theorem unsignedNumber?_toDigits (n : Nat) :
    unsignedNumber? (Nat.toDigits 10 n) = some (n, 0) := by
  have hdigits : ∀ c ∈ Nat.toDigits 10 n, c.isDigit = true := fun c hc =>
    Nat.isDigit_of_mem_toDigits (by decide) (by decide) hc
  have hwhole : (Nat.toDigits 10 n).takeWhile Char.isDigit = Nat.toDigits 10 n :=
    List.takeWhile_eq_self_iff.mpr hdigits
  have hrest : (Nat.toDigits 10 n).dropWhile Char.isDigit = [] :=
    List.dropWhile_eq_nil_iff.mpr hdigits
  simp [unsignedNumber?, hwhole, hrest, fraction?, exponent?, isWhole_toDigits, decimalValue,
    Nat.ofDigitChars_ten_toDigits]

/-- A number is written as its digits, behind a sign when it is negative. -/
theorem toList_number (n : Int) :
    (toString n).toList = (if n < 0 then ['-'] else []) ++ Nat.toDigits 10 n.natAbs := by
  cases n with
  | ofNat n =>
      have hsign : ¬Int.ofNat n < 0 := Int.not_lt.mpr (Int.natCast_nonneg n)
      rw [if_neg hsign, List.nil_append]
      exact Nat.toList_repr
  | negSucc n =>
      rw [if_pos (Int.negSucc_lt_zero n), Int.toString_eq_repr, Int.repr, String.toList_append,
        Nat.toList_repr]
      rfl

theorem of_mem_number {n : Int} {c : Char} (hc : c ∈ (toString n).toList) :
    c = '-' ∨ c.isDigit = true := by
  rw [toList_number, List.mem_append] at hc
  rcases hc with hc | hc
  · refine .inl (List.mem_singleton.mp ?_)
    split at hc
    · exact hc
    · cases hc
  · exact .inr (Nat.isDigit_of_mem_toDigits (by decide) (Nat.le_refl 10) hc)

/-- A word that starts like a number is read as one. -/
theorem word?_cons {c : Char} (hc : c = '-' ∨ c.isDigit = true) (cs : List Char) :
    word? (c :: cs) = number? (c :: cs) := by
  have hnull : c ≠ 'n' := by
    rintro rfl
    simp at hc
  have htrue : c ≠ 't' := by
    rintro rfl
    simp at hc
  have hfalse : c ≠ 'f' := by
    rintro rfl
    simp at hc
  simp [word?, hnull, htrue, hfalse]

/-- The text of a number is a word that stands for it. -/
theorem word?_number (n : Int) : word? (toString n).toList = some (.number n 0) := by
  have hdigits := unsignedNumber?_toDigits n.natAbs
  have hword {c : Char} {cs : List Char} (hcs : (toString n).toList = c :: cs) :
      word? (toString n).toList = number? (c :: cs) := by
    have hc : c ∈ (toString n).toList := hcs ▸ List.mem_cons_self
    rw [hcs, word?_cons (of_mem_number hc)]
  have htoList := toList_number n
  split at htoList
  · rename_i hneg
    have habs : -(n.natAbs : Int) = n := by omega
    rw [List.singleton_append] at htoList
    rw [hword htoList, number?, hdigits, Option.map_some, habs]
  · rename_i hpos
    have habs : (n.natAbs : Int) = n := by omega
    obtain ⟨c, cs, hcons⟩ :=
      List.exists_cons_of_ne_nil (Nat.toDigits_ne_nil (n := n.natAbs) (b := 10))
    have hdigit : c.isDigit = true :=
      Nat.isDigit_of_mem_toDigits (n := n.natAbs) (by decide) (Nat.le_refl 10) (by simp [hcons])
    have hsign : c ≠ '-' := by
      rintro rfl
      cases hdigit
    rw [hcons, List.nil_append] at htoList
    rw [hcons] at hdigits
    rw [hword htoList]
    simp [number?, hsign, hdigits, habs]

/-- A reader goes on in a word as long as there are characters of words. -/
theorem run?_more {cs : List Char} (hword : ∀ c ∈ cs, isWordChar c = true) (p : Place)
    (before : List Char) :
    Reader.run? ⟨p, .word before⟩ cs = some ⟨p, .word (cs.reverse ++ before)⟩ := by
  induction cs generalizing before with
  | nil => rfl
  | cons c cs ih =>
      obtain ⟨hc, hcs⟩ := List.forall_mem_cons.mp hword
      have hstep : Reader.step ⟨p, .word before⟩ c = some ⟨p, .word (c :: before)⟩ := by
        simp [Reader.step, hc]
      rw [Reader.run?_cons, hstep, Option.bind_some, ih hcs, List.reverse_cons, List.append_assoc,
        List.singleton_append]

theorem run?_word {cs : List Char} (hne : cs ≠ []) (hword : ∀ c ∈ cs, isWordChar c = true)
    (p : Place) : Reader.run? ⟨p, .between⟩ cs = some ⟨p, .word cs.reverse⟩ := by
  obtain ⟨c, cs, rfl⟩ := List.exists_cons_of_ne_nil hne
  obtain ⟨hc, hcs⟩ := List.forall_mem_cons.mp hword
  have hblank : isBlank c = false := by
    rw [Bool.eq_false_iff]
    intro hblank
    simp only [isBlank, Bool.or_eq_true, beq_iff_eq] at hblank
    rcases hblank with ((rfl | rfl) | rfl) | rfl
    all_goals cases hc
  have hquote : c ≠ '"' := by
    rintro rfl
    cases hc
  have hstep : Reader.step ⟨p, .between⟩ c = some ⟨p, .word [c]⟩ := by
    simp [Reader.step, Reader.stepBetween, hblank, hquote, hc]
  rw [Reader.run?_cons, hstep, Option.bind_some, run?_more hcs, List.reverse_cons]

end Words

section Values

/-! ## Values -/

/-- Some characters bring a reader behind a value, wherever one may stand and as soon as a
character follows that is in no word. -/
def Reads (cs : List Char) (v : Json) : Prop :=
  ∀ ⦃p : Place⦄ ⦃outer : List Frame⦄, p.frames? = some outer →
    ∀ (c : Char) (rest : List Char), isWordChar c = false →
      Reader.run? ⟨p, .between⟩ (cs ++ c :: rest) =
        Reader.run? ⟨.behind v outer, .between⟩ (c :: rest)

variable {p : Place} {outer : List Frame}

theorem reads_of_run? {cs : List Char} {v : Json}
    (h : ∀ (p : Place) (outer : List Frame), p.frames? = some outer →
      Reader.run? ⟨p, .between⟩ cs = some ⟨.behind v outer, .between⟩) : Reads cs v :=
  fun p outer hp c rest _ => Reader.run?_append_of_some (h p outer hp) (c :: rest)

theorem reads_word {cs : List Char} {v : Json} (hne : cs ≠ [])
    (hword : ∀ c ∈ cs, isWordChar c = true) (hvalue : word? cs = some v) : Reads cs v := by
  intro p outer hp c rest hc
  have hend : Reader.step ⟨p, .word cs.reverse⟩ c = Reader.stepBetween (.behind v outer) c := by
    simp [Reader.step, hc, Reader.endWord?, hvalue, Place.value?, hp]
  rw [Reader.run?_append_of_some (run?_word hne hword p), Reader.run?_cons, hend]
  rfl

theorem text?_of_frames? (hp : p.frames? = some outer) (s : String) :
    p.text? s = some (.behind (.text s) outer) := by
  have hvalue : p.text? s = p.value? (.text s) := by
    cases p with
    | firstKey => cases hp
    | key => cases hp
    | _ => rfl
  rw [hvalue, Place.value?, hp, Option.map_some]

theorem reads_jsonString (s : String) : Reads (jsonString s).toList (.text s) := by
  refine reads_of_run? fun p outer hp => ?_
  rw [Reader.run?_jsonString, text?_of_frames? hp, Option.map_some]

theorem reads_number (n : Int) : Reads (toString n).toList (.number n 0) := by
  refine reads_word ?_ (fun c hc => ?_) (word?_number n)
  · rw [toList_number]
    exact List.append_ne_nil_of_right_ne_nil _ Nat.toDigits_ne_nil
  · rcases of_mem_number hc with rfl | hdigit
    · rfl
    · simp [isWordChar, Char.isAlphanum, hdigit]

theorem reads_scalar (s : Scalar) : Reads s.json.toList s.toJson := by
  cases s with
  | absent => exact reads_word (by decide) (List.all_eq_true.mp (by decide)) rfl
  | number n => exact reads_number n
  | text s => exact reads_jsonString s

end Values

section Rows

/-! ## Arrays and objects -/

/-- The places of a row of items with commas between them. -/
structure Row (β : Type) where
  /-- Whether an item may stand at a place, with some items before it, the last one first. -/
  before : List β → Place → Prop
  /-- The place behind some items, the last one first. -/
  behind : List β → Place
  comma : ∀ done, ∃ p, (behind done).comma? = some p ∧ before done p

/-- The items of an array. -/
def arrayRow (outer : List Frame) : Row Json where
  before done p := p.frames? = some (.items done :: outer)
  behind done := .behindItem done outer
  comma _ := ⟨_, rfl, rfl⟩

/-- The members of an object. -/
def objectRow (outer : List Frame) : Row (String × Json) where
  before done p := ∀ s, p.text? s = some (.colon done s outer)
  behind done := .behindMember done outer
  comma _ := ⟨_, rfl, fun _ => rfl⟩

variable {α β : Type} {row : Row β} {f : α → String} {g : α → β} {items : List α}
variable {p : Place} {outer : List Frame} {done : List β} {c : Char}

/-- Some characters bring a reader behind an item of a row. -/
def Row.Reads (row : Row β) (cs : List Char) (b : β) : Prop :=
  ∀ ⦃done : List β⦄ ⦃p : Place⦄, row.before done p →
    ∀ (c : Char) (rest : List Char), isWordChar c = false →
      Reader.run? ⟨p, .between⟩ (cs ++ c :: rest) =
        Reader.run? ⟨row.behind (b :: done), .between⟩ (c :: rest)

/-- A mark that fits brings a reader to the place behind it. -/
theorem run?_mark {p' : Place} (hmark : p.mark? c = some p') (rest : List Char) :
    Reader.run? ⟨p, .between⟩ (c :: rest) = Reader.run? ⟨p', .between⟩ rest := by
  have hstep : Reader.step ⟨p, .between⟩ c = some ⟨p', .between⟩ := by
    have hmarks : c ∈ ['[', ']', '\x7b', '\x7d', ',', ':'] := by
      unfold Place.mark? at hmark
      split_ifs at hmark
      all_goals simp [*]
    have hplain : isBlank c = false ∧ c ≠ '"' ∧ isWordChar c = false := by
      simp only [List.mem_cons, List.not_mem_nil, or_false] at hmarks
      rcases hmarks with rfl | rfl | rfl | rfl | rfl | rfl <;> decide
    obtain ⟨hblank, hquote, hword⟩ := hplain
    simp [Reader.step, Reader.stepBetween, hblank, hquote, hword, hmark]
  rw [Reader.run?_cons, hstep, Option.bind_some]

theorem run?_separator {p' : Place} (hcomma : p'.comma? = some p) (rest : List Char) :
    Reader.run? ⟨p', .between⟩ (',' :: ' ' :: rest) = Reader.run? ⟨p, .between⟩ rest := by
  have hmark : p'.mark? ',' = some p := by
    simp [Place.mark?, hcomma]
  rw [run?_mark hmark]
  rfl

/-- A row is read item by item. -/
theorem Row.run?_intercalate (hitems : ∀ a ∈ items, row.Reads (f a).toList (g a))
    (hne : items ≠ []) (hp : row.before done p) (hc : isWordChar c = false) (rest : List Char) :
    Reader.run? ⟨p, .between⟩ ((", ".intercalate (items.map f)).toList ++ c :: rest) =
      Reader.run? ⟨row.behind ((items.map g).reverse ++ done), .between⟩ (c :: rest) := by
  induction items generalizing p done with
  | nil => exact absurd rfl hne
  | cons a items ih =>
      obtain ⟨ha, hitems⟩ := List.forall_mem_cons.mp hitems
      cases items with
      | nil => exact ha hp c rest hc
      | cons b items =>
          obtain ⟨p', hcomma, hp'⟩ := row.comma (g a :: done)
          have hnext := ih hitems (List.cons_ne_nil b items) hp'
          have htoList : (", ".intercalate ((a :: b :: items).map f)).toList ++ c :: rest =
              (f a).toList ++ ',' :: ' ' ::
                ((", ".intercalate ((b :: items).map f)).toList ++ c :: rest) := by
            simp
          rw [htoList, ha hp ',' _ rfl, run?_separator hcomma, hnext]
          simp

theorem reads_list (items : List Scalar) :
    Reads (JsonValue.list items).json.toList (JsonValue.list items).toJson := by
  refine reads_of_run? fun p outer hp => ?_
  have hopen : p.mark? '[' = some (.firstItem outer) := by
    simp [Place.mark?, hp]
  have htoList : (JsonValue.list items).json.toList =
      '[' :: ((", ".intercalate (items.map Scalar.json)).toList ++ [']']) := by
    simp [JsonValue.json]
  rw [htoList, run?_mark hopen]
  rcases eq_or_ne items [] with rfl | hne
  · rfl
  · have hclose : (Place.behindItem (items.map Scalar.toJson).reverse outer).mark? ']' =
        some (.behind (JsonValue.list items).toJson outer) := by
      simp [Place.mark?, Place.endArray?, JsonValue.toJson]
    have hfirst : (arrayRow outer).before [] (.firstItem outer) := rfl
    rw [Row.run?_intercalate (fun a _ _ _ hp' => reads_scalar a hp') hne hfirst rfl,
      List.append_nil]
    exact run?_mark hclose []

theorem reads_value (v : JsonValue) : Reads v.json.toList v.toJson := by
  cases v with
  | scalar s => exact reads_scalar s
  | list items => exact reads_list items

/-- A member is read as its key and its value. -/
theorem reads_member (outer : List Frame) (m : String × JsonValue) :
    (objectRow outer).Reads (jsonString m.1 ++ ": " ++ m.2.json).toList (m.1, m.2.toJson) := by
  intro done p hp c rest hc
  have hkey : Reader.run? ⟨p, .between⟩ (jsonString m.1).toList =
      some ⟨.colon done m.1 outer, .between⟩ := by
    rw [Reader.run?_jsonString, hp, Option.map_some]
  have htoList : (jsonString m.1 ++ ": " ++ m.2.json).toList ++ c :: rest =
      (jsonString m.1).toList ++ ':' :: ' ' :: (m.2.json.toList ++ c :: rest) := by
    simp
  have hcolon : (Place.colon done m.1 outer).mark? ':' =
      some (.value (.members done m.1 :: outer)) := rfl
  have hvalue : (Place.value (.members done m.1 :: outer)).frames? =
      some (.members done m.1 :: outer) := rfl
  rw [htoList, Reader.run?_append_of_some hkey, run?_mark hcolon]
  exact reads_value m.2 hvalue c rest hc

end Rows

end Json

/-- An object is read back, its members in their order. -/
theorem parse?_json (members : Members) : Json.parse? members.json = some members.toJson := by
  have hopen : (Json.Place.value []).mark? '\x7b' = some (.firstKey []) := rfl
  have htoList : members.json.toList =
      '\x7b' :: ((", ".intercalate (members.map fun m => jsonString m.1 ++ ": " ++ m.2.json)).toList
        ++ ['\x7d']) := by
    simp [Members.json]
  rw [Json.parse?, htoList, Json.Reader.start, Json.run?_mark hopen]
  rcases eq_or_ne members [] with rfl | hne
  · rfl
  · have hclose : (Json.Place.behindMember (members.map fun m => (m.1, m.2.toJson)).reverse
        []).mark? '\x7d' = some (.finished members.toJson) := by
      simp [Json.Place.mark?, Json.Place.endObject?, Json.Place.behind, Members.toJson]
    have hfirst : (Json.objectRow []).before [] (.firstKey []) := fun _ => rfl
    rw [Json.Row.run?_intercalate (fun m _ => Json.reads_member [] m) hne hfirst rfl,
      List.append_nil]
    exact congrArg (Option.bind · Json.Reader.value?) (Json.run?_mark hclose [])

section Characters

/-! ## The characters of an object -/

/-- Whether a text holds printable ASCII characters only. -/
def Printable (s : String) : Prop :=
  ∀ c ∈ s.toList, ' ' ≤ c ∧ c ≤ '~'

variable {s t : String} {texts : List String}

instance : Decidable (Printable s) :=
  List.decidableBAll (fun c => ' ' ≤ c ∧ c ≤ '~') s.toList

theorem Printable.append (hs : Printable s) (ht : Printable t) : Printable (s ++ t) := by
  rw [Printable, String.toList_append]
  exact List.forall_mem_append.mpr ⟨hs, ht⟩

theorem printable_join (h : ∀ s ∈ texts, Printable s) : Printable (String.join texts) := by
  induction texts with
  | nil => decide
  | cons s texts ih =>
      obtain ⟨hs, htexts⟩ := List.forall_mem_cons.mp h
      rw [String.join_cons]
      exact hs.append (ih htexts)

theorem printable_of_between {a b c : Char} (ha : ' ' ≤ a) (hb : b ≤ '~') (h : a ≤ c ∧ c ≤ b) :
    ' ' ≤ c ∧ c ≤ '~' :=
  ⟨Char.le_trans ha h.1, Char.le_trans h.2 hb⟩

theorem printable_intercalate (hs : Printable s) (h : ∀ t ∈ texts, Printable t) :
    Printable (s.intercalate texts) := by
  induction texts with
  | nil => exact fun c hc => nomatch hc
  | cons t texts ih =>
      obtain ⟨ht, htexts⟩ := List.forall_mem_cons.mp h
      cases texts with
      | nil => exact ht
      | cons u texts =>
          rw [String.intercalate_cons_cons]
          exact (ht.append hs).append (ih htexts)

theorem printable_unitEscape (u : Nat) : Printable (unitEscape u) := by
  have hmark : Printable "\\u" := by decide
  refine hmark.append fun c hc => ?_
  have hsome : (Text.hexValue? (Text.hexBare 4 u).toList).isSome = true := by
    rw [Text.hexValue?_hexBare]
    rfl
  rcases Text.isSome_hexValue?_iff.mp hsome c hc with h | h | h
  all_goals exact printable_of_between (by decide) (by decide) h

theorem printable_jsonChar (c : Char) : Printable (jsonChar c) := by
  unfold jsonChar
  split_ifs with _ _ _ _ _ _ _ hprint
  -- the short escapes
  any_goals decide
  · intro c' hc
    rw [Char.toString, String.toList_singleton, List.mem_singleton] at hc
    exact hc ▸ hprint
  · refine printable_join fun s hs => ?_
    obtain ⟨u, -, rfl⟩ := List.mem_map.mp hs
    exact printable_unitEscape u

theorem printable_jsonString (s : String) : Printable (jsonString s) := by
  have hquote : Printable "\"" := by decide
  refine (hquote.append (printable_join fun t ht => ?_)).append hquote
  obtain ⟨c, -, rfl⟩ := List.mem_map.mp ht
  exact printable_jsonChar c

theorem printable_scalar (s : Scalar) : Printable s.json := by
  cases s with
  | absent => decide
  | number n =>
      intro c hc
      rcases Json.of_mem_number hc with rfl | hdigit
      · decide
      · have hbounds : '0' ≤ c ∧ c ≤ '9' := by
          simp only [Char.isDigit, Bool.and_eq_true, decide_eq_true_eq] at hdigit
          exact hdigit
        exact printable_of_between (by decide) (by decide) hbounds
  | text s => exact printable_jsonString s

theorem printable_value (v : JsonValue) : Printable v.json := by
  cases v with
  | scalar s => exact printable_scalar s
  | list items =>
      have hitems : Printable (", ".intercalate (items.map Scalar.json)) := by
        refine printable_intercalate (by decide) fun t ht => ?_
        obtain ⟨item, -, rfl⟩ := List.mem_map.mp ht
        exact printable_scalar item
      have hopen : Printable "[" := by decide
      have hclose : Printable "]" := by decide
      exact (hopen.append hitems).append hclose

/-- The text of an object is printable ASCII, whatever texts it holds. -/
theorem printable_json (members : Members) : Printable members.json := by
  have hmembers : Printable
      (", ".intercalate (members.map fun m => jsonString m.1 ++ ": " ++ m.2.json)) := by
    have hcolon : Printable ": " := by decide
    refine printable_intercalate (by decide) fun t ht => ?_
    obtain ⟨m, -, rfl⟩ := List.mem_map.mp ht
    exact ((printable_jsonString m.1).append hcolon).append (printable_value m.2)
  have hopen : Printable "\x7b" := by decide
  have hclose : Printable "\x7d" := by decide
  exact (hopen.append hmembers).append hclose

end Characters

end ApkFormats.Log
