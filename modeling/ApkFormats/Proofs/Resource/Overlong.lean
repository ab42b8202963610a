import ApkFormats.Proofs.Resource.Finding

/-!
# Lookups by words and by the number of the words

The number of a package and the index of an entry take up to 32 bits in a file,
and two and four digits in the text of a number.  The text of a larger one is
longer than a number may be, so it is no identifier.  Words are looked up by the
number that such a text spells all the same.

* `isSome_hexId?_hexText_iff`: a text is a number exactly when its parts have
  room;
* `Table.find_words`: then words and the number that they lead to are answered
  alike, and otherwise never;
* `Table.number_refused`: which happens in a package with a large number.
-/

namespace ApkFormats

namespace Text

theorem length_hexBare_eq (width n : Nat) :
    (hexBare width n).toList.length = max width (Nat.toDigits 16 n).length := by
  rw [toList_hexBare, List.length_append, List.length_replicate]
  omega

/-- A number fills its width exactly when it has room there. -/
theorem length_hexBare_eq_iff {width n : Nat} (hwidth : 0 < width) :
    (hexBare width n).toList.length = width ↔ n < 16 ^ width := by
  rw [length_hexBare_eq, ← Nat.length_toDigits_le_iff (by decide) hwidth]
  omega

end Text

namespace Resource

open Text

section Numbers

/-! ## Texts of numbers -/

variable {package type entry : Nat}

/-- A text is longer than a number may be exactly when one of its parts has no room. -/
theorem isSome_hexId?_hexText_iff (htype : type < 0x100) :
    (hexId? (hexText package type entry)).isSome = true ↔ package < 0x100 ∧ entry < 0x10000 := by
  constructor
  · intro h
    rw [hexId?, toList_hexText] at h
    simp only [bare] at h
    split at h
    · rename_i hlength
      have hfirst := length_hexBare_eq 2 package
      have hsecond := length_hexBare_eq 2 type
      have hthird := length_hexBare_eq 4 entry
      rw [List.length_append, List.length_append] at hlength
      have hpackage : (hexBare 2 package).toList.length = 2 := by omega
      have hentry : (hexBare 4 entry).toList.length = 4 := by omega
      exact ⟨(length_hexBare_eq_iff (by decide)).mp hpackage,
        (length_hexBare_eq_iff (by decide)).mp hentry⟩
    · cases h
  · rintro ⟨hpackage, hentry⟩
    rw [hexId?_hexText hpackage htype hentry]
    rfl

/-- What a text spells when its type and its entry have room, however long it is. -/
theorem hexValue?_hexText (htype : type < 0x100) (hentry : entry < 0x10000) :
    hexValue? ((hexText package type entry).toList.drop 3) =
      some (resourceNumber package type entry) := by
  have hsecond : (hexBare 2 type).toList.length = 2 := length_hexBare (by decide) htype
  have hthird : (hexBare 4 entry).toList.length = 4 := length_hexBare (by decide) hentry
  have hvalue := hexValue?_append (hexValue?_append (hexValue?_hexBare 2 package)
    (hexValue?_hexBare 2 type)) (hexValue?_hexBare 4 entry)
  rw [toList_hexText]
  rw [hsecond, hthird] at hvalue
  refine hvalue.trans (congrArg some ?_)
  rw [resourceNumber]
  omega

/-- No identifier has both forms. -/
theorem parse?_eq_words {id name key : String} (h : wordId? id = some (name, key)) :
    parse? id = some (.words name key) := by
  obtain ⟨hmark, hname, -⟩ := wordId?_eq_some_iff.mp h
  cases hnumber : hexId? id with
  | none => rw [parse?, hnumber, h, Option.map_some]
  | some n =>
      have hsome : (hexId? id).isSome = true := by rw [hnumber, Option.isSome_some]
      obtain ⟨digits, hmark', -, hdigits⟩ := isSome_hexId?_iff.mp hsome
      -- Words have a slash, which is no digit.
      have heq := (bare_eq_iff (head?_ne_mark hname)).mpr hmark
      rw [(bare_eq_iff (by simp)).mpr hmark'] at heq
      have hslash : '/' ∈ '0' :: 'x' :: digits := heq ▸ by simp
      have hdigit : '/' ∈ digits := by simpa using hslash
      exact absurd (isSome_hexDigit?_iff.mpr (hdigits _ hdigit)) (by decide)

theorem not_isWordId_hexText (package type entry : Nat) :
    ¬IsWordId (hexText package type entry) := by
  rintro ⟨name, key, hmark, -⟩
  have hdigits (width n : Nat) : '/' ∉ (hexBare width n).toList := by
    intro hmem
    have hsome : (hexValue? (hexBare width n).toList).isSome = true := by
      rw [hexValue?_hexBare, Option.isSome_some]
    have hdigit := isSome_hexValue?_iff.mp hsome _ hmem
    exact absurd (isSome_hexDigit?_iff.mpr hdigit) (by decide)
  have hslash : '/' ∈ (hexText package type entry).toList := by
    rcases hmark with hmark | hmark <;> simp [hmark]
  rw [toList_hexText] at hslash
  simp [hdigits] at hslash

end Numbers

namespace Package

variable {p : Package} {strings : Option StringPool} {id name key text : String}

/-- The number of words is that of the first type with their name, and of an index for their key in
the first chunk of the type that has one. -/
theorem numberText_eq_ok_iff : p.numberText id = .ok text ↔
    ∃ name key type i, wordId? id = some (name, key) ∧ p.typeId name = .ok type ∧
      (p.entryChunksOf type).findSome? (fun chunk => chunk.indexOf? key) = some i ∧
      text = hexText p.id type i := by
  constructor
  · intro h
    unfold numberText at h
    split at h
    · cases h
    · rename_i name key hwords
      obtain ⟨type, htype, h⟩ := bind_eq_ok_iff.mp h
      split at h
      · rename_i i hfound
        cases h
        exact ⟨name, key, type, i, hwords, htype, hfound, rfl⟩
      · cases h
  · rintro ⟨name, key, type, i, hwords, htype, hfound, rfl⟩
    simp only [numberText, hwords, htype, hfound, bind, Except.bind]

/-- Words are looked up by the number that the text of their number spells. -/
theorem numberOf_of_numberText (h : p.numberText id = .ok text) :
    p.numberOf id = .ok ((hexValue? (text.toList.drop 3)).getD 0) := by
  obtain ⟨name, key, _, _, hwords, -⟩ := numberText_eq_ok_iff.mp h
  simp only [numberOf, parse?_eq_words hwords, h, bind, Except.bind]

/-- The type of words is that of a chunk, so it has room in a number. -/
theorem type_lt_of_indexOf? (haccepted : p.Accepted strings) {type i : Nat}
    (h : (p.entryChunksOf type).findSome? (fun chunk => chunk.indexOf? key) = some i) :
    type < 0x100 := by
  obtain ⟨c, hc, -⟩ := List.exists_of_findSome?_eq_some h
  obtain ⟨hc, hid⟩ := mem_entryChunksOf.mp hc
  have hlt := (haccepted.sound c hc).id_lt
  omega

end Package

/-- A table of one string, in a package whose number has three digits. -/
def TableSource.farPackage : TableSource where
  strings := ["Hello"]
  packages := [⟨0x100, "p", ["string"], ["greeting"],
    [.entries 1 ⟨.none, .none, 0⟩ [.simple 0 3 0]]⟩]

namespace Table

variable {buffer : Bytes} {t : Table} {p : Package}

/-- Words that have a number have that of the first type with their name and of the index found for
their key.  When package and index have room in it, it is an identifier and both are answered alike;
otherwise it is refused, while the words are not. -/
theorem find_words (hdecode : Table.decode buffer = .ok t) (hfirst : t.firstPackage = .ok p)
    {id text : String} (hnumber : t.numberText id = .ok text) :
    ∃ name key type i, wordId? id = some (name, key) ∧ p.typeId name = .ok type ∧
      (p.entryChunksOf type).findSome? (fun chunk => chunk.indexOf? key) = some i ∧
      text = hexText p.id type i ∧
      (i ≤ 0xffff → p.numberOf id = .ok (resourceNumber p.id type i) ∧
        typeOf (resourceNumber p.id type i) = type ∧ entryOf (resourceNumber p.id type i) = i) ∧
      (IsNumberId text ↔ p.id ≤ 0xff ∧ i ≤ 0xffff) ∧
      (IsNumberId text → hexId? text = some (resourceNumber p.id type i) ∧
        ∀ language region, t.find id language region = t.find text language region) ∧
      (¬IsNumberId text → ∀ language region,
        t.find text language region = .error (.invalidIdentifier text) ∧
        ∀ s, t.find id language region ≠ .error (.invalidIdentifier s)) := by
  obtain ⟨strings, haccepted⟩ := accepted_of_decode hdecode hfirst
  rw [numberText_eq hfirst] at hnumber
  obtain ⟨name, key, type, i, hwords, htypeId, hfound, rfl⟩ :=
    Package.numberText_eq_ok_iff.mp hnumber
  have htype := Package.type_lt_of_indexOf? haccepted hfound
  have hspelled : i ≤ 0xffff → p.numberOf id = .ok (resourceNumber p.id type i) := by
    intro hi
    rw [Package.numberOf_of_numberText hnumber, hexValue?_hexText htype (Nat.lt_succ_of_le hi),
      Option.getD_some]
  have hroom : IsNumberId (hexText p.id type i) ↔ p.id ≤ 0xff ∧ i ≤ 0xffff := by
    rw [← isSome_hexId?_iff, isSome_hexId?_hexText_iff htype]
    omega
  refine ⟨name, key, type, i, hwords, htypeId, hfound, rfl, fun hi => ?_, hroom, fun hid => ?_,
    fun hid language region => ?_⟩
  · have hi' : i < 0x10000 := Nat.lt_succ_of_le hi
    exact ⟨hspelled hi, typeOf_resourceNumber htype hi', entryOf_resourceNumber hi'⟩
  · obtain ⟨hpackage, hi⟩ := hroom.mp hid
    have hread := hexId?_hexText (Nat.lt_succ_of_le hpackage) htype (Nat.lt_succ_of_le hi)
    refine ⟨hread, fun language region => ?_⟩
    rw [find_eq hfirst, find_eq hfirst, Package.find_of_numberOf (hspelled hi),
      Package.find_of_numberOf (Package.numberOf_of_hexId hread)]
  · rw [find_eq hfirst, find_eq hfirst]
    constructor
    · have hnone := parse?_eq_none_iff.mpr ⟨hid, not_isWordId_hexText p.id type i⟩
      exact Package.find_refuses_iff.mpr ⟨hnone, rfl⟩
    · intro s hrefused
      have hparse := (Package.find_refuses_iff.mp hrefused).1
      rw [parse?_eq_words hwords] at hparse
      cases hparse

theorem find_words_dotted : ∃ t p, Table.decode TableSource.dotted.encode.toArray = .ok t ∧
    t.firstPackage = .ok p ∧ t.numberText "string/hello" = .ok "@0x7f010001" ∧
    IsNumberId "@0x7f010001" ∧
    (∃ type i, "@0x7f010001" = hexText p.id type i ∧
      hexId? "@0x7f010001" = some (resourceNumber p.id type i)) ∧
    ∀ language region,
      t.find "string/hello" language region = t.find "@0x7f010001" language region := by
  obtain ⟨t, p, hdecode, hfirst, -, -, -, hnumber, -⟩ := decode_dotted
  have hid : IsNumberId "@0x7f010001" := isSome_hexId?_iff.mp (by decide +kernel)
  obtain ⟨_, _, type, i, -, -, -, htext, -, -, hsame, -⟩ := find_words hdecode hfirst hnumber
  obtain ⟨hread, hfind⟩ := hsame hid
  exact ⟨t, p, hdecode, hfirst, hnumber, hid, ⟨type, i, htext, hread⟩, hfind⟩

/-- Words that have a number may be answered while the number is refused. -/
theorem number_refused : ∃ t, Table.decode TableSource.farPackage.encode.toArray = .ok t ∧
    t.numberText "@string/greeting" = .ok "@0x100010000" ∧ ¬IsNumberId "@0x100010000" ∧
    t.find "@string/greeting" none none = .ok (.text "Hello") ∧
    t.find "@0x100010000" none none = .error (.invalidIdentifier "@0x100010000") := by
  obtain ⟨t, p, hdecode, hfirst, htest⟩ := exists_first_of_test
    TableSource.farPackage.encode.toArray
    (fun t _ => t.numberText "@string/greeting" = .ok "@0x100010000" ∧
      t.find "@string/greeting" none none = .ok (.text "Hello") ∧
      t.find "@0x100010000" none none = .error (.invalidIdentifier "@0x100010000"))
    (by decide +kernel)
  obtain ⟨hnumber, hwords, hrefused⟩ := of_decide_eq_true htest
  have hnone : hexId? "@0x100010000" = none := by decide +kernel
  refine ⟨t, hdecode, hnumber, ?_, hwords, hrefused⟩
  rw [← isSome_hexId?_iff, hnone]
  nofun

end Table

end Resource

end ApkFormats
