import ApkFormats.Resource.Id
import Mathlib.Algebra.Group.Nat.Defs
import Mathlib.Data.List.Basic

/-!
# Identifiers of resources

`IsNumberId` and `IsWordId` are the two forms of identifiers, as a grammar; the
functions that read identifiers accept exactly them.  The text of a number that
`hexText` writes is one of them when its three parts have room in it.

* `hexId?_isSome_iff`, `wordId?_isSome_iff`: what is accepted;
* `hexId?_hexText`: the text of a number is read back;
* `wordId?_words`: so are words, when both are words.
-/

namespace ApkFormats

namespace Text

section Hexadecimal

/-! ## Hexadecimal numbers -/

theorem hexDigit?_digitChar {d : Nat} (h : d < 16) : hexDigit? (Nat.digitChar d) = some d := by
  have hall : ∀ d : Fin 16, hexDigit? (Nat.digitChar d) = some d.val := by decide
  exact hall ⟨d, h⟩

theorem hexValueFrom_append (seen : Nat) (front back : List Char) :
    hexValueFrom seen (front ++ back) =
      (hexValueFrom seen front).bind fun value => hexValueFrom value back := by
  induction front generalizing seen with
  | nil => rfl
  | cons c rest ih =>
      rw [List.cons_append, hexValueFrom, hexValueFrom]
      cases hexDigit? c with
      | none => rfl
      | some d => exact ih _

theorem hexValueFrom_zeros (count : Nat) :
    hexValueFrom 0 (List.replicate count '0') = some 0 := by
  induction count with
  | zero => rfl
  | succ count ih =>
      rw [List.replicate_succ, hexValueFrom]
      exact ih

theorem hexValueFrom_toDigits (n : Nat) : hexValueFrom 0 (Nat.toDigits 16 n) = some n := by
  induction n using Nat.strongRecOn with
  | ind n ih =>
      rw [Nat.toDigits_eq_if (by decide)]
      split
      · rename_i hsmall
        rw [hexValueFrom, hexDigit?_digitChar hsmall]
        exact congrArg some (by omega)
      · have hdigit : n % 16 < 16 := Nat.mod_lt n (by decide)
        rw [hexValueFrom_append, ih (n / 16) (by omega), Option.bind_some, hexValueFrom,
          hexDigit?_digitChar hdigit]
        exact congrArg some (by omega)

/-- Digits count for more behind others. -/
theorem hexValueFrom_eq (seen : Nat) (digits : List Char) :
    hexValueFrom seen digits =
      (hexValue? digits).map fun value => seen * 16 ^ digits.length + value := by
  induction digits generalizing seen with
  | nil => simp [hexValueFrom, hexValue?]
  | cons c rest ih =>
      rw [hexValue?, hexValueFrom, hexValueFrom]
      cases hexDigit? c with
      | none => rfl
      | some d =>
          simp only [ih (16 * seen + d), ih (16 * 0 + d), Option.map_map, List.length_cons]
          refine Option.map_congr fun value _ => ?_
          rw [Function.comp_apply, Nat.pow_succ, Nat.mul_zero, Nat.zero_add, Nat.add_mul,
            Nat.mul_comm 16 seen, Nat.mul_assoc, Nat.mul_comm 16, Nat.add_assoc]

theorem hexValue?_append {front back : List Char} {a b : Nat} (hfront : hexValue? front = some a)
    (hback : hexValue? back = some b) :
    hexValue? (front ++ back) = some (a * 16 ^ back.length + b) := by
  rw [hexValue?] at hfront
  rw [hexValue?, hexValueFrom_append, hfront, Option.bind_some, hexValueFrom_eq, hback,
    Option.map_some]

/-- A character that is a hexadecimal digit. -/
def IsHexDigit (c : Char) : Prop :=
  ('0' ≤ c ∧ c ≤ '9') ∨ ('a' ≤ c ∧ c ≤ 'f') ∨ ('A' ≤ c ∧ c ≤ 'F')

theorem isSome_hexDigit?_iff {c : Char} : (hexDigit? c).isSome = true ↔ IsHexDigit c := by
  unfold hexDigit? IsHexDigit
  split
  · simp [*]
  · split
    · simp [*]
    · split
      · simp [*]
      · simp [*]

theorem isSome_hexValue?_iff {digits : List Char} :
    (hexValue? digits).isSome = true ↔ ∀ c ∈ digits, IsHexDigit c := by
  induction digits with
  | nil => simp [hexValue?, hexValueFrom]
  | cons c rest ih =>
      rw [List.forall_mem_cons, ← ih, ← isSome_hexDigit?_iff, hexValue?, hexValueFrom]
      cases hexDigit? c with
      | none => simp
      | some d =>
          simp only [hexValueFrom_eq (16 * 0 + d), Option.isSome_map, Option.isSome_some, true_and]

section Written

variable {width n : Nat}

theorem toList_hexBare (width n : Nat) :
    (hexBare width n).toList =
      List.replicate (width - (Nat.toDigits 16 n).length) '0' ++ Nat.toDigits 16 n := by
  have hsign : ¬ ((n : Int) < 0) := by omega
  simp [hexBare, signedHex, zeroPadded, hexDigits, hsign]

theorem hexValue?_hexBare (width n : Nat) : hexValue? (hexBare width n).toList = some n := by
  have hzeros := hexValueFrom_zeros (width - (Nat.toDigits 16 n).length)
  rw [toList_hexBare, hexValue?_append hzeros (hexValueFrom_toDigits n), Nat.zero_mul, Nat.zero_add]

theorem length_hexBare (hwidth : 0 < width) (hn : n < 16 ^ width) :
    (hexBare width n).toList.length = width := by
  have hlength := (Nat.length_toDigits_le_iff (b := 16) (by decide) hwidth).mpr hn
  rw [toList_hexBare, List.length_append, List.length_replicate]
  omega

end Written

end Hexadecimal

end Text

namespace Resource

open Text

section Numbers

/-! ## Numbers -/

variable {package type entry : Nat}

/-- Number of an entry of some type in a package. -/
def resourceNumber (package type entry : Nat) : Nat :=
  package * 0x1000000 + type * 0x10000 + entry

theorem toList_hexText (package type entry : Nat) :
    (hexText package type entry).toList =
      '@' :: '0' :: 'x' :: ((hexBare 2 package).toList ++ (hexBare 2 type).toList ++
        (hexBare 4 entry).toList) := by
  simp [hexText]

/-- The text of a number whose parts have room is read back. -/
theorem hexId?_hexText (hpackage : package < 0x100) (htype : type < 0x100)
    (hentry : entry < 0x10000) :
    hexId? (hexText package type entry) = some (resourceNumber package type entry) := by
  have hfirst : (hexBare 2 package).toList.length = 2 := length_hexBare (by decide) hpackage
  have hsecond : (hexBare 2 type).toList.length = 2 := length_hexBare (by decide) htype
  have hthird : (hexBare 4 entry).toList.length = 4 := length_hexBare (by decide) hentry
  have hlength : ((hexBare 2 package).toList ++ (hexBare 2 type).toList ++
      (hexBare 4 entry).toList).length = 8 := by
    rw [List.length_append, List.length_append, hfirst, hsecond, hthird]
  have hvalue := hexValue?_append (hexValue?_append (hexValue?_hexBare 2 package)
    (hexValue?_hexBare 2 type)) (hexValue?_hexBare 4 entry)
  rw [hexId?, toList_hexText]
  simp only [bare, if_pos hlength, hvalue, hsecond, hthird, resourceNumber]
  exact congrArg some (by omega)

theorem typeOf_resourceNumber (htype : type < 0x100) (hentry : entry < 0x10000) :
    typeOf (resourceNumber package type entry) = type := by
  rw [typeOf, resourceNumber]
  omega

theorem entryOf_resourceNumber (hentry : entry < 0x10000) :
    entryOf (resourceNumber package type entry) = entry := by
  rw [entryOf, resourceNumber]
  omega

theorem typeOf_natCast (n : Nat) : typeOf n = n / 0x10000 % 0x100 := by
  rw [typeOf]
  omega

theorem entryOf_natCast (n : Nat) : entryOf n = n % 0x10000 := by
  rw [entryOf]
  omega

end Numbers

section Forms

/-! ## The two forms -/

/-- Characters behind an optional `@`. -/
def BehindMark (cs rest : List Char) : Prop :=
  cs = rest ∨ cs = '@' :: rest

/-- An identifier that is given by its number: `0x` and eight hexadecimal digits. -/
def IsNumberId (id : String) : Prop :=
  ∃ digits, BehindMark id.toList ('0' :: 'x' :: digits) ∧ digits.length = 8 ∧
    ∀ c ∈ digits, IsHexDigit c

/-- An identifier that is given by words: two words with a slash between them. -/
def IsWordId (id : String) : Prop :=
  ∃ type key, BehindMark id.toList (type ++ '/' :: key) ∧ isWordText type = true ∧
    isWordText key = true

theorem bare_eq_iff {cs rest : List Char} (hrest : rest.head? ≠ some '@') :
    bare cs = rest ↔ BehindMark cs rest := by
  constructor
  · rintro rfl
    unfold bare
    split
    · exact .inr rfl
    · exact .inl rfl
  · rintro (rfl | rfl)
    · unfold bare
      split
      · exact absurd rfl hrest
      · rfl
    · rfl

theorem isSome_hexId?_iff {id : String} : (hexId? id).isSome = true ↔ IsNumberId id := by
  have hform : ∀ digits, bare id.toList = '0' :: 'x' :: digits ↔
      BehindMark id.toList ('0' :: 'x' :: digits) := fun digits => bare_eq_iff (by simp)
  unfold hexId? IsNumberId
  split
  · rename_i digits hbare
    constructor
    · intro h
      split at h
      · rename_i hlength
        exact ⟨digits, (hform digits).mp hbare, hlength, isSome_hexValue?_iff.mp h⟩
      · cases h
    · rintro ⟨digits', hmark, hlength, hdigits⟩
      rw [← hform, hbare] at hmark
      cases hmark
      rw [if_pos hlength, isSome_hexValue?_iff]
      exact hdigits
  · rename_i hother
    constructor
    · intro h
      cases h
    · rintro ⟨digits, hmark, -⟩
      exact absurd ((hform digits).mpr hmark) (hother digits)

theorem isWord_of_mem {cs : List Char} {c : Char} (h : isWordText cs = true) (hc : c ∈ cs) :
    isWord c = true := by
  rw [isWordText, Bool.and_eq_true, List.all_eq_true] at h
  exact h.2 c hc

theorem slash_notMem {cs : List Char} (h : isWordText cs = true) : '/' ∉ cs := by
  intro hc
  have hword := isWord_of_mem h hc
  have hslash : isWord '/' = false := by decide +kernel
  rw [hslash] at hword
  cases hword

theorem head?_ne_mark {cs more : List Char} (h : isWordText cs = true) :
    (cs ++ more).head? ≠ some '@' := by
  cases cs with
  | nil => cases h
  | cons c rest =>
      intro hhead
      cases hhead
      have hword := isWord_of_mem h List.mem_cons_self
      have hmark : isWord '@' = false := by decide +kernel
      rw [hmark] at hword
      cases hword

theorem wordId?_eq_some_iff {id type key : String} :
    wordId? id = some (type, key) ↔
      BehindMark id.toList (type.toList ++ '/' :: key.toList) ∧ isWordText type.toList = true ∧
        isWordText key.toList = true := by
  constructor
  · intro h
    simp only [wordId?] at h
    split at h
    · rename_i c rest hrest
      split at h
      · rename_i hwords
        have hc : c = '/' := by
          have hhead := List.head?_dropWhile_not (· ≠ '/') (bare id.toList)
          rw [hrest] at hhead
          simpa using hhead
        rw [Bool.and_eq_true] at hwords
        cases h
        rw [String.toList_ofList, String.toList_ofList]
        refine ⟨(bare_eq_iff (head?_ne_mark hwords.1)).mp ?_, hwords⟩
        rw [hc] at hrest
        rw [← hrest, List.takeWhile_append_dropWhile]
      · cases h
    · cases h
  · rintro ⟨hmark, htype, hkey⟩
    have hbare := (bare_eq_iff (head?_ne_mark htype)).mpr hmark
    have hall : ∀ c ∈ type.toList, decide (c ≠ '/') = true := by
      intro c hc
      rw [decide_eq_true_eq]
      rintro rfl
      exact slash_notMem htype hc
    have htake : (type.toList ++ '/' :: key.toList).takeWhile (· ≠ '/') = type.toList := by
      rw [List.takeWhile_append_of_pos hall]
      simp
    have hdrop : (type.toList ++ '/' :: key.toList).dropWhile (· ≠ '/') = '/' :: key.toList := by
      rw [List.dropWhile_append_of_pos hall]
      simp
    simp only [wordId?, hbare, htake, hdrop, htype, hkey, Bool.and_self, if_true,
      String.ofList_toList]

/-- The words of a type name and a key are read back when both are words; otherwise what they make
is no identifier of words. -/
theorem wordId?_words (type key : String) :
    wordId? ("@" ++ type ++ "/" ++ key) =
      if isWordText type.toList && isWordText key.toList then some (type, key) else none := by
  have hlist : ("@" ++ type ++ "/" ++ key).toList = '@' :: (type.toList ++ '/' :: key.toList) := by
    simp
  split
  · rename_i hwords
    rw [Bool.and_eq_true] at hwords
    exact wordId?_eq_some_iff.mpr ⟨.inr hlist, hwords⟩
  · rename_i hother
    rw [Option.eq_none_iff_forall_not_mem]
    rintro ⟨x, y⟩ h
    obtain ⟨hmark, hx, hy⟩ := wordId?_eq_some_iff.mp h
    rw [hlist] at hmark
    rcases hmark with hmark | hmark
    · have hhead : (x.toList ++ '/' :: y.toList).head? ≠ some '@' := head?_ne_mark hx
      rw [← hmark] at hhead
      exact absurd rfl hhead
    · obtain ⟨htype, -, hkey⟩ :=
        (List.append_cons_inj_of_notMem (slash_notMem hx) (slash_notMem hy)).mp
          (List.cons.inj hmark).2.symm
      rw [← htype, ← hkey, hx, hy] at hother
      exact hother rfl

theorem isSome_wordId?_iff {id : String} : (wordId? id).isSome = true ↔ IsWordId id := by
  rw [Option.isSome_iff_exists]
  constructor
  · rintro ⟨⟨type, key⟩, h⟩
    exact ⟨type.toList, key.toList, wordId?_eq_some_iff.mp h⟩
  · rintro ⟨type, key, h⟩
    exact ⟨(String.ofList type, String.ofList key), wordId?_eq_some_iff.mpr (by simpa using h)⟩

theorem parse?_eq_none_iff {id : String} :
    parse? id = none ↔ ¬ IsNumberId id ∧ ¬ IsWordId id := by
  rw [← isSome_hexId?_iff, ← isSome_wordId?_iff, parse?]
  cases hexId? id with
  | some n => simp
  | none => simp

end Forms

end Resource

end ApkFormats
