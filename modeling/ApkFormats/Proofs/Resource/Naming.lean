import ApkFormats.Proofs.Resource.Accepted
import ApkFormats.Proofs.Resource.Identifiers
import ApkFormats.Resource.Source
import Mathlib.Data.List.Nodup

/-!
# Resources by number and by words

A number leads to words through the first chunk that has an entry at its index,
words lead to a number through the first chunk that has an entry with their key:
in general these are different chunks.  They agree when the chunks of a type do.

* `Table.wordText_of_numberText`: words that have a number are the words of that
  number, when chunks of one type have the same key at the same index;
* `Table.numberText_of_wordText`: a number is the number of its words, when they
  are words at all and no two indices have the same key.
-/

namespace ApkFormats.Resource

open Text

namespace TypeEntries

variable {keys : StringPool} {chunk : TypeEntries} {key : String}

/-- A key leads to an entry that has it. -/
theorem Sound.entry_of_indexOf? (h : chunk.Sound keys) {i : Nat}
    (hi : chunk.indexOf? key = some i) :
    ∃ e, chunk.entry? i = some e ∧ keys.stringAt e.key = .ok key := by
  obtain ⟨front, back, hsplit, -⟩ := List.lookup_eq_some_iff.mp hi
  rw [← h.named, ← List.mem_reverse, hsplit]
  exact List.mem_append_right _ List.mem_cons_self

/-- The key of an entry leads somewhere. -/
theorem Sound.indexOf?_of_entry (h : chunk.Sound keys) {i : Nat} {e : Entry}
    (he : chunk.entry? i = some e) (hkey : keys.stringAt e.key = .ok key) :
    ∃ j, chunk.indexOf? key = some j := by
  rw [← Option.isSome_iff_exists, ← Option.ne_none_iff_isSome]
  intro hnone
  have hmem := List.mem_reverse.mpr ((h.named key i).mpr ⟨e, he, hkey⟩)
  have hother := List.lookup_eq_none_iff.mp hnone _ hmem
  rw [bne_self_eq_false] at hother
  cases hother

theorem Sound.lt_of_entry (h : chunk.Sound keys) {i : Nat} {e : Entry}
    (he : chunk.entry? i = some e) : i < chunk.entryCount := by
  rw [entry?_eq_some, Array.getElem?_eq_some_iff] at he
  rw [← h.size_entries]
  exact he.1

end TypeEntries

namespace Package

variable {p : Package} {strings : Option StringPool} {name key : String} {c : TypeEntries}

theorem mem_entryChunksOf {type : Int} :
    c ∈ p.entryChunksOf type ↔ c ∈ p.entryChunks ∧ (c.id : Int) = type := by
  rw [entryChunksOf, List.mem_filter, beq_iff_eq]

theorem typeName?_natCast {type : Nat} (h : 1 ≤ type) :
    p.typeName? type = p.typePool.strings[type - 1]? := by
  rw [typeName?, if_pos (by omega)]
  congr 1
  omega

theorem typeName?_of_typeId {type : Nat} (h : p.typeId name = .ok type) :
    1 ≤ type ∧ p.typeName? type = some name := by
  unfold typeId typeIdIn? at h
  cases hindex : p.typePool.strings.toList.idxOf? name with
  | none =>
      rw [hindex] at h
      cases h
  | some i =>
      rw [hindex] at h
      cases h
      obtain ⟨hi, hname, -⟩ := List.idxOf?_eq_some_iff.mp hindex
      refine ⟨Nat.succ_pos i, ?_⟩
      rw [typeName?_natCast (Nat.succ_pos i), Nat.succ_sub_one, ← Array.getElem?_toList,
        List.getElem?_eq_getElem hi, hname]

theorem not_lt_of_count {l : List String} {i j : Nat} (hone : l.count name ≤ 1)
    (hi : l[i]? = some name) (hj : l[j]? = some name) : ¬ i < j := by
  intro hlt
  have hsplit : l.count name = (l.take j).count name + (l.drop j).count name := by
    rw [← List.count_append, List.take_append_drop]
  have hfront : name ∈ l.take j := by
    refine List.mem_of_getElem? (i := i) ?_
    rw [List.getElem?_take_of_lt hlt, hi]
  have hback : name ∈ l.drop j := by
    refine List.mem_of_getElem? (i := 0) ?_
    rw [List.getElem?_drop, Nat.add_zero, hj]
  have := List.count_pos_iff.mpr hfront
  have := List.count_pos_iff.mpr hback
  omega

/-- A type is the first of its name when no other has the same. -/
theorem typeId_of_typeName? {type : Nat} (hone : p.typePool.strings.toList.count name ≤ 1)
    (hname : p.typeName? type = some name) : p.typeId name = .ok type := by
  have hpos : 1 ≤ type := by
    rw [typeName?] at hname
    split at hname
    · omega
    · cases hname
  rw [typeName?_natCast hpos, ← Array.getElem?_toList] at hname
  obtain ⟨hi, hitem⟩ := List.getElem?_eq_some_iff.mp hname
  have hindex : p.typePool.strings.toList.idxOf? name = some (type - 1) := by
    rw [List.idxOf?_eq_some_iff]
    refine ⟨hi, hitem, fun j hj heq => ?_⟩
    exact not_lt_of_count hone (List.getElem?_eq_some_iff.mpr ⟨by omega, heq⟩) hname hj
  have htype : type - 1 + 1 = type := by omega
  rw [typeId, typeIdIn?, hindex, Option.map_some, htype]

theorem keyAt_eq_ok_iff {index : Nat} :
    p.keyAt index = .ok key ↔ p.keyPool.stringAt index = .ok key := by
  rw [keyAt, mapError_eq_ok_iff]

/-- Entries of a type with the same index have the same key. -/
def KeyedByIndex (p : Package) : Prop :=
  ∀ c ∈ p.entryChunks, ∀ c' ∈ p.entryChunks, c.id = c'.id → ∀ (i : Nat) e e',
    c.entry? i = some e → c'.entry? i = some e' → p.keyAt e.key = p.keyAt e'.key

/-- The words of a number are the name of its type and the key of any entry with its index. -/
theorem wordText_of_entry (hkeyed : p.KeyedByIndex) (hc : c ∈ p.entryChunks) {i : Nat} {e : Entry}
    (he : c.entry? i = some e) (hname : p.typeName? c.id = some name)
    (hkey : p.keyAt e.key = .ok key) {n : Nat} (htype : typeOf n = c.id) (hentry : entryOf n = i) :
    p.wordText n = .ok ("@" ++ name ++ "/" ++ key) := by
  have hmem : c ∈ p.entryChunksOf (typeOf n) := mem_entryChunksOf.mpr ⟨hc, by rw [htype]⟩
  have hsome : ((p.entryChunksOf (typeOf n)).findSome? fun chunk =>
      chunk.entry? (entryOf n)).isSome = true := by
    rw [List.findSome?_isSome_iff]
    exact ⟨c, hmem, by rw [hentry, he]; rfl⟩
  obtain ⟨e', hfound⟩ := Option.isSome_iff_exists.mp hsome
  obtain ⟨c', hc', he'⟩ := List.exists_of_findSome?_eq_some hfound
  rw [mem_entryChunksOf, htype] at hc'
  rw [hentry] at he'
  have hsame := hkeyed c' hc'.1 c hc (by omega) i e' e he' he
  rw [wordText, hfound]
  simp only [typeNameAt, htype, hname, hsame, hkey, bind, Except.bind]

/-- The number of words is that of an entry with their key, in a chunk of the first type with
their name. -/
theorem entry_of_numberText (haccepted : p.Accepted strings) {id h : String}
    (hnumber : p.numberText id = .ok h) :
    ∃ c ∈ p.entryChunks, ∃ name key, ∃ (i : Nat), ∃ e, wordId? id = some (name, key) ∧
      1 ≤ c.id ∧ p.typeName? c.id = some name ∧ c.entry? i = some e ∧ p.keyAt e.key = .ok key ∧
      h = hexText p.id c.id i := by
  unfold numberText at hnumber
  split at hnumber
  · cases hnumber
  · rename_i name key hwords
    obtain ⟨type, htype, hnumber⟩ := bind_eq_ok_iff.mp hnumber
    obtain ⟨hpos, hname⟩ := typeName?_of_typeId htype
    split at hnumber
    · rename_i i hfound
      obtain ⟨c, hc, hi⟩ := List.exists_of_findSome?_eq_some hfound
      rw [mem_entryChunksOf] at hc
      have hid : c.id = type := by omega
      obtain ⟨e, he, hkey⟩ := (haccepted.sound c hc.1).entry_of_indexOf? hi
      cases hnumber
      exact ⟨c, hc.1, name, key, i, e, hwords, by omega, by rw [hid, hname], he,
        keyAt_eq_ok_iff.mpr hkey, by rw [hid]⟩
    · cases hnumber

end Package

/-- A package in which numbers have room for their parts and words tell resources apart. -/
structure Package.Distinct (p : Package) : Prop where
  id_le : p.id ≤ 0xff
  types : p.typePool.strings.toList.Nodup
  typeIds : ∀ c ∈ p.entryChunks, 1 ≤ c.id ∧ c.id ≤ p.typePool.strings.size
  counts : ∀ c ∈ p.entryChunks, c.entryCount ≤ 0x10000
  /-- Entries of a type have the same key when they have the same index, and only then. -/
  keys : ∀ c ∈ p.entryChunks, ∀ c' ∈ p.entryChunks, c.id = c'.id → ∀ (i j : Nat) e e',
    c.entry? i = some e → c'.entry? j = some e' → (i = j ↔ p.keyAt e.key = p.keyAt e'.key)

namespace Package

variable {p : Package} {strings : Option StringPool} {name key : String} {c : TypeEntries}

theorem Distinct.keyedByIndex (h : p.Distinct) : p.KeyedByIndex := by
  intro c hc c' hc' hid i e e' he he'
  exact (h.keys c hc c' hc' hid i i e e' he he').mp rfl

/-- The index of keys of every chunk tells whether keys tell the entries of a package apart. -/
theorem Accepted.keys_of_named (h : p.Accepted strings)
    (hnamed : ∀ c ∈ p.entryChunks, ∀ c' ∈ p.entryChunks, c.id = c'.id →
      ∀ a ∈ c.namedIndices, ∀ b ∈ c'.namedIndices, (a.2 = b.2 ↔ a.1 = b.1)) :
    ∀ c ∈ p.entryChunks, ∀ c' ∈ p.entryChunks, c.id = c'.id → ∀ (i j : Nat) e e',
      c.entry? i = some e → c'.entry? j = some e' →
        (i = j ↔ p.keyAt e.key = p.keyAt e'.key) := by
  intro c hc c' hc' hid i j e e' he he'
  obtain ⟨key, hkey⟩ := (h.sound c hc).keyed i e he
  obtain ⟨key', hkey'⟩ := (h.sound c' hc').keyed j e' he'
  have hiff := hnamed c hc c' hc' hid (key, i) (((h.sound c hc).named key i).mpr ⟨e, he, hkey⟩)
    (key', j) (((h.sound c' hc').named key' j).mpr ⟨e', he', hkey'⟩)
  rw [keyAt_eq_ok_iff.mpr hkey, keyAt_eq_ok_iff.mpr hkey', Except.ok.injEq]
  exact hiff

/-- The number of the words of an entry. -/
theorem numberText_of_entry (haccepted : p.Accepted strings) (hdistinct : p.Distinct)
    (hc : c ∈ p.entryChunks) {i : Nat} {e : Entry} (he : c.entry? i = some e)
    (hname : p.typeName? c.id = some name) (hkey : p.keyAt e.key = .ok key) :
    p.numberText ("@" ++ name ++ "/" ++ key) =
      if isWordText name.toList && isWordText key.toList then .ok (hexText p.id c.id i)
      else .error (.invalidIdentifier ("@" ++ name ++ "/" ++ key)) := by
  have htype := typeId_of_typeName? (List.nodup_iff_count_le_one.mp hdistinct.types name) hname
  have hmem : c ∈ p.entryChunksOf c.id := mem_entryChunksOf.mpr ⟨hc, rfl⟩
  obtain ⟨j, hj⟩ := (haccepted.sound c hc).indexOf?_of_entry he (keyAt_eq_ok_iff.mp hkey)
  have hsome :
      ((p.entryChunksOf c.id).findSome? fun chunk => chunk.indexOf? key).isSome = true := by
    rw [List.findSome?_isSome_iff]
    exact ⟨c, hmem, by rw [hj]; rfl⟩
  obtain ⟨k, hfound⟩ := Option.isSome_iff_exists.mp hsome
  obtain ⟨c', hc', hk⟩ := List.exists_of_findSome?_eq_some hfound
  rw [mem_entryChunksOf] at hc'
  obtain ⟨e', he', hkey'⟩ := (haccepted.sound c' hc'.1).entry_of_indexOf? hk
  have hsame : k = i := by
    rw [hdistinct.keys c' hc'.1 c hc (by omega) k i e' e he' he, hkey, keyAt_eq_ok_iff]
    exact hkey'
  rw [numberText, wordId?_words]
  cases hwords : isWordText name.toList && isWordText key.toList with
  | false => rfl
  | true =>
      simp only [if_true, htype, bind, Except.bind, hfound, hsame]

end Package

/-- A table with two strings, one of which has a text in two configurations and the other one a key
that is no word. -/
def TableSource.dotted : TableSource where
  strings := ["Hello"]
  packages := [⟨0x7f, "p", ["string"], ["hello", "app.name"],
    [.entries 1 ⟨.none, .none, 0⟩ [.simple 1 3 0, .simple 0 3 0],
      .entries 1 ⟨.letters 'f' 'r', .none, 0⟩ [.absent, .simple 0 0x10 42]]⟩]

namespace Table

variable {buffer : Bytes} {t : Table} {p : Package}

theorem wordTextOf_eq (hfirst : t.firstPackage = .ok p) (id : String) :
    t.wordTextOf id = p.wordTextOf id := by
  rw [wordTextOf, hfirst]
  rfl

theorem numberText_eq (hfirst : t.firstPackage = .ok p) (id : String) :
    t.numberText id = p.numberText id := by
  rw [numberText, hfirst]
  rfl

theorem wordText_eq (hfirst : t.firstPackage = .ok p) (n : Int) : t.wordText n = p.wordText n := by
  rw [wordText, hfirst]
  rfl

theorem find_eq (hfirst : t.firstPackage = .ok p) (id : String) (language region : Option String) :
    t.find id language region = p.find t.pool id language region := by
  rw [find, hfirst]
  rfl

theorem exists_first_of_test (buffer : Bytes) (test : Table → Package → Bool)
    (h : (Table.decode buffer).toOption.any (fun t => t.packages.head?.any (test t)) = true) :
    ∃ t p, Table.decode buffer = .ok t ∧ t.firstPackage = .ok p ∧ test t p = true := by
  obtain ⟨t, hdecode, hany⟩ := exists_ok_of_any h
  obtain ⟨p, hhead, htest⟩ := (Option.any_eq_true _ _).mp hany
  refine ⟨t, p, hdecode, ?_, htest⟩
  obtain ⟨rest, hpackages⟩ := List.head?_eq_some_iff.mp hhead
  rw [firstPackage, hpackages]

/-- What is decoded of a table whose keys are not all words. -/
theorem decode_dotted : ∃ t p, Table.decode TableSource.dotted.encode.toArray = .ok t ∧
    t.firstPackage = .ok p ∧ p.Distinct ∧ p.typeName? 1 = some "string" ∧
    t.find "@0x7f010001" (some "fr") none = .ok (.text "42") ∧
    t.numberText "string/hello" = .ok "@0x7f010001" ∧
    (∃ c ∈ p.entryChunks, ∃ e, c.id = 1 ∧ c.entry? (1 : Nat) = some e) ∧
    ∃ c ∈ p.entryChunks, ∃ e, c.entry? (0 : Nat) = some e ∧
      t.wordTextOf (hexText p.id c.id 0) = .ok "@string/app.name" ∧
      t.numberText "@string/app.name" = .error (.invalidIdentifier "@string/app.name") := by
  obtain ⟨t, p, hdecode, hfirst, htest⟩ := exists_first_of_test
    TableSource.dotted.encode.toArray
    (fun t p => p.id ≤ 0xff ∧ p.typePool.strings.toList.Nodup ∧
      (∀ c ∈ p.entryChunks, 1 ≤ c.id ∧ c.id ≤ p.typePool.strings.size) ∧
      (∀ c ∈ p.entryChunks, c.entryCount ≤ 0x10000) ∧
      (∀ c ∈ p.entryChunks, ∀ c' ∈ p.entryChunks, c.id = c'.id →
        ∀ a ∈ c.namedIndices, ∀ b ∈ c'.namedIndices, (a.2 = b.2 ↔ a.1 = b.1)) ∧
      p.typeName? 1 = some "string" ∧ t.find "@0x7f010001" (some "fr") none = .ok (.text "42") ∧
      t.numberText "string/hello" = .ok "@0x7f010001" ∧
      (∃ c ∈ p.entryChunks, c.id = 1 ∧ (c.entry? (1 : Nat)).isSome) ∧
      ∃ c ∈ p.entryChunks, (c.entry? (0 : Nat)).isSome ∧
        t.wordTextOf (hexText p.id c.id 0) = .ok "@string/app.name" ∧
        t.numberText "@string/app.name" = .error (.invalidIdentifier "@string/app.name"))
    (by decide +kernel)
  obtain ⟨hid, htypes, htypeIds, hcounts, hnamed, hname, hfound, hnumber, ⟨c, hc, hone, hentry⟩,
    c', hc', hentry', hwords, hrefused⟩ := of_decide_eq_true htest
  obtain ⟨strings, haccepted⟩ := accepted_of_decode hdecode hfirst
  obtain ⟨e, he⟩ := Option.isSome_iff_exists.mp hentry
  obtain ⟨e', he'⟩ := Option.isSome_iff_exists.mp hentry'
  exact ⟨t, p, hdecode, hfirst, ⟨hid, htypes, htypeIds, hcounts, haccepted.keys_of_named hnamed⟩,
    hname, hfound, hnumber, ⟨c, hc, e, hone, he⟩, c', hc', e', he', hwords, hrefused⟩

/-- The words that a number leads to lead back to the number, unless they are no words. -/
theorem numberText_of_wordText (hdecode : Table.decode buffer = .ok t)
    (hfirst : t.firstPackage = .ok p) (hdistinct : p.Distinct) {c : TypeEntries}
    (hc : c ∈ p.entryChunks) {i : Nat} {e : Entry} (he : c.entry? i = some e) :
    ∃ name key, p.typeName? c.id = some name ∧ p.keyAt e.key = .ok key ∧
      t.wordTextOf (hexText p.id c.id i) = .ok ("@" ++ name ++ "/" ++ key) ∧
      t.numberText ("@" ++ name ++ "/" ++ key) =
        if isWordText name.toList && isWordText key.toList then .ok (hexText p.id c.id i)
        else .error (.invalidIdentifier ("@" ++ name ++ "/" ++ key)) := by
  obtain ⟨strings, haccepted⟩ := accepted_of_decode hdecode hfirst
  obtain ⟨hpos, hlast⟩ := hdistinct.typeIds c hc
  have hsound := haccepted.sound c hc
  have htype : c.id < 0x100 := hsound.id_lt
  have hentry : i < 0x10000 :=
    Nat.lt_of_lt_of_le (hsound.lt_of_entry he) (hdistinct.counts c hc)
  obtain ⟨key, hkey⟩ := hsound.keyed i e he
  have hkey : p.keyAt e.key = .ok key := Package.keyAt_eq_ok_iff.mpr hkey
  obtain ⟨name, hname⟩ : ∃ name, p.typeName? c.id = some name := by
    rw [Package.typeName?_natCast hpos]
    exact ⟨_, Array.getElem?_eq_getElem (by omega)⟩
  refine ⟨name, key, hname, hkey, ?_, ?_⟩
  · have hid := hexId?_hexText (Nat.lt_succ_of_le hdistinct.id_le) htype hentry
    rw [wordTextOf_eq hfirst, Package.wordTextOf, hid]
    exact Package.wordText_of_entry hdistinct.keyedByIndex hc he hname hkey
      (typeOf_resourceNumber htype hentry) (entryOf_resourceNumber hentry)
  · rw [numberText_eq hfirst]
    exact Package.numberText_of_entry haccepted hdistinct hc he hname hkey

theorem numberText_of_wordText_dotted :
    ∃ t p, Table.decode TableSource.dotted.encode.toArray = .ok t ∧
      t.firstPackage = .ok p ∧ p.Distinct ∧ ∃ c ∈ p.entryChunks, ∃ e,
        c.id = 1 ∧ c.entry? (1 : Nat) = some e ∧ ∃ name key, p.typeName? c.id = some name ∧
          p.keyAt e.key = .ok key ∧
          t.wordTextOf (hexText p.id c.id 1) = .ok ("@" ++ name ++ "/" ++ key) ∧
          t.numberText ("@" ++ name ++ "/" ++ key) =
            if isWordText name.toList && isWordText key.toList then .ok (hexText p.id c.id 1)
            else .error (.invalidIdentifier ("@" ++ name ++ "/" ++ key)) := by
  obtain ⟨t, p, hdecode, hfirst, hdistinct, -, -, -, ⟨c, hc, e, hid, he⟩, -⟩ := decode_dotted
  exact ⟨t, p, hdecode, hfirst, hdistinct, c, hc, e, hid, he,
    numberText_of_wordText hdecode hfirst hdistinct hc he⟩

/-- A key that is no word keeps a number from being that of its words. -/
theorem numberText_of_wordText_dotted_key :
    ¬ ∀ (buffer : Bytes) (t : Table) (p : Package), Table.decode buffer = .ok t →
      t.firstPackage = .ok p → p.Distinct → ∀ c ∈ p.entryChunks, ∀ (i : Nat) e,
        c.entry? i = some e → ∃ id, t.wordTextOf (hexText p.id c.id i) = .ok id ∧
          t.numberText id = .ok (hexText p.id c.id i) := by
  intro hall
  obtain ⟨t, p, hdecode, hfirst, hdistinct, -, -, -, -, c, hc, e, he, hwords, hrefused⟩ :=
    decode_dotted
  obtain ⟨id, hid, hnumber⟩ := hall _ t p hdecode hfirst hdistinct c hc 0 e he
  rw [hwords] at hid
  cases hid
  rw [hrefused] at hnumber
  cases hnumber

/-- The number that words lead to leads back to the words, given as text or as a number. -/
theorem wordText_of_numberText (hdecode : Table.decode buffer = .ok t)
    (hfirst : t.firstPackage = .ok p) (hid : p.id ≤ 0xff)
    (hcounts : ∀ c ∈ p.entryChunks, c.entryCount ≤ 0x10000) (hkeyed : p.KeyedByIndex)
    {id h : String} (hnumber : t.numberText id = .ok h) :
    t.wordTextOf h = .ok ("@" ++ String.ofList (bare id.toList)) ∧
      ∃ n, hexId? h = some n ∧ t.wordText n = .ok ("@" ++ String.ofList (bare id.toList)) := by
  obtain ⟨strings, haccepted⟩ := accepted_of_decode hdecode hfirst
  rw [numberText_eq hfirst] at hnumber
  obtain ⟨c, hc, name, key, i, e, hwords, -, hname, he, hkey, rfl⟩ :=
    Package.entry_of_numberText haccepted hnumber
  have hsound := haccepted.sound c hc
  have htype : c.id < 0x100 := hsound.id_lt
  have hentry : i < 0x10000 := Nat.lt_of_lt_of_le (hsound.lt_of_entry he) (hcounts c hc)
  have hread := hexId?_hexText (Nat.lt_succ_of_le hid) htype hentry
  have hbare : "@" ++ String.ofList (bare id.toList) = "@" ++ name ++ "/" ++ key := by
    obtain ⟨hmark, hword, -⟩ := wordId?_eq_some_iff.mp hwords
    rw [(bare_eq_iff (head?_ne_mark hword)).mpr hmark]
    apply String.toList_injective
    simp
  have htext : p.wordText (resourceNumber p.id c.id i) = .ok ("@" ++ name ++ "/" ++ key) :=
    Package.wordText_of_entry hkeyed hc he hname hkey (typeOf_resourceNumber htype hentry)
      (entryOf_resourceNumber hentry)
  rw [hbare]
  constructor
  · rw [wordTextOf_eq hfirst, Package.wordTextOf, hread]
    exact htext
  · exact ⟨_, hread, by rw [wordText_eq hfirst, htext]⟩

theorem wordText_of_numberText_dotted :
    ∃ t p, Table.decode TableSource.dotted.encode.toArray = .ok t ∧ t.firstPackage = .ok p ∧
      p.id ≤ 0xff ∧ (∀ c ∈ p.entryChunks, c.entryCount ≤ 0x10000) ∧ p.KeyedByIndex ∧
      t.numberText "string/hello" = .ok "@0x7f010001" ∧
      t.wordTextOf "@0x7f010001" = .ok ("@" ++ String.ofList (bare "string/hello".toList)) := by
  obtain ⟨t, p, hdecode, hfirst, hdistinct, -, -, hnumber, -⟩ := decode_dotted
  exact ⟨t, p, hdecode, hfirst, hdistinct.id_le, hdistinct.counts, hdistinct.keyedByIndex, hnumber,
    (wordText_of_numberText hdecode hfirst hdistinct.id_le hdistinct.counts
      hdistinct.keyedByIndex hnumber).1⟩

end Table

end ApkFormats.Resource
