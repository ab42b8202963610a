import ApkFormats.Proofs.Resource.Dangling
import ApkFormats.Proofs.Resource.Finding

/-!
# Strings that are absent

Whether a table holds a string is told in two ways.  The words of a number are
found when some chunk of its type has an entry at its index; the string itself
is looked for when some chunk counts that index.  The two differ at an index
that is counted and has no entry in any chunk.

* `Package.HasEntry`, `Package.HasHole`: an entry, or a counted index without one;
* `Table.find_string_cases`: what each kind of lookup says in each case;
* `Table.hole_found`: at a hole the two lookups disagree.
-/

namespace ApkFormats.Resource

section Chunks

variable {language region : Option String} {chunks : List TypeEntries} {c : TypeEntries}

theorem mem_of_mem_chunksFor (h : c ∈ chunksFor language region chunks) : c ∈ chunks := by
  have hasked {part : Config → Option String} {name : Option String}
      (h : c ∈ chunksAsked part name chunks) : c ∈ chunks := by
    cases name with
    | none => cases h
    | some name => exact (List.mem_filter.mp h).1
  unfold chunksFor at h
  split at h
  · exact hasked h
  · split at h
    · exact hasked h
    · exact (List.mem_filter.mp h).1

end Chunks

namespace Package

variable {p : Package} {strings : Option StringPool} {type index : Nat}
variable {language region : Option String}

/-- Some chunk of a type has an entry at an index. -/
def HasEntry (p : Package) (type index : Nat) : Prop :=
  ∃ c ∈ p.entryChunksOf type, ∃ e, c.entry? index = some e

/-- Some chunk of a type counts an index, but none has an entry there. -/
def HasHole (p : Package) (type index : Nat) : Prop :=
  (∃ c ∈ p.entryChunksOf type, index < c.entryCount) ∧
    ∀ c ∈ p.entryChunksOf type, c.entry? index = none

instance : Decidable (p.HasHole type index) :=
  inferInstanceAs (Decidable (_ ∧ _))

theorem not_hasEntry_iff :
    ¬p.HasEntry type index ↔ ∀ c ∈ p.entryChunksOf type, c.entry? index = none := by
  simp only [HasEntry, not_exists, not_and, Option.eq_none_iff_forall_ne_some, ne_eq]

theorem reaches_of_hasEntry (haccepted : p.Accepted strings) (h : p.HasEntry type index) :
    p.reaches type index = true := by
  obtain ⟨c, hc, e, he⟩ := h
  rw [reaches, List.any_eq_true]
  have hlt := (haccepted.sound c (mem_entryChunksOf.mp hc).1).lt_of_entry he
  exact ⟨c, hc, decide_eq_true hlt⟩

/-- No chunk counts the index, or there is a hole or an entry. -/
theorem counted_cases (p : Package) (type index : Nat) :
    (∀ c ∈ p.entryChunksOf type, c.entryCount ≤ index) ∨ p.HasHole type index ∨
      p.HasEntry type index := by
  by_cases hentry : p.HasEntry type index
  · exact .inr (.inr hentry)
  · by_cases hcounted : ∃ c ∈ p.entryChunksOf type, index < c.entryCount
    · exact .inr (.inl ⟨hcounted, not_hasEntry_iff.mp hentry⟩)
    · exact .inl fun c hc => Nat.le_of_not_lt fun hlt => hcounted ⟨c, hc, hlt⟩

theorem wordText_of_not_hasEntry {n : Nat} (h : ¬p.HasEntry (typeOf n) (entryOf n)) :
    p.wordText n = .error (.notFound (.number n)) := by
  have hnone : (p.entryChunksOf (typeOf n)).findSome? (fun c => c.entry? (entryOf n)) = none :=
    List.findSome?_eq_none_iff.mpr (not_hasEntry_iff.mp h)
  rw [wordText, hnone]

/-- The words of an entry are the name of its type and its key, which does not dangle. -/
theorem wordText_of_hasEntry (haccepted : p.Accepted strings) {n : Nat} {name : String}
    (hname : p.typeName? (typeOf n) = some name) (h : p.HasEntry (typeOf n) (entryOf n)) :
    ∃ key, p.wordText n = .ok ("@" ++ name ++ "/" ++ key) := by
  obtain ⟨c, hc, e, he⟩ := h
  have hsome : ((p.entryChunksOf (typeOf n)).findSome? fun c => c.entry? (entryOf n)).isSome =
      true :=
    List.findSome?_isSome_iff.mpr ⟨c, hc, by rw [he, Option.isSome_some]⟩
  obtain ⟨e', hfound⟩ := Option.isSome_iff_exists.mp hsome
  obtain ⟨c', hc', he'⟩ := List.exists_of_findSome?_eq_some hfound
  obtain ⟨key, hkey⟩ := (haccepted.sound c' (mem_entryChunksOf.mp hc').1).keyed _ e' he'
  refine ⟨key, ?_⟩
  rw [wordText, hfound]
  simp only [typeNameAt, hname, keyAt_eq_ok_iff.mpr hkey, bind, Except.bind]

/-- In a hole no bucket has a text. -/
theorem text?_of_hole (hgathers : Gathers strings p.localized (p.entryChunksOf type))
    (hhole : ∀ c ∈ p.entryChunksOf type, c.entry? index = none) :
    (p.localized.select language region).text? index = none := by
  rw [hgathers.text?_select language region index, List.findSome?_eq_none_iff]
  intro c hc
  rw [shownAt?, hhole c (mem_of_mem_chunksFor hc), Option.bind_none]

end Package

/-- A table of one string, with a place in front of it that has no entry. -/
def TableSource.hollow : TableSource where
  strings := ["Hello"]
  packages := [⟨0x7f, "p", ["string"], ["greeting"],
    [.entries 1 ⟨.none, .none, 0⟩ [.absent, .simple 0 3 0]]⟩]

namespace Table

variable {buffer : Bytes} {t : Table} {p : Package}

/-- What is said of the number of a string.  Where no chunk counts its index, both lookups miss it;
at a hole the words are missing while the string is only without a text; and where some chunk has an
entry, it has words, and a text or none in each language and region. -/
theorem find_string_cases (hdecode : Table.decode buffer = .ok t)
    (hfirst : t.firstPackage = .ok p) (hone : p.typePool.strings.toList.count "string" ≤ 1)
    {id : String} {n : Nat} (hid : hexId? id = some n)
    (hname : p.typeName? (typeOf n) = some "string") :
    ((∀ c ∈ p.entryChunksOf (typeOf n), c.entryCount ≤ entryOf n) ∨
      p.HasHole (typeOf n) (entryOf n) ∨ p.HasEntry (typeOf n) (entryOf n)) ∧
    ((∀ c ∈ p.entryChunksOf (typeOf n), c.entryCount ≤ entryOf n) →
      t.wordTextOf id = .error (.notFound (.number n)) ∧
      ∀ language region,
        t.find id language region = .error (.notFound (.stringEntry (entryOf n)))) ∧
    (p.HasHole (typeOf n) (entryOf n) →
      t.wordTextOf id = .error (.notFound (.number n)) ∧
      ∀ language region, t.find id language region = .ok .nothing) ∧
    (p.HasEntry (typeOf n) (entryOf n) →
      (∃ key, t.wordTextOf id = .ok ("@string/" ++ key)) ∧
      ∀ language region, t.find id language region = .ok .nothing ∨
        ∃ s, t.find id language region = .ok (.text s)) := by
  obtain ⟨strings, haccepted⟩ := accepted_of_decode hdecode hfirst
  have hgathers := Package.gathers_of_accepted haccepted hone hname
  have hwords : t.wordTextOf id = p.wordText n := by
    rw [wordTextOf_eq hfirst, Package.wordTextOf, hid]
  have hfind (language region : Option String) : t.find id language region =
      p.findString (typeOf n) (entryOf n) language region := by
    rw [find_eq hfirst, Package.find_of_string (Package.numberOf_of_hexId hid) hname]
  refine ⟨p.counted_cases _ _, fun hcounts => ?_, fun hhole => ?_, fun hentry => ?_⟩
  · -- What is not counted is no entry either, so both lookups miss it.
    have hreaches := Package.reaches_eq_false_iff.mpr hcounts
    have hnone : ¬p.HasEntry (typeOf n) (entryOf n) := fun hentry => by
      rw [Package.reaches_of_hasEntry haccepted hentry] at hreaches
      cases hreaches
    refine ⟨hwords.trans (Package.wordText_of_not_hasEntry hnone), fun language region => ?_⟩
    rw [hfind, Package.findString, hreaches]
    rfl
  · -- A string is looked for once its index is counted; words need an entry.
    obtain ⟨⟨c, hc, hlt⟩, hnone⟩ := hhole
    have hreaches : p.reaches (typeOf n) (entryOf n) = true :=
      List.any_eq_true.mpr ⟨c, hc, decide_eq_true hlt⟩
    have hwordless := Package.wordText_of_not_hasEntry (Package.not_hasEntry_iff.mpr hnone)
    refine ⟨hwords.trans hwordless, fun language region => ?_⟩
    rw [hfind, Package.findString, if_pos hreaches, Package.text?_of_hole hgathers hnone]
  · obtain ⟨key, hkey⟩ := Package.wordText_of_hasEntry haccepted hname hentry
    have hreaches := Package.reaches_of_hasEntry haccepted hentry
    refine ⟨⟨key, hwords.trans hkey⟩, fun language region => ?_⟩
    rw [hfind, Package.findString, if_pos hreaches]
    split
    · exact .inr ⟨_, rfl⟩
    · exact .inl rfl

theorem decode_hollow : ∃ t p, Table.decode TableSource.hollow.encode.toArray = .ok t ∧
    t.firstPackage = .ok p ∧ p.typePool.strings.toList.count "string" ≤ 1 ∧
    p.typeName? 1 = some "string" ∧ p.HasHole 1 0 ∧
    t.find "@0x7f010000" none none = .ok .nothing ∧
    t.wordTextOf "@0x7f010000" = .error (.notFound (.number 0x7f010000)) := by
  obtain ⟨t, p, hdecode, hfirst, htest⟩ := exists_first_of_test
    TableSource.hollow.encode.toArray
    (fun t p => p.typePool.strings.toList.count "string" ≤ 1 ∧ p.typeName? 1 = some "string" ∧
      p.HasHole 1 0 ∧ t.find "@0x7f010000" none none = .ok .nothing ∧
      t.wordTextOf "@0x7f010000" = .error (.notFound (.number 0x7f010000)))
    (by decide +kernel)
  exact ⟨t, p, hdecode, hfirst, of_decide_eq_true htest⟩

theorem find_string_cases_hollow :
    ∃ t p, Table.decode TableSource.hollow.encode.toArray = .ok t ∧ t.firstPackage = .ok p ∧
      p.typePool.strings.toList.count "string" ≤ 1 ∧ hexId? "@0x7f010000" = some 0x7f010000 ∧
      p.typeName? (typeOf (0x7f010000 : Nat)) = some "string" ∧ p.HasHole 1 0 ∧
      ∀ language region, t.find "@0x7f010000" language region = .ok .nothing := by
  obtain ⟨t, p, hdecode, hfirst, hone, hname, hhole, -, -⟩ := decode_hollow
  have hid : hexId? "@0x7f010000" = some 0x7f010000 := by decide +kernel
  obtain ⟨-, -, hfound, -⟩ := find_string_cases hdecode hfirst hone hid hname
  exact ⟨t, p, hdecode, hfirst, hone, hid, hname, hhole, (hfound hhole).2⟩

/-- A string that no chunk has an entry for may be found, without a text, while its words are
missing. -/
theorem hole_found :
    ∃ t p, Table.decode TableSource.hollow.encode.toArray = .ok t ∧ t.firstPackage = .ok p ∧
      p.typePool.strings.toList.count "string" ≤ 1 ∧ p.typeName? 1 = some "string" ∧
      (∀ c ∈ p.entryChunksOf 1, c.entry? 0 = none) ∧
      t.find "@0x7f010000" none none = .ok .nothing ∧
      t.wordTextOf "@0x7f010000" = .error (.notFound (.number 0x7f010000)) := by
  obtain ⟨t, p, hdecode, hfirst, hone, hname, ⟨-, hnone⟩, hfound, hwords⟩ := decode_hollow
  exact ⟨t, p, hdecode, hfirst, hone, hname, hnone, hfound, hwords⟩

end Table

end ApkFormats.Resource
