import ApkFormats.Proofs.Resource.Finding

/-!
# Indices that lookups follow

A lookup follows three kinds of indices that stand in the file: the key of an
entry, the type of a chunk of entries, and the string of a value.  Keys are
looked up while a table is decoded, and so are the strings that are gathered by
language and region.  The other two are not: the type of a chunk may have no
name, and the strings of drawables may lie outside the pool.

* `Package.Nameless`, `Package.Stray`: the resources whose lookup runs into such
  an index;
* `Table.answered_iff`: every other lookup answers;
* `Table.lookups_dangle`: accepted tables hold such resources.
-/

namespace ApkFormats

namespace StringPool

variable {pool : StringPool}

/-- Only an index behind the strings dangles, in a pool whose indices are index words. -/
theorem stringAt_fails_iff (hsmall : pool.strings.size < noIndex) {n : Nat} :
    (∃ fault, pool.stringAt n = .error fault) ↔ pool.strings.size ≤ n := by
  constructor
  · rintro ⟨fault, hfault⟩
    by_contra hinside
    have hlt : n < pool.strings.size := by omega
    rw [stringAt_eq (Array.getElem?_eq_getElem hlt) (Nat.lt_trans hlt hsmall)] at hfault
    cases hfault
  · intro houtside
    refine ⟨.poolString n pool.strings.size, ?_⟩
    rw [stringAt, Int.toNat_natCast, Array.getElem?_eq_none houtside]
    split <;> rfl

end StringPool

namespace Resource

/-- A lookup gives a value, refuses a question that is no identifier, or finds nothing. -/
def Answered {α : Type} (r : Except LookupError α) : Prop :=
  (∃ a, r = .ok a) ∨ (∃ id, r = .error (.invalidIdentifier id)) ∨
    ∃ what, r = .error (.notFound what)

section Answers

variable {α β : Type} {r : Except LookupError α}

/-- Only an index outside its table keeps a lookup from answering. -/
theorem answered_iff_ne : Answered r ↔ ∀ fault, r ≠ .error (.invalidIndex fault) := by
  match r with
  | .ok a => simp [Answered]
  | .error (.invalidIndex fault) => simp [Answered]
  | .error (.invalidIdentifier id) => simp [Answered]
  | .error (.notFound what) => simp [Answered]

theorem Answered.ok (a : α) : Answered (.ok a : Except LookupError α) :=
  .inl ⟨a, rfl⟩

theorem Answered.notFound (what : Missing) :
    Answered (.error (.notFound what) : Except LookupError α) :=
  .inr (.inr ⟨what, rfl⟩)

theorem Answered.invalidIdentifier (id : String) :
    Answered (.error (.invalidIdentifier id) : Except LookupError α) :=
  .inr (.inl ⟨id, rfl⟩)

theorem not_answered {fault : IndexFault} :
    ¬Answered (.error (.invalidIndex fault) : Except LookupError α) :=
  fun h => answered_iff_ne.mp h fault rfl

theorem answered_error_iff {e : LookupError} :
    Answered (.error e : Except LookupError α) ↔ Answered (.error e : Except LookupError β) := by
  simp only [answered_iff_ne, ne_eq, Except.error.injEq]

theorem answered_map_iff {g : α → β} : Answered (r.map g) ↔ Answered r := by
  cases r with
  | ok a => exact iff_of_true (.ok _) (.ok a)
  | error e => exact answered_error_iff

end Answers

namespace Package

variable {p : Package} {strings : Option StringPool}

/-- An entry has the number, but its type has no name. -/
def Nameless (p : Package) (n : Int) : Prop :=
  p.typeName? (typeOf n) = none ∧
    ∃ c ∈ p.entryChunksOf (typeOf n), ∃ e, c.entry? (entryOf n) = some e

/-- A drawable has the number, and in some configuration it is a string outside a pool. -/
def Stray (p : Package) (pool : StringPool) (n : Int) : Prop :=
  (p.typeName? (typeOf n) = some "drawable" ∨ p.typeName? (typeOf n) = some "mipmap") ∧
    ∃ c ∈ p.entryChunksOf (typeOf n), ∃ e v, c.entry? (entryOf n) = some e ∧ e.value? = some v ∧
      (v.type : Int) = Value.stringType ∧ pool.strings.size ≤ v.data

theorem numberText_answered (id : String) : Answered (p.numberText id) := by
  unfold numberText
  split
  · exact .invalidIdentifier id
  · rename_i name key hwords
    unfold typeId
    cases typeIdIn? p.typePool name with
    | none => exact .notFound _
    | some type =>
        simp only [bind, Except.bind]
        split
        · exact .ok _
        · exact .notFound _

theorem numberOf_answered (id : String) : Answered (p.numberOf id) := by
  unfold numberOf
  split
  · exact .invalidIdentifier id
  · exact .ok _
  · exact answered_map_iff.mpr (numberText_answered id)

/-- The words of a number are found unless its type has no name: keys do not dangle. -/
theorem wordText_answered_iff (haccepted : p.Accepted strings) (n : Int) :
    Answered (p.wordText n) ↔ ¬p.Nameless n := by
  unfold wordText
  split
  · rename_i e hfound
    obtain ⟨c, hc, he⟩ := List.exists_of_findSome?_eq_some hfound
    obtain ⟨key, hkey⟩ := (haccepted.sound c (mem_entryChunksOf.mp hc).1).keyed _ e he
    rw [typeNameAt]
    cases hname : p.typeName? (typeOf n) with
    | none =>
        have hnameless : p.Nameless n := ⟨hname, c, hc, e, he⟩
        exact iff_of_false not_answered (not_not_intro hnameless)
    | some name =>
        have hnot : ¬p.Nameless n := fun h => by
          rw [h.1] at hname
          cases hname
        refine iff_of_true ?_ hnot
        simp only [keyAt_eq_ok_iff.mpr hkey, bind, Except.bind]
        exact .ok _
  · rename_i hnone
    refine iff_of_true (.notFound _) ?_
    rintro ⟨-, c, hc, e, he⟩
    rw [List.findSome?_eq_none_iff.mp hnone c hc] at he
    cases he

/-- A value dangles when it is a string outside the pool. -/
theorem resolve_fails_iff {pool : StringPool} (hsmall : pool.strings.size < noIndex) {e : Entry} :
    (∃ fault, e.resolve (some pool) = .error fault) ↔
      ∃ v, e.value? = some v ∧ (v.type : Int) = Value.stringType ∧ pool.strings.size ≤ v.data := by
  unfold Entry.resolve
  split
  · rename_i v hv
    rw [hv]
    simp only [Option.some.injEq, exists_eq_left', ← StringPool.stringAt_fails_iff hsmall,
      Value.ofTyped]
    by_cases hstring : (v.type : Int) = Value.stringType
    · rw [if_pos hstring]
      cases pool.stringAt v.data <;> simp [Except.map, hstring]
    · simp [hstring, Except.map]
  · rename_i hnone
    simp [hnone]

/-- The text of a value dangles when the value does. -/
theorem textAt_fails_iff {pool : StringPool} (hsmall : pool.strings.size < noIndex) {index : Nat}
    {c : TypeEntries} :
    (∃ error, textAt (some pool) index c = .error error) ↔
      ∃ e v, c.entry? index = some e ∧ e.value? = some v ∧ (v.type : Int) = Value.stringType ∧
        pool.strings.size ≤ v.data := by
  unfold textAt
  split
  · rename_i hnone
    simp [hnone]
  · rename_i e he
    simp only [he, Option.some.injEq, exists_and_left, exists_eq_left',
      ← resolve_fails_iff hsmall]
    cases hvalue : e.resolve (some pool) with
    | ok value => simp
    | error fault => simp

theorem textAt_error {index : Nat} {c : TypeEntries} {error : LookupError}
    (h : textAt strings index c = .error error) : ∃ fault, error = .invalidIndex fault := by
  unfold textAt at h
  split at h
  · cases h
  · split at h
    · cases h
    · cases h
      exact ⟨_, rfl⟩

theorem texts_answered_iff {index : Nat} {chunks : List TypeEntries} :
    Answered (chunks.mapM (textAt strings index)) ↔
      ¬∃ c ∈ chunks, ∃ error, textAt strings index c = .error error := by
  constructor
  · rintro h ⟨c, hc, error, herror⟩
    cases htexts : chunks.mapM (textAt strings index) with
    | ok texts =>
        obtain ⟨text, -, htext⟩ := exists_of_mem_left (forall₂_of_mapM htexts) hc
        rw [herror] at htext
        cases htext
    | error first =>
        obtain ⟨c', -, hfirst⟩ := exists_error_of_mapM htexts
        obtain ⟨fault, rfl⟩ := textAt_error hfirst
        exact answered_iff_ne.mp h fault htexts
  · intro h
    refine answered_iff_ne.mpr fun fault hfault => ?_
    obtain ⟨c, hc, herror⟩ := exists_error_of_mapM hfault
    exact h ⟨c, hc, _, herror⟩

theorem findString_answered (type index : Nat) (language region : Option String) :
    Answered (p.findString type index language region) := by
  unfold findString
  split
  · split <;> exact .ok _
  · exact .notFound _

/-- The types whose values are given for every configuration. -/
theorem mem_drawableTypeNames {name : String} :
    name ∈ drawableTypeNames ↔ name = "drawable" ∨ name = "mipmap" := by
  simp [drawableTypeNames]

/-- A lookup by identifier answers unless it is for a drawable with a string outside the pool. -/
theorem find_answered_iff {pool : StringPool} (hsmall : pool.strings.size < noIndex) (id : String)
    (language region : Option String) :
    Answered (p.find (some pool) id language region) ↔
      ∀ n : Nat, p.numberOf id = .ok n → ¬p.Stray pool n := by
  cases hnumber : p.numberOf id with
  | error e =>
      have hfind : p.find (some pool) id language region = .error e := by
        rw [find, hnumber]
        rfl
      have hanswered := numberOf_answered (p := p) id
      rw [hnumber] at hanswered
      rw [hfind]
      exact iff_of_true (answered_error_iff.mp hanswered) (by simp)
  | ok n =>
      rw [find_of_numberOf hnumber]
      simp only [Except.ok.injEq, forall_eq', Stray]
      cases hname : p.typeName? (typeOf n) with
      | none => exact iff_of_true (.ok _) (by simp)
      | some name =>
          simp only [Option.some.injEq, ← mem_drawableTypeNames]
          by_cases hstring : name = stringTypeName
          · have hother : name ∉ drawableTypeNames := by
              rw [hstring]
              decide
            rw [if_pos hstring]
            exact iff_of_true (findString_answered _ _ _ _) fun h => hother h.1
          rw [if_neg hstring]
          by_cases hdrawable : name ∈ drawableTypeNames
          · rw [if_pos hdrawable, answered_map_iff, texts_answered_iff]
            simp only [textAt_fails_iff hsmall, hdrawable, true_and]
          · rw [if_neg hdrawable]
            exact iff_of_true (.ok _) fun h => hdrawable h.1

theorem wordTextOf_answered_iff (haccepted : p.Accepted strings) (id : String) :
    Answered (p.wordTextOf id) ↔ ∀ n : Nat, hexId? id = some n → ¬p.Nameless n := by
  unfold wordTextOf
  split
  · rename_i n hn
    simp only [hn, Option.some.injEq, forall_eq']
    exact wordText_answered_iff haccepted n
  · rename_i hnone
    exact iff_of_true (.invalidIdentifier id) (by simp [hnone])

end Package

namespace Table

variable {buffer : Bytes} {t : Table}

theorem firstPackage_answered : Answered t.firstPackage := by
  unfold firstPackage
  split
  · exact .ok _
  · exact .notFound _

/-- A lookup in a table answers as it does in the first package. -/
theorem answered_first_iff {α : Type} {f : Package → Except LookupError α} :
    Answered (t.firstPackage >>= f) ↔ ∀ p, t.firstPackage = .ok p → Answered (f p) := by
  cases hfirst : t.firstPackage with
  | ok p =>
      simp only [Except.ok.injEq, forall_eq']
      rfl
  | error e =>
      have hanswered := firstPackage_answered (t := t)
      rw [hfirst] at hanswered
      exact iff_of_true (answered_error_iff.mp hanswered) (by simp)

/-- A lookup in an accepted table gives a value, refuses a question that is no identifier, or finds
nothing, unless it asks for words of a type without a name or for a drawable whose string lies
outside the pool. -/
theorem answered_iff (hdecode : Table.decode buffer = .ok t) :
    (∀ id language region, Answered (t.find id language region) ↔
      ∀ p pool, t.firstPackage = .ok p → t.pool = some pool →
        ∀ n : Nat, p.numberOf id = .ok n → ¬p.Stray pool n) ∧
    (∀ id, Answered (t.wordTextOf id) ↔
      ∀ p, t.firstPackage = .ok p → ∀ n : Nat, hexId? id = some n → ¬p.Nameless n) ∧
    (∀ n, Answered (t.wordText n) ↔ ∀ p, t.firstPackage = .ok p → ¬p.Nameless n) ∧
    ∀ id, Answered (t.numberText id) := by
  refine ⟨fun id language region => ?_, fun id => ?_, fun n => ?_, fun id => ?_⟩
  · refine answered_first_iff.trans ⟨fun h p pool hfirst hpool => ?_, fun h p hfirst => ?_⟩
    · have hfound := h p hfirst
      obtain ⟨_, hpool', hsmall⟩ := pool_of_firstPackage hdecode hfirst
      rw [hpool, Option.some.injEq] at hpool'
      rw [hpool, Package.find_answered_iff (hpool' ▸ hsmall)] at hfound
      exact hfound
    · obtain ⟨pool, hpool, hsmall⟩ := pool_of_firstPackage hdecode hfirst
      rw [hpool, Package.find_answered_iff hsmall]
      exact h p pool hfirst hpool
  · refine answered_first_iff.trans (forall₂_congr fun p hfirst => ?_)
    obtain ⟨strings, haccepted⟩ := accepted_of_decode hdecode hfirst
    exact Package.wordTextOf_answered_iff haccepted id
  · refine answered_first_iff.trans (forall₂_congr fun p hfirst => ?_)
    obtain ⟨strings, haccepted⟩ := accepted_of_decode hdecode hfirst
    exact Package.wordText_answered_iff haccepted n
  · exact answered_first_iff.mpr fun p _ => Package.numberText_answered id

end Table

/-- A table with an entry of a type that has no name and a drawable that is a string outside the
pool. -/
def TableSource.dangling : TableSource where
  strings := ["Hello"]
  packages := [⟨0x7f, "p", ["string", "drawable"], ["k"],
    [.entries 1 ⟨.none, .none, 0⟩ [.simple 0 3 0], .entries 2 ⟨.none, .none, 0⟩ [.simple 0 3 5],
      .entries 3 ⟨.none, .none, 0⟩ [.simple 0 0x10 42]]⟩]

namespace Table

theorem decode_dangling : ∃ t p, Table.decode TableSource.dangling.encode.toArray = .ok t ∧
    t.firstPackage = .ok p ∧ p.typeName? 1 = some "string" ∧ p.typeName? 3 = none ∧
    (∃ c ∈ p.entryChunksOf 3, ∃ e, c.entry? 0 = some e) ∧
    t.find "@0x7f020000" none none = .error (.invalidIndex (.poolString 5 1)) ∧
    t.wordTextOf "@0x7f030000" = .error (.invalidIndex (.resourceType 3 2)) := by
  obtain ⟨t, p, hdecode, hfirst, htest⟩ := exists_first_of_test
    TableSource.dangling.encode.toArray
    (fun t p => p.typeName? 1 = some "string" ∧ p.typeName? 3 = none ∧
      (∃ c ∈ p.entryChunksOf 3, (c.entry? 0).isSome) ∧
      t.find "@0x7f020000" none none = .error (.invalidIndex (.poolString 5 1)) ∧
      t.wordTextOf "@0x7f030000" = .error (.invalidIndex (.resourceType 3 2)))
    (by decide +kernel)
  obtain ⟨hstring, hnone, ⟨c, hc, he⟩, herrors⟩ := of_decide_eq_true htest
  exact ⟨t, p, hdecode, hfirst, hstring, hnone, ⟨c, hc, Option.isSome_iff_exists.mp he⟩, herrors⟩

/-- Strings of the type that is gathered are found, a type without a name is not. -/
theorem answered_iff_dangling :
    ∃ t, Table.decode TableSource.dangling.encode.toArray = .ok t ∧
      Answered (t.find "@0x7f010000" none none) ∧ ¬Answered (t.wordTextOf "@0x7f030000") := by
  obtain ⟨t, p, hdecode, hfirst, hstring, hnone, hentry, -⟩ := decode_dangling
  obtain ⟨hfind, hwords, -⟩ := answered_iff hdecode
  refine ⟨t, hdecode, (hfind _ none none).mpr ?_, fun h => ?_⟩
  · intro p' pool hfirst' _ n hn hstray
    rw [hfirst, Except.ok.injEq] at hfirst'
    subst hfirst'
    rw [Package.numberOf_of_hexId (n := 0x7f010000) (by decide +kernel), Except.ok.injEq] at hn
    subst hn
    have htype : ((typeOf (0x7f010000 : Nat) : Nat) : Int) = 1 := rfl
    rw [Package.Stray, htype, hstring] at hstray
    simp at hstray
  · exact (hwords _).mp h p hfirst 0x7f030000 (by decide +kernel) ⟨hnone, hentry⟩

/-- An accepted table may hold indices that no lookup gets past: the string of a drawable outside
the pool, and a type of entries without a name. -/
theorem lookups_dangle :
    ∃ t, Table.decode TableSource.dangling.encode.toArray = .ok t ∧
      t.find "@0x7f020000" none none = .error (.invalidIndex (.poolString 5 1)) ∧
      t.wordTextOf "@0x7f030000" = .error (.invalidIndex (.resourceType 3 2)) := by
  obtain ⟨t, -, hdecode, -, -, -, -, herrors⟩ := decode_dangling
  exact ⟨t, hdecode, herrors⟩

end Table

end Resource

end ApkFormats
