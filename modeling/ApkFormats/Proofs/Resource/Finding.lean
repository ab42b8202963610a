import ApkFormats.Proofs.Resource.Gathering
import ApkFormats.Proofs.Resource.Naming
import ApkFormats.Proofs.StringPool

/-!
# What a lookup by identifier finds

`Package.answer` says what the resource of a type and an index stands for, by a
search through the chunks of the type: no buckets are gathered for it.

* `Table.find_eq_answer`: every lookup by number gives that answer, in a table
  with one string pool; a question is refused exactly when it is no identifier.
-/

namespace ApkFormats.Resource

open Text

namespace Package

/-- What a resource stands for: the text of a string in a language or region, or the texts that a
drawable has in all its configurations. -/
def answer (p : Package) (strings : Option StringPool) (type index : Nat)
    (language region : Option String) : Except LookupError Found :=
  if p.typeName? type = some "string" then
    if ∀ c ∈ p.entryChunksOf type, c.entryCount ≤ index then
      .error (.notFound (.stringEntry index))
    else
      match (chunksFor language region (p.entryChunksOf type)).findSome?
          (shownAt? strings index) with
      | some s => .ok (.text s)
      | none => .ok .nothing
  else if p.typeName? type = some "drawable" ∨ p.typeName? type = some "mipmap" then
    .ok (.texts ((p.entryChunksOf type).filterMap (shownAt? strings index)))
  else .ok .nothing

/-- The strings among the values of a type lie inside a pool. -/
def StringsInside (p : Package) (pool : StringPool) (type : Nat) : Prop :=
  ∀ c ∈ p.entryChunksOf type, ∀ (i : Nat) e v, c.entry? i = some e → e.value? = some v →
    (v.type : Int) = Value.stringType → v.data < pool.strings.size

variable {p : Package} {strings : Option StringPool} {type index : Nat}

/-- The strings of the first type that is named for them are gathered. -/
theorem Accepted.ofChunks (haccepted : p.Accepted strings) (htype : p.typeId "string" = .ok type) :
    Localized.ofChunks strings (p.entryChunksOf type) = .ok p.localized := by
  have hgathered := haccepted.gathered
  unfold typeId at htype
  unfold gatherStrings at hgathered
  rw [stringTypeName] at hgathered
  cases hindex : typeIdIn? p.typePool "string" with
  | none =>
      rw [hindex] at htype
      cases htype
  | some id =>
      rw [hindex] at htype hgathered
      cases htype
      rw [entryChunksOf_natCast]
      exact hgathered

/-- The gathered strings are those of the one type that is named for them. -/
theorem gathers_of_accepted (haccepted : p.Accepted strings)
    (hone : p.typePool.strings.toList.count "string" ≤ 1)
    (hname : p.typeName? type = some "string") :
    Gathers strings p.localized (p.entryChunksOf type) :=
  gathers_of_ofChunks (haccepted.ofChunks (typeId_of_typeName? hone hname))

theorem reaches_eq_false_iff :
    p.reaches type index = false ↔ ∀ c ∈ p.entryChunksOf type, c.entryCount ≤ index := by
  rw [reaches, List.any_eq_false]
  simp

theorem findString_eq {language region : Option String} (haccepted : p.Accepted strings)
    (hone : p.typePool.strings.toList.count "string" ≤ 1)
    (hname : p.typeName? type = some "string") :
    p.findString type index language region = p.answer strings type index language region := by
  rw [findString, answer, if_pos hname,
    (gathers_of_accepted haccepted hone hname).text?_select language region index]
  cases hreaches : p.reaches type index with
  | false =>
      rw [if_pos (reaches_eq_false_iff.mp hreaches)]
      rfl
  | true =>
      have hnot : ¬ ∀ c ∈ p.entryChunksOf type, c.entryCount ≤ index := by
        rw [← reaches_eq_false_iff, hreaches]
        simp
      rw [if_neg hnot]
      rfl

/-- A string inside the pool can be looked up. -/
theorem textAt_eq {pool : StringPool} {c : TypeEntries} (hpool : pool.strings.size < noIndex)
    (hinside : p.StringsInside pool type) (hc : c ∈ p.entryChunksOf type) :
    textAt (some pool) index c = .ok (shownAt? (some pool) index c) := by
  rw [textAt, shownAt?]
  cases he : c.entry? index with
  | none => rfl
  | some e =>
      have hresolve : ∃ value, e.resolve (some pool) = .ok value := by
        rw [Entry.resolve]
        cases hv : e.value? with
        | none => exact ⟨none, rfl⟩
        | some v =>
            simp only [Value.ofTyped]
            by_cases hstring : (v.type : Int) = Value.stringType
            · have hdata := hinside c hc index e v he hv hstring
              have hlookup := StringPool.stringAt_eq (Array.getElem?_eq_getElem hdata)
                (Nat.lt_trans hdata hpool)
              rw [if_pos hstring, hlookup]
              exact ⟨_, rfl⟩
            · rw [if_neg hstring]
              exact ⟨_, rfl⟩
      obtain ⟨value, hvalue⟩ := hresolve
      simp only [Option.bind_some, hvalue]

theorem find_of_numberOf {id : String} {n : Nat} {language region : Option String}
    (hnumber : p.numberOf id = .ok n) :
    p.find strings id language region =
      match p.typeName? (typeOf n) with
      | none => .ok .nothing
      | some name =>
          if name = stringTypeName then p.findString (typeOf n) (entryOf n) language region
          else if name ∈ drawableTypeNames then
            ((p.entryChunksOf (typeOf n)).mapM (textAt strings (entryOf n))).map fun texts =>
              .texts (texts.filterMap fun t => t)
          else .ok .nothing := by
  rw [find, hnumber]
  simp only [bind, Except.bind]
  cases p.typeName? (typeOf n) with
  | none => rfl
  | some name =>
      by_cases hstring : name = stringTypeName
      · simp only [if_pos hstring]
      · simp only [if_neg hstring]
        by_cases hdrawable : name ∈ drawableTypeNames
        · simp only [if_pos hdrawable]
          cases (p.entryChunksOf (typeOf n)).mapM (textAt strings (entryOf n)) <;> rfl
        · simp only [if_neg hdrawable]

/-- A string is looked up by language and region. -/
theorem find_of_string {id : String} {n : Nat} {language region : Option String}
    (hnumber : p.numberOf id = .ok n) (hname : p.typeName? (typeOf n) = some "string") :
    p.find strings id language region = p.findString (typeOf n) (entryOf n) language region := by
  rw [find_of_numberOf hnumber, hname]
  rfl

theorem numberOf_of_hexId {id : String} {n : Nat} (hid : hexId? id = some n) :
    p.numberOf id = .ok n := by
  rw [numberOf, parse?, hid]

/-- A lookup by number gives the answer of the search. -/
theorem find_eq_answer {pool : StringPool} {id : String} {n : Nat}
    {language region : Option String} (haccepted : p.Accepted (some pool))
    (hpool : pool.strings.size < noIndex) (hone : p.typePool.strings.toList.count "string" ≤ 1)
    (hid : hexId? id = some n)
    (hinside : p.typeName? (typeOf n) = some "drawable" ∨ p.typeName? (typeOf n) = some "mipmap" →
      p.StringsInside pool (typeOf n)) :
    p.find (some pool) id language region =
      p.answer (some pool) (typeOf n) (entryOf n) language region := by
  rw [find_of_numberOf (numberOf_of_hexId hid)]
  cases hname : p.typeName? (typeOf n) with
  | none =>
      rw [answer, hname]
      rfl
  | some name =>
      by_cases hstring : name = "string"
      · rw [hstring] at hname
        rw [hstring, ← findString_eq haccepted hone hname]
        rfl
      have hother : ¬ p.typeName? (typeOf n) = some "string" := by
        rw [hname, Option.some.injEq]
        exact hstring
      rw [answer, if_neg hother, hname]
      simp only [Option.some.injEq, if_neg hstring, stringTypeName, drawableTypeNames,
        List.mem_cons, List.not_mem_nil, or_false]
      by_cases hdrawable : name = "drawable" ∨ name = "mipmap"
      · rw [if_pos hdrawable, if_pos hdrawable]
        have hstrings : p.StringsInside pool (typeOf n) := by
          apply hinside
          rw [hname, Option.some.injEq, Option.some.injEq]
          exact hdrawable
        have htexts : (p.entryChunksOf (typeOf n)).mapM (textAt (some pool) (entryOf n)) =
            .ok ((p.entryChunksOf (typeOf n)).map (shownAt? (some pool) (entryOf n))) := by
          refine mapM_ok ?_
          rw [List.forall₂_map_right_iff, List.forall₂_same]
          exact fun c hc => textAt_eq hpool hstrings hc
        rw [htexts, Except.map, List.filterMap_map]
        rfl
      · rw [if_neg hdrawable, if_neg hdrawable]

theorem numberText_ne_invalid {id s : String} (hid : (wordId? id).isSome = true) :
    p.numberText id ≠ .error (.invalidIdentifier s) := by
  intro h
  unfold numberText at h
  split at h
  · rename_i hnone
    rw [hnone] at hid
    cases hid
  · rename_i name key hwords
    rw [typeId] at h
    cases htype : typeIdIn? p.typePool name with
    | none =>
        rw [htype] at h
        cases h
    | some type =>
        rw [htype] at h
        simp only [bind, Except.bind] at h
        split at h
        · cases h
        · cases h

theorem numberOf_refuses_iff {id s : String} :
    p.numberOf id = .error (.invalidIdentifier s) ↔ parse? id = none ∧ id = s := by
  rw [numberOf]
  cases hparse : parse? id with
  | none => simp
  | some form =>
      cases form with
      | number n => simp
      | words name key =>
          have hwords : (wordId? id).isSome = true := by
            rw [parse?] at hparse
            cases hhex : hexId? id with
            | some n =>
                rw [hhex] at hparse
                cases hparse
            | none =>
                rw [hhex] at hparse
                obtain ⟨w, hw, -⟩ := Option.map_eq_some_iff.mp hparse
                rw [hw]
                rfl
          have hvalid := numberText_ne_invalid (p := p) (s := s) hwords
          cases htext : p.numberText id with
          | ok text => simp [bind, Except.bind]
          | error e =>
              rw [htext] at hvalid
              simpa [bind, Except.bind] using hvalid

/-- Only what is no identifier is refused as such. -/
theorem find_refuses_iff {id s : String} {language region : Option String} :
    p.find strings id language region = .error (.invalidIdentifier s) ↔
      parse? id = none ∧ id = s := by
  rw [← numberOf_refuses_iff (p := p), find]
  cases hnumber : p.numberOf id with
  | error e => simp [bind, Except.bind]
  | ok n =>
      simp only [bind, Except.bind, reduceCtorEq, iff_false]
      intro h
      split at h
      · cases h
      · rename_i name hname
        split at h
        · rw [findString] at h
          split at h
          · split at h
            · cases h
            · cases h
          · cases h
        · split at h
          · split at h
            · rename_i e herror
              cases h
              obtain ⟨c, -, hc⟩ := exists_error_of_mapM herror
              rw [textAt] at hc
              split at hc
              · cases hc
              · split at hc
                · cases hc
                · cases hc
            · cases h
          · cases h

end Package

namespace Table

variable {buffer : Bytes} {t : Table} {p : Package}

/-- What is known of a table with one string pool, and of its first package. -/
theorem accepted_of_single (hdecode : Table.decode buffer = .ok t)
    (hsingle : (topChunksFrom buffer 0).countP (fun c => c.type == stringPoolType) = 1)
    (hfirst : t.firstPackage = .ok p) :
    ∃ pool, t.pool = some pool ∧ pool.strings.size < noIndex ∧ p.Accepted (some pool) := by
  obtain ⟨pool, hpool, hsmall⟩ := pool_of_firstPackage hdecode hfirst
  have haccepted := (loads_of_decode hdecode).accepted_of_single (by rw [hsingle]; exact .refl)
    (fun _ => rfl) (fun q hq => by cases hq) p (mem_of_firstPackage hfirst)
  rw [hpool] at haccepted
  exact ⟨pool, hpool, hsmall, haccepted⟩

/-- **A lookup by number gives what a search through the chunks finds**, and only questions that are
no identifiers are refused. -/
theorem find_eq_search (hdecode : Table.decode buffer = .ok t)
    (hsingle : (topChunksFrom buffer 0).countP (fun c => c.type == stringPoolType) = 1)
    (hfirst : t.firstPackage = .ok p) (hone : p.typePool.strings.toList.count "string" ≤ 1)
    (language region : Option String) :
    ∃ pool, t.pool = some pool ∧
      (∀ id, IsNumberId id → ∃ n, hexId? id = some n ∧
        ∀ type index, type = n / 0x10000 % 0x100 → index = n % 0x10000 →
          (p.typeName? type = some "drawable" ∨ p.typeName? type = some "mipmap" →
            p.StringsInside pool type) →
          t.find id language region = p.answer (some pool) type index language region) ∧
      ∀ id, (∃ s, t.find id language region = .error (.invalidIdentifier s)) ↔
        ¬ IsNumberId id ∧ ¬ IsWordId id := by
  obtain ⟨pool, hpool, hsmall, haccepted⟩ := accepted_of_single hdecode hsingle hfirst
  have hfind : ∀ id, t.find id language region = p.find (some pool) id language region := by
    intro id
    rw [find, hfirst, hpool]
    rfl
  refine ⟨pool, hpool, ?_, ?_⟩
  · intro id hnumber
    obtain ⟨n, hn⟩ := Option.isSome_iff_exists.mp (isSome_hexId?_iff.mpr hnumber)
    refine ⟨n, hn, ?_⟩
    rintro type index rfl rfl hinside
    rw [← typeOf_natCast] at hinside ⊢
    rw [hfind, ← entryOf_natCast]
    exact Package.find_eq_answer haccepted hsmall hone hn hinside
  · intro id
    rw [← parse?_eq_none_iff, hfind]
    constructor
    · rintro ⟨s, hs⟩
      exact (Package.find_refuses_iff.mp hs).1
    · intro hnone
      exact ⟨id, Package.find_refuses_iff.mpr ⟨hnone, rfl⟩⟩

theorem find_eq_search_dotted :
    ∃ t p pool, Table.decode TableSource.dotted.encode.toArray = .ok t ∧
      (topChunksFrom TableSource.dotted.encode.toArray 0).countP
        (fun c => c.type == stringPoolType) = 1 ∧
      t.firstPackage = .ok p ∧ p.typePool.strings.toList.count "string" ≤ 1 ∧
      t.pool = some pool ∧ IsNumberId "@0x7f010001" ∧
      p.answer (some pool) 1 1 (some "fr") none = .ok (.text "42") := by
  obtain ⟨t, p, hdecode, hfirst, hdistinct, hname, hfound, -⟩ := decode_dotted
  have hsingle : (topChunksFrom TableSource.dotted.encode.toArray 0).countP
      (fun c => c.type == stringPoolType) = 1 := by decide +kernel
  have hone := List.nodup_iff_count_le_one.mp hdistinct.types "string"
  have hid : IsNumberId "@0x7f010001" := isSome_hexId?_iff.mp (by decide +kernel)
  obtain ⟨pool, hpool, hnumbers, -⟩ :=
    find_eq_search hdecode hsingle hfirst hone (some "fr") none
  obtain ⟨n, hn, hfind⟩ := hnumbers _ hid
  have hvalue : hexId? "@0x7f010001" = some 0x7f010001 := by decide +kernel
  rw [hvalue, Option.some.injEq] at hn
  refine ⟨t, p, pool, hdecode, hsingle, hfirst, hone, hpool, hid, ?_⟩
  rw [← hfound]
  refine (hfind 1 1 (by omega) (by omega) ?_).symm
  intro hdrawable
  have hcast : ((1 : Nat) : Int) = 1 := rfl
  rw [hcast, hname] at hdrawable
  simp at hdrawable

end Table

end ApkFormats.Resource
