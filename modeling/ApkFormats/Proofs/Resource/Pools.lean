import ApkFormats.Proofs.Resource.Dangling

/-!
# Which pool a text comes from

A table may have several string pools, and each takes the place of the one in
front of it.  The strings of a package are gathered while it is decoded, from
the pool that is there by then.  Drawables are looked up when they are asked
for, in the pool that is there in the end.

* `LastPool`: the last pool among some chunks;
* `Table.Loads.pool_cases`: a table has the last pool among its chunks;
* `Table.texts_from_pools`: the pools that a table and its first package have
  their texts from, which are one pool when there is none behind the package;
* `Table.texts_from_two_pools`: a table with two pools gives texts from both.
-/

namespace ApkFormats.Resource

/-- A pool is the last one among some chunks. -/
def LastPool (buffer : Bytes) (chunks : List TopChunk) (pool : StringPool) : Prop :=
  ∃ c, (chunks.filter fun c => c.type == stringPoolType).getLast? = some c ∧
    StringPool.read.Yields buffer c.position pool

section Pools

variable {buffer : Bytes} {chunks chunks' : List TopChunk} {pool pool' : StringPool}
variable {t r : Table}

theorem LastPool.unique (h : LastPool buffer chunks pool) (h' : LastPool buffer chunks' pool')
    (hsame : (chunks.filter fun c => c.type == stringPoolType) =
      chunks'.filter fun c => c.type == stringPoolType) : pool = pool' := by
  obtain ⟨c, hlast, hread⟩ := h
  obtain ⟨c', hlast', hread'⟩ := h'
  rw [hsame, hlast', Option.some.injEq] at hlast
  subst hlast
  exact Except.ok.inj (hread.symm.trans hread')

theorem LastPool.small (h : LastPool buffer chunks pool) : pool.strings.size < noIndex := by
  obtain ⟨c, -, hread⟩ := h
  exact StringPool.size_strings_lt hread.reads

theorem LastPool.cons (h : LastPool buffer chunks pool) (c : TopChunk) :
    LastPool buffer (c :: chunks) pool := by
  obtain ⟨last, hlast, hread⟩ := h
  refine ⟨last, ?_, hread⟩
  rw [List.filter_cons]
  split
  · rw [List.getLast?_cons, hlast, Option.getD_some]
  · exact hlast

/-- The pool of a table that chunks make is the last one among them, or the one from before where
there is none. -/
theorem Table.Loads.pool_cases (hloads : t.Loads buffer chunks r) (hpool : r.pool = some pool) :
    LastPool buffer chunks pool ∨
      t.pool = some pool ∧ (chunks.filter fun c => c.type == stringPoolType) = [] := by
  induction hloads with
  | nil t => exact .inr ⟨hpool, rfl⟩
  | @cons t t' r c rest hstep _ ih =>
      rcases ih hpool with hlast | ⟨hbefore, hnone⟩
      · exact .inl (hlast.cons c)
      cases hstep with
      | pool htype hread =>
          cases hbefore
          refine .inl ⟨c, ?_, hread⟩
          rw [List.filter_cons, if_pos (beq_iff_eq.mpr htype), hnone]
          rfl
      | count htype => exact .inr ⟨hbefore, by rwa [List.filter_cons, htype]⟩
      | package htype _ _ => exact .inr ⟨hbefore, by rwa [List.filter_cons, htype]⟩

end Pools

section Texts

variable {pool : StringPool} {strings : Option StringPool} {index : Nat} {chunk : TypeEntries}

theorem shownAt?_of_textAt {text : Option String}
    (h : Package.textAt strings index chunk = .ok text) : shownAt? strings index chunk = text := by
  rw [Package.textAt] at h
  rw [shownAt?]
  cases he : chunk.entry? index with
  | none =>
      rw [he] at h
      exact Except.ok.inj h
  | some e =>
      rw [he] at h
      cases hvalue : e.resolve strings with
      | ok value =>
          simp only [hvalue] at h
          simp only [Option.bind_some, hvalue]
          exact Except.ok.inj h
      | error fault =>
          simp only [hvalue] at h
          cases h

/-- Where the value of the entry at an index is a string: the index of that string in a pool. -/
def TypeEntries.stringIndex? (chunk : TypeEntries) (index : Nat) : Option Nat :=
  ((chunk.entry? index).bind Entry.value?).bind fun v =>
    if (v.type : Int) = Value.stringType then some v.data else none

theorem TypeEntries.stringIndex?_eq_some {data : Nat} (h : chunk.stringIndex? index = some data) :
    ∃ e v, chunk.entry? index = some e ∧ e.value? = some v ∧ (v.type : Int) = Value.stringType ∧
      v.data = data := by
  obtain ⟨v, hv, h⟩ := Option.bind_eq_some_iff.mp h
  obtain ⟨e, he, hv⟩ := Option.bind_eq_some_iff.mp hv
  split at h
  · rename_i hstring
    exact ⟨e, v, he, hv, hstring, Option.some.inj h⟩
  · cases h

/-- The text of a string is the one that the pool has at its index. -/
theorem shownAt?_of_string {data : Nat} (hsmall : pool.strings.size < noIndex)
    (h : chunk.stringIndex? index = some data) :
    shownAt? (some pool) index chunk = pool.strings[data]? := by
  obtain ⟨e, v, he, hv, htype, rfl⟩ := TypeEntries.stringIndex?_eq_some h
  have hresolve : e.resolve (some pool) = (pool.stringAt v.data).map fun s => some (.text s) := by
    rw [Entry.resolve, hv]
    simp only [Value.ofTyped, if_pos htype]
    cases pool.stringAt v.data <;> rfl
  rw [shownAt?, he, Option.bind_some, hresolve]
  by_cases hinside : v.data < pool.strings.size
  · have hitem := Array.getElem?_eq_getElem hinside
    rw [StringPool.stringAt_eq hitem (Nat.lt_trans hinside hsmall), hitem]
    rfl
  · obtain ⟨fault, hfault⟩ := (StringPool.stringAt_fails_iff hsmall).mpr (Nat.le_of_not_lt hinside)
    rw [hfault, Array.getElem?_eq_none (Nat.le_of_not_lt hinside)]
    rfl

end Texts

namespace Package

/-! ## Texts of a package -/

section Gathered

variable {p : Package} {pool : StringPool} {strings : Option StringPool} {type : Nat}

theorem textsOf_of_ofChunks {chunks : List TypeEntries} {l : Localized}
    (h : Localized.ofChunks strings chunks = .ok l) {chunk : TypeEntries}
    (hchunk : chunk ∈ chunks) : ∃ texts, Localized.textsOf strings chunk = .ok texts := by
  unfold Localized.ofChunks at h
  generalize Localized.empty = start at h
  induction chunks generalizing start with
  | nil => cases hchunk
  | cons first rest ih =>
      rw [List.foldlM_cons, bind_eq_ok_iff] at h
      obtain ⟨next, hnext, hrest⟩ := h
      obtain ⟨texts, htexts, -⟩ := map_eq_ok_iff.mp hnext
      rcases List.mem_cons.mp hchunk with rfl | hchunk
      · exact ⟨texts, htexts⟩
      · exact ih hchunk next hrest

/-- The strings that are gathered are in the pool that they are gathered from. -/
theorem Accepted.lt_of_stringIndex? (haccepted : p.Accepted (some pool))
    (hsmall : pool.strings.size < noIndex) (htype : p.typeId "string" = .ok type)
    {chunk : TypeEntries} (hchunk : chunk ∈ p.entryChunksOf type) {index data : Nat}
    (h : chunk.stringIndex? index = some data) : data < pool.strings.size := by
  obtain ⟨e, v, he, hv, hstring, rfl⟩ := TypeEntries.stringIndex?_eq_some h
  have hgathered := haccepted.ofChunks htype
  obtain ⟨texts, htexts⟩ := textsOf_of_ofChunks hgathered hchunk
  have hslot : chunk.entries.toList[index]? = some (some e) := by
    rw [Array.getElem?_toList]
    exact TypeEntries.entry?_eq_some.mp he
  obtain ⟨text, -, hresolved⟩ := getElem?_of_forall₂ (forall₂_of_mapM htexts) hslot
  obtain ⟨value, hvalue, -⟩ := map_eq_ok_iff.mp hresolved
  by_contra houtside
  obtain ⟨fault, hfault⟩ :=
    (resolve_fails_iff hsmall).mpr ⟨v, hv, hstring, Nat.le_of_not_lt houtside⟩
  rw [hvalue] at hfault
  cases hfault

/-- A name of a type is the name of a first one. -/
theorem exists_typeId {name : String} (hname : p.typeName? type = some name) :
    ∃ first, p.typeId name = .ok first := by
  have hmem : name ∈ p.typePool.strings.toList := by
    rw [typeName?] at hname
    split at hname
    · rw [← Array.getElem?_toList] at hname
      exact List.mem_of_getElem? hname
    · cases hname
  rw [typeId, typeIdIn?]
  cases hindex : p.typePool.strings.toList.idxOf? name with
  | none => exact absurd hmem (List.idxOf?_eq_none_iff.mp hindex)
  | some i => exact ⟨i + 1, rfl⟩

end Gathered

end Package

/-- What is found of a string that may have no text. -/
def Found.ofText? : Option String → Found
  | some s => .text s
  | none => .nothing

namespace Table

/-- Where the texts come from that lookups find in the first package of a table: those of strings
from one pool, those of drawables from another one. -/
structure TextsFrom (t : Table) (p : Package) (gathered late : StringPool) : Prop where
  /-- A string is found among the chunks that are gathered for a language and a region. -/
  ofString : ∀ id (n : Nat) language region, p.numberOf id = .ok n →
    p.typeName? (typeOf n) = some "string" → p.reaches (typeOf n) (entryOf n) = true →
    ∃ type, p.typeId "string" = .ok type ∧
      t.find id language region = .ok (.ofText?
        ((chunksFor language region (p.entryChunksOf type)).findSome?
          (shownAt? (some gathered) (entryOf n))))
  /-- No string that is gathered is missing in its pool. -/
  inside : ∀ type, p.typeId "string" = .ok type → ∀ chunk ∈ p.entryChunksOf type,
    ∀ index data, chunk.stringIndex? index = some data → data < gathered.strings.size
  /-- A drawable is found in all configurations that have one. -/
  ofDrawable : ∀ id (n : Nat) language region, p.numberOf id = .ok n →
    p.typeName? (typeOf n) = some "drawable" ∨ p.typeName? (typeOf n) = some "mipmap" →
    ¬p.Stray late n →
    t.find id language region = .ok (.texts
      ((p.entryChunksOf (typeOf n)).filterMap (shownAt? (some late) (entryOf n))))

section Lookups

variable {buffer : Bytes} {t : Table} {p : Package} {gathered late : StringPool}

theorem find_string {id : String} {n : Nat} {language region : Option String}
    (hfirst : t.firstPackage = .ok p) (haccepted : p.Accepted (some gathered))
    (hnumber : p.numberOf id = .ok n) (hname : p.typeName? (typeOf n) = some "string")
    (hreaches : p.reaches (typeOf n) (entryOf n) = true) :
    ∃ type, p.typeId "string" = .ok type ∧
      t.find id language region = .ok (.ofText?
        ((chunksFor language region (p.entryChunksOf type)).findSome?
          (shownAt? (some gathered) (entryOf n)))) := by
  obtain ⟨type, htype⟩ := Package.exists_typeId hname
  have hgathers := gathers_of_ofChunks (haccepted.ofChunks htype)
  refine ⟨type, htype, ?_⟩
  rw [find_eq hfirst, Package.find_of_string hnumber hname, Package.findString, if_pos hreaches,
    hgathers.text?_select language region (entryOf n)]
  cases (chunksFor language region (p.entryChunksOf type)).findSome?
    (shownAt? (some gathered) (entryOf n)) <;> rfl

theorem find_drawable {id : String} {n : Nat} {language region : Option String}
    (hfirst : t.firstPackage = .ok p) (hpool : t.pool = some late)
    (hsmall : late.strings.size < noIndex) (hnumber : p.numberOf id = .ok n)
    (hname : p.typeName? (typeOf n) = some "drawable" ∨ p.typeName? (typeOf n) = some "mipmap")
    (hstray : ¬p.Stray late n) :
    t.find id language region = .ok (.texts
      ((p.entryChunksOf (typeOf n)).filterMap (shownAt? (some late) (entryOf n)))) := by
  have htexts : (p.entryChunksOf (typeOf n)).mapM (Package.textAt (some late) (entryOf n)) =
      .ok ((p.entryChunksOf (typeOf n)).map (shownAt? (some late) (entryOf n))) := by
    refine mapM_ok ?_
    rw [List.forall₂_map_right_iff, List.forall₂_same]
    intro chunk hchunk
    cases htext : Package.textAt (some late) (entryOf n) chunk with
    | ok text => rw [shownAt?_of_textAt htext]
    | error e =>
        have hfails := (Package.textAt_fails_iff hsmall).mp ⟨e, htext⟩
        exact absurd ⟨hname, chunk, hchunk, hfails⟩ hstray
  obtain ⟨name, htype, hdrawable⟩ :
      ∃ name, p.typeName? (typeOf n) = some name ∧ name ∈ drawableTypeNames := by
    rcases hname with hname | hname
    · exact ⟨_, hname, by decide⟩
    · exact ⟨_, hname, by decide⟩
  have hother : name ≠ stringTypeName := by
    rintro rfl
    revert hdrawable
    decide
  rw [find_eq hfirst, Package.find_of_numberOf hnumber, hpool, htype]
  simp only [if_neg hother, if_pos hdrawable, htexts, Except.map, List.filterMap_map]
  rfl

/-- The first package has its strings from the last pool in front of it and its drawables from the
last pool of all, which is the one of the table.  These are one pool when no pool stands behind the
package. -/
theorem texts_from_pools (hdecode : Table.decode buffer = .ok t)
    (hfirst : t.firstPackage = .ok p) :
    ∃ before c behind gathered late, topChunksFrom buffer 0 = before ++ c :: behind ∧
      (Package.read (some gathered)).Yields buffer c.position p ∧
      LastPool buffer before gathered ∧ LastPool buffer (topChunksFrom buffer 0) late ∧
      t.strings = late.strings.toList ∧ t.TextsFrom p gathered late ∧
      (∀ (chunk : TypeEntries) index data, chunk.stringIndex? index = some data →
        shownAt? (some gathered) index chunk = gathered.strings[data]? ∧
          shownAt? (some late) index chunk = t.strings[data]?) ∧
      ((∀ x ∈ behind, x.type ≠ stringPoolType) → gathered = late) := by
  have hloads := loads_of_decode hdecode
  obtain ⟨late, hlate, -⟩ := pool_of_firstPackage hdecode hfirst
  -- the empty table has no package, so the first one comes from a chunk
  obtain ⟨before, c, behind, m, hchunks, htype, hbefore, hpool, hread⟩ :=
    (hloads.read_at (mem_of_firstPackage hfirst)).resolve_left List.not_mem_nil
  obtain ⟨gathered, hgathered⟩ := Option.isSome_iff_exists.mp hpool
  have hlastBefore : LastPool buffer before gathered :=
    (hbefore.pool_cases hgathered).resolve_right fun h => nomatch h.1
  have hlast : LastPool buffer (topChunksFrom buffer 0) late :=
    (hloads.pool_cases hlate).resolve_right fun h => nomatch h.1
  rw [hgathered] at hread
  have haccepted := Package.accepted_of_read hread.reads
  have hstrings : t.strings = late.strings.toList := by
    rw [strings, hlate]
  refine ⟨before, c, behind, gathered, late, hchunks, hread, hlastBefore, hlast, hstrings,
    ⟨?_, ?_, ?_⟩, ?_, ?_⟩
  · intro id n language region
    exact find_string hfirst haccepted
  · intro type hname chunk hchunk index data
    exact haccepted.lt_of_stringIndex? hlastBefore.small hname hchunk
  · intro id n language region
    exact find_drawable hfirst hlate hlast.small
  · intro chunk index data hstring
    rw [hstrings, Array.getElem?_toList]
    exact ⟨shownAt?_of_string hlastBefore.small hstring, shownAt?_of_string hlast.small hstring⟩
  · intro hnone
    refine hlastBefore.unique hlast ?_
    have hbehind : (c :: behind).filter (fun c => c.type == stringPoolType) = [] := by
      rw [List.filter_eq_nil_iff]
      intro x hx hpoolType
      rcases List.mem_cons.mp hx with rfl | hx
      · rw [htype] at hpoolType
        exact absurd hpoolType (by decide)
      · exact hnone x hx (beq_iff_eq.mp hpoolType)
    rw [hchunks, List.filter_append, hbehind, List.append_nil]

/-- A table with a string and a drawable in its one package, a pool in front of it and another pool
behind it. -/
def twoPools : Bytes :=
  (encodeChunk resourceTableType (wordBytes [1])
    (StringPool.encode true ["Old"] ++
      PackageSource.encode ⟨0x7f, "p", ["string", "drawable"], ["k"],
        [.entries 1 ⟨.none, .none, 0⟩ [.simple 0 3 0],
          .entries 2 ⟨.none, .none, 0⟩ [.simple 0 3 0]]⟩ ++
      StringPool.encode true ["New"])).toArray

theorem decode_twoPools : ∃ t p, Table.decode twoPools = .ok t ∧ t.firstPackage = .ok p ∧
    t.strings = ["New"] ∧ p.typeName? 1 = some "string" ∧ p.reaches 1 0 = true ∧
    (p.entryChunksOf 1).map (fun chunk => chunk.stringIndex? 0) = [some 0] ∧
    t.find "@0x7f010000" none none = .ok (.text "Old") ∧
    t.find "@0x7f020000" none none = .ok (.texts ["New"]) := by
  obtain ⟨t, p, hdecode, hfirst, htest⟩ := exists_first_of_test twoPools
    (fun t p => t.strings = ["New"] ∧ p.typeName? 1 = some "string" ∧ p.reaches 1 0 = true ∧
      (p.entryChunksOf 1).map (fun chunk => chunk.stringIndex? 0) = [some 0] ∧
      t.find "@0x7f010000" none none = .ok (.text "Old") ∧
      t.find "@0x7f020000" none none = .ok (.texts ["New"]))
    (by decide +kernel)
  exact ⟨t, p, hdecode, hfirst, of_decide_eq_true htest⟩

/-- The string comes from the pool in front of the package, not from the one that the table has. -/
theorem texts_from_pools_twoPools :
    ∃ t p type gathered late, Table.decode twoPools = .ok t ∧ t.firstPackage = .ok p ∧
      t.TextsFrom p gathered late ∧ late.strings.toList = ["New"] ∧
      (chunksFor none none (p.entryChunksOf (type : Nat))).findSome?
        (shownAt? (some gathered) 0) = some "Old" := by
  obtain ⟨t, p, hdecode, hfirst, hstrings, hname, hreaches, -, hfound, -⟩ := decode_twoPools
  obtain ⟨-, -, -, gathered, late, -, -, -, -, hlate, htexts, -, -⟩ :=
    texts_from_pools hdecode hfirst
  have hnumber : p.numberOf "@0x7f010000" = .ok 0x7f010000 :=
    Package.numberOf_of_hexId (by decide +kernel)
  obtain ⟨type, -, hfind⟩ := htexts.ofString _ 0x7f010000 none none hnumber hname hreaches
  refine ⟨t, p, type, gathered, late, hdecode, hfirst, htexts, hlate.symm.trans hstrings, ?_⟩
  have hentry : entryOf ((0x7f010000 : Nat) : Int) = 0 := rfl
  rw [hfound, hentry] at hfind
  cases htext : (chunksFor none none (p.entryChunksOf type)).findSome?
      (shownAt? (some gathered) 0) with
  | some s =>
      rw [htext] at hfind
      cases hfind
      rfl
  | none =>
      rw [htext] at hfind
      cases hfind

/-- A table with two pools gives texts from both: the string is not among the strings that the table
has in the end, the drawable is. -/
theorem texts_from_two_pools : ∃ t p, Table.decode twoPools = .ok t ∧ t.firstPackage = .ok p ∧
    p.typeName? 1 = some "string" ∧
    (p.entryChunksOf 1).map (fun chunk => chunk.stringIndex? 0) = [some 0] ∧
    t.strings = ["New"] ∧ t.find "@0x7f010000" none none = .ok (.text "Old") ∧
    t.find "@0x7f020000" none none = .ok (.texts ["New"]) := by
  obtain ⟨t, p, hdecode, hfirst, hstrings, hname, -, hindex, hfound⟩ := decode_twoPools
  exact ⟨t, p, hdecode, hfirst, hname, hindex, hstrings, hfound⟩

end Lookups

end Table

end ApkFormats.Resource
