import ApkFormats.Proofs.Resource.EntryChunks
import ApkFormats.Proofs.Resource.Redeclared

/-!
# Declared sizes are not looked at

An entry, the value of a simple entry and a string in UTF-8 each declare a size.
The sizes of entries and values are kept, the number of units of a string is
not, and nothing is compared with any of them: what follows stands in its place
all the same.

* `Table.withoutSizes`: a table without the sizes of its entries and values;
* `Table.sizes_unchecked`: where buffers differ in declared sizes only, both are
  rejected, or both are accepted, and but for these sizes as the same table;
* `Table.sizes_misdeclared`: accepted tables declare sizes that are wrong.
-/

namespace ApkFormats.Resource

open Decoder (Carries)

variable {b b' : Bytes} {start stop x place : Nat}

section Entries

/-! ## Entries -/

/-- A value without its declared size. -/
def StoredValue.withoutSize (v : StoredValue) : StoredValue :=
  { v with size := 0 }

theorem StoredValue.read_carries (hsize : b'.size = b.size)
    (hsame : SameBetween b b' (x + 2) (x + 8)) :
    Carries b b' StoredValue.withoutSize x StoredValue.read StoredValue.read := by
  unfold StoredValue.read
  refine .number_any hsize <| .u8 hsize ?_ <| .u8 hsize ?_ <| .u32 hsize ?_ <| .pure rfl
  all_goals exact hsame.part (by omega) (by omega) (by omega)

namespace Entry

/-- What an entry holds without the declared size of a value. -/
def contentWithoutSize : EntryContent → EntryContent
  | .simple v => .simple v.withoutSize
  | .complex parent count => .complex parent count

/-- An entry without its declared sizes. -/
def withoutSizes (e : Entry) : Entry :=
  { e with size := 0, content := contentWithoutSize e.content }

theorem resolve_withoutSizes (strings : Option StringPool) (e : Entry) :
    e.withoutSizes.resolve strings = e.resolve strings := by
  obtain ⟨size, flags, key, content⟩ := e
  cases content with
  | simple v => rfl
  | complex parent count => rfl

/-- An entry is read whatever sizes it declares. -/
theorem read_carries (hsize : b'.size = b.size) (h : EntryRedeclared b b' place) :
    Carries b b' withoutSizes place read read := by
  obtain ⟨hfields, hcontent⟩ := h
  have hread : Carries b b' contentWithoutSize (place + 8)
      (readContent (numberAt 2 b (place + 2))) (readContent (numberAt 2 b (place + 2))) := by
    rw [contentStart, fixedSize] at hcontent
    refine .ite (fun hcomplex => ?_) fun hsimple => ?_
    · rw [if_pos hcomplex] at hcontent
      refine .u32 hsize ?_ <| .u32 hsize ?_ <| .pure rfl
      all_goals exact hcontent.part (by omega) (by omega) (by omega)
    · rw [if_neg hsimple] at hcontent
      refine .bind (StoredValue.read_carries hsize hcontent) fun v v' mid _ hv => .pure ?_
      rw [contentWithoutSize, contentWithoutSize, hv]
  unfold read
  refine .number_any hsize <| .u16 hsize ?_ <| .u32 hsize ?_ <|
    .bind hread fun content content' mid _ hsame => .pure ?_
  · exact hfields.part (by omega) (by omega) (by omega)
  · exact hfields.part (by omega) (by omega) (by omega)
  · rw [withoutSizes, withoutSizes, hsame]

end Entry

end Entries

section Chunks

/-! ## Chunks of a package -/

variable {keys : StringPool} {last position : Nat}

theorem readCode_carries (hsize : b'.size = b.size) (hsame : SameBetween b b' x (x + 2))
    (first : Char) : Carries b b' id x (readCode first) (readCode first) := by
  unfold readCode
  refine .position (.take hsize hsame fun code => ?_)
  cases decodeCode code first with
  | ok letters => exact .pure rfl
  | error e => exact .fail

theorem Config.read_carries (hsize : b'.size = b.size)
    (hsame : SameBetween b b' x (x + leastSize)) : Carries b b' id x read read := by
  rw [leastSize] at hsame
  unfold read
  refine .position <| .u32 hsize ?_ <| .require fun _ => .u32 hsize ?_ <|
    .bind_same (readCode_carries hsize ?_ _) fun language mid hread => ?_
  · exact hsame.part (by omega) (by omega) (by omega)
  · exact hsame.part (by omega) (by omega) (by omega)
  · exact hsame.part (by omega) (by omega) (by omega)
  · rw [stop_of_readCode hread]
    refine .bind_same (readCode_carries hsize ?_ _) fun region mid _ => .goTo (.pure rfl)
    exact hsame.part (by omega) (by omega) (by omega)

namespace TypeEntries

/-- A chunk of entries without their declared sizes. -/
def withoutSizes (c : TypeEntries) : TypeEntries :=
  { c with entries := c.entries.map (Option.map Entry.withoutSizes) }

/-- An entry and its key without declared sizes. -/
def itemWithoutSizes : Option (Entry × String) → Option (Entry × String) :=
  Option.map fun item => (item.1.withoutSizes, item.2)

theorem namedFrom_withoutSizes (items : List (Option (Entry × String))) (first : Nat) :
    namedFrom first (items.map itemWithoutSizes) = namedFrom first items := by
  induction items generalizing first with
  | nil => rfl
  | cons item rest ih =>
      cases item with
      | none => exact ih (first + 1)
      | some item =>
          obtain ⟨e, key⟩ := item
          exact congrArg ((key, first) :: ·) (ih (first + 1))

theorem entries_withoutSizes (items : List (Option (Entry × String))) :
    (items.map fun item => item.map Prod.fst).toArray.map (Option.map Entry.withoutSizes) =
      ((items.map itemWithoutSizes).map fun item => item.map Prod.fst).toArray := by
  rw [List.map_toArray, List.map_map, List.map_map]
  congr 2
  funext item
  cases item <;> rfl

/-- An entry of a chunk is read whatever sizes it declares. -/
theorem readEntry_carries (hsize : b'.size = b.size) {header : ChunkHeader} {base i word : Nat}
    (h : word ≠ noIndex → EntryRedeclared b b' (base + word)) :
    Carries b b' itemWithoutSizes start (readEntry keys header base (i, word))
      (readEntry keys header base (i, word)) := by
  unfold readEntry
  refine .ite (fun _ => .pure rfl) fun hword => .require fun _ => .goTo ?_
  refine .bind (Entry.read_carries hsize (h hword)) fun e e' mid _ he => ?_
  have hkey : e'.key = e.key := (congrArg Entry.key he :)
  rw [hkey]
  refine .bind_same (.resolved _) fun key mid _ => .pure ?_
  simp only [itemWithoutSizes, Option.map_some, he]

/-- A chunk of entries is read whatever sizes these declare. -/
theorem read_carries (hsize : b'.size = b.size) (h : EntriesRedeclared b b' x) :
    Carries b b' withoutSizes x (read keys) (read keys) := by
  obtain ⟨hfields, hwords, hentries⟩ := h
  rw [leastHeaderSize, chunkHeaderSize, Config.leastSize] at hfields
  rw [read_eq]
  refine .bind_same (ChunkHeader.read_carries hsize _ hfields (Nat.add_le_add_left (by decide) x))
    fun header mid hread => ?_
  obtain ⟨hpayload, hroom⟩ := ChunkHeader.payload_of_read hread
  obtain ⟨rfl, -, -, -, -, rfl⟩ := ChunkHeader.fields_of_read hread
  have hconfig : SameBetween b b' (header.offset + 20) (header.offset + 20 + Config.leastSize) :=
    hfields.part (by omega) (Nat.le_refl _) (Nat.le_add_right _ _)
  unfold readBehind
  simp only [chunkHeaderSize]
  refine .u8 hsize ?_ <| .u8 hsize ?_ <| .u16 hsize ?_ <| .u32 hsize ?_ <| .u32 hsize ?_ <|
    .bind_same (Config.read_carries hsize hconfig) fun config cursor _ =>
    .position <| .require fun _ => .goTo <| .require fun _ => ?_
  iterate 5 exact hfields.part (by omega) (by omega) (by omega)
  rw [hpayload]
  refine .bind_same (.words hsize hwords hroom) fun words mid hread => ?_
  refine .bind (.each (g := itemWithoutSizes) fun item hitem start => ?_)
    fun items items' mid _ hitems => .pure ?_
  · obtain ⟨index, word⟩ := item
    obtain ⟨i, hi, rfl⟩ := Decoder.exists_of_mem_u32s hread (List.of_mem_zip hitem).2
    exact readEntry_carries hsize (hentries i hi)
  · rw [withoutSizes, withoutSizes, TypeEntries.mk.injEq]
    refine ⟨rfl, rfl, rfl, rfl, rfl, rfl, rfl, ?_, ?_⟩
    · rw [entries_withoutSizes, hitems, entries_withoutSizes]
    · rw [← namedFrom_withoutSizes, hitems, namedFrom_withoutSizes]

end TypeEntries

theorem readTypeSpec_carries (hsize : b'.size = b.size)
    (hsame : SameBetween b b' x (x + TypeSpec.fixedSize)) :
    Carries b b' id x TypeSpec.read TypeSpec.read := by
  rw [TypeSpec.fixedSize] at hsame
  unfold TypeSpec.read
  refine .bind_same (ChunkHeader.read_carries hsize _ hsame (Nat.add_le_add_left (by decide) x))
    fun header mid hread => ?_
  obtain ⟨-, -, -, -, -, rfl⟩ := ChunkHeader.fields_of_read hread
  refine .u8 hsize ?_ <| .u8 hsize ?_ <| .u16 hsize ?_ <| .u32 hsize ?_ <| .pure rfl
  all_goals exact hsame.part (by omega) (by omega) (by omega)

namespace PackageChunk

/-- A chunk of a package without the declared sizes of its entries. -/
def withoutSizes : PackageChunk → PackageChunk
  | .entries chunk => .entries chunk.withoutSizes
  | .spec chunk => .spec chunk

/-- A chunk of a package is read whatever sizes its entries declare. -/
theorem read_carries (hsize : b'.size = b.size) {c : TopChunk} (h : ChunkRedeclared b b' c) :
    Carries b b' withoutSizes c.position (read keys c.type position)
      (read keys c.type position) := by
  unfold read
  refine .ite (fun hentries => ?_) fun _ => .ite (fun hspec => ?_) fun _ => .fail
  · refine .bind (TypeEntries.read_carries hsize (h.entries hentries)) fun e e' mid _ he => .pure ?_
    rw [withoutSizes, withoutSizes, he]
  · exact .bind_same (readTypeSpec_carries hsize (h.spec hspec)) fun s mid _ => .pure rfl

end PackageChunk

/-- The chunks of a package are read whatever sizes their entries declare.

The induction is on the bytes that are left. -/
theorem readPackageChunks_carries (hsize : b'.size = b.size)
    (h : ∀ c ∈ chunksUpTo b last position, ChunkRedeclared b b' c) :
    Carries b b' (List.map PackageChunk.withoutSizes) start (readPackageChunks keys last position)
      (readPackageChunks keys last position) := by
  induction hleft : last - position using Nat.strongRecOn generalizing position start with
  | ind left ih =>
      rw [readPackageChunks]
      by_cases hinside : position < last
      · have hsplit {header : ChunkHeader} {stop : Nat}
            (hread : (ChunkHeader.read none).Reads b position header stop) :=
          List.forall_mem_cons.mp (chunksUpTo_of_read hinside hread ▸ h)
        rw [dif_pos hinside]
        refine .goTo <| .bind_same (.of_reads fun header _ hread => ?_) fun header mid hread =>
          .require fun _ => .goTo ?_
        · exact ChunkHeader.read_carries hsize none (hsplit hread).1.header (Nat.le_refl _)
        · have hpos := header.size_pos
          refine .bind (PackageChunk.read_carries hsize (hsplit hread).1) fun c c' mid' _ hc => ?_
          refine .bind (ih _ (by omega) (hsplit hread).2 rfl) fun rest rest' _ _ hrest => .pure ?_
          rw [List.map_cons, List.map_cons, hc, hrest]
      · rw [dif_neg hinside]
        exact .pure rfl

end Chunks

section Packages

/-! ## Packages -/

theorem entriesAmong_withoutSizes (chunks : List PackageChunk) :
    entriesAmong (chunks.map PackageChunk.withoutSizes) =
      (entriesAmong chunks).map TypeEntries.withoutSizes := by
  rw [entriesAmong, entriesAmong, List.filterMap_map, List.map_filterMap]
  congr 1
  funext c
  cases c <;> rfl

theorem Localized.textsOf_withoutSizes (strings : Option StringPool) (c : TypeEntries) :
    textsOf strings c.withoutSizes = textsOf strings c := by
  rw [textsOf, textsOf, TypeEntries.withoutSizes, Array.toList_map, List.mapM_map]
  congr 1
  funext slot
  cases slot with
  | none => rfl
  | some e => exact congrArg (Except.map _) (e.resolve_withoutSizes strings)

/-- What is gathered does not depend on declared sizes. -/
theorem gatherStrings_withoutSizes (strings : Option StringPool) (types : StringPool)
    (chunks : List PackageChunk) :
    gatherStrings strings types (chunks.map PackageChunk.withoutSizes) =
      gatherStrings strings types chunks := by
  unfold gatherStrings
  cases typeIdIn? types stringTypeName with
  | none => rfl
  | some id =>
      dsimp only
      rw [entriesAmong_withoutSizes, List.filter_map, Localized.ofChunks, List.foldlM_map]
      simp only [Localized.textsOf_withoutSizes]
      rfl

namespace Package

variable {p : Package} {strings : Option StringPool}

/-- A package without the declared sizes of its entries. -/
def withoutSizes (p : Package) : Package :=
  { p with chunks := p.chunks.map PackageChunk.withoutSizes }

theorem FieldsAt.redeclared (h : p.FieldsAt b x) (hsize : b'.size = b.size)
    (hsame : SameBetween b b' x (x + fixedSize)) (chunks : List PackageChunk) :
    FieldsAt b' x { p with chunks } := by
  have hroom := h.room
  rw [fixedSize, chunkHeaderSize, nameSize] at hsame
  refine ⟨hsize ▸ hroom, ?_, ?_, ?_, ?_, ?_, ?_⟩
  · rw [hsame.numberAt_eq (by omega) (by omega), ← h.id]
  · rw [hsame.part (by omega) (by omega) (by omega), ← h.name]
  · rw [hsame.numberAt_eq (by omega) (by omega), ← h.typeStringsOffset]
  · rw [hsame.numberAt_eq (by omega) (by omega), ← h.lastPublicType]
  · rw [hsame.numberAt_eq (by omega) (by omega), ← h.keyStringsOffset]
  · rw [hsame.numberAt_eq (by omega) (by omega), ← h.lastPublicKey]

/-- A package is read whatever sizes are declared in it. -/
theorem read_carries (hsize : b'.size = b.size) (h : PackageRedeclared b b' x) :
    Carries b b' withoutSizes x (read strings) (read strings) := by
  obtain ⟨hsame, htypePool, hkeyPool, -, hinner⟩ := h
  intro p stop hread
  obtain ⟨hheader, hfields, htypes, hkeys, hchunks, hgathered⟩ := reads_read_iff.mp hread
  obtain ⟨hoffset, -, -, hdeclared, -, -⟩ := ChunkHeader.fields_of_read hheader
  obtain ⟨hkeysOffset, hkeysDeclared, -, -⟩ := StringPool.ends_of_read hkeys
  have htypesStart : typePoolAt b x = x + p.typeStringsOffset := by
    rw [typePoolAt, hfields.typeStringsOffset]
  have hkeysStart : keyPoolAt b x = x + p.keyStringsOffset := by
    rw [keyPoolAt, hfields.keyStringsOffset]
  have hinside : innerChunksAt b x = chunksUpTo b p.header.stop p.keyPool.header.stop := by
    rw [innerChunksAt, hkeysStart, ChunkHeader.stop, ChunkHeader.stop, hoffset, hdeclared,
      hkeysOffset, hkeysDeclared]
  rw [htypesStart] at htypePool
  rw [hkeysStart] at hkeyPool
  rw [hinside] at hinner
  obtain ⟨chunks, hsameChunks, hchunks'⟩ := readPackageChunks_carries hsize hinner hchunks
  refine ⟨{ p with chunks }, ?_, reads_read_iff.mpr ⟨?_, hfields.redeclared hsize hsame chunks,
    ?_, ?_, hchunks', ?_⟩⟩
  · rw [withoutSizes, withoutSizes, hsameChunks]
  · have hroom : x + chunkHeaderSize ≤ x + fixedSize := Nat.add_le_add_left (by decide) x
    exact (ChunkHeader.read_carries hsize _ hsame hroom).reads hheader
  · exact (StringPool.read_carries hsize htypePool).reads htypes
  · exact (StringPool.read_carries hsize hkeyPool).reads hkeys
  · rw [← gatherStrings_withoutSizes, hsameChunks, gatherStrings_withoutSizes]
    exact hgathered

end Package

end Packages

section Tables

/-! ## Tables -/

theorem map_putPackage (p : Package) (packages : List Package) :
    (putPackage p packages).map Package.withoutSizes =
      putPackage p.withoutSizes (packages.map Package.withoutSizes) := by
  induction packages with
  | nil => rfl
  | cons q rest ih =>
      have hname : (q.withoutSizes.name = p.withoutSizes.name) = (q.name = p.name) := rfl
      rw [putPackage, List.map_cons, putPackage]
      simp only [hname]
      split
      · rfl
      · rw [List.map_cons, ih]

namespace Table

variable {t t' : Table} {position : Nat}

/-- A table without the declared sizes of its entries. -/
def withoutSizes (t : Table) : Table :=
  { t with packages := t.packages.map Package.withoutSizes }

theorem noteSecondPool_carries :
    Carries b b' id start (t.noteSecondPool place) (t'.noteSecondPool place) := by
  intro u stop h
  exact ⟨u, rfl, reads_noteSecondPool_iff.mpr (reads_noteSecondPool_iff.mp h)⟩

/-- A chunk is put into a table whatever sizes are declared in it. -/
theorem readChunk_carries (hsize : b'.size = b.size) (ht : t'.withoutSizes = t.withoutSizes)
    {c : TopChunk} (h : TopRedeclared b b' c) {header : ChunkHeader}
    (htype : header.type = c.type) :
    Carries b b' withoutSizes c.position (t.readChunk header c.position)
      (t'.readChunk header c.position) := by
  rw [withoutSizes, withoutSizes, Table.mk.injEq] at ht
  obtain ⟨hcount, hpool, hpackages⟩ := ht
  unfold readChunk
  rw [hpool]
  refine .ite (fun hkind => ?_) fun _ => .ite (fun _ => ?_) fun _ => .ite (fun hkind => ?_)
    fun _ => .fail
  · refine .bind_same noteSecondPool_carries fun _ mid hnoted => ?_
    rw [← reads_noteSecondPool_iff.mp hnoted]
    refine .bind_same (StringPool.read_carries hsize (h.pool (htype ▸ hkind))) fun pool _ _ =>
      .pure ?_
    rw [withoutSizes, withoutSizes, hcount, hpackages]
  · refine .goTo (.u32 hsize (h.fields.part (by omega) (by omega) (by omega)) (.pure ?_))
    rw [withoutSizes, withoutSizes, hpackages]
  · refine .require fun _ => .bind (Package.read_carries hsize (h.package (htype ▸ hkind)))
      fun p p' _ _ hp => .pure ?_
    rw [withoutSizes, withoutSizes, hcount, map_putPackage, map_putPackage, hp, hpackages]

/-- The chunks at top level are read whatever sizes are declared in them.

The induction is on the bytes that are left. -/
theorem readChunks_carries (hsize : b'.size = b.size) (ht : t'.withoutSizes = t.withoutSizes)
    (h : ∀ c ∈ topChunksFrom b position, TopRedeclared b b' c) :
    Carries b b' withoutSizes start (readChunks b.size t position)
      (readChunks b.size t' position) := by
  induction hleft : b.size - position using Nat.strongRecOn
    generalizing t t' position start with
  | ind left ih =>
      rw [readChunks, readChunks]
      by_cases hinside : position < b.size
      · have hsplit {header : ChunkHeader} {stop : Nat}
            (hread : (ChunkHeader.read none).Reads b position header stop) :=
          List.forall_mem_cons.mp (topChunksFrom_of_read hinside hread ▸ h)
        rw [dif_pos hinside, dif_pos hinside]
        refine .goTo <| .bind_same (.of_reads fun header _ hread => ?_) fun header mid hread =>
          .goTo <| .bind (readChunk_carries hsize ht (hsplit hread).1 rfl) fun u u' mid' _ hu => ?_
        · exact ChunkHeader.read_carries hsize none (hsplit hread).1.fields (Nat.le_add_right _ _)
        · have hpos := advance_pos header
          exact ih _ (by omega) hu (hsplit hread).2 rfl
      · rw [dif_neg hinside, dif_neg hinside]
        exact .pure ht

/-- A table is read whatever sizes are declared in it. -/
theorem read_carries (h : Redeclared b b') : Carries b b' withoutSizes 0 read read := by
  unfold read
  refine .bufferSize h.size <| .bind (readChunks_carries h.size rfl h.chunks)
    fun t t' _ _ ht => .note (.pure ht)

/-- An entry is what stands in its place, declared sizes included. -/
theorem spelledAt_of_decode {p : Package} {c : TypeEntries} {i : Nat} {e : Entry}
    (hdecode : Table.decode b = .ok t) (hp : p ∈ t.packages) (hc : c ∈ p.entryChunks)
    (he : c.entries[i]? = some (some e)) : e = .spelledAt b (c.placeAt b i) := by
  obtain ⟨_, _, hread⟩ := read_of_decode hdecode hp
  obtain ⟨⟨_, hchunk⟩, -⟩ := TypeEntries.standsAt_iff.mp (Package.standsAt_of_read hread.reads hc)
  have hexact := TypeEntries.exact_of_reads hchunk
  have hlt : i < c.entryCount := by
    rw [← hexact.size_entries]
    exact (Array.getElem?_eq_some_iff.mp he).1
  have hpresent : c.wordAt b i ≠ noIndex := fun habsent => by
    cases ((hexact.absent_iff i hlt).mpr habsent).symm.trans he
  cases (hexact.present i hlt hpresent).1.symm.trans he
  rfl

/-- What is accepted is accepted with other declared sizes, too, and but for these as the same
table. -/
theorem decode_of_redeclared (hdecode : Table.decode b = .ok t) (hsame : Redeclared b b') :
    ∃ t', Table.decode b' = .ok t' ∧ t'.withoutSizes = t.withoutSizes := by
  have hread : read.Reads b 0 t _ := ⟨mapError_eq_ok_iff.mp hdecode, rfl⟩
  obtain ⟨t', ht, hread'⟩ := read_carries hsame hread
  exact ⟨t', mapError_eq_ok_iff.mpr hread'.result, ht⟩

/-- An entry of an accepted table is what stands in its place, declared sizes included, and nothing
depends on these.  A buffer that differs in declared sizes and in the units of strings only is
rejected when the other one is, and else accepted as the same table but for these sizes. -/
theorem sizes_unchecked (hsame : Redeclared b b') :
    (Table.decode b').toOption.map withoutSizes = (Table.decode b).toOption.map withoutSizes ∧
    ∀ t, Table.decode b = .ok t → ∀ p ∈ t.packages, ∀ c ∈ p.entryChunks, ∀ (i : Nat) e,
      c.entries[i]? = some (some e) → e = .spelledAt b (c.placeAt b i) := by
  refine ⟨?_, fun t hdecode p hp c hc i e he => spelledAt_of_decode hdecode hp hc he⟩
  cases hdecode : Table.decode b with
  | ok t =>
      obtain ⟨t', hdecode', ht⟩ := decode_of_redeclared hdecode hsame
      rw [hdecode']
      exact congrArg some ht
  | error e =>
      cases hdecode' : Table.decode b' with
      | ok t' =>
          obtain ⟨t, haccepted, -⟩ := decode_of_redeclared hdecode' hsame.symm
          cases hdecode.symm.trans haccepted
      | error e' => rfl

/-- A table with a simple and a complex entry. -/
def declaring : Bytes :=
  (TableSource.ofChunks [.entries 1 ⟨.none, .none, 0⟩ [.simple 0 3 0, .complex 1]]).encode.toArray

/-- The same table with other sizes: 31 units for the first string, three bytes for the simple
entry, none for its value and eight for the complex entry. -/
def misdeclaring : Bytes :=
  (((declaring.set! 48 31).set! 560 3).set! 568 0).set! 576 8

theorem decode_misdeclaring : ∃ t p c pool, Table.decode misdeclaring = .ok t ∧
    p ∈ t.packages ∧ c ∈ p.entryChunks ∧
    c.entries = #[some ⟨3, 0, 0, .simple ⟨0, 0, 3, 0⟩⟩, some ⟨8, 1, 1, .complex 0 0⟩] ∧
    t.pool = some pool ∧ pool.isUtf8 ∧ pool.strings[0]? = some "Hello" ∧
    StringPool.markValue 1 misdeclaring
      (StringPool.stringStart misdeclaring pool.header.offset 0) = 31 := by
  have haccepted : (Table.decode misdeclaring).toOption.any (fun t =>
      ∃ p ∈ t.packages, ∃ c ∈ p.entryChunks, ∃ pool ∈ t.pool,
        c.entries = #[some ⟨3, 0, 0, .simple ⟨0, 0, 3, 0⟩⟩, some ⟨8, 1, 1, .complex 0 0⟩] ∧
        pool.isUtf8 ∧ pool.strings[0]? = some "Hello" ∧
        StringPool.markValue 1 misdeclaring
          (StringPool.stringStart misdeclaring pool.header.offset 0) = 31) = true := by
    decide +kernel
  obtain ⟨t, hdecode, htest⟩ := exists_ok_of_any haccepted
  obtain ⟨p, hp, c, hc, pool, hpool, hentries, hutf8, hstring, hunits⟩ := of_decide_eq_true htest
  exact ⟨t, p, c, pool, hdecode, hp, hc, hentries, hpool, hutf8, hstring, hunits⟩

/-- The table with the right sizes is accepted because the one with the wrong sizes is. -/
theorem sizes_unchecked_misdeclaring : Redeclared misdeclaring declaring ∧
    ∃ t t', Table.decode misdeclaring = .ok t ∧ Table.decode declaring = .ok t' ∧
      t'.withoutSizes = t.withoutSizes ∧
      ∃ p ∈ t.packages, ∃ c ∈ p.entryChunks, ∃ e, c.entries[0]? = some (some e) ∧
        e = .spelledAt misdeclaring (c.placeAt misdeclaring 0) ∧ e.size = 3 := by
  have hsame : Redeclared misdeclaring declaring := by
    decide +kernel
  obtain ⟨t, p, c, -, hdecode, hp, hc, hentries, -⟩ := decode_misdeclaring
  obtain ⟨hother, hspelled⟩ := sizes_unchecked hsame
  have hentry : c.entries[0]? = some (some ⟨3, 0, 0, .simple ⟨0, 0, 3, 0⟩⟩) := by
    rw [hentries]
    rfl
  cases hdecode' : Table.decode declaring with
  | error e =>
      rw [hdecode, hdecode'] at hother
      cases hother
  | ok t' =>
      rw [hdecode, hdecode'] at hother
      exact ⟨hsame, t, t', hdecode, rfl, Option.some.inj hother, p, hp, c, hc, _, hentry,
        hspelled t hdecode p hp c hc 0 _ hentry, rfl⟩

/-- In an accepted table an entry, the value of an entry and a string in UTF-8 may declare other
sizes than they have. -/
theorem sizes_misdeclared : ∃ t p c pool, Table.decode misdeclaring = .ok t ∧
    p ∈ t.packages ∧ c ∈ p.entryChunks ∧ t.pool = some pool ∧
    (∃ e v, some e ∈ c.entries ∧ e.content = .simple v ∧ e.size ≠ 8 ∧ v.size ≠ 8) ∧
    (∃ e parent count, some e ∈ c.entries ∧ e.content = .complex parent count ∧ e.size < 16) ∧
    pool.isUtf8 ∧ ∃ s, pool.strings[0]? = some s ∧
      StringPool.markValue 1 misdeclaring
        (StringPool.stringStart misdeclaring pool.header.offset 0) ≠
          (Text.Utf16.encode s.toList).length := by
  obtain ⟨t, p, c, pool, hdecode, hp, hc, hentries, hpool, hutf8, hstring, hunits⟩ :=
    decode_misdeclaring
  have hsimple : some ⟨3, 0, 0, .simple ⟨0, 0, 3, 0⟩⟩ ∈ c.entries := by
    rw [hentries]
    exact Array.mem_of_getElem? (i := 0) rfl
  have hcomplex : some ⟨8, 1, 1, .complex 0 0⟩ ∈ c.entries := by
    rw [hentries]
    exact Array.mem_of_getElem? (i := 1) rfl
  refine ⟨t, p, c, pool, hdecode, hp, hc, hpool, ⟨_, _, hsimple, rfl, by decide, by decide⟩,
    ⟨_, _, _, hcomplex, rfl, by decide⟩, hutf8, "Hello", hstring, ?_⟩
  rw [hunits]
  decide

end Table

end Tables

end ApkFormats.Resource
