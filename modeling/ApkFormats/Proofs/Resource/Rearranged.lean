import ApkFormats.Proofs.Resource.Alike
import ApkFormats.Proofs.Resource.Tiling

/-!
# Chunks of a package in another order

Two tables may differ in how the chunks behind the pools of a package are
ordered, and in the specifications among them.  As long as the chunks of each
single type keep their order, lookups do not tell the tables apart.

* `chunkBytes`: the bytes of the chunk at an offset, which is all that a pool or
  a chunk of entries is decoded from;
* `Rearranged`: two buffers hold the same chunks, up to the order of chunks of
  different types and to specifications;
* `Table.alike_of_rearranged`: what is decoded of such buffers is alike;
* `Table.lookups_eq_of_rearranged`: so lookups give the same answers.
-/

namespace ApkFormats

variable {b b' : Bytes} {x x' stop stop' : Nat}

/-- Some bytes from an offset on, as far as there are any. -/
def bytesAt (buffer : Bytes) (offset count : Nat) : List UInt8 :=
  (buffer.toList.drop offset).take count

/-- The bytes of the chunk at an offset. -/
def chunkBytes (buffer : Bytes) (offset : Nat) : List UInt8 :=
  bytesAt buffer offset (numberAt 4 buffer (offset + 4))

theorem holds_bytesAt {count : Nat} (h : x + count ≤ b.size) :
    Holds b x (bytesAt b x count).toArray.toList ∧ (bytesAt b x count).toArray.size = count := by
  have hbytes : (bytesAt b x count).toArray = b.extract x (x + count) := by
    apply Array.toList_inj.mp
    rw [Array.toList_extract, List.extract, Nat.add_sub_cancel_left]
    rfl
  rw [hbytes]
  refine ⟨.of_extract h, ?_⟩
  rw [Array.size_extract]
  omega

/-- A chunk that lies in the buffer lies there as a whole. -/
theorem holds_chunkBytes (h : x + numberAt 4 b (x + 4) ≤ b.size) :
    Holds b x (chunkBytes b x).toArray.toList ∧
      0 + numberAt 4 b (x + 0 + 4) ≤ (chunkBytes b x).toArray.size := by
  obtain ⟨hpart, hsize⟩ := holds_bytesAt h
  exact ⟨hpart, Nat.le_of_eq ((Nat.zero_add _).trans hsize.symm)⟩

theorem StringPool.strings_eq_of_chunkBytes {pool pool' : StringPool}
    (h : read.Reads b x pool stop) (h' : read.Reads b' x' pool' stop')
    (hsame : chunkBytes b x = chunkBytes b' x') : pool.strings = pool'.strings := by
  obtain ⟨hoffset, hsize, hstop, hroom⟩ := ends_of_read h
  obtain ⟨hoffset', hsize', hstop', hroom'⟩ := ends_of_read h'
  rw [hstop, ChunkHeader.stop, hoffset, hsize] at hroom
  rw [hstop', ChunkHeader.stop, hoffset', hsize'] at hroom'
  obtain ⟨hpart, hinside⟩ := holds_chunkBytes hroom
  obtain ⟨hpart', hinside'⟩ := holds_chunkBytes hroom'
  rw [← hsame] at hpart' hinside'
  obtain ⟨_, rfl, rfl⟩ :=
    (read_mirrors hpart hinside).exists_common (read_mirrors hpart' hinside') h h'
  rfl

namespace Resource

theorem TypeEntries.inside_of_read {keys : StringPool} {c : TypeEntries}
    (h : (read keys).Reads b x c stop) : x + numberAt 4 b (x + 4) ≤ b.size := by
  rw [read_eq] at h
  obtain ⟨header, _, hheader, -⟩ := Decoder.reads_bind_iff.mp h
  obtain ⟨hoffset, -, -, hsize, hinside, -⟩ := ChunkHeader.fields_of_read hheader
  rwa [ChunkHeader.stop, hoffset, hsize] at hinside

theorem TypeEntries.atOrigin_eq_of_chunkBytes {keys keys' : StringPool}
    (hkeys : keys'.strings = keys.strings) {c c' : TypeEntries}
    (h : (read keys).Reads b x c stop) (h' : (read keys').Reads b' x' c' stop')
    (hsame : chunkBytes b x = chunkBytes b' x') : c.atOrigin = c'.atOrigin := by
  obtain ⟨hpart, hinside⟩ := holds_chunkBytes (inside_of_read h)
  obtain ⟨hpart', hinside'⟩ := holds_chunkBytes (inside_of_read h')
  rw [← hsame] at hpart' hinside'
  have hmirrors := read_mirrors hpart (rfl : keys.stringAt = keys.stringAt) hinside
  have hmirrors' := read_mirrors hpart' (StringPool.stringAt_congr hkeys) hinside'
  obtain ⟨_, rfl, rfl⟩ := hmirrors.exists_common hmirrors' h h'
  rfl

section Packages

/-- The fixed fields of the package at an offset, which stand behind its header. -/
def fieldBytes (buffer : Bytes) (position : Nat) : List UInt8 :=
  bytesAt buffer (position + 8) 276

/-- Offset of the pool of type names of the package at an offset. -/
def typePoolAt (buffer : Bytes) (position : Nat) : Nat :=
  position + numberAt 4 buffer (position + 268)

/-- Offset of the pool of keys of the package at an offset. -/
def keyPoolAt (buffer : Bytes) (position : Nat) : Nat :=
  position + numberAt 4 buffer (position + 276)

/-- The chunks behind the pool of keys of the package at an offset. -/
def innerChunksAt (buffer : Bytes) (position : Nat) : List TopChunk :=
  chunksUpTo buffer (position + numberAt 4 buffer (position + 4))
    (keyPoolAt buffer position + numberAt 4 buffer (keyPoolAt buffer position + 4))

/-- The number of its type and the bytes of a chunk of entries. -/
def TopChunk.numbered (buffer : Bytes) (c : TopChunk) : Nat × List UInt8 :=
  (c.typeId buffer, chunkBytes buffer c.position)

/-- The chunks of entries of the package at an offset. -/
def entryChunksAt (buffer : Bytes) (position : Nat) : List (Nat × List UInt8) :=
  ((innerChunksAt buffer position).filter fun c => c.type = typeEntriesType).map
    (TopChunk.numbered buffer)

/-- Two packages have the same fields and pools, and for each type the same chunks of entries in the
same order.  Chunks of different types may change places, and specifications may come, go and change
places. -/
structure SamePackage (b b' : Bytes) (x x' : Nat) : Prop where
  fields : fieldBytes b x = fieldBytes b' x'
  typePool : chunkBytes b (typePoolAt b x) = chunkBytes b' (typePoolAt b' x')
  keyPool : chunkBytes b (keyPoolAt b x) = chunkBytes b' (keyPoolAt b' x')
  entries : SameByKey (entryChunksAt b x) (entryChunksAt b' x')

instance (b b' : Bytes) (x x' : Nat) : Decidable (SamePackage b b' x x') :=
  decidable_of_iff
    (fieldBytes b x = fieldBytes b' x' ∧
      chunkBytes b (typePoolAt b x) = chunkBytes b' (typePoolAt b' x') ∧
      chunkBytes b (keyPoolAt b x) = chunkBytes b' (keyPoolAt b' x') ∧
      SameByKey (entryChunksAt b x) (entryChunksAt b' x'))
    ⟨fun h => ⟨h.1, h.2.1, h.2.2.1, h.2.2.2⟩,
      fun h => ⟨h.fields, h.typePool, h.keyPool, h.entries⟩⟩

namespace Package

variable {strings strings' : Option StringPool} {p p' : Package}

theorem FieldsAt.same (h : p.FieldsAt b x) (h' : p'.FieldsAt b' x')
    (hsame : fieldBytes b x = fieldBytes b' x') : p.id = p'.id ∧ p.name = p'.name := by
  have hroom := h.room
  have hroom' := h'.room
  rw [fixedSize, chunkHeaderSize, nameSize] at hroom hroom'
  have hinside : x + 8 + 276 ≤ b.size := by omega
  have hinside' : x' + 8 + 276 ≤ b'.size := by omega
  obtain ⟨hpart, hsize⟩ := holds_bytesAt hinside
  obtain ⟨hpart', -⟩ := holds_bytesAt hinside'
  rw [← fieldBytes] at hpart hpart' hsize
  rw [← hsame] at hpart'
  constructor
  · have hid : numberAt 4 b (x + 8 + 0) = _ := hpart.numberAt_part (by omega)
    have hid' : numberAt 4 b' (x' + 8 + 0) = _ := hpart'.numberAt_part (by omega)
    rw [h.id, h'.id]
    exact hid.trans hid'.symm
  · have hname : b.extract (x + 8 + 4) (x + 8 + 4 + 256) = _ := hpart.extract_part (by omega)
    have hname' : b'.extract (x' + 8 + 4) (x' + 8 + 4 + 256) = _ := hpart'.extract_part (by omega)
    rw [h.name, h'.name]
    exact congrArg (fun bytes : Bytes => decodeName bytes.toList) (hname.trans hname'.symm)

/-- What is gathered are the strings of the one type that is named for them. -/
theorem gatherStrings_eq (strings : Option StringPool) (p : Package) :
    gatherStrings strings p.typePool p.chunks =
      match typeIdIn? p.typePool stringTypeName with
      | some id => Localized.ofChunks strings (p.entryChunksOf id)
      | none => .ok .empty := by
  unfold gatherStrings
  cases typeIdIn? p.typePool stringTypeName with
  | none => rfl
  | some id =>
      dsimp only
      rw [entryChunksOf_natCast]

theorem ofChunks_atOrigin (strings : Option StringPool) (chunks : List TypeEntries) :
    Localized.ofChunks strings (chunks.map TypeEntries.atOrigin) =
      Localized.ofChunks strings chunks := by
  rw [Localized.ofChunks, List.foldlM_map]
  rfl

/-- What is gathered does not depend on where the chunks of the strings stand. -/
theorem gatherStrings_congr (hstrings : SameStrings strings strings')
    (htypes : p.typePool.strings = p'.typePool.strings)
    (hentries : ∀ type : Int, (p.entryChunksOf type).map TypeEntries.atOrigin =
      (p'.entryChunksOf type).map TypeEntries.atOrigin) :
    gatherStrings strings p.typePool p.chunks = gatherStrings strings' p'.typePool p'.chunks := by
  rw [gatherStrings_eq, gatherStrings_eq, typeIdIn?, typeIdIn?, htypes, hstrings.ofChunks_eq]
  split
  · rw [← ofChunks_atOrigin, hentries, ofChunks_atOrigin]
  · rfl

theorem entryChunksOf_negSucc (n : Nat) : p.entryChunksOf (Int.negSucc n) = [] := by
  rw [entryChunksOf, List.filter_eq_nil_iff]
  intro c _ hid
  cases beq_iff_eq.mp hid

theorem filter_entryChunksAt (buffer : Bytes) (position id : Nat) :
    ((entryChunksAt buffer position).filter fun item => item.1 = id) =
      ((innerChunksAt buffer position).filter
        (TopChunk.isAbout buffer typeEntriesType id)).map (TopChunk.numbered buffer) := by
  rw [entryChunksAt, List.filter_map, List.filter_filter]
  refine congrArg _ (List.filter_congr fun c _ => ?_)
  rw [TopChunk.isAbout, Bool.and_comm]
  rfl

/-- The chunks of entries of a package that is read stand in the bytes. -/
theorem types_of_read (h : (read strings).Reads b x p stop) (id : Nat) :
    List.Forall₂ (fun c chunk => (TypeEntries.read p.keyPool).Yields b c.position chunk)
      ((innerChunksAt b x).filter (TopChunk.isAbout b typeEntriesType id))
      (p.entryChunksOf id) := by
  obtain ⟨hheader, hfields, -, hkeys, -, -⟩ := reads_read_iff.mp h
  obtain ⟨hoffset, -, -, hsize, -, -⟩ := ChunkHeader.fields_of_read hheader
  rw [hfields.keyStringsOffset] at hkeys
  obtain ⟨hkeysOffset, hkeysSize, -, -⟩ := StringPool.ends_of_read hkeys
  have htypes := (tiled_of_read h).types id
  rwa [innerChunks, ChunkHeader.stop, ChunkHeader.stop, hoffset, hsize, hkeysOffset,
    hkeysSize] at htypes

theorem entries_eq_of_same (h : (read strings).Reads b x p stop)
    (h' : (read strings').Reads b' x' p' stop') (hkeys : p'.keyPool.strings = p.keyPool.strings)
    (hsame : SameByKey (entryChunksAt b x) (entryChunksAt b' x')) (type : Int) :
    (p.entryChunksOf type).map TypeEntries.atOrigin =
      (p'.entryChunksOf type).map TypeEntries.atOrigin := by
  cases type with
  | ofNat id =>
      have hid := hsame id
      rw [filter_entryChunksAt, filter_entryChunksAt] at hid
      refine map_eq_of_forall₂ (types_of_read h id) (types_of_read h' id) hid
        fun c chunk c' chunk' hread hread' hnumbered => ?_
      exact TypeEntries.atOrigin_eq_of_chunkBytes hkeys hread.reads hread'.reads
        (Prod.mk.inj hnumbered).2
  | negSucc n =>
      rw [entryChunksOf_negSucc, entryChunksOf_negSucc]

/-- Packages are alike when their fields, their pools and their chunks of entries have the same
bytes. -/
theorem alike_of_same (hstrings : SameStrings strings strings')
    (h : (read strings).Reads b x p stop) (h' : (read strings').Reads b' x' p' stop')
    (hsame : SamePackage b b' x x') : p.Alike p' := by
  -- the chunks behind the pool of keys come in through `entries_eq_of_same` only
  obtain ⟨-, hfields, htypes, hkeys, -, hgathered⟩ := reads_read_iff.mp h
  obtain ⟨-, hfields', htypes', hkeys', -, hgathered'⟩ := reads_read_iff.mp h'
  rw [hfields.typeStringsOffset] at htypes
  rw [hfields'.typeStringsOffset] at htypes'
  rw [hfields.keyStringsOffset] at hkeys
  rw [hfields'.keyStringsOffset] at hkeys'
  obtain ⟨hid, hname⟩ := hfields.same hfields' hsame.fields
  have htypePool := StringPool.strings_eq_of_chunkBytes htypes htypes' hsame.typePool
  have hkeyPool := StringPool.strings_eq_of_chunkBytes hkeys hkeys' hsame.keyPool
  have hentries := entries_eq_of_same h h' hkeyPool.symm hsame.entries
  rw [gatherStrings_congr hstrings htypePool hentries, hgathered', Except.ok.injEq] at hgathered
  exact ⟨hid, hname, htypePool, hkeyPool, hentries, hgathered.symm⟩

end Package

end Packages

section Tables

/-- Two chunks at top level are of the same type, pools have the same bytes, and packages the same
but for the order of their chunks; chunks that tell how many packages there are may differ. -/
def SameChunk (b b' : Bytes) (c c' : TopChunk) : Prop :=
  c.type = c'.type ∧
    (c.type = stringPoolType → chunkBytes b c.position = chunkBytes b' c'.position) ∧
    (c.type = packageType → SamePackage b b' c.position c'.position)

instance (b b' : Bytes) : DecidableRel (SameChunk b b') :=
  fun c c' => inferInstanceAs (Decidable (c.type = c'.type ∧ _ ∧ _))

/-- Two buffers hold the same chunks at top level, but for the order of the chunks in a package. -/
def Rearranged (b b' : Bytes) : Prop :=
  List.Forall₂ (SameChunk b b') (topChunksFrom b 0) (topChunksFrom b' 0)

instance (b b' : Bytes) : Decidable (Rearranged b b') :=
  inferInstanceAs (Decidable (List.Forall₂ _ _ _))

/-- The entries of `TableSource.interleaved`, type by type, among other specifications. -/
def TableSource.sorted : TableSource :=
  .ofChunks [.spec 2 0, .spec 2 2, .entries 2 ⟨.none, .none, 0⟩ [.absent, .simple 1 3 0],
    .entries 1 ⟨.none, .none, 0⟩ [.simple 0 3 0],
    .entries 1 ⟨.letters 'd' 'e', .none, 0⟩ [.simple 0 3 1]]

namespace Table

variable {t t' u u' : Table} {c c' : TopChunk}

theorem Step.alike (h : t.Step b c t') (h' : u.Step b' c' u') (hsame : SameChunk b b' c c')
    (halike : t.Alike u) : t'.Alike u' := by
  obtain ⟨htypes, hpools, hpackages⟩ := hsame
  cases h with
  | pool htype hread =>
      cases h' with
      | pool htype' hread' =>
          have hstrings := StringPool.strings_eq_of_chunkBytes hread.reads hread'.reads
            (hpools htype)
          exact ⟨congrArg some hstrings, halike.packages⟩
      | count htype' => cases (htype.symm.trans htypes).trans htype'
      | package htype' => cases (htype.symm.trans htypes).trans htype'
  | count htype =>
      cases h' with
      | pool htype' => cases (htype.symm.trans htypes).trans htype'
      | count htype' => exact ⟨halike.strings, halike.packages⟩
      | package htype' => cases (htype.symm.trans htypes).trans htype'
  | package htype hpool hread =>
      cases h' with
      | pool htype' => cases (htype.symm.trans htypes).trans htype'
      | count htype' => cases (htype.symm.trans htypes).trans htype'
      | package htype' hpool' hread' =>
          have hfirst := Package.alike_of_same halike.strings hread.reads hread'.reads
            (hpackages htype)
          exact ⟨halike.strings, forall₂_putPackage hfirst halike.packages⟩

theorem Loads.alike {chunks chunks' : List TopChunk} (h : t.Loads b chunks t')
    (h' : u.Loads b' chunks' u') (hsame : List.Forall₂ (SameChunk b b') chunks chunks')
    (halike : t.Alike u) : t'.Alike u' := by
  induction h generalizing chunks' u with
  | nil t =>
      cases hsame
      cases h'
      exact halike
  | cons hstep _ ih =>
      cases hsame with
      | cons hfirst hrest =>
          cases h' with
          | cons hstep' hrun' => exact ih hrun' hrest (hstep.alike hstep' hfirst halike)

theorem alike_of_rearranged (h : Table.decode b = .ok t) (h' : Table.decode b' = .ok u)
    (hsame : Rearranged b b') : t.Alike u :=
  (loads_of_decode h).alike (loads_of_decode h') hsame ⟨rfl, .nil⟩

/-- Tables that differ in the order of the chunks in their packages and in specifications, but not
in the order of the chunks of any one type, give the same answers and fail with the same errors. -/
theorem lookups_eq_of_rearranged (hdecode : Table.decode b = .ok t)
    (hdecode' : Table.decode b' = .ok u) (hsame : Rearranged b b') :
    (∀ id language region, t.find id language region = u.find id language region) ∧
    (∀ n, t.wordText n = u.wordText n) ∧ (∀ id, t.wordTextOf id = u.wordTextOf id) ∧
    ∀ id, t.numberText id = u.numberText id := by
  have halike := alike_of_rearranged hdecode hdecode' hsame
  exact ⟨halike.find_eq, halike.wordText_eq, halike.wordTextOf_eq, halike.numberText_eq⟩

/-- Chunks of two types that change places, and other specifications. -/
theorem lookups_eq_of_rearranged_sorted :
    Rearranged TableSource.interleaved.encode.toArray TableSource.sorted.encode.toArray ∧
    ∃ t u, Table.decode TableSource.interleaved.encode.toArray = .ok t ∧
      Table.decode TableSource.sorted.encode.toArray = .ok u ∧
      t.find "@string/greeting" (some "de") none = .ok (.text "Hallo") ∧
      (∀ id language region, t.find id language region = u.find id language region) ∧
      (∀ n, t.wordText n = u.wordText n) ∧ (∀ id, t.wordTextOf id = u.wordTextOf id) ∧
      ∀ id, t.numberText id = u.numberText id := by
  have hsame : Rearranged TableSource.interleaved.encode.toArray
      TableSource.sorted.encode.toArray := by
    decide +kernel
  have haccepted : (Table.decode TableSource.sorted.encode.toArray).toOption.any (fun _ => true) =
      true := by
    decide +kernel
  obtain ⟨t, _, hdecode, -, -, -, -, -, hfound⟩ := decode_interleaved
  obtain ⟨u, hdecode', -⟩ := exists_ok_of_any haccepted
  exact ⟨hsame, t, u, hdecode, hdecode', hfound,
    lookups_eq_of_rearranged hdecode hdecode' hsame⟩

end Table

end Tables

end Resource

end ApkFormats
