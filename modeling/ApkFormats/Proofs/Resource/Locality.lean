import ApkFormats.Proofs.Resource.Accepted
import ApkFormats.Proofs.StringPool.Locality

/-!
# Resource tables are read chunk by chunk

What is read of a chunk of entries stands in that chunk: its configuration in
the header, and the entries it points to before its end.  The fixed fields of a
specification or of a package may stand behind the end of their chunk, and the
pools of a package anywhere in the buffer.

* `TypeEntries.read_mirrors`: a chunk of entries in a part of a buffer is read
  of the whole exactly as it is read of the part;
* `readPackageChunks_part_iff`: so are the chunks of a package, as long as the
  fields of its specifications stand in the part;
* `Package.read_part_of_read`, `Package.read_of_read_part`: and so is a package,
  as long as its own fields and its pools do.
-/

namespace ApkFormats.Resource

open Decoder (Mirrors Sequential)

variable {part buffer : Bytes} {shift start stop : Nat}

section Entries

/-! ## Entries -/

theorem StoredValue.read_sequential : Sequential StoredValue.read :=
  .bind .u16 fun _ => .bind .u8 fun _ => .bind .u8 fun _ => .bind .u32 fun _ => .pure _

theorem Entry.read_sequential : Sequential Entry.read := by
  have hcontent (flags : Nat) : Sequential (readContent flags) :=
    .ite (.bind .u32 fun _ => .bind .u32 fun _ => .pure _)
      (.bind StoredValue.read_sequential fun _ => .pure _)
  exact .bind .u16 fun _ => .bind .u16 fun flags => .bind .u32 fun _ =>
    .bind (hcontent flags) fun _ => .pure _

/-- Every entry takes the same number of bytes. -/
theorem Entry.stop_of_read {e : Entry} (h : read.Reads buffer start e stop) :
    stop = start + fixedSize := by
  unfold read readContent StoredValue.read at h
  simp only [Decoder.reads_u16_bind_iff, Decoder.reads_u32_bind_iff] at h
  obtain ⟨-, -, -, h⟩ := h
  obtain ⟨content, mid, hcontent, h⟩ := Decoder.reads_bind_iff.mp h
  rw [← (Decoder.reads_pure_iff.mp h).2, fixedSize]
  rcases Decoder.reads_ite_iff.mp hcontent with ⟨-, hcontent⟩ | ⟨-, hcontent⟩
  · simp only [Decoder.reads_u32_bind_iff, Decoder.reads_pure_iff] at hcontent
    omega
  · simp only [bind_assoc, pure_bind, Decoder.reads_u16_bind_iff, Decoder.reads_u8_bind_iff,
      Decoder.reads_u32_bind_iff, Decoder.reads_pure_iff] at hcontent
    omega

variable (hpart : Holds buffer shift part.toList)
include hpart

theorem readCode_mirrors (hroom : start + 2 ≤ part.size) (first : Char) :
    Mirrors part buffer shift id start (readCode first) (readCode first) := by
  unfold readCode
  refine .position (.take hpart hroom fun code => ?_)
  cases decodeCode code first with
  | ok letters => exact .pure letters
  | error e => exact .fail

omit hpart in
theorem stop_of_readCode {first : Char} {code : Option String}
    (h : (readCode first).Reads buffer start code stop) : stop = start + 2 := by
  unfold readCode at h
  simp only [Decoder.reads_position_bind_iff, Decoder.reads_take_bind_iff] at h
  obtain ⟨-, h⟩ := h
  split at h
  · exact (Decoder.reads_pure_iff.mp h).2.symm
  · exact absurd h Decoder.not_reads_fail

theorem Config.read_mirrors (hroom : start + leastSize ≤ part.size) :
    Mirrors part buffer shift id start Config.read Config.read := by
  rw [leastSize] at hroom
  unfold Config.read
  refine .position (.u32 hpart (by omega) fun size => .require rfl fun _ => ?_)
  refine .u32 hpart (by omega) fun imsi => ?_
  refine .bind (readCode_mirrors hpart (by omega) _) fun language mid hmid => ?_
  rw [stop_of_readCode hmid]
  refine .bind (readCode_mirrors hpart (by omega) _) fun region _ _ => ?_
  exact .goTo (by omega) (.pure _)

omit hpart in
/-- A configuration that is read leaves the cursor behind its least size. -/
theorem Config.le_of_read {c : Config} (h : Config.read.Reads buffer start c stop) :
    start + leastSize ≤ stop := by
  unfold Config.read at h
  simp only [Decoder.reads_position_bind_iff, Decoder.reads_u32_bind_iff,
    Decoder.reads_require_bind_iff] at h
  obtain ⟨-, hleast, -, h⟩ := h
  obtain ⟨language, _, -, h⟩ := Decoder.reads_bind_iff.mp h
  obtain ⟨region, _, -, h⟩ := Decoder.reads_bind_iff.mp h
  rw [Decoder.reads_goTo_bind_iff, Decoder.reads_pure_iff] at h
  have hleast := of_decide_eq_true hleast
  omega

variable {keys keys' : StringPool} (hkeys : keys'.stringAt = keys.stringAt)
include hkeys

/-- An entry of a chunk in a part is read of the whole exactly as it is read of the part. -/
theorem readEntry_mirrors {header : ChunkHeader} (hstop : header.stop ≤ part.size)
    {base base' : Nat} (hbase : base' = shift + base) (item : Nat × Nat) :
    Mirrors part buffer shift id start (TypeEntries.readEntry keys header base item)
      (TypeEntries.readEntry keys' (header.movedBy shift) base' item) := by
  unfold TypeEntries.readEntry
  refine .ite (fun _ => .pure none) fun _ => ?_
  refine .require ?_ fun hinside => ?_
  · rw [ChunkHeader.movedBy_stop, decide_eq_decide]
    omega
  · have hinside : base + item.2 + Entry.fixedSize ≤ header.stop := of_decide_eq_true hinside
    refine .goTo (by omega) (.bind (.sequential hpart Entry.read_sequential (by omega) ?_) ?_)
    · intro e stop' h
      rw [Entry.stop_of_read h]
      omega
    · intro e mid _
      rw [hkeys]
      exact .bind (.resolved _) fun key _ _ => .pure (some (e, key))

namespace TypeEntries

/-- The same chunk further on. -/
def movedBy (shift : Nat) (c : TypeEntries) : TypeEntries :=
  { c with header := c.header.movedBy shift }

/-- Reads what stands behind the header of a chunk of entries. -/
def readBehind (keys : StringPool) (header : ChunkHeader) : Decoder TypeEntries := do
  let id ← Decoder.u8
  let flags ← Decoder.u8
  let reserved ← Decoder.u16
  let entryCount ← Decoder.u32
  let entriesStart ← Decoder.u32
  let config ← Config.read
  let cursor ← Decoder.position
  Decoder.require (cursor ≤ header.payload)
    (.table (.configRoom header.offset header.headerSize))
  Decoder.goTo header.payload
  Decoder.require (header.payload + 4 * entryCount ≤ header.stop)
    (.table (.entryCount header.offset entryCount))
  let offsets ← Decoder.times Decoder.u32 entryCount
  let items ← Decoder.each (readEntry keys header (header.offset + entriesStart))
    ((List.range entryCount).zip offsets)
  pure ⟨header, id, flags, reserved, entryCount, entriesStart, config,
    (items.map fun item => item.map Prod.fst).toArray, namedFrom 0 items⟩

omit hpart hkeys in
/-- A chunk of entries is read as its header and what stands behind it. -/
theorem read_eq : read keys = ChunkHeader.read (some typeEntriesType) >>= readBehind keys :=
  rfl

/-- Least size of the header of a chunk of entries. -/
def leastHeaderSize : Nat := chunkHeaderSize + 12 + Config.leastSize

omit hpart hkeys in
/-- The fixed fields and the configuration of a chunk stand in its header. -/
theorem least_of_readBehind {header : ChunkHeader} {c : TypeEntries}
    (h : (readBehind keys header).Reads buffer (header.offset + chunkHeaderSize) c stop) :
    c.header = header ∧ leastHeaderSize ≤ header.headerSize := by
  unfold readBehind at h
  simp only [Decoder.reads_u8_bind_iff, Decoder.reads_u16_bind_iff,
    Decoder.reads_u32_bind_iff] at h
  obtain ⟨-, -, -, -, -, h⟩ := h
  obtain ⟨config, _, hconfig, h⟩ := Decoder.reads_bind_iff.mp h
  simp only [Decoder.reads_position_bind_iff, Decoder.reads_require_bind_iff,
    Decoder.reads_goTo_bind_iff] at h
  obtain ⟨hroom, -, h⟩ := h
  obtain ⟨offsets, _, -, h⟩ := Decoder.reads_bind_iff.mp h
  obtain ⟨items, _, -, h⟩ := Decoder.reads_bind_iff.mp h
  rw [← (Decoder.reads_pure_iff.mp h).1]
  have hleast := Config.le_of_read hconfig
  have hroom := of_decide_eq_true hroom
  rw [ChunkHeader.payload] at hroom
  rw [leastHeaderSize]
  exact ⟨rfl, by omega⟩

/-- What stands behind a header is read of the whole exactly as it is read of a part that the chunk
ends in. -/
theorem readBehind_mirrors {header : ChunkHeader} (hstop : header.stop ≤ part.size) :
    Mirrors part buffer shift (movedBy shift) (header.offset + chunkHeaderSize)
      (readBehind keys header) (readBehind keys' (header.movedBy shift)) := by
  by_cases hleast : leastHeaderSize ≤ header.headerSize
  · have hroom := header.headerSize_le
    have hend : header.offset + header.size ≤ part.size := hstop
    have hpayload : header.payload = header.offset + header.headerSize := rfl
    rw [leastHeaderSize, chunkHeaderSize, Config.leastSize] at hleast
    unfold readBehind
    simp only [ChunkHeader.movedBy_headerSize, ChunkHeader.movedBy_offset,
      ChunkHeader.movedBy_payload, ChunkHeader.movedBy_stop, chunkHeaderSize]
    refine .u8 hpart (by omega) fun id => .u8 hpart (by omega) fun flags => ?_
    refine .u16 hpart (by omega) fun reserved => .u32 hpart (by omega) fun entryCount => ?_
    refine .u32 hpart (by omega) fun entriesStart => ?_
    refine .bind (Config.read_mirrors hpart (by rw [Config.leastSize]; omega)) fun config _ _ => ?_
    refine .position (.require (by rw [decide_eq_decide]; omega) fun _ => .goTo rfl ?_)
    refine .require (by rw [decide_eq_decide]; omega) fun hcount => ?_
    have hcount := of_decide_eq_true hcount
    refine .bind (.sequential hpart (.times .u32 entryCount) (by omega) ?_) fun offsets _ _ => ?_
    · intro offsets stop' h
      have htaken := Decoder.stop_of_reads_times (fun h => (Decoder.reads_u32_iff.mp h).2.2.symm) h
      omega
    refine .bind (.each fun item _ _ => ?_) fun items _ _ => .pure _
    exact readEntry_mirrors hpart hkeys hstop (by omega) item
  · -- Such a header has no room for a configuration, wherever the bytes behind it are read.
    refine .of_not (fun c stop h => hleast (least_of_readBehind h).2) fun c stop h => hleast ?_
    rw [← Nat.add_assoc, ← ChunkHeader.movedBy_offset] at h
    exact (least_of_readBehind h).2

/-- A chunk of entries in a part is read of the whole exactly as it is read of the part. -/
theorem read_mirrors (hinside : start + numberAt 4 buffer (shift + start + 4) ≤ part.size) :
    Mirrors part buffer shift (movedBy shift) start (read keys) (read keys') := by
  rw [read_eq, read_eq]
  refine .bind (ChunkHeader.read_mirrors hpart hinside) fun header mid h => ?_
  obtain ⟨rfl, -, -, -, hroom, rfl⟩ := ChunkHeader.fields_of_read h
  exact readBehind_mirrors hpart hkeys hroom

end TypeEntries

end Entries

section Chunks

/-! ## Chunks of a package -/

namespace TypeSpec

/-- The same specification further on. -/
def movedBy (shift : Nat) (s : TypeSpec) : TypeSpec :=
  { s with header := s.header.movedBy shift }

/-- Size of the fixed fields of a specification, header included. -/
def fixedSize : Nat := chunkHeaderSize + 8

/-- The fixed fields of a specification that is read stand in the buffer. -/
theorem fields_of_read {s : TypeSpec} (h : read.Reads buffer start s stop) :
    s.header.offset = start ∧ s.header.size = numberAt 4 buffer (start + 4) ∧
      s.header.stop ≤ buffer.size ∧ start + fixedSize ≤ buffer.size := by
  unfold read at h
  obtain ⟨header, _, hheader, h⟩ := Decoder.reads_bind_iff.mp h
  obtain ⟨hoffset, -, -, hsize, hinside, rfl⟩ := ChunkHeader.fields_of_read hheader
  simp only [Decoder.reads_u8_bind_iff, Decoder.reads_u16_bind_iff, Decoder.reads_u32_bind_iff,
    Decoder.reads_pure_iff] at h
  obtain ⟨-, -, -, hroom, rfl, -⟩ := h
  rw [fixedSize]
  exact ⟨hoffset, hsize, hinside, by omega⟩

/-- A specification whose chunk and fields lie in a part is read of the whole exactly as it is read
of the part. -/
theorem read_mirrors (hpart : Holds buffer shift part.toList)
    (hinside : start + numberAt 4 buffer (shift + start + 4) ≤ part.size)
    (hfields : start + fixedSize ≤ part.size) :
    Mirrors part buffer shift (movedBy shift) start read read := by
  rw [fixedSize] at hfields
  unfold read
  refine .bind (ChunkHeader.read_mirrors hpart hinside) fun header mid h => ?_
  obtain ⟨-, -, -, -, -, rfl⟩ := ChunkHeader.fields_of_read h
  refine .u8 hpart (by omega) fun id => .u8 hpart (by omega) fun reserved0 => ?_
  exact .u16 hpart (by omega) fun reserved1 => .u32 hpart (by omega) fun entryCount => .pure _

end TypeSpec

namespace PackageChunk

/-- The same chunk further on. -/
def movedBy (shift : Nat) : PackageChunk → PackageChunk
  | .entries chunk => .entries (chunk.movedBy shift)
  | .spec chunk => .spec (chunk.movedBy shift)

/-- The fixed fields of a specification end before a limit. -/
def SpecEndsBy (limit : Nat) : PackageChunk → Prop
  | .entries _ => True
  | .spec chunk => chunk.header.offset + TypeSpec.fixedSize ≤ limit

variable {keys keys' : StringPool} {type position : Nat} {c : PackageChunk}

theorem specEndsBy_of_read (h : (read keys type position).Reads buffer start c stop) :
    c.SpecEndsBy buffer.size := by
  rcases read_cases h with ⟨chunk, -, -, rfl⟩ | ⟨chunk, hread, -, rfl⟩
  · trivial
  · obtain ⟨hoffset, -, -, hroom⟩ := TypeSpec.fields_of_read hread
    rw [SpecEndsBy, hoffset]
    exact hroom

/-- What ends before the limit is known from the cursor. -/
theorem le_of_specEndsBy {limit : Nat}
    (h : (read keys type position).Reads buffer start c stop) (hc : c.SpecEndsBy limit)
    (htype : type = typeSpecType) : start + TypeSpec.fixedSize ≤ limit := by
  rcases read_cases h with ⟨chunk, -, hentries, -⟩ | ⟨chunk, hread, -, rfl⟩
  · rw [hentries] at htype
    cases htype
  · rw [SpecEndsBy, (TypeSpec.fields_of_read hread).1] at hc
    exact hc

theorem specEndsBy_movedBy_iff {limit : Nat} :
    (c.movedBy shift).SpecEndsBy (shift + limit) ↔ c.SpecEndsBy limit := by
  cases c with
  | entries chunk => exact Iff.rfl
  | spec chunk =>
      simp only [movedBy, SpecEndsBy, TypeSpec.movedBy, ChunkHeader.movedBy_offset]
      omega

theorem read_mirrors (hpart : Holds buffer shift part.toList)
    (hkeys : keys'.stringAt = keys.stringAt)
    (hinside : start + numberAt 4 buffer (shift + start + 4) ≤ part.size)
    (hspec : type = typeSpecType → start + TypeSpec.fixedSize ≤ part.size)
    (position position' : Nat) :
    Mirrors part buffer shift (movedBy shift) start (read keys type position)
      (read keys' type position') := by
  unfold read
  refine .ite (fun _ => ?_) fun _ => .ite (fun htype => ?_) fun _ => .fail
  · refine .bind (TypeEntries.read_mirrors hpart hkeys hinside) fun chunk _ _ => ?_
    exact .pure (PackageChunk.entries chunk)
  · refine .bind (TypeSpec.read_mirrors hpart hinside (hspec htype)) fun chunk _ _ => ?_
    exact .pure (PackageChunk.spec chunk)

end PackageChunk

variable {keys keys' : StringPool} {last position : Nat}

/-- A chunk of a package that ends in a part stands in the whole exactly when it stands in the part,
and with it the fields of a specification. -/
theorem PackageChunk.standsAt_part_iff (hpart : Holds buffer shift part.toList)
    (hkeys : keys'.stringAt = keys.stringAt) (hlast : last ≤ part.size) {header' : ChunkHeader}
    {c' : PackageChunk} {stop' : Nat} :
    StandsAt keys' (shift + last) buffer (shift + position) header' c' stop' ∧
        c'.SpecEndsBy (shift + part.size) ↔
      ∃ header c stop, StandsAt keys last part position header c stop ∧
        header.movedBy shift = header' ∧ c.movedBy shift = c' ∧ shift + stop = stop' := by
  constructor
  · rintro ⟨⟨hheader', hroom, hchunk'⟩, hspec⟩
    obtain ⟨header, _, hheader, rfl, -⟩ :=
      (ChunkHeader.reads_read_part_iff hpart).mp ⟨hheader', by omega⟩
    obtain ⟨hoffset, -, -, -, -, rfl⟩ := ChunkHeader.fields_of_read hheader
    obtain ⟨-, -, -, hsize, -, -⟩ := ChunkHeader.fields_of_read hheader'
    rw [ChunkHeader.movedBy_size] at hsize
    rw [ChunkHeader.movedBy_stop, ChunkHeader.stop, hoffset] at hroom
    have hfields := le_of_specEndsBy hchunk' hspec
    obtain ⟨c, stop, hchunk, rfl, rfl⟩ := (read_mirrors hpart hkeys (by omega)
      (fun htype => by have := hfields htype; omega) position _ _ _).mp hchunk'
    refine ⟨header, c, stop, ⟨hheader, ?_, hchunk⟩, rfl, rfl, rfl⟩
    rw [ChunkHeader.stop, hoffset]
    omega
  · rintro ⟨header, c, stop, ⟨hheader, hroom, hchunk⟩, rfl, rfl, rfl⟩
    obtain ⟨hheader', -⟩ :=
      (ChunkHeader.reads_read_part_iff hpart).mpr ⟨header, _, hheader, rfl, rfl⟩
    obtain ⟨hoffset, -, -, -, -, -⟩ := ChunkHeader.fields_of_read hheader
    obtain ⟨-, -, -, hsize, -, -⟩ := ChunkHeader.fields_of_read hheader'
    rw [ChunkHeader.movedBy_size] at hsize
    have hend : position + header.size ≤ last := hoffset ▸ hroom
    have hspec := specEndsBy_of_read hchunk
    have hchunk' := (read_mirrors hpart hkeys (by omega) (le_of_specEndsBy hchunk hspec) position
      (shift + position) _ _).mpr ⟨c, stop, hchunk, rfl, rfl⟩
    rw [← Nat.add_assoc] at hheader'
    refine ⟨⟨hheader', ?_, hchunk'⟩, specEndsBy_movedBy_iff.mpr hspec⟩
    rw [ChunkHeader.movedBy_stop]
    omega

/-- The chunks of a package that ends in a part are read of the whole exactly as they are read of
the part, when the fields of the specifications stand there.

The induction is on the bytes that are left. -/
theorem readPackageChunks_part_iff (hpart : Holds buffer shift part.toList)
    (hkeys : keys'.stringAt = keys.stringAt) (hlast : last ≤ part.size)
    {chunks' : List PackageChunk} {stop' : Nat} :
    (readPackageChunks keys' (shift + last) (shift + position)).Reads buffer (shift + start) chunks'
        stop' ∧ (∀ c ∈ chunks', c.SpecEndsBy (shift + part.size)) ↔
      ∃ chunks stop, (readPackageChunks keys last position).Reads part start chunks stop ∧
        chunks.map (PackageChunk.movedBy shift) = chunks' ∧ shift + stop = stop' := by
  induction hleft : last - position using Nat.strongRecOn
    generalizing position start chunks' stop' with
  | ind left ih =>
      constructor
      · rintro ⟨h, hspecs⟩
        rcases readPackageChunks_iff.mp h with ⟨houtside, rfl, rfl⟩ |
          ⟨hinside, header', c', rest', mid', hstands', hrest', rfl⟩
        · exact ⟨[], start, readPackageChunks_iff.mpr (.inl ⟨by omega, rfl, rfl⟩), rfl, rfl⟩
        · obtain ⟨hspec, hothers⟩ := List.forall_mem_cons.mp hspecs
          obtain ⟨header, c, mid, hstands, rfl, rfl, rfl⟩ :=
            (PackageChunk.standsAt_part_iff hpart hkeys hlast).mp ⟨hstands', hspec⟩
          have hpos := header.size_pos
          rw [ChunkHeader.movedBy_size, Nat.add_assoc] at hrest'
          obtain ⟨rest, stop, hrest, rfl, rfl⟩ := (ih _ (by omega) rfl).mp ⟨hrest', hothers⟩
          refine ⟨c :: rest, stop, ?_, rfl, rfl⟩
          exact readPackageChunks_iff.mpr
            (.inr ⟨by omega, header, c, rest, mid, hstands, hrest, rfl⟩)
      · rintro ⟨chunks, stop, h, rfl, rfl⟩
        rcases readPackageChunks_iff.mp h with ⟨houtside, rfl, rfl⟩ |
          ⟨hinside, header, c, rest, mid, hstands, hrest, rfl⟩
        · exact ⟨readPackageChunks_iff.mpr (.inl ⟨by omega, rfl, rfl⟩), by simp⟩
        · obtain ⟨hstands', hspec⟩ := (PackageChunk.standsAt_part_iff hpart hkeys hlast).mpr
            ⟨header, c, mid, hstands, rfl, rfl, rfl⟩
          have hpos := header.size_pos
          obtain ⟨hrest', hspecs⟩ := (ih _ (by omega) rfl).mpr ⟨rest, stop, hrest, rfl, rfl⟩
          rw [← Nat.add_assoc] at hrest'
          refine ⟨readPackageChunks_iff.mpr (.inr ⟨by omega, header.movedBy shift,
            c.movedBy shift, _, shift + mid, hstands', hrest', rfl⟩), ?_⟩
          exact List.forall_mem_cons.mpr ⟨hspec, hspecs⟩

end Chunks

section Packages

/-! ## Packages -/

variable {strings : Option StringPool}

/-- What is gathered from the strings of a package does not depend on where they stand. -/
theorem gatherStrings_movedBy (shift : Nat) (types : StringPool) (chunks : List PackageChunk) :
    gatherStrings strings (types.movedBy shift) (chunks.map (PackageChunk.movedBy shift)) =
      gatherStrings strings types chunks := by
  have hentries : entriesAmong (chunks.map (PackageChunk.movedBy shift)) =
      (entriesAmong chunks).map (TypeEntries.movedBy shift) := by
    rw [entriesAmong, entriesAmong, List.filterMap_map, List.map_filterMap]
    congr 1
    funext c
    cases c <;> rfl
  have hids : ∀ type, typeIdIn? (types.movedBy shift) type = typeIdIn? types type := fun _ => rfl
  unfold gatherStrings
  rw [hentries, hids]
  split
  · rw [List.filter_map, Localized.ofChunks, List.foldlM_map]
    rfl
  · rfl

namespace Package

/-- The same package further on. -/
def movedBy (shift : Nat) (p : Package) : Package :=
  { p with
    header := p.header.movedBy shift
    typePool := p.typePool.movedBy shift
    keyPool := p.keyPool.movedBy shift
    chunks := p.chunks.map (PackageChunk.movedBy shift) }

variable {p : Package}

/-- The fields of a package say nothing about its chunks. -/
theorem FieldsAt.update (h : p.FieldsAt buffer start) (header : ChunkHeader)
    (typePool keyPool : StringPool) (chunks : List PackageChunk) :
    FieldsAt buffer start { p with
      header := header, typePool := typePool, keyPool := keyPool, chunks := chunks } :=
  ⟨h.room, h.id, h.name, h.typeStringsOffset, h.lastPublicType, h.keyStringsOffset,
    h.lastPublicKey⟩

/-- The fields of a package in a part are those that stand as much further on in the whole. -/
theorem fieldsAt_part_iff (hpart : Holds buffer shift part.toList)
    (hroom : start + fixedSize ≤ part.size) :
    p.FieldsAt buffer (shift + start) ↔ p.FieldsAt part start := by
  have hend := hpart.part_le
  have hfixed : start + 284 ≤ part.size := hroom
  have hnumber (place : Nat) (hplace : place + 4 ≤ 284) :
      numberAt 4 buffer (shift + start + place) = numberAt 4 part (start + place) := by
    rw [Nat.add_assoc]
    exact hpart.numberAt_part (by omega)
  have hname : buffer.extract (shift + start + 12) (shift + start + 268) =
      part.extract (start + 12) (start + 268) := by
    have hcut : buffer.extract (shift + (start + 12)) (shift + (start + 12) + 256) =
        part.extract (start + 12) (start + 12 + 256) := hpart.extract_part (by omega)
    simpa only [Nat.add_assoc, Nat.reduceAdd] using hcut
  constructor
  · rintro ⟨-, hid, hbytes, htypes, hlastType, hkeys, hlastKey⟩
    exact ⟨hroom, hid.trans (hnumber 8 (by decide)), hname ▸ hbytes,
      htypes.trans (hnumber 268 (by decide)), hlastType.trans (hnumber 272 (by decide)),
      hkeys.trans (hnumber 276 (by decide)), hlastKey.trans (hnumber 280 (by decide))⟩
  · rintro ⟨-, hid, hbytes, htypes, hlastType, hkeys, hlastKey⟩
    exact ⟨by omega, hid.trans (hnumber 8 (by decide)).symm, hname.symm ▸ hbytes,
      htypes.trans (hnumber 268 (by decide)).symm, hlastType.trans (hnumber 272 (by decide)).symm,
      hkeys.trans (hnumber 276 (by decide)).symm, hlastKey.trans (hnumber 280 (by decide)).symm⟩

/-- The chunk, the fields, the pools and the specifications of a package end before a limit. -/
structure EndsBy (limit : Nat) (p : Package) : Prop where
  chunk : p.header.stop ≤ limit
  fields : p.header.offset + fixedSize ≤ limit
  typePool : p.typePool.header.stop ≤ limit
  keyPool : p.keyPool.header.stop ≤ limit
  specs : ∀ c ∈ p.chunks, c.SpecEndsBy limit

/-- A package that is read of the whole is read of a part that everything it is read from ends
in. -/
theorem read_part_of_read (hpart : Holds buffer shift part.toList) {p' : Package} {stop' : Nat}
    (h : (read strings).Reads buffer (shift + start) p' stop')
    (hends : p'.EndsBy (shift + part.size)) :
    ∃ p stop, (read strings).Reads part start p stop ∧ p.movedBy shift = p' ∧
      shift + stop = stop' := by
  obtain ⟨hheader', hfields', htypes', hkeys', hchunks', hgathered⟩ := reads_read_iff.mp h
  obtain ⟨hchunk, hroom, htypesEnd, hkeysEnd, hspecs⟩ := hends
  obtain ⟨header, _, hheader, hheaderEq, -⟩ :=
    (ChunkHeader.reads_read_part_iff hpart).mp ⟨hheader', hchunk⟩
  obtain ⟨rfl, -, -, -, hinside, rfl⟩ := ChunkHeader.fields_of_read hheader
  rw [← hheaderEq, ChunkHeader.movedBy_offset] at hroom
  have hfields := (fieldsAt_part_iff hpart (by omega)).mp hfields'
  rw [Nat.add_assoc] at htypes' hkeys'
  obtain ⟨typePool, _, htypes, htypesEq, -⟩ :=
    (StringPool.reads_read_part_iff hpart).mp ⟨htypes', htypesEnd⟩
  obtain ⟨keyPool, _, hkeys, hkeysEq, -⟩ :=
    (StringPool.reads_read_part_iff hpart).mp ⟨hkeys', hkeysEnd⟩
  obtain ⟨-, -, rfl, -⟩ := StringPool.ends_of_read htypes
  obtain ⟨-, -, rfl, -⟩ := StringPool.ends_of_read hkeys
  rw [← hheaderEq, ← hkeysEq, StringPool.movedBy_header, ChunkHeader.movedBy_stop,
    ChunkHeader.movedBy_stop] at hchunks'
  obtain ⟨chunks, stop, hchunks, hchunksEq, hstop⟩ :=
    (readPackageChunks_part_iff hpart (keyPool.stringAt_movedBy shift) hinside).mp
      ⟨hchunks', hspecs⟩
  rw [← htypesEq, ← hchunksEq, gatherStrings_movedBy] at hgathered
  refine ⟨{ p' with header := header, typePool := typePool, keyPool := keyPool, chunks := chunks },
    stop, ?_, ?_, hstop⟩
  · exact reads_read_iff.mpr ⟨hheader, hfields.update header typePool keyPool chunks, htypes, hkeys,
      hchunks, hgathered⟩
  · simp only [movedBy, hheaderEq, htypesEq, hkeysEq, hchunksEq]

/-- What a package is read of in a part ends there, and the package is read of the whole. -/
theorem read_of_read_part (hpart : Holds buffer shift part.toList)
    (h : (read strings).Reads part start p stop) :
    (read strings).Reads buffer (shift + start) (p.movedBy shift) (shift + stop) ∧
      (p.movedBy shift).EndsBy (shift + part.size) := by
  obtain ⟨hheader, hfields, htypes, hkeys, hchunks, hgathered⟩ := reads_read_iff.mp h
  obtain ⟨hheader', hchunk⟩ :=
    (ChunkHeader.reads_read_part_iff hpart).mpr ⟨_, _, hheader, rfl, rfl⟩
  obtain ⟨rfl, -, -, -, hinside, -⟩ := ChunkHeader.fields_of_read hheader
  have hfields' := (fieldsAt_part_iff hpart hfields.room).mpr hfields
  obtain ⟨htypes', htypesEnd⟩ :=
    (StringPool.reads_read_part_iff hpart).mpr ⟨_, _, htypes, rfl, rfl⟩
  obtain ⟨hkeys', hkeysEnd⟩ := (StringPool.reads_read_part_iff hpart).mpr ⟨_, _, hkeys, rfl, rfl⟩
  obtain ⟨hchunks', hspecs⟩ := (readPackageChunks_part_iff hpart
    (p.keyPool.stringAt_movedBy shift) hinside).mpr ⟨_, _, hchunks, rfl, rfl⟩
  rw [← Nat.add_assoc] at hheader' htypes' hkeys'
  rw [← ChunkHeader.movedBy_stop] at htypes' htypesEnd hkeys' hkeysEnd
  rw [← ChunkHeader.movedBy_stop, ← ChunkHeader.movedBy_stop] at hchunks'
  constructor
  · exact reads_read_iff.mpr ⟨hheader', hfields'.update _ _ _ _, htypes', hkeys', hchunks',
      (gatherStrings_movedBy shift p.typePool p.chunks).trans hgathered⟩
  · have hroom : shift + p.header.offset + fixedSize ≤ shift + part.size := by
      have := hfields.room
      omega
    exact ⟨hchunk, hroom, htypesEnd, hkeysEnd, hspecs⟩

end Package

end Packages

end ApkFormats.Resource
