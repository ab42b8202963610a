import ApkFormats.Proofs.Resource.Naming
import ApkFormats.Proofs.Resource.Enclosed

/-!
# Chunks stand one behind the other

Every chunk says how far it is to the next one, and reading it moves the cursor
wherever its offsets point.  Still the chunks that are decoded leave no gap and
do not overlap: they tile the bytes that they are in.

* `Tiles`: pieces that follow one another from one offset to another;
* `Package.Tiled`: what is decoded of a package is what the chunks behind its
  pool of keys hold, each of them once and in their order, and these chunks tile
  the rest of the package;
* `Table.tiled_of_decode`: the chunks of an accepted table tile its buffer, and
  every package among them is tiled.
-/

namespace ApkFormats.Resource

/-- Pieces, each an offset and a length, follow one another from one offset to another. -/
def Tiles (start stop : Nat) : List (Nat × Nat) → Prop
  | [] => start = stop
  | (offset, length) :: rest => offset = start ∧ 0 < length ∧ Tiles (start + length) stop rest

variable {buffer : Bytes} {start stop position : Nat}

section Chunks

/-- The chunks from an offset on, one behind the other, that start before another offset. -/
def chunksUpTo (buffer : Bytes) (stop position : Nat) : List TopChunk :=
  if _ : position < stop ∧ 0 < (topChunkAt buffer position).size then
    topChunkAt buffer position ::
      chunksUpTo buffer stop (position + (topChunkAt buffer position).size)
  else []
termination_by stop - position
decreasing_by omega

theorem chunksUpTo_of_read {header : ChunkHeader} {last : Nat} (hinside : position < last)
    (h : (ChunkHeader.read none).Reads buffer position header stop) :
    chunksUpTo buffer last position = ⟨position, header.type, header.headerSize, header.size⟩ ::
      chunksUpTo buffer last (position + header.size) := by
  have htop := topChunkAt_of_read h
  have hpos := header.size_pos
  rw [chunksUpTo, dif_pos ⟨hinside, by rwa [htop]⟩, htop]

/-- The number of its resource type that stands behind the header of a chunk. -/
def TopChunk.typeId (buffer : Bytes) (c : TopChunk) : Nat :=
  numberAt 1 buffer (c.position + chunkHeaderSize)

/-- A chunk of some kind about the resource type of a number. -/
def TopChunk.isAbout (buffer : Bytes) (kind id : Nat) (c : TopChunk) : Bool :=
  c.type == kind && c.typeId buffer == id

theorem TypeEntries.id_of_read {keys : StringPool} {chunk : TypeEntries}
    (h : (read keys).Reads buffer start chunk stop) :
    chunk.id = numberAt 1 buffer (start + chunkHeaderSize) := by
  unfold read at h
  obtain ⟨header, _, hheader, h⟩ := Decoder.reads_bind_iff.mp h
  obtain ⟨-, -, -, -, -, rfl⟩ := ChunkHeader.fields_of_read hheader
  simp only [Decoder.reads_u8_bind_iff, Decoder.reads_u16_bind_iff,
    Decoder.reads_u32_bind_iff] at h
  obtain ⟨-, -, -, -, -, h⟩ := h
  obtain ⟨config, _, -, h⟩ := Decoder.reads_bind_iff.mp h
  simp only [Decoder.reads_position_bind_iff, Decoder.reads_require_bind_iff,
    Decoder.reads_goTo_bind_iff] at h
  obtain ⟨-, -, h⟩ := h
  obtain ⟨offsets, _, -, h⟩ := Decoder.reads_bind_iff.mp h
  obtain ⟨items, _, -, h⟩ := Decoder.reads_bind_iff.mp h
  rw [← (Decoder.reads_pure_iff.mp h).1]

theorem TypeSpec.id_of_read {spec : TypeSpec} (h : read.Reads buffer start spec stop) :
    spec.id = numberAt 1 buffer (start + chunkHeaderSize) := by
  unfold read at h
  obtain ⟨header, _, hheader, h⟩ := Decoder.reads_bind_iff.mp h
  obtain ⟨-, -, -, -, -, rfl⟩ := ChunkHeader.fields_of_read hheader
  simp only [Decoder.reads_u8_bind_iff, Decoder.reads_u16_bind_iff, Decoder.reads_u32_bind_iff,
    Decoder.reads_pure_iff] at h
  obtain ⟨-, -, -, -, rfl, -⟩ := h
  rfl

variable {keys : StringPool} {last : Nat}

/-- A chunk of a kind is about a type when what is decoded of it is. -/
theorem TopChunk.rel_guard_isAbout {α ι : Type} [BEq ι] [LawfulBEq ι] {R : TopChunk → α → Prop}
    {kind id : Nat} {c : TopChunk} {a : α} {about : α → ι} {wanted : ι} (htype : c.type = kind)
    (hR : R c a) (hsame : about a = wanted ↔ c.typeId buffer = id) :
    Option.Rel R (Option.guard (fun c => c.isAbout buffer kind id) c)
      ((some a).filter fun a => about a == wanted) := by
  simp only [Option.guard, isAbout, htype, beq_self_eq_true, Bool.true_and, beq_iff_eq,
    Option.filter_some, hsame]
  split
  · exact .some hR
  · exact .none

theorem TopChunk.guard_isAbout_of_ne {kind id : Nat} {c : TopChunk} (h : c.type ≠ kind) :
    Option.guard (fun c => c.isAbout buffer kind id) c = none := by
  simp [Option.guard, isAbout, h]

/-- What is decoded of a chunk behind the pool of keys: its entries, or its specification. -/
inductive PackageChunk.DecodedFrom (keys : StringPool) (buffer : Bytes) (c : TopChunk) :
    PackageChunk → Prop
  | entries {chunk : TypeEntries} (htype : c.type = typeEntriesType)
      (hread : (TypeEntries.read keys).Yields buffer c.position chunk) :
      DecodedFrom keys buffer c (.entries chunk)
  | spec {chunk : TypeSpec} (htype : c.type = typeSpecType)
      (hread : TypeSpec.read.Yields buffer c.position chunk) :
      DecodedFrom keys buffer c (.spec chunk)

theorem PackageChunk.StandsAt.decodedFrom {header : ChunkHeader} {c : PackageChunk}
    (h : StandsAt keys last buffer position header c stop) :
    DecodedFrom keys buffer (topChunkAt buffer position) c := by
  have hfields := topChunkAt_of_read h.readHeader
  rcases read_cases h.readChunk with ⟨chunk, hread, htype, rfl⟩ | ⟨chunk, hread, htype, rfl⟩
  · exact .entries (hfields ▸ htype) hread.result
  · exact .spec (hfields ▸ htype) hread.result

/-- The chunks of a package are those that stand in its bytes, and they tile what is left of it. -/
theorem tiles_of_readPackageChunks {chunks : List PackageChunk}
    (h : (readPackageChunks keys last position).Reads buffer start chunks stop) :
    (position ≤ last →
      Tiles position last ((chunksUpTo buffer last position).map fun c => (c.position, c.size))) ∧
    List.Forall₂ (PackageChunk.DecodedFrom keys buffer) (chunksUpTo buffer last position)
      chunks := by
  -- on the bytes that are left: a chunk is never empty
  induction hleft : last - position using Nat.strongRecOn
    generalizing position start chunks stop with
  | ind left ih =>
      rcases readPackageChunks_iff.mp h with ⟨houtside, rfl, -⟩ |
        ⟨hinside, header, c, rest, mid, hstands, hrest, rfl⟩
      · rw [chunksUpTo, dif_neg (by omega)]
        exact ⟨fun hle => Nat.le_antisymm hle houtside, .nil⟩
      · have hsize : (topChunkAt buffer position).size = header.size := by
          rw [topChunkAt_of_read hstands.readHeader]
        have hpos := header.size_pos
        have hroom := hstands.room
        rw [ChunkHeader.stop, (ChunkHeader.fields_of_read hstands.readHeader).1] at hroom
        obtain ⟨htiles, hdecoded⟩ := ih _ (by omega) hrest rfl
        rw [chunksUpTo, dif_pos ⟨hinside, hsize ▸ hpos⟩]
        refine ⟨fun _ => ⟨rfl, hsize ▸ hpos, ?_⟩, .cons hstands.decodedFrom ?_⟩
        · rw [hsize]
          exact htiles hroom
        · rw [hsize]
          exact hdecoded

end Chunks

section Packages

namespace Package

/-- The chunks behind the pool of keys of a package. -/
def innerChunks (buffer : Bytes) (p : Package) : List TopChunk :=
  chunksUpTo buffer p.header.stop p.keyPool.header.stop

/-- What is decoded of a package is what its chunks hold, and these leave no gap. -/
structure Tiled (buffer : Bytes) (p : Package) : Prop where
  /-- The chunks fill the package when its pool of keys ends in it. -/
  tiles : p.keyPool.header.stop ≤ p.header.stop →
    Tiles p.keyPool.header.stop p.header.stop
      ((p.innerChunks buffer).map fun c => (c.position, c.size))
  /-- Every chunk is decoded, in the order of the file, and nothing else is. -/
  decoded : List.Forall₂ (PackageChunk.DecodedFrom p.keyPool buffer) (p.innerChunks buffer) p.chunks
  /-- The entries of a type are those of the chunks about it. -/
  types : ∀ id : Nat, List.Forall₂
    (fun c chunk => (TypeEntries.read p.keyPool).Yields buffer c.position chunk)
    ((p.innerChunks buffer).filter (TopChunk.isAbout buffer typeEntriesType id))
    (p.entryChunksOf id)
  /-- The specifications of a type are those of the chunks about it. -/
  specs : ∀ id : Nat, List.Forall₂
    (fun c spec => TypeSpec.read.Yields buffer c.position spec)
    ((p.innerChunks buffer).filter (TopChunk.isAbout buffer typeSpecType id))
    (p.specs.filter fun spec => spec.id == id)

variable {strings : Option StringPool} {p : Package}

theorem types_of_decoded {chunks : List TopChunk}
    (h : List.Forall₂ (PackageChunk.DecodedFrom p.keyPool buffer) chunks p.chunks) (id : Nat) :
    List.Forall₂ (fun c chunk => (TypeEntries.read p.keyPool).Yields buffer c.position chunk)
      (chunks.filter (TopChunk.isAbout buffer typeEntriesType id)) (p.entryChunksOf id) := by
  rw [entryChunksOf, entryChunks, entriesAmong, List.filter_filterMap]
  refine forall₂_filter_filterMap h fun c chunk hdecoded => ?_
  cases hdecoded with
  | @entries chunk htype hread =>
      have hid : chunk.id = c.typeId buffer := TypeEntries.id_of_read hread.reads
      exact TopChunk.rel_guard_isAbout htype hread (by rw [hid, Int.natCast_inj])
  | spec htype hread =>
      rw [TopChunk.guard_isAbout_of_ne (by rw [htype]; decide)]
      exact .none

theorem specs_of_decoded {chunks : List TopChunk}
    (h : List.Forall₂ (PackageChunk.DecodedFrom p.keyPool buffer) chunks p.chunks) (id : Nat) :
    List.Forall₂ (fun c spec => TypeSpec.read.Yields buffer c.position spec)
      (chunks.filter (TopChunk.isAbout buffer typeSpecType id))
      (p.specs.filter fun spec => spec.id == id) := by
  rw [specs, specsAmong, List.filter_filterMap]
  refine forall₂_filter_filterMap h fun c chunk hdecoded => ?_
  cases hdecoded with
  | entries htype hread =>
      rw [TopChunk.guard_isAbout_of_ne (by rw [htype]; decide)]
      exact .none
  | @spec spec htype hread =>
      have hid : spec.id = c.typeId buffer := TypeSpec.id_of_read hread.reads
      exact TopChunk.rel_guard_isAbout htype hread (by rw [hid])

theorem tiled_of_read (h : (read strings).Reads buffer start p stop) : p.Tiled buffer := by
  obtain ⟨-, -, -, -, hchunks, -⟩ := reads_read_iff.mp h
  obtain ⟨htiles, hdecoded⟩ := tiles_of_readPackageChunks hchunks
  exact ⟨htiles, hdecoded, types_of_decoded hdecoded, specs_of_decoded hdecoded⟩

end Package

end Packages

/-- A table of one package, with some chunks, of two types and two keys. -/
def TableSource.ofChunks (chunks : List ChunkSource) : TableSource where
  strings := ["Hello", "Hallo"]
  packages := [⟨0x7f, "p", ["string", "id"], ["greeting", "button"], chunks⟩]

/-- Entries of two types, with a specification between them. -/
def TableSource.interleaved : TableSource :=
  .ofChunks [.entries 1 ⟨.none, .none, 0⟩ [.simple 0 3 0], .spec 1 1,
    .entries 2 ⟨.none, .none, 0⟩ [.absent, .simple 1 3 0],
    .entries 1 ⟨.letters 'd' 'e', .none, 0⟩ [.simple 0 3 1]]

namespace Table

variable {t r : Table}

theorem advance_le (header : ChunkHeader) : advance header ≤ header.size := by
  unfold advance
  split
  · exact header.headerSize_le
  · exact Nat.le_refl _

theorem tiles_of_readChunks (hinside : position ≤ buffer.size)
    (h : (readChunks buffer.size t position).Reads buffer start r stop) :
    Tiles position buffer.size
      ((topChunksFrom buffer position).map fun c => (c.position, c.advance)) := by
  -- on the bytes that are left: even a chunk that others are nested in has a header to step over
  induction hleft : buffer.size - position using Nat.strongRecOn
    generalizing t position start stop with
  | ind left ih =>
      rcases readChunks_cases h with ⟨houtside, rfl⟩ |
        ⟨hbefore, header, t', mid, hheader, -, hrest⟩
      · rw [topChunksFrom, dif_neg (by omega)]
        exact Nat.le_antisymm hinside houtside
      · have hadvance := advance_topChunkAt_of_read hheader
        have hpos := advance_pos header
        have hroom : position + advance header ≤ buffer.size := by
          obtain ⟨rfl, -, -, -, hstop, -⟩ := ChunkHeader.fields_of_read hheader
          exact Nat.le_trans (Nat.add_le_add_left (advance_le header) _) hstop
        rw [topChunksFrom, dif_pos ⟨hbefore, hadvance ▸ hpos⟩, hadvance]
        refine ⟨rfl, hadvance ▸ hpos, ?_⟩
        rw [hadvance]
        exact ih _ (by omega) hroom hrest rfl

/-- The chunks of an accepted table tile its buffer, and the table comes about from them in turn.
Each package is decoded from all the chunks behind its pool of keys, which tile the rest of the
package. -/
theorem tiled_of_decode (hdecode : Table.decode buffer = .ok t) :
    Tiles 0 buffer.size ((topChunksFrom buffer 0).map fun c => (c.position, c.advance)) ∧
    Table.empty.Loads buffer (topChunksFrom buffer 0) t ∧
    (∀ c ∈ topChunksFrom buffer 0, c.type = packageType →
      ∃ strings p, (Package.read strings).Yields buffer c.position p ∧ p.Tiled buffer) ∧
    ∀ p ∈ t.packages, p.Tiled buffer := by
  obtain ⟨_, hchunks⟩ := readChunks_of_decode hdecode
  have hloads := loads_of_decode hdecode
  refine ⟨tiles_of_readChunks (Nat.zero_le _) hchunks, hloads, fun c hc htype => ?_, fun p hp => ?_⟩
  · obtain ⟨decoded, hdecoded, -⟩ := hloads.packages_decoded
    have hpackage : c ∈ (topChunksFrom buffer 0).filter fun c => c.type == packageType :=
      List.mem_filter.mpr ⟨hc, beq_iff_eq.mpr htype⟩
    obtain ⟨p, -, strings, hread⟩ := exists_of_mem_left hdecoded hpackage
    exact ⟨strings, p, hread, Package.tiled_of_read hread.reads⟩
  · obtain ⟨strings, place, hread⟩ := read_of_decode hdecode hp
    exact Package.tiled_of_read hread.reads

theorem decode_interleaved :
    ∃ t p, Table.decode TableSource.interleaved.encode.toArray = .ok t ∧ p ∈ t.packages ∧
      p.keyPool.header.stop ≤ p.header.stop ∧ (p.entryChunksOf 1).length = 2 ∧
      (p.entryChunksOf 2).length = 1 ∧ p.specs.length = 1 ∧
      t.find "@string/greeting" (some "de") none = .ok (.text "Hallo") := by
  obtain ⟨t, p, hdecode, hfirst, htest⟩ := exists_first_of_test
    TableSource.interleaved.encode.toArray
    (fun t p => p.keyPool.header.stop ≤ p.header.stop ∧ (p.entryChunksOf 1).length = 2 ∧
      (p.entryChunksOf 2).length = 1 ∧ p.specs.length = 1 ∧
      t.find "@string/greeting" (some "de") none = .ok (.text "Hallo"))
    (by decide +kernel)
  exact ⟨t, p, hdecode, mem_of_firstPackage hfirst, of_decide_eq_true htest⟩

/-- Two chunks of one type, with a specification and a chunk of another type between them. -/
theorem tiled_of_decode_interleaved :
    ∃ t p, Table.decode TableSource.interleaved.encode.toArray = .ok t ∧ p ∈ t.packages ∧
      Tiles 0 TableSource.interleaved.encode.toArray.size
        ((topChunksFrom TableSource.interleaved.encode.toArray 0).map fun c =>
          (c.position, c.advance)) ∧
      p.keyPool.header.stop ≤ p.header.stop ∧ p.Tiled TableSource.interleaved.encode.toArray ∧
      (p.entryChunksOf 1).length = 2 ∧ (p.entryChunksOf 2).length = 1 ∧ p.specs.length = 1 := by
  obtain ⟨t, p, hdecode, hp, hinside, hfirst, hsecond, hspecs, -⟩ := decode_interleaved
  obtain ⟨htiles, -, -, htiled⟩ := tiled_of_decode hdecode
  exact ⟨t, p, hdecode, hp, htiles, hinside, htiled p hp, hfirst, hsecond, hspecs⟩

end Table

end ApkFormats.Resource
