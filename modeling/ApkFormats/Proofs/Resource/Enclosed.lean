import ApkFormats.Proofs.Resource.Locality
import ApkFormats.Resource.Source

/-!
# What a package is decoded from

Chunks inside a package are checked against its end.  Its fixed fields and its
two pools are checked against the end of the buffer only, and so are the fields
of a specification: they may stand behind the chunk that they belong to.

* `Package.Enclosed`: everything stands in the chunk that it belongs to;
* `Table.enclosed_iff`: this holds of a package of an accepted table exactly
  when the bytes of its chunk alone, and those of each of its specifications,
  are read as what they are read as in the table;
* `Table.fields_unenclosed`: accepted tables hold other packages, too.
-/

namespace ApkFormats.Resource

variable {buffer : Bytes} {start stop : Nat}

section Chunks

/-- What a chunk in a buffer is on its own. -/
theorem holds_chunk {header : ChunkHeader} (h : header.stop ≤ buffer.size) :
    Holds buffer header.offset (buffer.extract header.offset header.stop).toList ∧
      (buffer.extract header.offset header.stop).size = header.size := by
  refine ⟨.of_extract h, ?_⟩
  rw [Array.size_extract, Nat.min_eq_left h, ChunkHeader.stop, Nat.add_sub_cancel_left]

namespace PackageChunk

/-- The header of a chunk. -/
def header : PackageChunk → ChunkHeader
  | .entries chunk => chunk.header
  | .spec chunk => chunk.header

variable {keys : StringPool} {type position : Nat} {c : PackageChunk}

theorem header_of_read (h : (read keys type position).Reads buffer start c stop) :
    c.header.offset = start ∧ c.header.size = numberAt 4 buffer (start + 4) := by
  rcases read_cases h with ⟨chunk, hread, -, rfl⟩ | ⟨chunk, hread, -, rfl⟩
  · rw [TypeEntries.read_eq] at hread
    obtain ⟨header, _, hheader, hread⟩ := Decoder.reads_bind_iff.mp hread
    obtain ⟨rfl, -, -, hsize, -, rfl⟩ := ChunkHeader.fields_of_read hheader
    rw [PackageChunk.header, (TypeEntries.least_of_readBehind hread).1]
    exact ⟨rfl, hsize⟩
  · obtain ⟨hoffset, hsize, -, -⟩ := TypeSpec.fields_of_read hread
    exact ⟨hoffset, hsize⟩

end PackageChunk

/-- A chunk of a package was read where it stands, behind the first position and before the end. -/
theorem read_at_of_mem_chunks {keys : StringPool} {last position : Nat} {c : PackageChunk}
    {chunks : List PackageChunk}
    (h : (readPackageChunks keys last position).Reads buffer start chunks stop) (hc : c ∈ chunks) :
    position ≤ c.header.offset ∧ c.header.stop ≤ last ∧ ∃ type stop',
      (PackageChunk.read keys type c.header.offset).Reads buffer c.header.offset c stop' := by
  obtain ⟨place, header, stop', hplace, hheader, hlast, hread⟩ := standsAt_of_mem_chunks h hc
  obtain ⟨hoffset, -, -, hsize, -, -⟩ := ChunkHeader.fields_of_read hheader
  obtain ⟨rfl, hsize'⟩ := PackageChunk.header_of_read hread
  rw [ChunkHeader.stop, hoffset, hsize, ← hsize'] at hlast
  exact ⟨hplace, hlast, header.type, stop', hread⟩

theorem mem_specsAmong {chunks : List PackageChunk} {s : TypeSpec} :
    s ∈ specsAmong chunks ↔ PackageChunk.spec s ∈ chunks := by
  rw [specsAmong, List.mem_filterMap]
  constructor
  · rintro ⟨c, hc, hs⟩
    cases c with
    | entries chunk => cases hs
    | spec chunk =>
        cases hs
        exact hc
  · intro h
    exact ⟨_, h, rfl⟩

/-- A specification is read of its own chunk alone exactly when its fields stand there. -/
theorem TypeSpec.alone_iff {s : TypeSpec} (h : read.Reads buffer s.header.offset s stop) :
    (∃ s', read.Yields (buffer.extract s.header.offset s.header.stop) 0 s' ∧
        s'.movedBy s.header.offset = s) ↔ s.header.offset + fixedSize ≤ s.header.stop := by
  obtain ⟨-, hsize, hinside, -⟩ := fields_of_read h
  obtain ⟨hpart, hlength⟩ := holds_chunk hinside
  rw [ChunkHeader.stop, Nat.add_le_add_iff_left, ← ChunkHeader.stop, ← hlength]
  constructor
  · rintro ⟨s', hread, -⟩
    obtain ⟨-, -, -, hroom⟩ := fields_of_read hread.reads
    omega
  · intro hroom
    have hdeclared : 0 + numberAt 4 buffer (s.header.offset + 0 + 4) =
        (buffer.extract s.header.offset s.header.stop).size := by
      rw [Nat.add_zero, Nat.zero_add, ← hsize, hlength]
    obtain ⟨s', _, hread, hmoved, -⟩ :=
      (read_mirrors hpart (Nat.le_of_eq hdeclared) (by omega) s stop).mp h
    exact ⟨s', hread.result, hmoved⟩

end Chunks

section Packages

namespace Package

variable {strings : Option StringPool} {position : Nat} {p : Package}

/-- Everything that a package is decoded from stands in the chunk that it belongs to. -/
structure Enclosed (p : Package) : Prop where
  fields : p.header.offset + fixedSize ≤ p.header.stop
  typePool : p.header.offset ≤ p.typePool.header.offset ∧ p.typePool.header.stop ≤ p.header.stop
  keyPool : p.header.offset ≤ p.keyPool.header.offset ∧ p.keyPool.header.stop ≤ p.header.stop
  specs : ∀ s ∈ p.specs, s.header.offset + TypeSpec.fixedSize ≤ s.header.stop

/-- The bytes of its chunk are read as the package, and so are those of each specification. -/
structure StandsAlone (strings : Option StringPool) (buffer : Bytes) (p : Package) : Prop where
  package : ∃ q, (Package.read strings).Yields
      (buffer.extract p.header.offset p.header.stop) 0 q ∧ q.movedBy p.header.offset = p
  specs : ∀ s ∈ p.specs, ∃ s', TypeSpec.read.Yields
      (buffer.extract s.header.offset s.header.stop) 0 s' ∧ s'.movedBy s.header.offset = s

/-- The chunks of a package that is read stand behind its pool of keys and before its end. -/
theorem chunks_inside_of_read (h : (read strings).Reads buffer start p stop) {c : PackageChunk}
    (hc : c ∈ p.chunks) :
    p.keyPool.header.stop ≤ c.header.offset ∧ c.header.stop ≤ p.header.stop := by
  obtain ⟨-, -, -, -, hchunks, -⟩ := reads_read_iff.mp h
  obtain ⟨hbehind, hbefore, -⟩ := read_at_of_mem_chunks hchunks hc
  exact ⟨hbehind, hbefore⟩

theorem spec_read_of_read (h : (read strings).Reads buffer start p stop) {s : TypeSpec}
    (hs : s ∈ p.specs) : ∃ stop', TypeSpec.read.Reads buffer s.header.offset s stop' := by
  obtain ⟨-, -, -, -, hchunks, -⟩ := reads_read_iff.mp h
  obtain ⟨-, -, _, stop', hread⟩ := read_at_of_mem_chunks hchunks (mem_specsAmong.mp hs)
  rcases PackageChunk.read_cases hread with ⟨_, -, -, heq⟩ | ⟨s', hread, -, heq⟩
  · cases heq
  · cases heq
    exact ⟨stop', hread⟩

/-- A package is enclosed exactly when everything ends before its chunk does, and the fields of its
specifications before theirs do: nothing is read before the start of a package. -/
theorem enclosed_iff_endsBy (h : (read strings).Reads buffer start p stop) :
    p.Enclosed ↔ p.EndsBy p.header.stop ∧
      ∀ s ∈ p.specs, s.header.offset + TypeSpec.fixedSize ≤ s.header.stop := by
  obtain ⟨hheader, -, htypes, hkeys, -, -⟩ := reads_read_iff.mp h
  obtain ⟨rfl, -, -, -, -, -⟩ := ChunkHeader.fields_of_read hheader
  obtain ⟨htypesStart, -, -, -⟩ := StringPool.ends_of_read htypes
  obtain ⟨hkeysStart, -, -, -⟩ := StringPool.ends_of_read hkeys
  constructor
  · rintro ⟨hfields, htypePool, hkeyPool, hspecs⟩
    refine ⟨⟨Nat.le_refl _, hfields, htypePool.2, hkeyPool.2, fun c hc => ?_⟩, hspecs⟩
    cases c with
    | entries chunk => trivial
    | spec s =>
        have hroom := hspecs s (mem_specsAmong.mpr hc)
        have hinside := (chunks_inside_of_read h hc).2
        exact Nat.le_trans hroom hinside
  · rintro ⟨⟨-, hfields, htypesEnd, hkeysEnd, -⟩, hspecs⟩
    refine ⟨hfields, ⟨by omega, htypesEnd⟩, ⟨by omega, hkeysEnd⟩, hspecs⟩

/-- A package is enclosed exactly when it is read of its own bytes as it is read of the buffer. -/
theorem enclosed_iff_standsAlone (h : (read strings).Reads buffer start p stop) :
    p.Enclosed ↔ p.StandsAlone strings buffer := by
  obtain ⟨hheader, -⟩ := reads_read_iff.mp h
  obtain ⟨rfl, -, -, -, hinside, -⟩ := ChunkHeader.fields_of_read hheader
  obtain ⟨hpart, hlength⟩ := holds_chunk hinside
  have hend : p.header.offset + (buffer.extract p.header.offset p.header.stop).size =
      p.header.stop := by
    rw [hlength, ChunkHeader.stop]
  rw [enclosed_iff_endsBy h, ← hend]
  constructor
  · rintro ⟨hends, hspecs⟩
    have hwhole : (read strings).Reads buffer (p.header.offset + 0) p stop := h
    obtain ⟨q, _, hread, hmoved, -⟩ := read_part_of_read hpart hwhole hends
    refine ⟨⟨q, hread.result, hmoved⟩, fun s hs => ?_⟩
    obtain ⟨_, hspec⟩ := spec_read_of_read h hs
    exact (TypeSpec.alone_iff hspec).mpr (hspecs s hs)
  · rintro ⟨⟨q, hread, hmoved⟩, hspecs⟩
    obtain ⟨-, hends⟩ := read_of_read_part hpart hread.reads
    rw [hmoved] at hends
    refine ⟨hends, fun s hs => ?_⟩
    obtain ⟨_, hspec⟩ := spec_read_of_read h hs
    exact (TypeSpec.alone_iff hspec).mp (hspecs s hs)

end Package

end Packages

/-- Two packages: one with a specification that ends before its fields do, and one that ends before
its own fields and pools. -/
def spilling : Bytes :=
  let pool := StringPool.encode true []
  let first := encodeChunk packageType
    (wordBytes [0x7f] ++ PackageSource.nameField "p" ++
      wordBytes [PackageSource.headerSize, 0, PackageSource.headerSize + pool.length, 0, 0])
    (pool ++ pool ++ encodeChunk typeSpecType [] [] ++ ChunkSource.encode (.spec 1 0))
  -- The fields of the second package are those of a chunk that says how many packages there are.
  let second := encodeChunk packageType [] [] ++
    encodeChunk resourceTableType
      (List.replicate 252 0 ++ wordBytes [Package.fixedSize, 0, Package.fixedSize + pool.length, 0])
      [] ++ pool ++ pool
  (encodeChunk resourceTableType (wordBytes [2]) (pool ++ first ++ second)).toArray

namespace Table

variable {t : Table} {p : Package}

/-- Of a package in an accepted table, the chunk lies in the buffer, and the chunks in it behind
the pool of keys and before the end.  Everything else that it is decoded from lies where it belongs
exactly when the chunk on its own is read as the package, and so is each specification. -/
theorem enclosed_iff (hdecode : Table.decode buffer = .ok t) (hp : p ∈ t.packages) :
    p.header.stop ≤ buffer.size ∧
    (∀ c ∈ p.chunks, p.keyPool.header.stop ≤ c.header.offset ∧ c.header.stop ≤ p.header.stop) ∧
    ∃ strings, (Package.read strings).Yields buffer p.header.offset p ∧
      (p.Enclosed ↔ p.StandsAlone strings buffer) := by
  obtain ⟨strings, position, hread⟩ := read_of_decode hdecode hp
  obtain ⟨hheader, -⟩ := Package.reads_read_iff.mp hread.reads
  obtain ⟨rfl, -, -, -, hinside, -⟩ := ChunkHeader.fields_of_read hheader
  exact ⟨hinside, fun c hc => Package.chunks_inside_of_read hread.reads hc, strings, hread,
    Package.enclosed_iff_standsAlone hread.reads⟩

theorem decode_spilling : ∃ t, Table.decode spilling = .ok t ∧
    (∃ p ∈ t.packages, ∃ s ∈ p.specs, s.header.size < TypeSpec.fixedSize) ∧
    ∃ p ∈ t.packages, p.header.size < Package.fixedSize ∧
      p.header.stop ≤ p.typePool.header.offset ∧ p.header.stop ≤ p.keyPool.header.offset := by
  have haccepted : (Table.decode spilling).toOption.any (fun t =>
      (∃ p ∈ t.packages, ∃ s ∈ p.specs, s.header.size < TypeSpec.fixedSize) ∧
      ∃ p ∈ t.packages, p.header.size < Package.fixedSize ∧
        p.header.stop ≤ p.typePool.header.offset ∧ p.header.stop ≤ p.keyPool.header.offset)
      = true := by
    decide +kernel
  obtain ⟨t, hdecode, hspilled⟩ := exists_ok_of_any haccepted
  exact ⟨t, hdecode, of_decide_eq_true hspilled⟩

/-- Neither of the two packages is read of its own chunk as it is read of the buffer. -/
theorem enclosed_iff_spilling : ∃ t, Table.decode spilling = .ok t ∧
    (∃ p ∈ t.packages, ∃ strings, (Package.read strings).Yields spilling p.header.offset p ∧
      p.specs ≠ [] ∧ ¬p.StandsAlone strings spilling) ∧
    ∃ p ∈ t.packages, ∃ strings, (Package.read strings).Yields spilling p.header.offset p ∧
      p.header.size < Package.fixedSize ∧ ¬p.StandsAlone strings spilling := by
  obtain ⟨t, hdecode, ⟨p, hp, s, hs, hspec⟩, q, hq, hfields, -, -⟩ := decode_spilling
  obtain ⟨-, -, strings, hread, hiff⟩ := enclosed_iff hdecode hp
  obtain ⟨-, -, strings', hread', hiff'⟩ := enclosed_iff hdecode hq
  refine ⟨t, hdecode, ⟨p, hp, strings, hread, List.ne_nil_of_mem hs, fun halone => ?_⟩,
    q, hq, strings', hread', hfields, fun halone => ?_⟩
  · have hroom := (hiff.mpr halone).specs s hs
    rw [ChunkHeader.stop] at hroom
    omega
  · have hroom := (hiff'.mpr halone).fields
    rw [ChunkHeader.stop] at hroom
    omega

/-- An accepted table may hold a package with a specification whose fields stand behind its chunk,
and a package all of whose fields and pools stand behind its own. -/
theorem fields_unenclosed : ∃ t, Table.decode spilling = .ok t ∧
    (∃ p ∈ t.packages, ∃ s ∈ p.specs, s.header.stop < s.header.offset + TypeSpec.fixedSize) ∧
    ∃ p ∈ t.packages, p.header.stop < p.header.offset + Package.fixedSize ∧
      p.header.stop ≤ p.typePool.header.offset ∧ p.header.stop ≤ p.keyPool.header.offset := by
  obtain ⟨t, hdecode, ⟨p, hp, s, hs, hspec⟩, q, hq, hfields, hpools⟩ := decode_spilling
  refine ⟨t, hdecode, ⟨p, hp, s, hs, ?_⟩, q, hq, ?_, hpools⟩
  · exact Nat.add_lt_add_left hspec _
  · exact Nat.add_lt_add_left hfields _

end Table

end ApkFormats.Resource
