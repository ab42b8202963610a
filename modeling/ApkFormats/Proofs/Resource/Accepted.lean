import ApkFormats.Proofs.StringPool.Accepted
import ApkFormats.Resource.Table

/-!
# What an accepted resource table holds

Decoding a table checks what lookups rely on later.  Here is what is known of a
table once it has been decoded, whatever its bytes were.

* `TypeEntries.Sound`: the index of keys of a chunk of entries tells exactly the
  keys that its entries have;
* `Package.Accepted`: all chunks of a package are sound, and its strings are
  those that its chunks hold;
* `Table.Loads`: a table comes about chunk by chunk; `loads_of_decode` finds the
  chunks in the bytes.
-/

namespace ApkFormats

namespace Resource

section Entries

variable {buffer : Bytes} {start stop : Nat} {keys : StringPool}

/-- What the entries of a chunk and its index of keys have to do with each other. -/
structure TypeEntries.Sound (keys : StringPool) (chunk : TypeEntries) : Prop where
  id_lt : chunk.id < 0x100
  size_entries : chunk.entries.size = chunk.entryCount
  keyed : ∀ (i : Nat) e, chunk.entry? i = some e → ∃ key, keys.stringAt e.key = .ok key
  named : ∀ key (i : Nat), (key, i) ∈ chunk.namedIndices ↔
    ∃ e, chunk.entry? i = some e ∧ keys.stringAt e.key = .ok key

theorem TypeEntries.mem_namedFrom {items : List (Option (Entry × String))} {first i : Nat}
    {key : String} :
    (key, i) ∈ namedFrom first items ↔ ∃ k e, items[k]? = some (some (e, key)) ∧ i = first + k := by
  induction items generalizing first with
  | nil => simp [namedFrom]
  | cons item rest ih =>
      have hsplit : (∃ k e, (item :: rest)[k]? = some (some (e, key)) ∧ i = first + k) ↔
          (∃ e, item = some (e, key) ∧ i = first) ∨
            ∃ k e, rest[k]? = some (some (e, key)) ∧ i = first + 1 + k := by
        constructor
        · rintro ⟨k, e, hk, rfl⟩
          cases k with
          | zero => exact .inl ⟨e, Option.some.inj hk, rfl⟩
          | succ k => exact .inr ⟨k, e, hk, by omega⟩
        · rintro (⟨e, rfl, rfl⟩ | ⟨k, e, hk, rfl⟩)
          · exact ⟨0, e, rfl, rfl⟩
          · exact ⟨k + 1, e, hk, by omega⟩
      rw [hsplit]
      cases item with
      | none =>
          rw [namedFrom, ih]
          simp
      | some item =>
          obtain ⟨e, name⟩ := item
          have hfirst : (∃ e', some (e, name) = some (e', key) ∧ i = first) ↔
              (key, i) = (name, first) := by
            constructor
            · rintro ⟨e', he, rfl⟩
              cases he
              rfl
            · intro h
              cases h
              exact ⟨e, rfl, rfl⟩
          rw [namedFrom, List.mem_cons, ih, hfirst]

theorem TypeEntries.entry?_eq_some {chunk : TypeEntries} {i : Nat} {e : Entry} :
    chunk.entry? i = some e ↔ chunk.entries[i]? = some (some e) := by
  rw [TypeEntries.entry?, if_neg (by omega), Int.toNat_natCast]
  exact Option.join_eq_some_iff

/-- An entry that is read has its key in the pool. -/
theorem TypeEntries.key_of_readEntry {header : ChunkHeader} {base : Nat} {item : Nat × Nat}
    {e : Entry} {key : String}
    (h : (readEntry keys header base item).Reads buffer start (some (e, key)) stop) :
    keys.stringAt e.key = .ok key := by
  unfold readEntry at h
  rcases Decoder.reads_ite_iff.mp h with ⟨-, h⟩ | ⟨-, h⟩
  · cases (Decoder.reads_pure_iff.mp h).1
  · simp only [Decoder.reads_require_bind_iff, Decoder.reads_goTo_bind_iff] at h
    obtain ⟨entry, _, -, h⟩ := Decoder.reads_bind_iff.mp h.2
    obtain ⟨name, _, hname, h⟩ := Decoder.reads_bind_iff.mp h
    cases (Decoder.reads_pure_iff.mp h).1
    exact (Decoder.reads_resolved_iff.mp hname).1

theorem TypeEntries.sound_of_items {chunk : TypeEntries} (items : List (Option (Entry × String)))
    (hid : chunk.id < 0x100) (hlength : items.length = chunk.entryCount)
    (hentries : chunk.entries = (items.map fun item => item.map Prod.fst).toArray)
    (hnamed : chunk.namedIndices = namedFrom 0 items)
    (hkey : ∀ (i : Nat) (e : Entry) key, items[i]? = some (some (e, key)) →
      keys.stringAt e.key = .ok key) : chunk.Sound keys := by
  have hentry : ∀ (i : Nat) e, chunk.entry? i = some e →
      ∃ key, items[i]? = some (some (e, key)) := by
    intro i e he
    rw [entry?_eq_some, hentries, List.getElem?_toArray, List.getElem?_map,
      Option.map_eq_some_iff] at he
    obtain ⟨item, hitem, he⟩ := he
    rw [Option.map_eq_some_iff] at he
    obtain ⟨⟨e', key⟩, rfl, rfl⟩ := he
    exact ⟨key, hitem⟩
  constructor
  · exact hid
  · rw [hentries, ← hlength, List.size_toArray, List.length_map]
  · intro i e he
    obtain ⟨key, hi⟩ := hentry i e he
    exact ⟨key, hkey i e key hi⟩
  · intro key i
    rw [hnamed, mem_namedFrom]
    constructor
    · rintro ⟨k, e, hk, rfl⟩
      refine ⟨e, ?_, hkey k e key hk⟩
      rw [Nat.zero_add, entry?_eq_some, hentries, List.getElem?_toArray, List.getElem?_map, hk]
      rfl
    · rintro ⟨e, he, hname⟩
      obtain ⟨key', hi⟩ := hentry i e he
      have hsame := hkey i e key' hi
      rw [hname, Except.ok.injEq] at hsame
      exact ⟨i, e, hsame ▸ hi, (Nat.zero_add i).symm⟩

theorem TypeEntries.sound_of_read {chunk : TypeEntries}
    (h : (TypeEntries.read keys).Reads buffer start chunk stop) : chunk.Sound keys := by
  unfold TypeEntries.read at h
  obtain ⟨header, _, -, h⟩ := Decoder.reads_bind_iff.mp h
  simp only [Decoder.reads_u8_bind_iff, Decoder.reads_u16_bind_iff,
    Decoder.reads_u32_bind_iff] at h
  obtain ⟨-, -, -, -, -, h⟩ := h
  obtain ⟨config, _, -, h⟩ := Decoder.reads_bind_iff.mp h
  simp only [Decoder.reads_position_bind_iff, Decoder.reads_require_bind_iff,
    Decoder.reads_goTo_bind_iff] at h
  obtain ⟨-, -, h⟩ := h
  obtain ⟨offsets, _, hoffsets, h⟩ := Decoder.reads_bind_iff.mp h
  obtain ⟨items, _, hitems, h⟩ := Decoder.reads_bind_iff.mp h
  have hrows := Decoder.forall₂_of_reads_each hitems
  rw [← (Decoder.reads_pure_iff.mp h).1]
  refine sound_of_items items (numberAt_lt 1 _ _) ?_ rfl rfl ?_
  · rw [← hrows.length_eq, List.length_zip, List.length_range,
      Decoder.length_of_reads_times hoffsets, Nat.min_self]
  · intro i e key hi
    obtain ⟨item, -, from', to', hread⟩ := exists_of_mem_right hrows (List.mem_of_getElem? hi)
    exact key_of_readEntry hread

end Entries

section Packages

variable {buffer : Bytes} {start stop : Nat} {keys : StringPool} {strings : Option StringPool}

namespace PackageChunk

variable {type position : Nat} {c : PackageChunk}

/-- A chunk that is read is of the type that was asked for, and starts at the cursor. -/
theorem read_cases (h : (read keys type position).Reads buffer start c stop) :
    (∃ chunk, (TypeEntries.read keys).Reads buffer start chunk stop ∧ type = typeEntriesType ∧
      c = .entries chunk) ∨
    ∃ chunk, TypeSpec.read.Reads buffer start chunk stop ∧ type = typeSpecType ∧
      c = .spec chunk := by
  unfold read at h
  rcases Decoder.reads_ite_iff.mp h with ⟨htype, h⟩ | ⟨-, h⟩
  · obtain ⟨chunk, _, hread, h⟩ := Decoder.reads_bind_iff.mp h
    obtain ⟨rfl, rfl⟩ := Decoder.reads_pure_iff.mp h
    exact .inl ⟨chunk, hread, htype, rfl⟩
  · rcases Decoder.reads_ite_iff.mp h with ⟨htype, h⟩ | ⟨-, h⟩
    · obtain ⟨chunk, _, hread, h⟩ := Decoder.reads_bind_iff.mp h
      obtain ⟨rfl, rfl⟩ := Decoder.reads_pure_iff.mp h
      exact .inr ⟨chunk, hread, htype, rfl⟩
    · exact absurd h Decoder.not_reads_fail

/-- A chunk of a package that ends at `last` stands at a position, and the cursor is left at
`stop`. -/
structure StandsAt (keys : StringPool) (last : Nat) (buffer : Bytes) (position : Nat)
    (header : ChunkHeader) (c : PackageChunk) (stop : Nat) : Prop where
  readHeader : (ChunkHeader.read none).Reads buffer position header (position + chunkHeaderSize)
  room : header.stop ≤ last
  readChunk : (read keys header.type position).Reads buffer position c stop

end PackageChunk

variable {last position : Nat}

/-- Chunks are read one by one: where there is none left, or the first one and then the others. -/
theorem readPackageChunks_iff {chunks : List PackageChunk} :
    (readPackageChunks keys last position).Reads buffer start chunks stop ↔
      (last ≤ position ∧ chunks = [] ∧ start = stop) ∨
      position < last ∧ ∃ header chunk rest mid,
        PackageChunk.StandsAt keys last buffer position header chunk mid ∧
        (readPackageChunks keys last (position + header.size)).Reads buffer mid rest stop ∧
        chunks = chunk :: rest := by
  rw [readPackageChunks]
  by_cases hinside : position < last
  · rw [dif_pos hinside, Decoder.reads_goTo_bind_iff]
    constructor
    · intro h
      obtain ⟨header, cursor, hheader, h⟩ := Decoder.reads_bind_iff.mp h
      obtain ⟨-, -, -, -, -, rfl⟩ := ChunkHeader.fields_of_read hheader
      rw [Decoder.reads_require_bind_iff, Decoder.reads_goTo_bind_iff] at h
      obtain ⟨hroom, h⟩ := h
      obtain ⟨chunk, mid, hchunk, h⟩ := Decoder.reads_bind_iff.mp h
      obtain ⟨rest, _, hrest, h⟩ := Decoder.reads_bind_iff.mp h
      obtain ⟨rfl, rfl⟩ := Decoder.reads_pure_iff.mp h
      have hstands := PackageChunk.StandsAt.mk hheader (of_decide_eq_true hroom) hchunk
      exact .inr ⟨hinside, header, chunk, rest, mid, hstands, hrest, rfl⟩
    · rintro (⟨houtside, -⟩ | ⟨-, header, chunk, rest, mid, hstands, hrest, rfl⟩)
      · omega
      · refine hstands.readHeader.bind ?_
        rw [Decoder.reads_require_bind_iff, Decoder.reads_goTo_bind_iff]
        exact ⟨decide_eq_true hstands.room, hstands.readChunk.bind (hrest.bind (.pure _))⟩
  · rw [dif_neg hinside, Decoder.reads_pure_iff]
    constructor
    · rintro ⟨rfl, rfl⟩
      exact .inl ⟨by omega, rfl, rfl⟩
    · rintro (⟨-, rfl, rfl⟩ | ⟨hlt, -⟩)
      · exact ⟨rfl, rfl⟩
      · exact absurd hlt hinside

/-- Every chunk of a package stands somewhere behind the first position.

The induction is on the bytes that are left. -/
theorem standsAt_of_mem_chunks {chunks : List PackageChunk} {c : PackageChunk}
    (h : (readPackageChunks keys last position).Reads buffer start chunks stop) (hc : c ∈ chunks) :
    ∃ place header stop', position ≤ place ∧
      PackageChunk.StandsAt keys last buffer place header c stop' := by
  induction hleft : last - position using Nat.strongRecOn
    generalizing position start chunks stop with
  | ind left ih =>
      rcases readPackageChunks_iff.mp h with ⟨-, rfl, -⟩ |
        ⟨hinside, header, first, rest, mid, hstands, hrest, rfl⟩
      · cases hc
      · rcases List.mem_cons.mp hc with rfl | hc
        · exact ⟨position, header, mid, Nat.le_refl _, hstands⟩
        · have hpos := header.size_pos
          obtain ⟨place, header', stop', hplace, hstands'⟩ := ih _ (by omega) hrest hc rfl
          exact ⟨place, header', stop', by omega, hstands'⟩

theorem mem_entriesAmong {chunks : List PackageChunk} {e : TypeEntries} :
    e ∈ entriesAmong chunks ↔ PackageChunk.entries e ∈ chunks := by
  rw [entriesAmong, List.mem_filterMap]
  constructor
  · rintro ⟨c, hc, he⟩
    cases c with
    | entries chunk =>
        cases he
        exact hc
    | spec chunk => cases he
  · intro h
    exact ⟨_, h, rfl⟩

namespace Package

variable {p : Package}

/-- Size of the fixed fields of a package, header included. -/
def fixedSize : Nat := chunkHeaderSize + 4 + nameSize + 16

/-- The fixed fields of a package stand behind its header. -/
structure FieldsAt (buffer : Bytes) (start : Nat) (p : Package) : Prop where
  room : start + fixedSize ≤ buffer.size
  id : p.id = numberAt 4 buffer (start + 8)
  name : p.name = decodeName (buffer.extract (start + 12) (start + 268)).toList
  typeStringsOffset : p.typeStringsOffset = numberAt 4 buffer (start + 268)
  lastPublicType : p.lastPublicType = numberAt 4 buffer (start + 272)
  keyStringsOffset : p.keyStringsOffset = numberAt 4 buffer (start + 276)
  lastPublicKey : p.lastPublicKey = numberAt 4 buffer (start + 280)

/-- A package is read exactly when its header, its fields, its pools and its chunks are, and its
strings can be gathered. -/
theorem reads_read_iff :
    (read strings).Reads buffer start p stop ↔
      (ChunkHeader.read (some packageType)).Reads buffer start p.header (start + chunkHeaderSize) ∧
        p.FieldsAt buffer start ∧
        StringPool.read.Reads buffer (start + p.typeStringsOffset) p.typePool
          p.typePool.header.stop ∧
        StringPool.read.Reads buffer (start + p.keyStringsOffset) p.keyPool p.keyPool.header.stop ∧
        (readPackageChunks p.keyPool p.header.stop p.keyPool.header.stop).Reads buffer
          p.keyPool.header.stop p.chunks stop ∧
        gatherStrings strings p.typePool p.chunks = .ok p.localized := by
  constructor
  · intro h
    unfold read at h
    obtain ⟨header, _, hheader, h⟩ := Decoder.reads_bind_iff.mp h
    obtain ⟨rfl, -, -, -, -, rfl⟩ := ChunkHeader.fields_of_read hheader
    simp only [Decoder.reads_u32_bind_iff, Decoder.reads_take_bind_iff,
      Decoder.reads_goTo_bind_iff, Nat.add_assoc, chunkHeaderSize, nameSize,
      Nat.reduceAdd] at h
    obtain ⟨-, -, -, -, -, hroom, h⟩ := h
    obtain ⟨typePool, _, htypes, h⟩ := Decoder.reads_bind_iff.mp h
    rw [Decoder.reads_goTo_bind_iff] at h
    obtain ⟨keyPool, _, hkeys, h⟩ := Decoder.reads_bind_iff.mp h
    obtain ⟨chunks, _, hchunks, h⟩ := Decoder.reads_bind_iff.mp h
    obtain ⟨localized, _, hlocalized, h⟩ := Decoder.reads_bind_iff.mp h
    rw [Decoder.reads_note_bind_iff, Decoder.reads_pure_iff] at h
    obtain ⟨hgathered, rfl⟩ := Decoder.reads_resolved_iff.mp hlocalized
    obtain ⟨rfl, rfl⟩ := h
    obtain ⟨-, -, rfl, -⟩ := StringPool.ends_of_read htypes
    obtain ⟨-, -, rfl, -⟩ := StringPool.ends_of_read hkeys
    refine ⟨hheader, ⟨hroom, ?_, ?_, ?_, ?_, ?_, ?_⟩, ?_⟩
    all_goals dsimp only
    exact ⟨htypes, hkeys, hchunks, hgathered⟩
  · rintro ⟨hheader, hfields, htypes, hkeys, hchunks, hgathered⟩
    obtain ⟨rfl, -, -, -, -, -⟩ := ChunkHeader.fields_of_read hheader
    have hroom := hfields.room
    rw [fixedSize, chunkHeaderSize, nameSize] at hroom
    refine hheader.bind ?_
    simp only [Decoder.reads_u32_bind_iff, Decoder.reads_take_bind_iff,
      Decoder.reads_goTo_bind_iff, Nat.add_assoc, chunkHeaderSize, nameSize, Nat.reduceAdd,
      ← hfields.id, ← hfields.name, ← hfields.typeStringsOffset, ← hfields.lastPublicType,
      ← hfields.keyStringsOffset, ← hfields.lastPublicKey]
    refine ⟨by omega, .inr (by omega), by omega, by omega, by omega, by omega, ?_⟩
    refine htypes.bind ?_
    rw [Decoder.reads_goTo_bind_iff]
    refine hkeys.bind (hchunks.bind (.bind (.resolved hgathered) ?_))
    rw [Decoder.reads_note_bind_iff]
    exact .pure p

theorem entryChunksOf_natCast (type : Nat) :
    p.entryChunksOf type = (entriesAmong p.chunks).filter fun chunk => chunk.id == type := by
  refine List.filter_congr fun c _ => ?_
  rw [Bool.eq_iff_iff, beq_iff_eq, beq_iff_eq, Int.natCast_inj]

/-- What lookups rely on in a package that was decoded with a string pool. -/
structure Accepted (strings : Option StringPool) (p : Package) : Prop where
  sound : ∀ chunk ∈ p.entryChunks, chunk.Sound p.keyPool
  gathered : gatherStrings strings p.typePool p.chunks = .ok p.localized

theorem accepted_of_read (h : (read strings).Reads buffer start p stop) : p.Accepted strings := by
  obtain ⟨-, -, -, -, hchunks, hgathered⟩ := reads_read_iff.mp h
  refine ⟨fun chunk hchunk => ?_, hgathered⟩
  obtain ⟨_, _, _, -, hstands⟩ := standsAt_of_mem_chunks hchunks (mem_entriesAmong.mp hchunk)
  rcases PackageChunk.read_cases hstands.readChunk with ⟨e, he, -, heq⟩ | ⟨s, -, -, heq⟩
  · cases heq
    exact TypeEntries.sound_of_read he
  · cases heq

end Package

end Packages

section Tables

/-- A chunk at top level. -/
structure TopChunk where
  position : Nat
  type : Nat
  headerSize : Nat
  size : Nat
  deriving DecidableEq, Repr

/-- Distance to the next chunk: the chunks of a table stand in it. -/
def TopChunk.advance (c : TopChunk) : Nat :=
  if c.type = resourceTableType then c.headerSize else c.size

/-- The fields of the chunk at an offset. -/
def topChunkAt (buffer : Bytes) (position : Nat) : TopChunk :=
  ⟨position, numberAt 2 buffer position, numberAt 2 buffer (position + 2),
    numberAt 4 buffer (position + 4)⟩

/-- The chunks at top level from an offset on, up to the end of the buffer or one that takes no
room. -/
def topChunksFrom (buffer : Bytes) (position : Nat) : List TopChunk :=
  if _ : position < buffer.size ∧ 0 < (topChunkAt buffer position).advance then
    topChunkAt buffer position ::
      topChunksFrom buffer (position + (topChunkAt buffer position).advance)
  else []
termination_by buffer.size - position
decreasing_by omega

/-- What one chunk does to a table. -/
inductive Table.Step (buffer : Bytes) (t : Table) (c : TopChunk) : Table → Prop
  | pool {pool : StringPool} (htype : c.type = stringPoolType)
      (hread : StringPool.read.Yields buffer c.position pool) :
      Step buffer t c { t with pool := some pool }
  | count (htype : c.type = resourceTableType) :
      Step buffer t c { t with packageCount := numberAt 4 buffer (c.position + chunkHeaderSize) }
  | package {p : Package} (htype : c.type = packageType) (hpool : t.pool.isSome = true)
      (hread : (Package.read t.pool).Yields buffer c.position p) :
      Step buffer t c { t with packages := putPackage p t.packages }

/-- A table comes about from another one by some chunks. -/
inductive Table.Loads (buffer : Bytes) : Table → List TopChunk → Table → Prop
  | nil (t : Table) : Loads buffer t [] t
  | cons {t t' r : Table} {c : TopChunk} {rest : List TopChunk} (step : t.Step buffer c t')
      (run : Loads buffer t' rest r) : Loads buffer t (c :: rest) r

variable {buffer : Bytes} {start stop position : Nat} {t t' r : Table}

theorem topChunkAt_of_read {header : ChunkHeader}
    (h : (ChunkHeader.read none).Reads buffer position header stop) :
    topChunkAt buffer position = ⟨position, header.type, header.headerSize, header.size⟩ := by
  obtain ⟨-, htype, hheaderSize, hsize, -, -⟩ := ChunkHeader.fields_of_read h
  rw [topChunkAt, htype, hheaderSize, hsize]

theorem reads_noteSecondPool_iff {place : Nat} {u : Unit} :
    (t.noteSecondPool place).Reads buffer start u stop ↔ start = stop := by
  unfold Table.noteSecondPool
  split
  · exact Decoder.reads_note_iff
  · simp

theorem Table.step_of_readChunk {header : ChunkHeader} {c : TopChunk}
    (htype : c.type = header.type)
    (h : (t.readChunk header c.position).Reads buffer c.position t' stop) : t.Step buffer c t' := by
  unfold readChunk at h
  rcases Decoder.reads_ite_iff.mp h with ⟨hpool, h⟩ | ⟨-, h⟩
  · obtain ⟨_, _, hnoted, h⟩ := Decoder.reads_bind_iff.mp h
    obtain ⟨pool, _, hread, h⟩ := Decoder.reads_bind_iff.mp h
    rw [← reads_noteSecondPool_iff.mp hnoted] at hread
    rw [← (Decoder.reads_pure_iff.mp h).1]
    exact .pool (htype.trans hpool) hread.result
  rcases Decoder.reads_ite_iff.mp h with ⟨hcount, h⟩ | ⟨-, h⟩
  · rw [Decoder.reads_goTo_bind_iff, Decoder.reads_u32_bind_iff, Decoder.reads_pure_iff] at h
    rw [← h.2.1]
    exact .count (htype.trans hcount)
  rcases Decoder.reads_ite_iff.mp h with ⟨hpackage, h⟩ | ⟨-, h⟩
  · rw [Decoder.reads_require_bind_iff] at h
    obtain ⟨p, _, hread, hput⟩ := Decoder.reads_bind_iff.mp h.2
    rw [← (Decoder.reads_pure_iff.mp hput).1]
    exact .package (htype.trans hpackage) h.1 hread.result
  · exact absurd h Decoder.not_reads_fail

/-- Chunks at top level are read one by one: there is none left, or the first one is put into the
table and the others behind it. -/
theorem Table.readChunks_cases
    (h : (readChunks buffer.size t position).Reads buffer start r stop) :
    (buffer.size ≤ position ∧ t = r) ∨
      position < buffer.size ∧ ∃ header t' mid,
        (ChunkHeader.read none).Reads buffer position header (position + chunkHeaderSize) ∧
        (t.readChunk header position).Reads buffer position t' mid ∧
        (readChunks buffer.size t' (position + advance header)).Reads buffer mid r stop := by
  rw [readChunks] at h
  split at h
  · rename_i hinside
    rw [Decoder.reads_goTo_bind_iff] at h
    obtain ⟨header, _, hheader, h⟩ := Decoder.reads_bind_iff.mp h
    obtain ⟨-, -, -, -, -, rfl⟩ := ChunkHeader.fields_of_read hheader
    rw [Decoder.reads_goTo_bind_iff] at h
    obtain ⟨t', mid, hchunk, h⟩ := Decoder.reads_bind_iff.mp h
    exact .inr ⟨hinside, header, t', mid, hheader, hchunk, h⟩
  · rename_i houtside
    rw [Decoder.reads_pure_iff] at h
    exact .inl ⟨by omega, h.1⟩

/-- The distance to the next chunk is the one that the decoder goes. -/
theorem advance_topChunkAt_of_read {header : ChunkHeader}
    (h : (ChunkHeader.read none).Reads buffer position header stop) :
    (topChunkAt buffer position).advance = Table.advance header := by
  rw [topChunkAt_of_read h]
  rfl

theorem topChunksFrom_of_read {header : ChunkHeader} (hinside : position < buffer.size)
    (h : (ChunkHeader.read none).Reads buffer position header stop) :
    topChunksFrom buffer position = ⟨position, header.type, header.headerSize, header.size⟩ ::
      topChunksFrom buffer (position + Table.advance header) := by
  have hadvance := advance_topChunkAt_of_read h
  have hpos := Table.advance_pos header
  rw [topChunksFrom, dif_pos ⟨hinside, by rwa [hadvance]⟩, hadvance, topChunkAt_of_read h]

/-- The chunks that are read are those that stand in the bytes.

The induction is on the bytes that are left. -/
theorem Table.loads_of_readChunks
    (h : (readChunks buffer.size t position).Reads buffer start r stop) :
    t.Loads buffer (topChunksFrom buffer position) r := by
  induction hleft : buffer.size - position using Nat.strongRecOn
    generalizing t position start stop with
  | ind left ih =>
      rcases readChunks_cases h with ⟨houtside, rfl⟩ |
        ⟨hinside, header, t', mid, hheader, hchunk, hrest⟩
      · rw [topChunksFrom, dif_neg (by omega)]
        exact .nil t
      · have hadvance := advance_topChunkAt_of_read hheader
        have hpos := advance_pos header
        have hstep : t.Step buffer (topChunkAt buffer position) t' :=
          step_of_readChunk (by rw [topChunkAt_of_read hheader]) hchunk
        rw [topChunksFrom, dif_pos ⟨hinside, hadvance ▸ hpos⟩, hadvance]
        exact .cons hstep (ih _ (by omega) hrest rfl)

/-- A table is decoded by reading the chunks from the start of the buffer. -/
theorem Table.readChunks_of_decode (h : Table.decode buffer = .ok t) :
    ∃ stop, (readChunks buffer.size Table.empty 0).Reads buffer 0 t stop := by
  rw [Table.decode, Outcome.within, mapError_eq_ok_iff] at h
  have hreads : Table.read.Reads buffer 0 t _ := ⟨h, rfl⟩
  unfold Table.read at hreads
  rw [Decoder.reads_bufferSize_bind_iff] at hreads
  obtain ⟨t', _, hchunks, hreads⟩ := Decoder.reads_bind_iff.mp hreads
  rw [Decoder.reads_note_bind_iff, Decoder.reads_pure_iff] at hreads
  rw [← hreads.1]
  exact ⟨_, hchunks⟩

theorem Table.loads_of_decode (h : Table.decode buffer = .ok t) :
    Table.empty.Loads buffer (topChunksFrom buffer 0) t := by
  obtain ⟨_, hchunks⟩ := readChunks_of_decode h
  exact loads_of_readChunks hchunks

/-! ## Invariants of loading -/

theorem mem_putPackage {p q : Package} {packages : List Package}
    (h : q ∈ putPackage p packages) : q = p ∨ q ∈ packages := by
  induction packages with
  | nil => exact .inl (List.mem_singleton.mp h)
  | cons first rest ih =>
      rw [putPackage] at h
      split at h
      · rcases List.mem_cons.mp h with rfl | h
        · exact .inl rfl
        · exact .inr (List.mem_cons_of_mem _ h)
      · rcases List.mem_cons.mp h with rfl | h
        · exact .inr List.mem_cons_self
        · exact (ih h).imp_right (List.mem_cons_of_mem _)

/-- A package of a new name comes last. -/
theorem putPackage_of_new {p : Package} {packages : List Package}
    (h : ∀ q ∈ packages, q.name ≠ p.name) : putPackage p packages = packages ++ [p] := by
  induction packages with
  | nil => rfl
  | cons q rest ih =>
      have hq : q.name ≠ p.name := h q List.mem_cons_self
      rw [putPackage, if_neg hq, ih fun a ha => h a (List.mem_cons_of_mem _ ha)]
      rfl

/-- A package of a table that chunks make comes from one of them, which is read with what the chunks
in front of it make, or was there before. -/
theorem Table.Loads.read_at {p : Package} {chunks : List TopChunk}
    (hloads : t.Loads buffer chunks r) (hp : p ∈ r.packages) :
    p ∈ t.packages ∨ ∃ before c behind m, chunks = before ++ c :: behind ∧ c.type = packageType ∧
      t.Loads buffer before m ∧ m.pool.isSome = true ∧
      (Package.read m.pool).Yields buffer c.position p := by
  induction hloads with
  | nil t => exact .inl hp
  | @cons t t' r c rest hstep _ ih =>
      rcases ih hp with hbefore | ⟨before, c', behind, m, rfl, htype, hloads, hread⟩
      · cases hstep with
        | pool => exact .inl hbefore
        | count => exact .inl hbefore
        | package htype hpool hread =>
            rcases mem_putPackage hbefore with rfl | hbefore
            · exact .inr ⟨[], c, rest, t, rfl, htype, .nil t, hpool, hread⟩
            · exact .inl hbefore
      · exact .inr ⟨c :: before, c', behind, m, rfl, htype, .cons hstep hloads, hread⟩

/-- Every package chunk is decoded, and the packages are put into the table one after another. -/
theorem Table.Loads.packages_decoded {chunks : List TopChunk} (hloads : t.Loads buffer chunks r) :
    ∃ decoded, List.Forall₂
      (fun c p => ∃ strings, (Package.read strings).Yields buffer c.position p)
      (chunks.filter fun c => c.type == packageType) decoded ∧
      r.packages = decoded.foldl (fun packages p => putPackage p packages) t.packages := by
  induction hloads with
  | nil t => exact ⟨[], .nil, rfl⟩
  | cons hstep _ ih =>
      obtain ⟨decoded, hdecoded, hpackages⟩ := ih
      cases hstep with
      | pool htype hread => exact ⟨decoded, by rwa [List.filter_cons, htype], hpackages⟩
      | count htype => exact ⟨decoded, by rwa [List.filter_cons, htype], hpackages⟩
      | package htype hpool hread =>
          refine ⟨_ :: decoded, ?_, hpackages⟩
          rw [List.filter_cons, htype]
          exact .cons ⟨_, hread⟩ hdecoded

/-- With one pool, all packages have been decoded with the pool that stays. -/
theorem Table.Loads.accepted_of_single {chunks : List TopChunk} (hloads : t.Loads buffer chunks r)
    (hsingle : chunks.countP (fun c => c.type == stringPoolType) + t.pool.toList.length ≤ 1)
    (hpool : t.pool = none → t.packages = []) (h : ∀ p ∈ t.packages, p.Accepted t.pool) :
    ∀ p ∈ r.packages, p.Accepted r.pool := by
  induction hloads with
  | nil t => exact h
  | @cons t t' r c rest hstep _ ih =>
      rw [List.countP_cons] at hsingle
      have hrest : rest.countP (fun c => c.type == stringPoolType) + t.pool.toList.length ≤ 1 := by
        omega
      cases hstep with
      | pool htype hread =>
          rw [if_pos (beq_iff_eq.mpr htype)] at hsingle
          have hnone : t.pool = none := by
            cases hp : t.pool with
            | none => rfl
            | some pool =>
                rw [hp, Option.toList_some, List.length_singleton] at hsingle
                omega
          refine ih ?_ (fun hp => by cases hp) ?_
          · rw [Option.toList_some, List.length_singleton]
            omega
          · intro q hq
            rw [hpool hnone] at hq
            cases hq
      | count htype => exact ih hrest hpool h
      | package htype hsome hread =>
          refine ih hrest (fun hp => ?_) ?_
          · have hnone : t.pool = none := hp
            rw [hnone] at hsome
            cases hsome
          intro q hq
          rcases mem_putPackage hq with rfl | hq
          · exact Package.accepted_of_read hread.reads
          · exact h q hq

/-- No package without a pool. -/
theorem Table.Loads.packages_eq_nil {chunks : List TopChunk} (hloads : t.Loads buffer chunks r)
    (h : t.pool = none → t.packages = []) : r.pool = none → r.packages = [] := by
  induction hloads with
  | nil t => exact h
  | cons hstep _ ih =>
      apply ih
      cases hstep with
      | pool => exact fun hnone => by cases hnone
      | count => exact h
      | package htype hsome hread =>
          intro hnone
          rw [hnone] at hsome
          cases hsome

theorem Table.Loads.pool_small {chunks : List TopChunk} (hloads : t.Loads buffer chunks r)
    (h : ∀ pool ∈ t.pool, pool.strings.size < noIndex) :
    ∀ pool ∈ r.pool, pool.strings.size < noIndex := by
  induction hloads with
  | nil t => exact h
  | cons hstep _ ih =>
      apply ih
      cases hstep with
      | pool htype hread =>
          intro pool hpool
          cases hpool
          exact StringPool.size_strings_lt hread.reads
      | count => exact h
      | package => exact h

theorem Table.mem_of_firstPackage {p : Package} (h : t.firstPackage = .ok p) : p ∈ t.packages := by
  unfold firstPackage at h
  split at h
  · rename_i hpackages
    cases h
    rw [hpackages]
    exact List.mem_cons_self
  · cases h

/-- Every package of a decoded table was read with some pool. -/
theorem Table.read_of_decode {p : Package} (h : Table.decode buffer = .ok t)
    (hp : p ∈ t.packages) :
    ∃ strings position, (Package.read strings).Yields buffer position p := by
  obtain ⟨-, c, -, m, -, -, -, -, hread⟩ :=
    ((loads_of_decode h).read_at hp).resolve_left List.not_mem_nil
  exact ⟨m.pool, c.position, hread⟩

/-- The first package of a decoded table has been accepted. -/
theorem Table.accepted_of_decode {p : Package} (h : Table.decode buffer = .ok t)
    (hfirst : t.firstPackage = .ok p) : ∃ strings, p.Accepted strings := by
  obtain ⟨strings, position, hread⟩ := read_of_decode h (mem_of_firstPackage hfirst)
  exact ⟨strings, Package.accepted_of_read hread.reads⟩

/-- A table with a package has a pool, whose indices are index words. -/
theorem Table.pool_of_firstPackage {p : Package} (h : Table.decode buffer = .ok t)
    (hfirst : t.firstPackage = .ok p) :
    ∃ pool, t.pool = some pool ∧ pool.strings.size < noIndex := by
  have hloads := loads_of_decode h
  have hsmall := hloads.pool_small (fun pool h => by cases h)
  cases hpool : t.pool with
  | none =>
      have hmem := mem_of_firstPackage hfirst
      rw [hloads.packages_eq_nil (fun _ => rfl) hpool] at hmem
      cases hmem
  | some pool => exact ⟨pool, rfl, hsmall pool hpool⟩

end Tables

end Resource

end ApkFormats
