import ApkFormats.Proofs.Success
import ApkFormats.StringPool

/-!
# What accepted chunks and string pools hold

* `ChunkHeader.reads_read_iff`: a header is read exactly when its fields stand
  in the bytes, are in order, and end the chunk inside the buffer;
* `StringPool.readBehind_cases`: the strings of a pool have their offsets in its
  chunk, which is where it ends;
* `StringPool.size_strings_lt`: few enough strings for their indices to be index
  words.
-/

namespace ApkFormats

variable {buffer : Bytes} {start stop : Nat}

namespace ChunkHeader

variable {expected : Option Nat} {header : ChunkHeader}

theorem reads_requireType_iff {offset type : Nat} {u : Unit} :
    (requireType expected offset type).Reads buffer start u stop ↔
      (∀ wanted ∈ expected, type = wanted) ∧ start = stop := by
  cases expected <;> simp [requireType]

/-- A header is read exactly when it holds what stands in its bytes and its chunk lies in the
buffer. -/
theorem reads_read_iff :
    (read expected).Reads buffer start header stop ↔
      header.offset = start ∧ header.type = numberAt 2 buffer start ∧
        header.headerSize = numberAt 2 buffer (start + 2) ∧
        header.size = numberAt 4 buffer (start + 4) ∧ (∀ wanted ∈ expected, header.type = wanted) ∧
        header.stop ≤ buffer.size ∧ stop = start + chunkHeaderSize := by
  unfold read
  simp only [Decoder.reads_position_bind_iff, Decoder.reads_u16_bind_iff,
    Decoder.reads_u32_bind_iff, Decoder.reads_bufferSize_bind_iff, Nat.add_assoc, Nat.reduceAdd]
  constructor
  · rintro ⟨-, -, -, h⟩
    obtain ⟨_, cursor, htype, h⟩ := Decoder.reads_bind_iff.mp h
    obtain ⟨hwanted, rfl⟩ := reads_requireType_iff.mp htype
    split at h
    · rw [Decoder.reads_require_bind_iff, Decoder.reads_pure_iff, decide_eq_true_eq] at h
      obtain ⟨hinside, rfl, rfl⟩ := h
      exact ⟨rfl, rfl, rfl, rfl, hwanted, hinside, rfl⟩
    · exact absurd h Decoder.not_reads_fail
  · rintro ⟨rfl, htype, hheaderSize, hsize, hwanted, hinside, rfl⟩
    have hleast := header.le_headerSize
    have hroom := header.headerSize_le
    rw [stop] at hinside
    simp only [chunkHeaderSize] at hleast
    rw [← htype, ← hheaderSize, ← hsize]
    refine ⟨by omega, by omega, by omega, ?_⟩
    refine Decoder.reads_bind_iff.mpr ⟨(), _, reads_requireType_iff.mpr ⟨hwanted, rfl⟩, ?_⟩
    rw [dif_pos ⟨header.le_headerSize, hroom⟩, Decoder.reads_require_bind_iff,
      Decoder.reads_pure_iff]
    exact ⟨decide_eq_true hinside, rfl, rfl⟩

/-- A header that is read holds what stands in its bytes, and its chunk lies in the buffer. -/
theorem fields_of_read (h : (read expected).Reads buffer start header stop) :
    header.offset = start ∧ header.type = numberAt 2 buffer start ∧
      header.headerSize = numberAt 2 buffer (start + 2) ∧
      header.size = numberAt 4 buffer (start + 4) ∧ header.stop ≤ buffer.size ∧
      stop = start + chunkHeaderSize := by
  obtain ⟨hoffset, htype, hheader, hsize, -, hinside, hstop⟩ := reads_read_iff.mp h
  exact ⟨hoffset, htype, hheader, hsize, hinside, hstop⟩

end ChunkHeader

namespace StringPool

variable {pool : StringPool}

/-- Reads what stands behind the header of a pool. -/
def readBehind (header : ChunkHeader) : Decoder StringPool := do
  Decoder.require (fixedSize ≤ header.headerSize)
    (.pool (.headerSize header.offset header.headerSize))
  let stringCount ← Decoder.u32
  let styleCount ← Decoder.u32
  let flags ← Decoder.u32
  let stringsStart ← Decoder.u32
  let stylesStart ← Decoder.u32
  Decoder.goTo header.payload
  Decoder.require (header.payload + 4 * stringCount ≤ header.stop)
    (.pool (.stringCount header.offset stringCount))
  let offsets ← Decoder.times Decoder.u32 stringCount
  noteStyles styleCount header.offset
  let strings ← Decoder.each
    (fun offset => readString header (storesUtf8 flags) (header.offset + stringsStart + offset))
    offsets
  Decoder.note (.stringPool header.offset stringCount (storesUtf8 flags))
  Decoder.goTo header.stop
  pure ⟨header, stringCount, styleCount, flags, stringsStart, stylesStart, strings.toArray⟩

/-- A pool is read as its header and what stands behind it. -/
theorem read_eq : read = ChunkHeader.read (some stringPoolType) >>= readBehind :=
  rfl

/-- What the success of reading behind a header says. -/
theorem readBehind_cases {header : ChunkHeader}
    (h : (readBehind header).Reads buffer start pool stop) :
    pool.header = header ∧ stop = header.stop ∧
      header.payload + 4 * pool.strings.size ≤ header.stop := by
  unfold readBehind at h
  simp only [Decoder.reads_require_bind_iff, Decoder.reads_u32_bind_iff,
    Decoder.reads_goTo_bind_iff] at h
  obtain ⟨-, -, -, -, -, -, hroom, h⟩ := h
  obtain ⟨offsets, _, hoffsets, h⟩ := Decoder.reads_bind_iff.mp h
  obtain ⟨_, _, -, h⟩ := Decoder.reads_bind_iff.mp h
  obtain ⟨strings, _, hstrings, h⟩ := Decoder.reads_bind_iff.mp h
  simp only [Decoder.reads_note_bind_iff, Decoder.reads_goTo_bind_iff,
    Decoder.reads_pure_iff] at h
  have hcount := Decoder.length_of_reads_times hoffsets
  have hlength := (Decoder.forall₂_of_reads_each hstrings).length_eq
  obtain ⟨rfl, rfl⟩ := h
  rw [List.size_toArray, ← hlength, hcount]
  exact ⟨rfl, rfl, of_decide_eq_true hroom⟩

/-- A pool that is read starts at the cursor and leaves it at the end of its chunk, which lies in
the buffer. -/
theorem ends_of_read (h : read.Reads buffer start pool stop) :
    pool.header.offset = start ∧ pool.header.size = numberAt 4 buffer (start + 4) ∧
      stop = pool.header.stop ∧ stop ≤ buffer.size := by
  rw [read_eq] at h
  obtain ⟨header, _, hheader, h⟩ := Decoder.reads_bind_iff.mp h
  obtain ⟨rfl, rfl, -⟩ := readBehind_cases h
  obtain ⟨hoffset, -, -, hsize, hinside, -⟩ := ChunkHeader.fields_of_read hheader
  exact ⟨hoffset, hsize, rfl, hinside⟩

/-- No string of a pool has the index that stands for none. -/
theorem size_strings_lt (h : read.Reads buffer start pool stop) : pool.strings.size < noIndex := by
  obtain ⟨-, hsize, -, -⟩ := ends_of_read h
  have hlt : pool.header.size < 0x100000000 := by
    rw [hsize]
    exact numberAt_lt 4 _ _
  rw [read_eq] at h
  obtain ⟨header, _, -, h⟩ := Decoder.reads_bind_iff.mp h
  obtain ⟨rfl, -, hroom⟩ := readBehind_cases h
  rw [ChunkHeader.payload, ChunkHeader.stop] at hroom
  rw [noIndex]
  omega

end StringPool

end ApkFormats
