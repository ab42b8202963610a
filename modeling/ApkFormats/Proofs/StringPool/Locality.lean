import ApkFormats.Proofs.StringPool.Accepted
import ApkFormats.Proofs.Window

/-!
# A string pool is read from its own chunk alone

The offsets of strings come from the file and may point anywhere, and the length
marks of a string are read before it is known whether they lie in the chunk.
Still nothing outside the chunk is ever shown: a mark that reaches beyond it
leaves the cursor there, and then the string is refused.

* `StringPool.readString_mirrors`: that argument, for one string;
* `StringPool.reads_read_part_iff`: a pool that ends in a part of a buffer is
  read of the whole exactly as it is read of the part;
* `StringPool.strings_iff_of_chunk`: the strings of a pool, and whether there are
  any, depend on the bytes of its chunk only.
-/

namespace ApkFormats

open Decoder (Mirrors Sequential)

variable {part buffer : Bytes} {shift start : Nat}

namespace ChunkHeader

/-- The header of the same chunk further on. -/
def movedBy (shift : Nat) (header : ChunkHeader) : ChunkHeader :=
  { header with offset := shift + header.offset }

section Moved

variable (shift : Nat) (header : ChunkHeader)

@[simp] theorem movedBy_headerSize : (header.movedBy shift).headerSize = header.headerSize :=
  rfl

@[simp] theorem movedBy_size : (header.movedBy shift).size = header.size :=
  rfl

@[simp] theorem movedBy_offset : (header.movedBy shift).offset = shift + header.offset :=
  rfl

@[simp] theorem movedBy_payload : (header.movedBy shift).payload = shift + header.payload :=
  Nat.add_assoc shift header.offset header.headerSize

@[simp] theorem movedBy_stop : (header.movedBy shift).stop = shift + header.stop :=
  Nat.add_assoc shift header.offset header.size

end Moved

/-- The header of a chunk that ends in a part of a buffer is read of the whole exactly as it is
read of the part. -/
theorem reads_read_part_iff {expected : Option Nat} {header' : ChunkHeader} {stop' : Nat}
    (hpart : Holds buffer shift part.toList) :
    (read expected).Reads buffer (shift + start) header' stop' ∧
        header'.stop ≤ shift + part.size ↔
      ∃ header stop, (read expected).Reads part start header stop ∧
        header.movedBy shift = header' ∧ shift + stop = stop' := by
  have hend := hpart.part_le
  -- The three numbers of a header stand in the part when the chunk ends in it.
  have hfields : start + chunkHeaderSize ≤ part.size →
      numberAt 2 buffer (shift + start) = numberAt 2 part start ∧
        numberAt 2 buffer (shift + start + 2) = numberAt 2 part (start + 2) ∧
        numberAt 4 buffer (shift + start + 4) = numberAt 4 part (start + 4) := by
    intro hroom
    rw [chunkHeaderSize] at hroom
    rw [Nat.add_assoc, Nat.add_assoc]
    exact ⟨hpart.numberAt_part (by omega), hpart.numberAt_part (by omega),
      hpart.numberAt_part (by omega)⟩
  constructor
  · rintro ⟨h, hinside⟩
    obtain ⟨hoffset, htype, hheaderSize, hsize, hwanted, -, rfl⟩ := reads_read_iff.mp h
    have hleast := Nat.le_trans header'.le_headerSize header'.headerSize_le
    rw [stop, hoffset] at hinside
    obtain ⟨htype', hheaderSize', hsize'⟩ := hfields (by omega)
    refine ⟨{ header' with offset := start }, start + chunkHeaderSize, ?_, ?_, by omega⟩
    · refine reads_read_iff.mpr ⟨rfl, htype.trans htype', hheaderSize.trans hheaderSize',
        hsize.trans hsize', hwanted, ?_, rfl⟩
      rw [stop]
      dsimp only
      omega
    · rw [movedBy, ← hoffset]
  · rintro ⟨header, stop, h, rfl, rfl⟩
    obtain ⟨hoffset, htype, hheaderSize, hsize, hwanted, hinside, rfl⟩ := reads_read_iff.mp h
    have hleast := Nat.le_trans header.le_headerSize header.headerSize_le
    have hstop := hinside
    rw [ChunkHeader.stop, hoffset] at hstop
    obtain ⟨htype', hheaderSize', hsize'⟩ := hfields (by omega)
    refine ⟨reads_read_iff.mpr ⟨congrArg (shift + ·) hoffset, htype.trans htype'.symm,
      hheaderSize.trans hheaderSize'.symm, hsize.trans hsize'.symm, hwanted, ?_, ?_⟩, ?_⟩
    · rw [movedBy_stop]
      omega
    · omega
    · rw [movedBy_stop]
      omega

/-- The header of a chunk whose size ends it in a part is mirrored there. -/
theorem read_mirrors {expected : Option Nat} (hpart : Holds buffer shift part.toList)
    (hinside : start + numberAt 4 buffer (shift + start + 4) ≤ part.size) :
    Mirrors part buffer shift (movedBy shift) start (read expected) (read expected) := by
  intro header' stop'
  rw [← reads_read_part_iff hpart]
  refine ⟨fun h => ⟨h, ?_⟩, fun h => h.1⟩
  obtain ⟨hoffset, -, -, hsize, -, -⟩ := fields_of_read h
  rw [stop, hoffset, hsize]
  omega

end ChunkHeader

namespace StringPool

theorem byteLength_sequential (utf8 : Bool) : Sequential (byteLength utf8) := by
  have hshort : Sequential shortMark :=
    .bind .u8 fun _ => .ite (.pure _) (.bind .u8 fun _ => .pure _)
  have hlong : Sequential longMark :=
    .bind .u16 fun _ => .ite (.pure _) (.bind .u16 fun _ => .pure _)
  exact .ite (.bind hshort fun _ => hshort) (.bind hlong fun _ => .pure _)

/-- A string of a chunk in a part is read of the whole exactly as it is read of the part. -/
theorem readString_mirrors (hpart : Holds buffer shift part.toList) {header : ChunkHeader}
    (hstop : header.stop ≤ part.size) (utf8 : Bool) {place place' : Nat}
    (hplace : place' = shift + place) :
    Mirrors part buffer shift id start (readString header utf8 place)
      (readString (header.movedBy shift) utf8 place') := by
  unfold readString
  refine .require (by rw [ChunkHeader.movedBy_stop, decide_eq_decide]; omega) fun hinside => ?_
  have hinside : place < header.stop := of_decide_eq_true hinside
  refine .goTo hplace (.overrun hpart (byteLength_sequential utf8) (by omega) ?_ ?_)
  · intro length mid hmid
    refine .position (.require ?_ fun hend => ?_)
    · rw [ChunkHeader.movedBy_stop, decide_eq_decide]
      omega
    · have hend : mid + length ≤ header.stop := of_decide_eq_true hend
      refine .take hpart (by omega) fun bytes => ?_
      cases decodeText utf8 bytes with
      | ok s => exact .pure s
      | error malformed => exact .fail
  · -- Marks that end beyond the part leave no room for the string, whatever its length.
    intro length cursor s stop' hbeyond h
    rw [Decoder.reads_position_bind_iff, Decoder.reads_require_bind_iff] at h
    have hend := of_decide_eq_true h.1
    rw [ChunkHeader.movedBy_stop] at hend
    omega

/-- The same pool further on. -/
def movedBy (shift : Nat) (pool : StringPool) : StringPool :=
  { pool with header := pool.header.movedBy shift }

@[simp] theorem movedBy_header (shift : Nat) (pool : StringPool) :
    (pool.movedBy shift).header = pool.header.movedBy shift :=
  rfl

theorem stringAt_movedBy (shift : Nat) (pool : StringPool) :
    (pool.movedBy shift).stringAt = pool.stringAt :=
  rfl

theorem noteStyles_mirrors {styleCount offset offset' : Nat} {f : StringPool → StringPool}
    {after after' : Unit → Decoder StringPool}
    (h : Mirrors part buffer shift f start (after ()) (after' ())) :
    Mirrors part buffer shift f start (noteStyles styleCount offset >>= after)
      (noteStyles styleCount offset' >>= after') := by
  unfold noteStyles
  split
  · exact .note h
  · exact h

/-- What stands behind a header is read of the whole exactly as it is read of a part that the chunk
ends in. -/
theorem readBehind_mirrors (hpart : Holds buffer shift part.toList) {header : ChunkHeader}
    (hstop : header.stop ≤ part.size) :
    Mirrors part buffer shift (movedBy shift) (header.offset + chunkHeaderSize)
      (readBehind header) (readBehind (header.movedBy shift)) := by
  unfold readBehind
  simp only [ChunkHeader.movedBy_headerSize, ChunkHeader.movedBy_offset,
    ChunkHeader.movedBy_payload, ChunkHeader.movedBy_stop]
  refine .require rfl fun hfixed => ?_
  have hfixed := of_decide_eq_true hfixed
  have hroom := header.headerSize_le
  rw [fixedSize] at hfixed
  have hend : header.offset + header.size ≤ part.size := hstop
  simp only [chunkHeaderSize]
  refine .u32 hpart (by omega) fun stringCount => .u32 hpart (by omega) fun styleCount => ?_
  refine .u32 hpart (by omega) fun flags => .u32 hpart (by omega) fun stringsStart => ?_
  refine .u32 hpart (by omega) fun stylesStart => .goTo rfl ?_
  refine .require (by rw [decide_eq_decide]; omega) fun hcount => ?_
  have hcount := of_decide_eq_true hcount
  refine .bind (.sequential hpart (.times .u32 stringCount) (by omega) ?_) fun offsets mid _ => ?_
  · intro offsets stop' h
    have htaken := Decoder.stop_of_reads_times (fun h => (Decoder.reads_u32_iff.mp h).2.2.symm) h
    omega
  refine noteStyles_mirrors (.bind (.each fun offset _ _ => ?_) fun strings _ _ => ?_)
  · exact readString_mirrors hpart hstop _ (by omega)
  · exact .note (.goTo rfl (.pure _))

/-- A pool that ends in a part of a buffer is read of the whole exactly as it is read of the
part. -/
theorem reads_read_part_iff {pool' : StringPool} {stop' : Nat}
    (hpart : Holds buffer shift part.toList) :
    read.Reads buffer (shift + start) pool' stop' ∧ stop' ≤ shift + part.size ↔
      ∃ pool stop, read.Reads part start pool stop ∧ pool.movedBy shift = pool' ∧
        shift + stop = stop' := by
  rw [read_eq]
  constructor
  · rintro ⟨h, hinside⟩
    obtain ⟨header', _, hheader', hbehind'⟩ := Decoder.reads_bind_iff.mp h
    obtain ⟨-, rfl, -⟩ := readBehind_cases hbehind'
    obtain ⟨header, cursor, hheader, rfl, rfl⟩ :=
      (ChunkHeader.reads_read_part_iff hpart).mp ⟨hheader', hinside⟩
    obtain ⟨rfl, -, -, -, hroom, rfl⟩ := ChunkHeader.fields_of_read hheader
    obtain ⟨pool, stop, hbehind, hpool, hstop⟩ := (readBehind_mirrors hpart hroom _ _).mp hbehind'
    exact ⟨pool, stop, hheader.bind hbehind, hpool, hstop⟩
  · rintro ⟨pool, stop, h, rfl, rfl⟩
    obtain ⟨header, cursor, hheader, hbehind⟩ := Decoder.reads_bind_iff.mp h
    obtain ⟨-, rfl, -⟩ := readBehind_cases hbehind
    obtain ⟨hheader', hinside⟩ :=
      (ChunkHeader.reads_read_part_iff hpart).mpr ⟨header, cursor, hheader, rfl, rfl⟩
    obtain ⟨rfl, -, -, -, hroom, rfl⟩ := ChunkHeader.fields_of_read hheader
    have hbehind' := (readBehind_mirrors hpart hroom _ _).mpr ⟨pool, _, hbehind, rfl, rfl⟩
    exact ⟨hheader'.bind hbehind', by omega⟩

/-- A pool whose size ends it in a part is mirrored there. -/
theorem read_mirrors (hpart : Holds buffer shift part.toList)
    (hinside : start + numberAt 4 buffer (shift + start + 4) ≤ part.size) :
    Mirrors part buffer shift (movedBy shift) start read read := by
  intro pool' stop'
  rw [← reads_read_part_iff hpart]
  refine ⟨fun h => ⟨h, ?_⟩, fun h => h.1⟩
  obtain ⟨hoffset, hsize, rfl, -⟩ := ends_of_read h
  rw [ChunkHeader.stop, hoffset, hsize]
  omega

/-- A pool is read of a buffer as it is read of a first part that it ends in. -/
theorem reads_read_first_iff {pool : StringPool} {stop : Nat} (hpart : Holds buffer 0 part.toList) :
    read.Reads buffer start pool stop ∧ stop ≤ part.size ↔ read.Reads part start pool stop := by
  have hmoved : ∀ p : StringPool, p.movedBy 0 = p := by
    intro p
    rw [movedBy, ChunkHeader.movedBy, Nat.zero_add]
  have hsame : read.Reads buffer (0 + start) pool stop ∧ stop ≤ 0 + part.size ↔ _ :=
    reads_read_part_iff hpart
  simp only [Nat.zero_add, hmoved] at hsame
  rw [hsame]
  constructor
  · rintro ⟨pool, stop, h, rfl, rfl⟩
    exact h
  · exact fun h => ⟨pool, stop, h, rfl, rfl⟩

/-- The strings of a pool, and whether there are any, depend on the bytes of its chunk only:
reading them where the chunk stands in a buffer and reading the chunk alone come to the same. -/
theorem strings_iff_of_chunk {buffer : Bytes} {offset : Nat}
    (hfits : offset + numberAt 4 buffer (offset + 4) ≤ buffer.size) (strings : List String) :
    (∃ pool, read.Yields buffer offset pool ∧ pool.strings.toList = strings) ↔
      ∃ pool, read.Yields (buffer.extract offset (offset + numberAt 4 buffer (offset + 4))) 0 pool ∧
        pool.strings.toList = strings := by
  have hpart := Holds.of_extract hfits
  have hsize : (buffer.extract offset (offset + numberAt 4 buffer (offset + 4))).size =
      numberAt 4 buffer (offset + 4) := by
    rw [Array.size_extract]
    omega
  constructor
  · rintro ⟨pool', h, rfl⟩
    obtain ⟨hoffset, hdeclared, hstop, -⟩ := ends_of_read h.reads
    rw [ChunkHeader.stop, hoffset, hdeclared] at hstop
    have hinside := Nat.le_of_eq (hstop.trans (congrArg (offset + ·) hsize.symm))
    have hwhole : read.Reads buffer (offset + 0) pool' _ := h.reads
    obtain ⟨pool, stop, hread, rfl, -⟩ := (reads_read_part_iff hpart).mp ⟨hwhole, hinside⟩
    exact ⟨pool, hread.result, rfl⟩
  · rintro ⟨pool, h, rfl⟩
    obtain ⟨hread, -⟩ := (reads_read_part_iff hpart).mpr ⟨pool, _, h.reads, rfl, rfl⟩
    exact ⟨pool.movedBy offset, hread.result, rfl⟩

/-- A pool between other bytes. -/
def enclosed : Bytes :=
  (0xFF :: encode true ["é", ""] ++ [0xFF, 0xFF]).toArray

/-- The chunk that is cut out is read as the pool that stands between other bytes. -/
theorem strings_iff_of_chunk_enclosed :
    1 + numberAt 4 enclosed (1 + 4) ≤ enclosed.size ∧
    (∃ pool, read.Yields enclosed 1 pool ∧ pool.strings.toList = ["é", ""]) ∧
    ∃ pool, read.Yields (enclosed.extract 1 (1 + numberAt 4 enclosed (1 + 4))) 0 pool ∧
      pool.strings.toList = ["é", ""] := by
  have hfits : 1 + numberAt 4 enclosed (1 + 4) ≤ enclosed.size := by
    decide +kernel
  have haccepted : (read enclosed 1).result.toOption.any (fun pool =>
      pool.strings.toList = ["é", ""]) = true := by
    decide +kernel
  obtain ⟨pool, hread, hstrings⟩ := exists_ok_of_any haccepted
  have hwhole : ∃ pool, read.Yields enclosed 1 pool ∧ pool.strings.toList = ["é", ""] :=
    ⟨pool, hread, of_decide_eq_true hstrings⟩
  exact ⟨hfits, hwhole, (strings_iff_of_chunk hfits _).mp hwhole⟩

/-- A pool whose only string starts with the first half of a long mark at the end of its chunk, and
the second half behind the chunk. -/
def straddling : Bytes :=
  (encodeChunk stringPoolType (wordBytes [1, 0, 0, fixedSize + 4, 0])
    (wordBytes [0] ++ halfWordBytes [0x8000]) ++ halfWordBytes [0]).toArray

/-- Where the chunk stands the whole mark is read, of the chunk alone only its half; both are
refused. -/
example :
    (read straddling 0).result = .error (.pool (.stringEnd 32 0 34)) ∧
      (read (straddling.extract 0 34) 0).result = .error (.stream (.short 2 0)) := by
  decide +kernel

end StringPool

end ApkFormats
