import ApkFormats.Dex.Draft
import ApkFormats.Proofs.Dex.Extent
import ApkFormats.Proofs.StringPool
import ApkFormats.Proofs.Xml.Extent
import ApkFormats.Resource.Source

/-!
# Files that are cut off

Each kind of file says at its start how long it is.  When the end of a file is
missing, its start is still there or is itself cut off; in both cases something
reaches outside the data.

* `decode_cut`: no part of a file, cut off before its end, can be decoded;
* `Resource.Table.decode_cut_empty`: only of a resource table nothing at all may
  be left, since a buffer without any chunk is a table.
-/

namespace ApkFormats

/-- A number at the start of a buffer is the one that stands in a first part of it. -/
theorem Holds.numberAt_first {part buffer : Bytes} {start width : Nat}
    (h : Holds buffer 0 part.toList) (hroom : start + width ≤ part.size) :
    numberAt width buffer start = numberAt width part start := by
  have hsame := h.numberAt_part hroom
  rwa [Nat.zero_add] at hsame

open Decoder (Gauged)

variable {part buffer : Bytes} {start stop n : Nat}

/-- The header of a chunk cannot be read where the end of the chunk is missing. -/
theorem ChunkHeader.read_fallsShort {header : ChunkHeader} (hpart : Holds buffer 0 part.toList)
    (h : (read none).Reads buffer start header stop) (hcut : part.size < header.stop) :
    (read none).FallsShort part start := by
  obtain ⟨hoffset, htype, hheaderSize, hsize, -, hinside, -⟩ := reads_read_iff.mp h
  have hleast := Nat.le_trans header.le_headerSize header.headerSize_le
  have hinOrder : chunkHeaderSize ≤ numberAt 2 buffer (start + 2) ∧
      numberAt 2 buffer (start + 2) ≤ numberAt 4 buffer (start + 4) := by
    rw [← hheaderSize, ← hsize]
    exact ⟨header.le_headerSize, header.headerSize_le⟩
  rw [ChunkHeader.stop, hoffset] at hinside hcut
  rw [chunkHeaderSize] at hleast
  unfold read
  refine .after .position ?_
  refine Gauged.u16.fallsShort hpart (Decoder.reads_u16_iff.mpr ⟨by omega, rfl, rfl⟩) ?_
  refine Gauged.u16.fallsShort hpart (Decoder.reads_u16_iff.mpr ⟨by omega, rfl, rfl⟩) ?_
  refine Gauged.u32.fallsShort hpart (Decoder.reads_u32_iff.mpr ⟨by omega, rfl, rfl⟩) ?_
  refine .after .bufferSize (.after (.pure ()) ?_)
  rw [dif_pos hinOrder]
  refine .require (decide_eq_false ?_) rfl
  rw [Nat.add_assoc, ← hsize]
  omega

namespace Dex

/-- A file cannot be decoded without its end. -/
theorem File.decode_first {f : File} (hdecode : File.decode buffer = .ok f)
    (hcut : n < f.tables.header.fileSize) (hn : n ≤ buffer.size) :
    ∃ e, File.decode (buffer.extract 0 n) = .error e ∧ e.category = .outOfBounds := by
  obtain ⟨hpart, hlength⟩ := Holds.of_first hn
  obtain ⟨hread, -⟩ := File.decode_eq_ok_iff.mp hdecode
  have hends : ¬f.tables.EndsIn buffer (buffer.extract 0 n).size := by
    intro hends
    have hle := hends.fileSize
    omega
  exact ((Tables.read_reaches hread.reads).short hpart hends).bind.within

end Dex

namespace Xml

/-- A document cannot be decoded without its end. -/
theorem Document.decode_first {d : Document} (hdecode : Document.decode buffer = .ok d)
    (hcut : n < d.fileSize) (hn : n ≤ buffer.size) :
    ∃ e, Document.decode (buffer.extract 0 n) = .error e ∧ e.category = .unreadable := by
  obtain ⟨hpart, hlength⟩ := Holds.of_first hn
  obtain ⟨-, -, hsize, -⟩ := Document.decode_eq_ok_iff.mp hdecode
  cases hfirst : Document.decode (buffer.extract 0 n) with
  | error e => exact ⟨e, rfl, (Document.isOneOf_of_decode hfirst).2⟩
  | ok d' =>
      obtain ⟨hroom, -, hsize', hfits, -⟩ := Document.decode_eq_ok_iff.mp hfirst
      rw [← hpart.numberAt_first hroom, ← hsize] at hsize'
      omega

end Xml

namespace Resource

/-- The bytes of a resource table whose packages are given as bytes. -/
def encodeTable (strings : List String) (packages : List (List UInt8)) : List UInt8 :=
  encodeChunk resourceTableType (wordBytes [packages.length])
    (StringPool.encode true strings ++ packages.flatten)

theorem TableSource.encode_eq (s : TableSource) :
    s.encode = encodeTable s.strings (s.packages.map PackageSource.encode) := by
  rw [TableSource.encode, encodeTable, List.length_map, List.flatMap_def]

namespace Table

/-- A table cannot be decoded without the end of its first chunk, as long as anything is left. -/
theorem decode_first {header : ChunkHeader}
    (hheader : (ChunkHeader.read none).Reads buffer 0 header stop) (hcut : n < header.stop)
    (hn : n ≤ buffer.size) (hsome : 0 < n) :
    ∃ e, Table.decode (buffer.extract 0 n) = .error e ∧ e.category = .outOfBounds := by
  obtain ⟨hpart, hlength⟩ := Holds.of_first hn
  generalize buffer.extract 0 n = part at hpart hlength ⊢
  have hfirst := ChunkHeader.read_fallsShort hpart hheader (by omega)
  have hchunks : (readChunks part.size empty 0).FallsShort part 0 := by
    rw [readChunks, dif_pos (by omega)]
    exact .after (.goTo 0) hfirst.bind
  have hread : Table.read.FallsShort part 0 := .after .bufferSize hchunks.bind
  exact hread.within

theorem decode_nothing : Table.decode #[] = .ok empty := by
  rw [decode, run, read]
  decide +kernel

end Table

end Resource

/-- No part of a file that is cut off before its end can be decoded: not of a DEX file or a
document whose declared size is its length, and not of a written resource table, as long as
anything is left of it. -/
theorem decode_cut (hcut : n < buffer.size) :
    (∀ f, Dex.File.decode buffer = .ok f → f.tables.header.fileSize = buffer.size →
      ∃ e, Dex.File.decode (buffer.extract 0 n) = .error e ∧ e.category = .outOfBounds) ∧
    (∀ d, Xml.Document.decode buffer = .ok d → d.fileSize = buffer.size →
      ∃ e, Xml.Document.decode (buffer.extract 0 n) = .error e ∧ e.category = .unreadable) ∧
    ∀ strings packages, buffer.toList = Resource.encodeTable strings packages →
      buffer.size < 0x100000000 → 0 < n →
      ∃ e, Resource.Table.decode (buffer.extract 0 n) = .error e ∧ e.category = .outOfBounds := by
  have hn := Nat.le_of_lt hcut
  refine ⟨fun f hdecode hsize => ?_, fun d hdecode hsize => ?_, ?_⟩
  · exact Dex.File.decode_first hdecode (hsize ▸ hcut) hn
  · exact Xml.Document.decode_first hdecode (hsize ▸ hcut) hn
  · intro strings packages hbytes hsize hsome
    have hlength : buffer.size = (Resource.encodeTable strings packages).length := by
      rw [← hbytes, Array.length_toList]
    have hall : Holds buffer 0 (Resource.encodeTable strings packages) :=
      ⟨[], [], by simp [hbytes], rfl⟩
    have hcount : chunkHeaderSize + (wordBytes [packages.length]).length < 0x10000 := by
      simp [chunkHeaderSize]
    have hheader := ChunkHeader.read_reads hall (by decide) hcount (hlength ▸ hsize) (.inl rfl)
    refine Resource.Table.decode_first hheader ?_ hn hsome
    rw [ChunkHeader.written_stop, Nat.zero_add]
    exact hlength ▸ hcut

/-- A file without any rows. -/
def Dex.rowless : Bytes :=
  ((Draft.ofEntries []).encode ⟨"035", 0, List.replicate 20 0⟩).toArray

/-- A document of one element. -/
def Xml.lone : Bytes :=
  (Manuscript.encode true ⟨[], [], ⟨"a", none, [], none, []⟩, []⟩).toArray

/-- A table of one string. -/
def Resource.packageless : Bytes :=
  (encodeTable ["a"] []).toArray

/-- Each of the three, cut off behind its fixed fields. -/
theorem decode_cut_small :
    ((∃ f, Dex.File.decode Dex.rowless = .ok f ∧ f.tables.header.fileSize = Dex.rowless.size) ∧
      ∃ e, Dex.File.decode (Dex.rowless.extract 0 112) = .error e ∧ e.category = .outOfBounds) ∧
    ((∃ d, Xml.Document.decode Xml.lone = .ok d ∧ d.fileSize = Xml.lone.size) ∧
      ∃ e, Xml.Document.decode (Xml.lone.extract 0 8) = .error e ∧ e.category = .unreadable) ∧
    Resource.packageless.size < 0x100000000 ∧
      ∃ e, Resource.Table.decode (Resource.packageless.extract 0 12) = .error e ∧
        e.category = .outOfBounds := by
  have hfile : (Dex.File.decode Dex.rowless).toOption.any (fun f =>
      f.tables.header.fileSize = Dex.rowless.size) = true := by
    decide +kernel
  have hdocument : (Xml.Document.decode Xml.lone).toOption.any (fun d =>
      d.fileSize = Xml.lone.size) = true := by
    decide +kernel
  have hsize : Resource.packageless.size < 0x100000000 := by
    decide +kernel
  obtain ⟨f, hf, hfsize⟩ := exists_ok_of_any hfile
  obtain ⟨d, hd, hdsize⟩ := exists_ok_of_any hdocument
  have hfsize := of_decide_eq_true hfsize
  have hdsize := of_decide_eq_true hdsize
  refine ⟨⟨⟨f, hf, hfsize⟩, ?_⟩, ⟨⟨d, hd, hdsize⟩, ?_⟩, hsize, ?_⟩
  · exact (decode_cut (by decide +kernel)).1 f hf hfsize
  · exact (decode_cut (by decide +kernel)).2.1 d hd hdsize
  · exact (decode_cut (by decide +kernel)).2.2 ["a"] [] rfl hsize (by decide)

/-- Of a written table, the first part without any bytes is a table again. -/
theorem Resource.Table.decode_cut_empty :
    (∃ t, Table.decode packageless = .ok t ∧ t.strings = ["a"]) ∧ 0 < packageless.size ∧
      Table.decode (packageless.extract 0 0) = .ok .empty := by
  have haccepted : (Table.decode packageless).toOption.any (fun t => t.strings = ["a"]) = true := by
    decide +kernel
  obtain ⟨t, hdecode, hstrings⟩ := exists_ok_of_any haccepted
  refine ⟨⟨t, hdecode, of_decide_eq_true hstrings⟩, by decide +kernel, ?_⟩
  rw [Array.extract_zero]
  exact decode_nothing

end ApkFormats
