import ApkFormats.Proofs.Reading
import ApkFormats.Proofs.Text
import ApkFormats.StringPool

/-!
# Chunks and string pools are read back

* `ChunkHeader.read_reads`: the header of a written chunk is read back, wherever
  the chunk stands;
* `StringPool.read_reads`: a written pool is read back, in either encoding, and
  the cursor is left behind its chunk;
* `StringPool.strings_of_encode`: so it is decoded between any other bytes, and
  both encodings of some strings give the same.

The offsets of a pool count from the end of its table of offsets, so that the
strings are found by `Decoder.Finds`, whatever the cursor was.
-/

namespace ApkFormats

section Chunks

/-! ## Chunks -/

variable {buffer : Bytes} {start type : Nat} {fields body : List UInt8}

theorem length_encodeChunk (type : Nat) (fields body : List UInt8) :
    (encodeChunk type fields body).length = chunkHeaderSize + fields.length + body.length := by
  simp only [encodeChunk, List.length_append, length_toLittleEndian, chunkHeaderSize]

namespace ChunkHeader

/-- The header of a written chunk. -/
def written (type start : Nat) (fields body : List UInt8) : ChunkHeader :=
  ⟨type, chunkHeaderSize + fields.length, chunkHeaderSize + fields.length + body.length, start,
    Nat.le_add_right _ _, Nat.le_add_right _ _⟩

@[simp] theorem written_type : (written type start fields body).type = type :=
  rfl

@[simp] theorem written_offset : (written type start fields body).offset = start :=
  rfl

@[simp] theorem written_headerSize :
    (written type start fields body).headerSize = chunkHeaderSize + fields.length :=
  rfl

@[simp] theorem written_payload :
    (written type start fields body).payload = start + chunkHeaderSize + fields.length :=
  (Nat.add_assoc start chunkHeaderSize fields.length).symm

@[simp] theorem written_size :
    (written type start fields body).size = (encodeChunk type fields body).length :=
  (length_encodeChunk type fields body).symm

@[simp] theorem written_stop :
    (written type start fields body).stop = start + (encodeChunk type fields body).length := by
  rw [length_encodeChunk]
  rfl

end ChunkHeader

namespace Holds

/-- The fields and the body of a chunk stand behind its common fields. -/
theorem chunk (h : Holds buffer start (encodeChunk type fields body)) :
    Holds buffer (start + chunkHeaderSize) (fields ++ body) := by
  have hrest : Holds buffer start ((toLittleEndian 2 type ++
      toLittleEndian 2 (chunkHeaderSize + fields.length) ++
      toLittleEndian 4 (chunkHeaderSize + fields.length + body.length)) ++ (fields ++ body)) := by
    rwa [encodeChunk, List.append_assoc] at h
  have hright := hrest.right
  simp only [List.length_append, length_toLittleEndian] at hright
  exact hright

/-- The body of a chunk stands behind its header. -/
theorem chunkBody (h : Holds buffer start (encodeChunk type fields body)) :
    Holds buffer (start + chunkHeaderSize + fields.length) body :=
  h.chunk.right

end Holds

/-- The header of a written chunk is read back. -/
theorem ChunkHeader.read_reads {expected : Option Nat}
    (h : Holds buffer start (encodeChunk type fields body))
    (htype : type < 0x10000)
    (hfields : chunkHeaderSize + fields.length < 0x10000)
    (hsize : (encodeChunk type fields body).length < 0x100000000)
    (hexpected : expected = none ∨ expected = some type) :
    (ChunkHeader.read expected).Reads buffer start (written type start fields body)
      (start + chunkHeaderSize) := by
  have hend := h.le_size
  have hlength := length_encodeChunk type fields body
  rw [hlength] at hsize hend
  have hbytes : Holds buffer start (toLittleEndian 2 type ++
      (toLittleEndian 2 (chunkHeaderSize + fields.length) ++
        (toLittleEndian 4 (chunkHeaderSize + fields.length + body.length) ++
          (fields ++ body)))) := by
    simpa only [encodeChunk, List.append_assoc] using h
  have hrequire (cursor : Nat) :
      (requireType expected start type).Reads buffer cursor () cursor := by
    rcases hexpected with rfl | rfl
    · exact .pure ()
    · exact .require (beq_self_eq_true type)
  unfold ChunkHeader.read
  refine .bind .position (.u16 hbytes htype fun hbytes => ?_)
  refine .u16 hbytes hfields fun hbytes => .u32 hbytes hsize fun _ => ?_
  refine .bind .bufferSize (.bind (hrequire _) ?_)
  rw [dif_pos ⟨Nat.le_add_right _ _, Nat.le_add_right _ _⟩]
  exact .bind (.require (decide_eq_true hend)) (.pure _)

/-- The header of a chunk of an expected type is read back, with the places of its parts. -/
theorem ChunkHeader.read_exists (h : Holds buffer start (encodeChunk type fields body))
    (htype : type < 0x10000) (hfields : chunkHeaderSize + fields.length < 0x10000)
    (hsize : buffer.size < 0x100000000) :
    ∃ header : ChunkHeader, header.offset = start ∧
      header.payload = start + chunkHeaderSize + fields.length ∧
      header.stop = start + (encodeChunk type fields body).length ∧
      (ChunkHeader.read (some type)).Reads buffer start header (start + chunkHeaderSize) := by
  have hroom := h.le_size
  exact ⟨written type start fields body, written_offset, written_payload, written_stop,
    read_reads h htype hfields (by omega) (.inr rfl)⟩

end Chunks

namespace StringPool

/-- A string that a pool can hold: its length fits into the marks of the encoding. -/
def Fits (utf8 : Bool) (s : String) : Prop :=
  if utf8 then (Text.Utf8.encode s.toList).length ≤ 0x7FFF
  else (Text.Utf16.encode s.toList).length ≤ 0x7FFFFFFF

instance (utf8 : Bool) (s : String) : Decidable (Fits utf8 s) :=
  inferInstanceAs (Decidable (if utf8 then _ else _))

section Marks

/-! ## Length marks -/

variable {n : Nat} {buffer : Bytes}

theorem shortMark_decodes (h : n ≤ 0x7FFF) : shortMark.Decodes buffer n (encodeShortMark n) := by
  unfold encodeShortMark
  by_cases hshort : n < 0x80
  · have hread : shortMark.Decodes buffer n ([UInt8.ofNat n] ++ []) :=
      (Decoder.Decodes.u8 (by omega)).bind (.ite_true hshort (.pure n))
    rwa [if_pos hshort]
  · have hn : (0x80 + n / 0x100) % 0x80 * 0x100 + n % 0x100 = n := by omega
    have hread : shortMark.Decodes buffer n
        ([UInt8.ofNat (0x80 + n / 0x100)] ++ [UInt8.ofNat (n % 0x100)]) :=
      (Decoder.Decodes.u8 (by omega)).bind (.ite_false (by omega) (.last (.u8 (by omega)) hn))
    rwa [if_neg hshort]

theorem longMark_decodes (h : n ≤ 0x7FFFFFFF) : longMark.Decodes buffer n (encodeLongMark n) := by
  unfold encodeLongMark
  by_cases hshort : n < 0x8000
  · have hread : longMark.Decodes buffer n (toLittleEndian 2 n ++ []) :=
      (Decoder.Decodes.u16 (by omega)).bind (.ite_true hshort (.pure n))
    rw [if_pos hshort]
    rwa [List.append_nil] at hread
  · have hn : (0x8000 + n / 0x10000) % 0x8000 * 0x10000 + n % 0x10000 = n := by omega
    rw [if_neg hshort]
    exact (Decoder.Decodes.u16 (by omega)).bind
      (.ite_false (by omega) (.last (.u16 (by omega)) hn))

end Marks

section Strings

/-! ## Strings -/

variable {utf8 : Bool} {s : String} {strings : List String} {buffer : Bytes} {start : Nat}

/-- The bytes of a text in either encoding, without its marks. -/
def textBytes (utf8 : Bool) (s : String) : List UInt8 :=
  if utf8 then Text.Utf8.encode s.toList else halfWordBytes (Text.Utf16.encode s.toList)

/-- The marks of a string. -/
def markBytes (utf8 : Bool) (s : String) : List UInt8 :=
  let units := Text.Utf16.encode s.toList
  if utf8 then
    encodeShortMark units.length ++ encodeShortMark (Text.Utf8.encode s.toList).length
  else encodeLongMark units.length

theorem encodeString_eq (utf8 : Bool) (s : String) :
    encodeString utf8 s =
      markBytes utf8 s ++ (textBytes utf8 s ++ if utf8 then [0] else [0, 0]) := by
  cases utf8 <;> simp [encodeString, markBytes, textBytes]

theorem byteLength_decodes (h : Fits utf8 s) :
    (byteLength utf8).Decodes buffer (textBytes utf8 s).length (markBytes utf8 s) := by
  cases utf8 with
  | true =>
      have hbytes : (Text.Utf8.encode s.toList).length ≤ 0x7FFF := h
      have hunits := Text.Utf8.length_utf16_le s.toList
      exact (shortMark_decodes (by omega)).bind (shortMark_decodes hbytes)
  | false =>
      have hunits : (Text.Utf16.encode s.toList).length ≤ 0x7FFFFFFF := h
      exact (longMark_decodes hunits).last (length_halfWordBytes _).symm

/-- The bytes of a text are read back. -/
theorem decodeText_textBytes (utf8 : Bool) (s : String) :
    decodeText utf8 (textBytes utf8 s) = .ok s := by
  cases utf8 with
  | true => simp [decodeText, textBytes, Text.Utf8.decode_encode, Except.map]
  | false =>
      have hunits := halfWords_halfWordBytes (Text.Utf16.encode s.toList) fun u hu =>
        Text.Utf16.lt_of_mem_encode hu
      simp [decodeText, textBytes, hunits, Text.Utf16.decode_encode]

/-- A written string is found at its offset when it lies inside the chunk. -/
theorem readString_finds {header : ChunkHeader} (h : Holds buffer start (encodeString utf8 s))
    (hfits : Fits utf8 s) (hstop : start + (encodeString utf8 s).length ≤ header.stop) :
    (readString header utf8 start).Finds buffer s := by
  rw [encodeString_eq] at h hstop
  have hzeros : 0 < (if utf8 then [0] else [0, 0] : List UInt8).length := by
    cases utf8 <;> decide
  simp only [List.length_append] at hstop
  unfold readString
  intro cursor
  refine Decoder.Yields.bind (.require (decide_eq_true (by omega))) (.bind (.goTo start) ?_)
  suffices hread : Decoder.Reads _ buffer start s
      (start + (markBytes utf8 s).length + (textBytes utf8 s).length) from hread.result
  refine .field h (byteLength_decodes hfits) fun h => .bind .position ?_
  refine .bind (.require (decide_eq_true (by omega))) ?_
  refine .field h (.take _) fun _ => ?_
  rw [decodeText_textBytes]
  exact .pure s

end Strings

section Offsets

/-! ## Offsets of strings -/

variable {utf8 : Bool} {strings : List String} {buffer : Bytes}

@[simp] theorem length_offsetsFrom (start : Nat) (pieces : List (List UInt8)) :
    (offsetsFrom start pieces).length = pieces.length := by
  induction pieces generalizing start with
  | nil => rfl
  | cons piece rest ih => simp [offsetsFrom, ih]

/-- No piece starts behind the end of all of them. -/
theorem le_of_mem_offsetsFrom {start offset : Nat} {pieces : List (List UInt8)}
    (h : offset ∈ offsetsFrom start pieces) : offset ≤ start + pieces.flatten.length := by
  induction pieces generalizing start with
  | nil => cases h
  | cons piece rest ih =>
      rw [List.flatten_cons, List.length_append]
      rcases List.mem_cons.mp h with rfl | htail
      · omega
      · have hoffset := ih htail
        omega

/-- Every string is found at the offset that the table gives it. -/
theorem readString_offsets (header : ChunkHeader) {base start : Nat}
    (h : Holds buffer (base + start) (strings.map (encodeString utf8)).flatten)
    (hfits : ∀ s ∈ strings, Fits utf8 s)
    (hstop : base + start + (strings.map (encodeString utf8)).flatten.length ≤ header.stop) :
    List.Forall₂ (fun offset s => (readString header utf8 (base + offset)).Finds buffer s)
      (offsetsFrom start (strings.map (encodeString utf8))) strings := by
  induction strings generalizing start with
  | nil => exact .nil
  | cons s rest ih =>
      rw [List.map_cons, List.flatten_cons] at h hstop
      rw [List.length_append] at hstop
      refine .cons (readString_finds h.left (hfits s List.mem_cons_self) (by omega)) ?_
      refine ih ?_ (fun t ht => hfits t (List.mem_cons_of_mem _ ht)) (by omega)
      rw [← Nat.add_assoc]
      exact h.right

end Offsets

/-- Flag word of a pool in either encoding. -/
def flagWord (utf8 : Bool) : Nat :=
  if utf8 then 0x100 else 0

@[simp] theorem storesUtf8_flagWord (utf8 : Bool) : storesUtf8 (flagWord utf8) = utf8 := by
  cases utf8 <;> decide

/-- The header fields of a written pool. -/
def poolFields (utf8 : Bool) (strings : List String) : List UInt8 :=
  wordBytes [strings.length, 0, flagWord utf8, fixedSize + 4 * strings.length, 0]

/-- The body of a written pool: offsets, strings and padding. -/
def poolBody (utf8 : Bool) (strings : List String) : List UInt8 :=
  let pieces := strings.map (encodeString utf8)
  wordBytes (offsetsFrom 0 pieces) ++ (pieces.flatten ++ padding pieces.flatten.length)

theorem encode_eq (utf8 : Bool) (strings : List String) :
    encode utf8 strings =
      encodeChunk stringPoolType (poolFields utf8 strings) (poolBody utf8 strings) := by
  simp only [encode, poolFields, poolBody, flagWord, List.append_assoc]

/-- A pool takes four bytes at least for each of its strings. -/
theorem length_le_encode (utf8 : Bool) (strings : List String) :
    4 * strings.length + 28 ≤ (encode utf8 strings).length := by
  rw [encode_eq, length_encodeChunk]
  simp only [poolFields, poolBody, length_wordBytes, List.length_append, length_offsetsFrom,
    List.length_map, List.length_cons, List.length_nil, chunkHeaderSize]
  omega

/-- The pool that is read from a written one. -/
def written (utf8 : Bool) (strings : List String) (start : Nat) : StringPool :=
  ⟨.written stringPoolType start (poolFields utf8 strings) (poolBody utf8 strings),
    strings.length, 0, flagWord utf8, fixedSize + 4 * strings.length, 0, strings.toArray⟩

@[simp] theorem written_strings (utf8 : Bool) (strings : List String) (start : Nat) :
    (written utf8 strings start).strings = strings.toArray :=
  rfl

@[simp] theorem written_stop (utf8 : Bool) (strings : List String) (start : Nat) :
    (written utf8 strings start).header.stop = start + (encode utf8 strings).length := by
  rw [encode_eq]
  exact ChunkHeader.written_stop

/-- A string is looked up at its index, which is not the word for "no index". -/
theorem stringAt_eq {pool : StringPool} {i : Nat} {s : String} (h : pool.strings[i]? = some s)
    (hi : i < noIndex) : pool.stringAt i = .ok s := by
  have hindex : ¬((i : Int) = noIndex ∨ (i : Int) < 0) := by omega
  rw [stringAt, if_neg hindex, Int.toNat_natCast, h]

theorem length_poolFields (utf8 : Bool) (strings : List String) :
    chunkHeaderSize + (poolFields utf8 strings).length = fixedSize := by
  simp [poolFields, chunkHeaderSize, fixedSize]

/-- The offsets of a pool are read back. -/
theorem offsets_decodes {utf8 : Bool} {strings : List String} {buffer : Bytes}
    (h : (strings.map (encodeString utf8)).flatten.length < 0x100000000) :
    (Decoder.times Decoder.u32 strings.length).Decodes buffer
      (offsetsFrom 0 (strings.map (encodeString utf8)))
      (wordBytes (offsetsFrom 0 (strings.map (encodeString utf8)))) := by
  have hcount : (offsetsFrom 0 (strings.map (encodeString utf8))).length = strings.length := by
    simp
  refine .words hcount fun offset hoffset => ?_
  have hle := le_of_mem_offsetsFrom hoffset
  omega

/-- The offsets of a pool stand behind its header, and its strings behind them. -/
theorem parts_at {utf8 : Bool} {strings : List String} {buffer : Bytes} {start : Nat}
    (h : Holds buffer start (encode utf8 strings)) :
    Holds buffer (start + fixedSize) (wordBytes (offsetsFrom 0 (strings.map (encodeString utf8)))) ∧
      Holds buffer (start + (fixedSize + 4 * strings.length))
        (strings.map (encodeString utf8)).flatten := by
  rw [encode_eq] at h
  have hbody := h.chunkBody
  rw [Nat.add_assoc, length_poolFields, poolBody] at hbody
  have hstrings := hbody.right.left
  rw [length_wordBytes, length_offsetsFrom, List.length_map, Nat.add_assoc] at hstrings
  exact ⟨hbody.left, hstrings⟩

/-- A written pool is read back, wherever it stands. -/
theorem read_reads {utf8 : Bool} {strings : List String} {buffer : Bytes} {start : Nat}
    (h : Holds buffer start (encode utf8 strings))
    (hsize : (encode utf8 strings).length < 0x100000000)
    (hfits : ∀ s ∈ strings, Fits utf8 s) :
    read.Reads buffer start (written utf8 strings start)
      (start + (encode utf8 strings).length) := by
  obtain ⟨hoffsets, hstrings⟩ := parts_at h
  have hflags : flagWord utf8 < 0x100000000 := by
    cases utf8 <;> decide
  have hlength : (encode utf8 strings).length = fixedSize + (poolBody utf8 strings).length := by
    rw [encode_eq, length_encodeChunk, length_poolFields]
  have hbody : 4 * strings.length + (strings.map (encodeString utf8)).flatten.length ≤
      (poolBody utf8 strings).length := by
    simp only [poolBody, List.length_append, length_wordBytes, length_offsetsFrom, List.length_map]
    omega
  simp only [fixedSize] at hlength
  rw [encode_eq] at h
  have hfields := h.chunk
  unfold read
  refine .bind (ChunkHeader.read_reads h (by decide) (by rw [length_poolFields]; decide)
    (by rwa [← encode_eq]) (.inr rfl)) ?_
  refine .bind (.require (decide_eq_true ?_)) ?_
  · exact Nat.le_of_eq (length_poolFields utf8 strings).symm
  simp only [poolFields, wordBytes_cons, wordBytes_nil, List.append_assoc, List.append_nil]
    at hfields
  refine .u32 hfields (by omega) fun hfields => .u32 hfields (by omega) fun hfields => ?_
  refine .u32 hfields hflags fun hfields => ?_
  refine .u32 hfields (by simp only [fixedSize]; omega) fun hfields => ?_
  refine .u32 hfields (by omega) fun _ => ?_
  have hroom : start + fixedSize + 4 * strings.length ≤ start + (encode utf8 strings).length := by
    simp only [fixedSize]
    omega
  rw [ChunkHeader.written_payload, Nat.add_assoc start, length_poolFields, ChunkHeader.written_stop,
    ← encode_eq]
  refine .bind (.goTo _) (.bind (.require (decide_eq_true hroom)) ?_)
  refine .bind (offsets_decodes (by omega) _ hoffsets) (.bind (.pure ()) ?_)
  rw [← Nat.add_zero (start + _)] at hstrings
  have hfound := readString_offsets (written utf8 strings start).header hstrings hfits
    (by rw [written_stop]; simp only [fixedSize]; omega)
  rw [storesUtf8_flagWord]
  exact .bind_finds (.each hfound) fun _ => .bind (.note _) (.bind (.goTo _) (.pure _))

/-- A written pool is read back with its strings, few enough for their indices to be index words,
and with the place where it ends. -/
theorem read_exists {utf8 : Bool} {strings : List String} {buffer : Bytes} {start : Nat}
    (h : Holds buffer start (encode utf8 strings)) (hsize : buffer.size < 0x100000000)
    (hfits : ∀ s ∈ strings, Fits utf8 s) :
    ∃ pool : StringPool, pool.strings = strings.toArray ∧ pool.strings.size ≤ noIndex ∧
      pool.header.stop = start + (encode utf8 strings).length ∧
      read.Reads buffer start pool (start + (encode utf8 strings).length) := by
  have hroom := h.le_size
  have hmany := length_le_encode utf8 strings
  refine ⟨written utf8 strings start, rfl, ?_, written_stop utf8 strings start,
    read_reads h (by omega) hfits⟩
  rw [written_strings, List.size_toArray]
  simp only [noIndex]
  omega

/-- Strings that a pool can be written of: each fits into its marks, and the chunk into its size. -/
def Writable (utf8 : Bool) (strings : List String) : Prop :=
  (∀ s ∈ strings, Fits utf8 s) ∧ (encode utf8 strings).length < 0x100000000

instance (utf8 : Bool) (strings : List String) : Decidable (Writable utf8 strings) :=
  inferInstanceAs (Decidable (_ ∧ _))

/-- A written pool is decoded between any other bytes, and the cursor is left behind it. -/
theorem runAt_encode {utf8 : Bool} {strings : List String} (subject : String)
    (before after : List UInt8) (h : Writable utf8 strings) :
    read.runAt subject (before ++ encode utf8 strings ++ after).toArray before.length =
      .ok (written utf8 strings before.length, before.length + (encode utf8 strings).length) := by
  have hread := read_reads (Holds.intro before (encode utf8 strings) after) h.2 h.1
  have hresult : (read (before ++ encode utf8 strings ++ after).toArray before.length).result =
      .ok (written utf8 strings before.length) := hread.result
  simp only [Decoder.runAt, Outcome.within, hresult, Except.mapError, hread.cursor]

/-- A written pool is decoded to its strings, whatever stands before and behind it, and the cursor
is left at the end of its chunk; so both encodings of some strings are decoded to the same. -/
theorem strings_of_encode (subject : String) (strings : List String) (before after : List UInt8) :
    (∀ utf8, Writable utf8 strings →
      ∃ pool, read.runAt subject (before ++ encode utf8 strings ++ after).toArray before.length =
          .ok (pool, before.length + (encode utf8 strings).length) ∧
        pool.strings.toList = strings ∧ pool.isUtf8 = utf8 ∧
        pool.header.stop = before.length + (encode utf8 strings).length) ∧
    (Writable true strings → Writable false strings →
      ∃ narrow wide stop stop',
        read.runAt subject (before ++ encode true strings ++ after).toArray before.length =
          .ok (narrow, stop) ∧
        read.runAt subject (before ++ encode false strings ++ after).toArray before.length =
          .ok (wide, stop') ∧
        narrow.strings = wide.strings) := by
  constructor
  · intro utf8 h
    exact ⟨_, runAt_encode subject before after h, rfl, storesUtf8_flagWord utf8,
      written_stop utf8 strings before.length⟩
  · intro hnarrow hwide
    exact ⟨_, _, _, _, runAt_encode subject before after hnarrow,
      runAt_encode subject before after hwide, rfl⟩

/-- Strings with no characters, with characters of several bytes and with a surrogate pair. -/
def mixed : List String :=
  ["", "日本語", "😀 x"]

/-- Both pools are decoded between other bytes, each with its own end. -/
theorem strings_of_encode_mixed :
    (Writable true mixed ∧ Writable false mixed) ∧
    (∃ pool, read.runAt "StringPool" ([7] ++ encode true mixed ++ [8, 9]).toArray 1 =
      .ok (pool, 65) ∧ pool.strings.toList = mixed) ∧
    ∃ pool, read.runAt "StringPool" ([7] ++ encode false mixed ++ [8, 9]).toArray 1 =
      .ok (pool, 69) ∧ pool.strings.toList = mixed := by
  have hwritable : Writable true mixed ∧ Writable false mixed := by
    decide +kernel
  have hends : 1 + (encode true mixed).length = 65 ∧ 1 + (encode false mixed).length = 69 := by
    decide +kernel
  have heach := (strings_of_encode "StringPool" mixed [7] [8, 9]).1
  obtain ⟨narrow, hnarrow, hstrings, -⟩ := heach true hwritable.1
  obtain ⟨wide, hwide, hstrings', -⟩ := heach false hwritable.2
  rw [List.length_singleton, hends.1] at hnarrow
  rw [List.length_singleton, hends.2] at hwide
  exact ⟨hwritable, ⟨narrow, hnarrow, hstrings⟩, wide, hwide, hstrings'⟩

end StringPool

end ApkFormats
