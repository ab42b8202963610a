import ApkFormats.Proofs.StringPool
import ApkFormats.Resource.Source
import Mathlib.Data.Fin.Basic

/-!
# Entries of a type are read back

* `readCode_decodes`: a language or region is read from its two bytes;
* `Config.read_reads`: so is a configuration, whose language and region alone are
  decoded;
* `readEntry_offsets`: every entry is found at its offset, and places without an
  entry stay empty;
* `TypeEntries.read_exists`: the entries of a type are read with their
  configuration.
-/

namespace ApkFormats.Resource

section Codes

/-! ## Languages and regions -/

variable {buffer : Bytes}

/-- A plain letter: a character of ASCII other than the zero. -/
def IsPlain (c : Char) : Prop :=
  0 < c.toNat ∧ c.toNat < 0x80

instance (c : Char) : Decidable (IsPlain c) :=
  inferInstanceAs (Decidable (_ ∧ _))

/-- A code whose letters, if they are not packed, are plain. -/
def CodeSource.Fits : CodeSource → Prop
  | .letters first second => IsPlain first ∧ IsPlain second
  | _ => True

instance : (c : CodeSource) → Decidable c.Fits
  | .none => inferInstanceAs (Decidable True)
  | .letters _ _ => inferInstanceAs (Decidable (_ ∧ _))
  | .packed _ _ _ => inferInstanceAs (Decidable True)

@[simp] theorem CodeSource.length_encode (c : CodeSource) : c.encode.length = 2 := by
  cases c <;> rfl

/-- The byte of a plain letter is below the high bit and not zero, and stands for the letter. -/
theorem IsPlain.byte {c : Char} (h : IsPlain c) :
    UInt8.ofNat c.toNat < 0x80 ∧ UInt8.ofNat c.toNat ≠ 0 ∧
      Char.ofNat (UInt8.ofNat c.toNat).toNat = c ∧ c ≠ '\x00' := by
  obtain ⟨hpos, hsmall⟩ := h
  have hbyte := toNat_byte (n := c.toNat) (by omega)
  refine ⟨?_, ?_, ?_, ?_⟩
  · rw [UInt8.lt_iff_toNat_lt, hbyte]
    exact hsmall
  · intro hzero
    rw [hzero] at hbyte
    exact Nat.ne_of_lt hpos hbyte
  · rw [hbyte, Char.ofNat_toNat]
  · rintro rfl
    exact Nat.lt_irrefl 0 hpos

/-- Packed letters are unpacked. -/
theorem unpackLetters_packed (base : Char) (first second third : Fin 32) :
    unpackLetters base (UInt8.ofNat (0x80 + 4 * third.val + second.val / 8))
        (UInt8.ofNat (0x20 * (second.val % 8) + first.val)) =
      String.ofList
        ([first, second, third].map fun part => Char.ofNat (base.toNat + part.val)) := by
  obtain ⟨first, hfirst⟩ := first
  obtain ⟨second, hsecond⟩ := second
  obtain ⟨third, hthird⟩ := third
  have hhigh := toNat_byte (n := 0x80 + 4 * third + second / 8) (by omega)
  have hlow := toNat_byte (n := 0x20 * (second % 8) + first) (by omega)
  generalize hword : (0x80 + 4 * third + second / 8) * 0x100 + (0x20 * (second % 8) + first) = word
  have hparts : (splitBits (word : Int) [5, 5, 5]).map Int.toNat = [first, second, third] := by
    simp only [splitBits, Nat.one_shiftLeft, Int.shiftRight_eq_div_pow, List.map_cons,
      List.map_nil, List.cons.injEq, and_true]
    omega
  have hmap := congrArg (List.map fun n => Char.ofNat (base.toNat + n)) hparts
  rw [List.map_map] at hmap
  simp only [unpackLetters, hhigh, hlow, hword]
  exact congrArg String.ofList hmap

/-- A code is read off its bytes. -/
theorem decodeCode_encode {c : CodeSource} (h : c.Fits) (base : Char) :
    decodeCode c.encode base = .ok (c.text base) := by
  cases c with
  | none => rfl
  | letters first second =>
      obtain ⟨hfirstSmall, hfirstZero, hfirst, -⟩ := h.1.byte
      obtain ⟨hsecondSmall, -, hsecond, hnotZero⟩ := h.2.byte
      have htrim : Text.trimEnd (· = '\x00') [first, second] = [first, second] := by
        simp [Text.trimEnd, hnotZero]
      have hletters : plainLetters? (CodeSource.letters first second).encode =
          some (String.ofList [first, second]) := by
        simp only [plainLetters?, CodeSource.encode, List.all_cons, List.all_nil, hfirstSmall,
          hsecondSmall, decide_true, Bool.and_self, if_true, List.map_cons, List.map_nil, hfirst,
          hsecond, htrim]
      have hnotZeros : (CodeSource.letters first second).encode ≠ [0, 0] := fun hzeros =>
        hfirstZero (List.cons.inj hzeros).1
      rw [CodeSource.text, ← hletters]
      simp only [CodeSource.encode] at hnotZeros hletters ⊢
      simp only [decodeCode, if_neg hnotZeros, if_pos hfirstSmall, hletters]
  | packed first second third =>
      have hbyte := toNat_byte (n := 0x80 + 4 * third.val + second.val / 8) (by omega)
      have hhigh : ¬UInt8.ofNat (0x80 + 4 * third.val + second.val / 8) < 0x80 := by
        rw [UInt8.lt_iff_toNat_lt, hbyte]
        exact Nat.not_lt.mpr (by rw [Nat.add_assoc]; exact Nat.le_add_right 0x80 _)
      have hzero : UInt8.ofNat (0x80 + 4 * third.val + second.val / 8) ≠ 0 := by
        intro h
        rw [h] at hhigh
        exact hhigh (by decide)
      simp only [decodeCode, CodeSource.encode, CodeSource.text, List.cons.injEq, hzero, false_and,
        if_false, hhigh, unpackLetters_packed]

/-- A code is read back. -/
theorem readCode_decodes {c : CodeSource} (h : c.Fits) (base : Char) :
    (readCode base).Decodes buffer (c.text base) c.encode := by
  have htake : (Decoder.take 2).Decodes buffer c.encode c.encode := by
    rw [← c.length_encode]
    exact .take c.encode
  refine .bind_position fun position => ?_
  intro start hbytes
  refine .bind (htake start hbytes) ?_
  rw [decodeCode_encode h base]
  exact .pure _

end Codes

section Configs

/-! ## Configurations -/

variable {buffer : Bytes}

namespace ConfigSource

/-- A configuration whose numbers and letters fit. -/
def Fits (c : ConfigSource) : Prop :=
  c.language.Fits ∧ c.region.Fits ∧ c.density < 0x10000

instance (c : ConfigSource) : Decidable c.Fits :=
  inferInstanceAs (Decidable (_ ∧ _ ∧ _))

/-- The configuration that is written. -/
def toConfig (c : ConfigSource) : Config :=
  ⟨fixedSize, 0, c.language.text firstLanguageLetter, c.region.text firstRegionLetter⟩

@[simp] theorem length_encode (c : ConfigSource) : c.encode.length = fixedSize := by
  simp [encode, fixedSize]

end ConfigSource

/-- A configuration is read back, and what is not decoded of it is passed over. -/
theorem Config.read_decodes {c : ConfigSource} (h : c.Fits) :
    Config.read.Decodes buffer c.toConfig c.encode := by
  intro start hbytes
  rw [ConfigSource.length_encode]
  simp only [ConfigSource.encode, wordBytes_cons, wordBytes_nil, List.append_nil,
    List.append_assoc] at hbytes
  unfold Config.read
  refine .bind .position (.u32 hbytes (by decide) fun hbytes => ?_)
  refine .bind (.require (by decide)) (.u32 hbytes (by decide) fun hbytes => ?_)
  refine .field hbytes (readCode_decodes h.1 firstLanguageLetter) fun hbytes => ?_
  refine .field hbytes (readCode_decodes h.2.1 firstRegionLetter) fun _ => ?_
  exact .bind (.goTo _) (.pure _)

end Configs

section Entries

/-! ## Entries -/

variable {buffer : Bytes} {keys : StringPool} {header : ChunkHeader} {base : Nat}

/-- Two bytes that are written as one number. -/
theorem toLittleEndian_two {a b : Nat} (ha : a < 0x100) :
    toLittleEndian 2 (a + 0x100 * b) = [UInt8.ofNat a, UInt8.ofNat (b % 0x100)] := by
  have hlow : (a + 0x100 * b) % 256 = a := by omega
  have hhigh : (a + 0x100 * b) / 256 = b := by omega
  rw [toLittleEndian, toLittleEndian, toLittleEndian, hlow, hhigh]

namespace EntrySource

/-- A place whose entry has one of so many keys and a value that fits. -/
def Fits (keys : Nat) : EntrySource → Prop
  | .absent => True
  | .simple key type data => key < keys ∧ type < 0x100 ∧ data < 0x100000000
  | .complex key => key < keys

instance (keys : Nat) : (e : EntrySource) → Decidable (e.Fits keys)
  | .absent => inferInstanceAs (Decidable True)
  | .simple _ _ _ => inferInstanceAs (Decidable (_ ∧ _ ∧ _))
  | .complex _ => inferInstanceAs (Decidable (_ < _))

theorem length_encode {e : EntrySource} (h : e ≠ .absent) : e.encode.length = Entry.fixedSize := by
  cases e with
  | absent => exact absurd rfl h
  | simple key type data => simp [encode, Entry.fixedSize]
  | complex key => simp [encode, Entry.fixedSize]

theorem offsetsFrom_cons {e : EntrySource} (h : e ≠ .absent) (start : Nat)
    (rest : List EntrySource) :
    offsetsFrom start (e :: rest) = start :: offsetsFrom (start + e.encode.length) rest := by
  cases e with
  | absent => exact absurd rfl h
  | simple key type data => rfl
  | complex key => rfl

end EntrySource

/-- An entry is read back, and its key is one of the keys. -/
theorem Entry.read_exists (buffer : Bytes) {e : EntrySource} {bound : Nat} (he : e ≠ .absent)
    (h : e.Fits bound) (hbound : bound ≤ noIndex) :
    ∃ entry : Entry, e.toEntry? = some entry ∧ entry.key < bound ∧
      Entry.read.Decodes buffer entry e.encode := by
  cases e with
  | absent => exact absurd rfl he
  | simple key type data =>
      obtain ⟨hkey, htype, hdata⟩ := h
      refine ⟨_, rfl, hkey, ?_⟩
      have hmarks := toLittleEndian_two (a := 0) (b := type) (by decide)
      rw [Nat.zero_add, Nat.mod_eq_of_lt htype] at hmarks
      have hkeyWord : key < 0x100000000 := by
        simp only [noIndex] at hbound
        omega
      have hvalue : StoredValue.read.Decodes buffer ⟨8, 0, type, data⟩
          (toLittleEndian 2 8 ++ ([UInt8.ofNat 0] ++ ([UInt8.ofNat type] ++
            toLittleEndian 4 data))) :=
        (Decoder.Decodes.u16 (by decide)).bind ((Decoder.Decodes.u8 (by decide)).bind
          ((Decoder.Decodes.u8 htype).bind ((Decoder.Decodes.u32 hdata).last rfl)))
      simp only [EntrySource.encode, halfWordBytes_cons, halfWordBytes_nil, wordBytes_cons,
        wordBytes_nil, List.append_nil, List.append_assoc, hmarks]
      exact (Decoder.Decodes.u16 (by decide)).bind ((Decoder.Decodes.u16 (by decide)).bind
        ((Decoder.Decodes.u32 hkeyWord).bind (Decoder.Decodes.last (hvalue.last rfl) rfl)))
  | complex key =>
      refine ⟨_, rfl, h, ?_⟩
      have hkeyWord : key < 0x100000000 := by
        simp only [EntrySource.Fits, noIndex] at h hbound
        omega
      simp only [EntrySource.encode, halfWordBytes_cons, halfWordBytes_nil, wordBytes_cons,
        wordBytes_nil, List.append_nil, List.append_assoc]
      have hcontent : (readContent 1).Decodes buffer (.complex 0 0)
          (toLittleEndian 4 0 ++ toLittleEndian 4 0) :=
        (Decoder.Decodes.u32 (by decide)).bind ((Decoder.Decodes.u32 (by decide)).last rfl)
      exact (Decoder.Decodes.u16 (by decide)).bind ((Decoder.Decodes.u16 (by decide)).bind
        ((Decoder.Decodes.u32 hkeyWord).bind (hcontent.last rfl)))

/-- Every entry is found at the offset that is stored for it, and nothing where there is none. -/
theorem readEntry_offsets {places : List EntrySource} {start i : Nat}
    (h : Holds buffer (base + start) (places.flatMap EntrySource.encode))
    (hfits : ∀ e ∈ places, e.Fits keys.strings.size) (hkeys : keys.strings.size ≤ noIndex)
    (hstop : base + start + (places.flatMap EntrySource.encode).length ≤ header.stop)
    (hsmall : start + (places.flatMap EntrySource.encode).length ≤ noIndex) :
    ∃ slots, slots.map (Option.map Prod.fst) = places.map EntrySource.toEntry? ∧
      List.Forall₂
        (fun item slot => (TypeEntries.readEntry keys header base item).Finds buffer slot)
        ((List.range' i places.length).zip (EntrySource.offsetsFrom start places)) slots := by
  induction places generalizing start i with
  | nil => exact ⟨[], rfl, .nil⟩
  | cons e rest ih =>
      have hrestFits : ∀ a ∈ rest, a.Fits keys.strings.size := fun a ha =>
        hfits a (List.mem_cons_of_mem _ ha)
      rw [List.length_cons, List.range'_succ]
      by_cases he : e = .absent
      · subst he
        obtain ⟨slots, hslots, hfound⟩ := ih (i := i + 1) h hrestFits hstop hsmall
        refine ⟨none :: slots, ?_, .cons ?_ hfound⟩
        · rw [List.map_cons, List.map_cons, hslots]
          rfl
        · rw [TypeEntries.readEntry, if_pos rfl]
          exact .pure none
      · have hlength := EntrySource.length_encode he
        rw [List.flatMap_cons] at h
        rw [List.flatMap_cons, List.length_append, hlength] at hstop hsmall
        obtain ⟨entry, hentry, hkey, hread⟩ :=
          Entry.read_exists buffer he (hfits e List.mem_cons_self) hkeys
        have hrest : Holds buffer (base + (start + e.encode.length))
            (rest.flatMap EntrySource.encode) := by
          rw [← Nat.add_assoc]
          exact h.right
        obtain ⟨slots, hslots, hfound⟩ := ih (i := i + 1) hrest hrestFits (by omega) (by omega)
        have hname := StringPool.stringAt_eq (Array.getElem?_eq_getElem hkey) (by omega)
        rw [EntrySource.offsetsFrom_cons he, List.zip_cons_cons]
        refine ⟨some (entry, keys.strings[entry.key]) :: slots, ?_, .cons ?_ hfound⟩
        · rw [List.map_cons, List.map_cons, hslots, hentry]
          rfl
        · have hoffset : start ≠ noIndex := by
            simp only [Entry.fixedSize] at hsmall
            omega
          rw [TypeEntries.readEntry, if_neg hoffset]
          intro cursor
          refine .bind (.require (decide_eq_true (by dsimp only; omega))) (.bind (.goTo _) ?_)
          exact .bind (hread _ h.left) (.bind (.resolved hname) (.pure _))

end Entries

section Chunks

/-! ## Chunks -/

variable {buffer : Bytes} {keys : StringPool} {start : Nat}

namespace ChunkSource

/-- A chunk whose number is a byte and whose entries have so many keys. -/
def Fits (keys : Nat) : ChunkSource → Prop
  | .spec id _ => id < 0x100
  | .entries id config places => id < 0x100 ∧ config.Fits ∧ ∀ e ∈ places, e.Fits keys

instance (keys : Nat) : (c : ChunkSource) → Decidable (c.Fits keys)
  | .spec _ _ => inferInstanceAs (Decidable (_ < _))
  | .entries _ _ _ => inferInstanceAs (Decidable (_ ∧ _ ∧ _))

/-- A decoded chunk shows a written one: specifications their number and count, entries their
number, their language and region, and what stands at every index. -/
def ShownAs : ChunkSource → PackageChunk → Prop
  | .spec id count, .spec s => s.id = id ∧ s.entryCount = count
  | .entries id config places, .entries e =>
      e.id = id ∧ e.config = config.toConfig ∧
        e.entries.toList = places.map EntrySource.toEntry?
  | _, _ => False

/-- Type word of a chunk. -/
def type : ChunkSource → Nat
  | .spec _ _ => typeSpecType
  | .entries _ _ _ => typeEntriesType

/-- Fields of the header of a chunk. -/
def fields : ChunkSource → List UInt8
  | .spec id count => halfWordBytes [id, 0] ++ wordBytes [count]
  | .entries id config places =>
      halfWordBytes [id, 0] ++
        wordBytes [places.length, entriesHeaderSize + 4 * places.length] ++ config.encode

/-- Body of a chunk. -/
def body : ChunkSource → List UInt8
  | .spec _ count => List.replicate (4 * count) 0
  | .entries _ _ places =>
      wordBytes (EntrySource.offsetsFrom 0 places) ++ places.flatMap EntrySource.encode

theorem encode_eq (c : ChunkSource) : c.encode = encodeChunk c.type c.fields c.body := by
  cases c <;> rfl

theorem length_fields_lt (c : ChunkSource) : chunkHeaderSize + c.fields.length < 0x10000 := by
  cases c <;> simp [fields, chunkHeaderSize, ConfigSource.fixedSize]

theorem length_entriesFields (id : Nat) (config : ConfigSource) (places : List EntrySource) :
    chunkHeaderSize + (entries id config places).fields.length = entriesHeaderSize := by
  simp [fields, entriesHeaderSize, chunkHeaderSize, ConfigSource.fixedSize]

theorem type_lt (c : ChunkSource) : c.type < 0x10000 := by
  cases c with
  | spec id count => exact (by decide : typeSpecType < 0x10000)
  | entries id config places => exact (by decide : typeEntriesType < 0x10000)

end ChunkSource

/-- A number of a byte that is written as two bytes. -/
theorem byte_and_zero {id : Nat} (h : id < 0x100) :
    toLittleEndian 2 id = [UInt8.ofNat id] ++ [UInt8.ofNat 0] := by
  simpa using toLittleEndian_two (a := id) (b := 0) h

@[simp] theorem length_entryOffsets (start : Nat) (places : List EntrySource) :
    (EntrySource.offsetsFrom start places).length = places.length := by
  induction places generalizing start with
  | nil => rfl
  | cons e rest ih => cases e <;> simp [EntrySource.offsetsFrom, ih]

/-- An offset of an entry lies before the end of the entries, or is the word for none. -/
theorem le_of_mem_entryOffsets {offset : Nat} {places : List EntrySource}
    (h : offset ∈ EntrySource.offsetsFrom start places) :
    offset = noIndex ∨ offset ≤ start + (places.flatMap EntrySource.encode).length := by
  induction places generalizing start with
  | nil => cases h
  | cons e rest ih =>
      rw [List.flatMap_cons, List.length_append]
      by_cases he : e = .absent
      · subst he
        rcases List.mem_cons.mp h with rfl | hrest
        · exact .inl rfl
        · rcases ih hrest with hnone | hle
          · exact .inl hnone
          · exact .inr (by omega)
      · rw [EntrySource.offsetsFrom_cons he] at h
        rcases List.mem_cons.mp h with rfl | hrest
        · exact .inr (by omega)
        · rcases ih hrest with hnone | hle
          · exact .inl hnone
          · exact .inr (by omega)

theorem ChunkSource.length_encode_entries (id : Nat) (config : ConfigSource)
    (places : List EntrySource) :
    (entries id config places).encode.length = entriesHeaderSize + 4 * places.length +
      (places.flatMap EntrySource.encode).length := by
  rw [encode_eq, length_encodeChunk, length_entriesFields, body, List.length_append,
    length_wordBytes, length_entryOffsets, Nat.add_assoc]

/-- The specification of a type is read back. -/
theorem TypeSpec.read_exists {id count : Nat}
    (h : Holds buffer start (ChunkSource.spec id count).encode) (hid : id < 0x100)
    (hsize : buffer.size < 0x100000000) :
    ∃ s : TypeSpec, (s.id = id ∧ s.entryCount = count) ∧ TypeSpec.read.Yields buffer start s := by
  have hroom := h.le_size
  rw [ChunkSource.encode_eq] at h hroom
  have hcount : count < 0x100000000 := by
    rw [length_encodeChunk] at hroom
    simp only [ChunkSource.body, List.length_replicate] at hroom
    omega
  obtain ⟨header, -, -, -, hread⟩ :=
    ChunkHeader.read_exists h (ChunkSource.type_lt _) (ChunkSource.length_fields_lt _) hsize
  refine ⟨⟨header, id, 0, 0, count⟩, ⟨rfl, rfl⟩, ?_⟩
  have hfields := h.chunk
  simp only [ChunkSource.fields, halfWordBytes_cons, halfWordBytes_nil, wordBytes_cons,
    wordBytes_nil, List.append_nil, byte_and_zero hid, List.append_assoc] at hfields
  unfold TypeSpec.read
  refine .bind hread (.field hfields (.u8 hid) fun hfields => ?_)
  refine .field hfields (.u8 (by decide)) fun hfields => ?_
  refine .u16 hfields (by decide) fun hfields => ?_
  exact .u32 hfields hcount fun _ => .pure _

/-- The offsets of the entries of a chunk are read back. -/
theorem entryOffsets_decodes {places : List EntrySource}
    (hsmall : (places.flatMap EntrySource.encode).length ≤ noIndex) :
    (Decoder.times Decoder.u32 places.length).Decodes buffer (EntrySource.offsetsFrom 0 places)
      (wordBytes (EntrySource.offsetsFrom 0 places)) := by
  refine .words (length_entryOffsets 0 places) fun offset hoffset => ?_
  rcases le_of_mem_entryOffsets hoffset with rfl | hle
  · decide
  · simp only [noIndex] at hsmall
    omega

/-- The offsets of the entries of a chunk stand behind its header, and the entries themselves
where the header says. -/
theorem ChunkSource.entries_at {id : Nat} {config : ConfigSource} {places : List EntrySource}
    (h : Holds buffer start (ChunkSource.entries id config places).encode) :
    Holds buffer (start + entriesHeaderSize) (wordBytes (EntrySource.offsetsFrom 0 places)) ∧
      Holds buffer (start + (entriesHeaderSize + 4 * places.length))
        (places.flatMap EntrySource.encode) := by
  rw [encode_eq] at h
  have hbody := h.chunkBody
  rw [Nat.add_assoc, length_entriesFields, body] at hbody
  have hentries := hbody.right
  rw [length_wordBytes, length_entryOffsets, Nat.add_assoc] at hentries
  exact ⟨hbody.left, hentries⟩

/-- The entries of a type are read back with their configuration. -/
theorem TypeEntries.read_exists {id : Nat} {config : ConfigSource} {places : List EntrySource}
    (h : Holds buffer start (ChunkSource.entries id config places).encode)
    (hfits : (ChunkSource.entries id config places).Fits keys.strings.size)
    (hkeys : keys.strings.size ≤ noIndex) (hsize : buffer.size < 0x100000000) :
    ∃ e : TypeEntries, (e.id = id ∧ e.config = config.toConfig ∧
        e.entries.toList = places.map EntrySource.toEntry?) ∧
      (TypeEntries.read keys).Yields buffer start e := by
  obtain ⟨hid, hconfig, hplaces⟩ := hfits
  obtain ⟨hoffsets, hentries⟩ := ChunkSource.entries_at h
  have hroom := h.le_size
  have hlength := ChunkSource.length_encode_entries id config places
  simp only [ChunkSource.entriesHeaderSize, chunkHeaderSize, ConfigSource.fixedSize] at hlength
  rw [ChunkSource.encode_eq] at h hlength hroom
  obtain ⟨header, hoffset, hpayload, hstop, hread⟩ :=
    ChunkHeader.read_exists h (ChunkSource.type_lt _) (ChunkSource.length_fields_lt _) hsize
  rw [Nat.add_assoc, ChunkSource.length_entriesFields] at hpayload
  have hsmall : (places.flatMap EntrySource.encode).length ≤ noIndex := by
    simp only [noIndex]
    omega
  have hentriesStop : start + (ChunkSource.entriesHeaderSize + 4 * places.length) +
      (places.flatMap EntrySource.encode).length ≤ header.stop := by
    simp only [ChunkSource.entriesHeaderSize, chunkHeaderSize, ConfigSource.fixedSize]
    omega
  rw [← Nat.add_zero (start + _)] at hentries hentriesStop
  obtain ⟨slots, hslots, hfound⟩ :=
    readEntry_offsets (i := 0) hentries hplaces hkeys hentriesStop (by rwa [Nat.zero_add])
  rw [← List.range_eq_range'] at hfound
  refine ⟨⟨header, id, 0, 0, places.length, ChunkSource.entriesHeaderSize + 4 * places.length,
    config.toConfig, (slots.map fun slot => slot.map Prod.fst).toArray,
    TypeEntries.namedFrom 0 slots⟩, ⟨rfl, rfl, hslots⟩, ?_⟩
  have hfields := h.chunk
  simp only [ChunkSource.fields, halfWordBytes_cons, halfWordBytes_nil, wordBytes_cons,
    wordBytes_nil, List.append_nil, byte_and_zero hid, List.append_assoc] at hfields
  unfold TypeEntries.read
  refine .bind hread (.field hfields (.u8 hid) fun hfields => ?_)
  refine .field hfields (.u8 (by decide)) fun hfields => .u16 hfields (by decide) fun hfields => ?_
  refine .u32 hfields (by omega) fun hfields => .u32 hfields ?_ fun hfields => ?_
  · simp only [ChunkSource.entriesHeaderSize, chunkHeaderSize, ConfigSource.fixedSize]
    omega
  refine .field hfields (Config.read_decodes hconfig) fun _ => .bind .position ?_
  rw [hpayload, hoffset]
  refine .bind (.require (decide_eq_true ?_)) (.bind (.goTo _) ?_)
  · simp [ChunkSource.entriesHeaderSize, chunkHeaderSize, ConfigSource.fixedSize]
  refine .bind (.require (decide_eq_true ?_)) ?_
  · simp only [ChunkSource.entriesHeaderSize, chunkHeaderSize, ConfigSource.fixedSize]
    omega
  refine .bind (entryOffsets_decodes hsmall _ hoffsets) ?_
  exact .bind_finds (.each hfound) fun _ => .pure _

/-- A chunk of a package is read back. -/
theorem PackageChunk.read_exists {c : ChunkSource} (h : Holds buffer start c.encode)
    (hfits : c.Fits keys.strings.size) (hkeys : keys.strings.size ≤ noIndex)
    (hsize : buffer.size < 0x100000000) :
    ∃ chunk, c.ShownAs chunk ∧ (PackageChunk.read keys c.type start).Yields buffer start chunk := by
  cases c with
  | spec id count =>
      obtain ⟨s, hshown, hread⟩ := TypeSpec.read_exists h hfits hsize
      exact ⟨.spec s, hshown, .bind hread.reads (.pure _)⟩
  | entries id config places =>
      obtain ⟨e, hshown, hread⟩ := TypeEntries.read_exists h hfits hkeys hsize
      exact ⟨.entries e, hshown, .bind hread.reads (.pure _)⟩

/-- The chunks of a package are read back in order. -/
theorem readPackageChunks_exists {chunks : List ChunkSource} {stop position : Nat}
    (h : Holds buffer position (chunks.flatMap ChunkSource.encode))
    (hstop : stop = position + (chunks.flatMap ChunkSource.encode).length)
    (hfits : ∀ c ∈ chunks, c.Fits keys.strings.size) (hkeys : keys.strings.size ≤ noIndex)
    (hsize : buffer.size < 0x100000000) :
    ∃ found, List.Forall₂ ChunkSource.ShownAs chunks found ∧
      (readPackageChunks keys stop position).Finds buffer found := by
  induction chunks generalizing position with
  | nil =>
      refine ⟨[], .nil, ?_⟩
      rw [readPackageChunks, dif_neg (by simp [hstop])]
      exact .pure []
  | cons c rest ih =>
      rw [List.flatMap_cons] at h hstop
      rw [List.length_append] at hstop
      have hroom := h.left.le_size
      obtain ⟨chunk, hshown, hread⟩ :=
        PackageChunk.read_exists h.left (hfits c List.mem_cons_self) hkeys hsize
      obtain ⟨found, hall, hrest⟩ := ih h.right (by omega) fun a ha =>
        hfits a (List.mem_cons_of_mem _ ha)
      have hfirst := h.left
      rw [c.encode_eq] at hfirst hroom hrest hstop
      have hheader : (ChunkHeader.read none).Reads buffer position
          (.written c.type position c.fields c.body) (position + chunkHeaderSize) :=
        ChunkHeader.read_reads hfirst c.type_lt c.length_fields_lt (by omega) (.inl rfl)
      have hlength := length_encodeChunk c.type c.fields c.body
      refine ⟨chunk :: found, .cons hshown hall, ?_⟩
      rw [readPackageChunks, dif_pos (by simp only [chunkHeaderSize] at hlength; omega)]
      refine .goTo (.bind hheader ?_)
      refine .bind (.require (decide_eq_true ?_)) (.bind (.goTo _) ?_)
      · rw [ChunkHeader.written_stop]
        omega
      refine .bind hread.reads (.bind_finds ?_ fun _ => .pure _)
      rw [ChunkHeader.written_size]
      exact hrest

end Chunks

end ApkFormats.Resource
