import ApkFormats.Proofs.Resource.Accepted
import ApkFormats.Proofs.Resource.Entries

/-!
# Resource tables are read back

* `Package.read_exists`: a package is read back, with its chunks in the order of
  the file, and the strings of all its configurations can be gathered;
* `Table.decode_encode_source`: a table is read back, packages in order.

A package is entered by its name, so that packages of different names all stay
(`putPackage_of_new`).
-/

namespace ApkFormats.Resource

section Names

/-! ## Names of packages -/

variable {name : String}

/-- Largest number of units of a package's name. -/
def nameUnits : Nat := 128

@[simp] theorem halfWordBytes_zeros (k : Nat) :
    halfWordBytes (List.replicate k 0) = List.replicate (2 * k) 0 := by
  induction k with
  | zero => rfl
  | succ k ih => simp [List.replicate_succ, Nat.mul_succ, ih, toLittleEndian]

/-- The field of a name holds its units and zeros behind them. -/
theorem nameField_eq (name : String) :
    PackageSource.nameField name = halfWordBytes (Text.Utf16.encode name.toList ++
      List.replicate (nameUnits - (Text.Utf16.encode name.toList).length) 0) := by
  have hroom : nameSize - 2 * (Text.Utf16.encode name.toList).length =
      2 * (nameUnits - (Text.Utf16.encode name.toList).length) := by
    simp only [nameSize, nameUnits]
    omega
  have hzeros := halfWordBytes_zeros (nameUnits - (Text.Utf16.encode name.toList).length)
  rw [PackageSource.nameField, length_halfWordBytes, hroom, ← hzeros]
  exact List.flatMap_append.symm

theorem length_nameField (h : (Text.Utf16.encode name.toList).length ≤ nameUnits) :
    (PackageSource.nameField name).length = nameSize := by
  rw [nameField_eq, length_halfWordBytes, List.length_append, List.length_replicate]
  simp only [nameSize, nameUnits] at h ⊢
  omega

/-- A name without zeros and without blanks at its ends is read off its field. -/
theorem decodeName_nameField (hzero : '\x00' ∉ name.toList)
    (hblank : Text.stripBlanks name.toList = name.toList) :
    decodeName (PackageSource.nameField name) = name := by
  have hunits : halfWords (PackageSource.nameField name) = Text.Utf16.encode name.toList ++
      List.replicate (nameUnits - (Text.Utf16.encode name.toList).length) 0 := by
    rw [nameField_eq]
    refine halfWords_halfWordBytes _ fun u hu => ?_
    rcases List.mem_append.mp hu with hname | hzeros
    · exact Text.Utf16.lt_of_mem_encode hname
    · rw [List.eq_of_mem_replicate hzeros]
      decide
  have hkeep : ∀ c ∈ name.toList, decide (c ≠ '\x00') = true := by
    intro c hc
    have hne : c ≠ '\x00' := fun heq => hzero (heq ▸ hc)
    exact decide_eq_true hne
  have hstop (k : Nat) :
      (Text.Utf16.decodeLenient (List.replicate k 0)).takeWhile (· ≠ '\x00') = [] := by
    rcases k with _ | _ | k
    · rfl
    · rfl
    · simp [List.replicate_succ, Text.Utf16.decodeLenient, Text.Utf16.isHigh, Text.Utf16.isLow]
  rw [decodeName, hunits, Text.Utf16.decodeLenient_encode]
  simp only [List.takeWhile_append_of_pos hkeep, hstop, List.append_nil, hblank,
    String.ofList_toList]

end Names

section Strings

/-! ## Strings of a package -/

variable {pool : StringPool}

namespace EntrySource

/-- A value that is a string is one of so many strings. -/
def PointsInto (strings : Nat) : EntrySource → Prop
  | .simple _ type data => (type : Int) = Value.stringType → data < strings
  | _ => True

instance (strings : Nat) : (e : EntrySource) → Decidable (e.PointsInto strings)
  | .absent => inferInstanceAs (Decidable True)
  | .simple _ _ _ => inferInstanceAs (Decidable (_ → _))
  | .complex _ => inferInstanceAs (Decidable True)

/-- The value of a written entry can be looked up. -/
theorem resolve_exists {e : EntrySource} {entry : Entry} (hentry : e.toEntry? = some entry)
    (h : e.PointsInto pool.strings.size) (hpool : pool.strings.size ≤ noIndex) :
    ∃ value, entry.resolve (some pool) = .ok value := by
  cases e with
  | absent => cases hentry
  | simple key type data =>
      cases hentry
      by_cases htype : (type : Int) = Value.stringType
      · have hdata := h htype
        have htext := StringPool.stringAt_eq (Array.getElem?_eq_getElem hdata) (by omega)
        refine ⟨some (.text pool.strings[data]), ?_⟩
        simp only [Entry.resolve, Entry.value?, Value.ofTyped, if_pos htype, htext]
        rfl
      · refine ⟨some (.ofNumber type data (Value.flagsOfType type)), ?_⟩
        simp only [Entry.resolve, Entry.value?, Value.ofTyped, if_neg htype]
        rfl
  | complex key =>
      cases hentry
      exact ⟨none, rfl⟩

end EntrySource

/-- The texts of a chunk of entries can be gathered. -/
theorem Localized.textsOf_exists {e : TypeEntries} {places : List EntrySource}
    (hentries : e.entries.toList = places.map EntrySource.toEntry?)
    (h : ∀ p ∈ places, p.PointsInto pool.strings.size) (hpool : pool.strings.size ≤ noIndex) :
    ∃ texts, textsOf (some pool) e = .ok texts := by
  have hall :
      List.Forall₂ (fun p slot => slot = EntrySource.toEntry? p) places e.entries.toList := by
    rw [hentries, List.forall₂_map_right_iff, List.forall₂_same]
    exact fun p _ => rfl
  refine (mapM_exists (S := fun _ _ => True) hall ?_).imp fun texts htexts => htexts.1
  rintro p hp slot rfl
  cases hentry : p.toEntry? with
  | none => exact ⟨none, rfl, trivial⟩
  | some entry =>
      obtain ⟨value, hvalue⟩ := EntrySource.resolve_exists hentry (h p hp) hpool
      exact ⟨_, by simp only [hvalue]; rfl, trivial⟩

/-- The texts of some chunks go into buckets when those of each chunk can be gathered. -/
theorem Localized.ofChunks_exists {strings : Option StringPool} {chunks : List TypeEntries}
    (h : ∀ e ∈ chunks, ∃ texts, textsOf strings e = .ok texts) :
    ∃ l, Localized.ofChunks strings chunks = .ok l := by
  unfold ofChunks
  generalize Localized.empty = start
  induction chunks generalizing start with
  | nil => exact ⟨start, rfl⟩
  | cons e rest ih =>
      obtain ⟨texts, htexts⟩ := h e List.mem_cons_self
      obtain ⟨l, hl⟩ := ih (fun a ha => h a (List.mem_cons_of_mem _ ha)) (start.add e.config texts)
      refine ⟨l, ?_⟩
      rw [List.foldlM_cons, htexts]
      exact hl

end Strings

section Packages

/-! ## Packages -/

variable {pool : StringPool} {buffer : Bytes} {start : Nat}

/-- The strings of a chunk of the entries of a type are among so many strings. -/
def ChunkSource.PointsInto (strings : Nat) (type : Option Nat) : ChunkSource → Prop
  | .spec _ _ => True
  | .entries id _ places => type = some id → ∀ e ∈ places, e.PointsInto strings

instance (strings : Nat) (type : Option Nat) :
    (c : ChunkSource) → Decidable (c.PointsInto strings type)
  | .spec _ _ => inferInstanceAs (Decidable True)
  | .entries _ _ _ => inferInstanceAs (Decidable (_ → _))

namespace PackageSource

/-- Number of the first type that is named like the type of strings. -/
def stringType? (p : PackageSource) : Option Nat :=
  (p.types.idxOf? stringTypeName).map (· + 1)

/-- A package within the limits of the format, in a table of so many strings: its name goes into
its field and is no different without zeros and blanks, its chunks refer to its keys, and the
entries of its strings to the strings. -/
@[mk_iff]
structure Fits (strings : Nat) (p : PackageSource) : Prop where
  id : p.id < 0x100000000
  nameLength : (Text.Utf16.encode p.name.toList).length ≤ nameUnits
  nameZeros : '\x00' ∉ p.name.toList
  nameBlanks : Text.stripBlanks p.name.toList = p.name.toList
  types : ∀ s ∈ p.types, StringPool.Fits false s
  keys : ∀ s ∈ p.keys, StringPool.Fits true s
  chunks : ∀ c ∈ p.chunks, c.Fits p.keys.length
  texts : ∀ c ∈ p.chunks, c.PointsInto strings p.stringType?

instance (strings : Nat) (p : PackageSource) : Decidable (p.Fits strings) :=
  decidable_of_iff _ (fits_iff strings p).symm

/-- Chunks of the entries of a type, in order. -/
def entryChunksOf (p : PackageSource) (type : Int) : List ChunkSource :=
  p.chunks.filter fun c =>
    match c with
    | .entries id _ _ => (id : Int) == type
    | .spec _ _ => false

/-- Specifications of a type, in order. -/
def specsOf (p : PackageSource) (type : Int) : List ChunkSource :=
  p.chunks.filter fun c =>
    match c with
    | .entries _ _ _ => false
    | .spec id _ => (id : Int) == type

/-- A decoded package shows a written one: number, name, names of types and keys, and its chunks
in the order of the file, also for every type by itself. -/
structure ShownAs (p : PackageSource) (q : Package) : Prop where
  id : q.id = p.id
  name : q.name = p.name
  types : q.typePool.strings.toList = p.types
  keys : q.keyPool.strings.toList = p.keys
  chunks : List.Forall₂ ChunkSource.ShownAs p.chunks q.chunks
  entries : ∀ type : Int, List.Forall₂ (fun c e => c.ShownAs (.entries e)) (p.entryChunksOf type)
    (q.entryChunksOf type)
  specs : ∀ type : Int, List.Forall₂ (fun c s => c.ShownAs (.spec s)) (p.specsOf type)
    (q.specs.filter fun s => (s.id : Int) == type)

end PackageSource

/-- The chunks of a package are grouped as they were written. -/
theorem grouped_of_shown {p : PackageSource} {q : Package}
    (h : List.Forall₂ ChunkSource.ShownAs p.chunks q.chunks) (type : Int) :
    List.Forall₂ (fun c e => c.ShownAs (.entries e)) (p.entryChunksOf type)
        (q.entryChunksOf type) ∧
      List.Forall₂ (fun c s => c.ShownAs (.spec s)) (p.specsOf type)
        (q.specs.filter fun s => (s.id : Int) == type) := by
  rw [PackageSource.entryChunksOf, PackageSource.specsOf, Package.entryChunksOf,
    Package.entryChunks, Package.specs]
  generalize p.chunks = written at h ⊢
  generalize q.chunks = found at h ⊢
  induction h with
  | nil => exact ⟨.nil, .nil⟩
  | @cons c chunk cs chunks hshown _ ih =>
      obtain ⟨hentries, hspecs⟩ := ih
      cases c with
      | spec id count =>
          cases chunk with
          | entries e => exact False.elim hshown
          | spec s =>
              have hid : s.id = id := hshown.1
              refine ⟨hentries, ?_⟩
              by_cases htype : (id : Int) == type
              · simpa [specsAmong, hid, htype] using ⟨hshown, hspecs⟩
              · simpa [specsAmong, hid, htype] using hspecs
      | entries id config places =>
          cases chunk with
          | spec s => exact False.elim hshown
          | entries e =>
              have hid : e.id = id := hshown.1
              refine ⟨?_, hspecs⟩
              by_cases htype : (id : Int) == type
              · simpa [entriesAmong, hid, htype] using ⟨hshown, hentries⟩
              · simpa [entriesAmong, hid, htype] using hentries

/-- The strings of a package can be gathered. -/
theorem gatherStrings_exists {p : PackageSource} {types : StringPool} {found : List PackageChunk}
    (htypes : types.strings.toList = p.types)
    (hshown : List.Forall₂ ChunkSource.ShownAs p.chunks found)
    (htexts : ∀ c ∈ p.chunks, c.PointsInto pool.strings.size p.stringType?)
    (hpool : pool.strings.size ≤ noIndex) :
    ∃ l, gatherStrings (some pool) types found = .ok l := by
  have htype : typeIdIn? types stringTypeName = p.stringType? := by
    rw [typeIdIn?, htypes, PackageSource.stringType?]
  rw [gatherStrings, htype]
  cases hid : p.stringType? with
  | none => exact ⟨.empty, rfl⟩
  | some id =>
      refine Localized.ofChunks_exists fun e he => ?_
      obtain ⟨hamong, heid⟩ := List.mem_filter.mp he
      obtain ⟨chunk, hchunk, hsome⟩ := List.mem_filterMap.mp hamong
      cases chunk with
      | spec s => cases hsome
      | entries e' =>
          cases hsome
          obtain ⟨c, hc, hcshown⟩ := exists_of_mem_right hshown hchunk
          cases c with
          | spec id' count => exact False.elim hcshown
          | entries id' config places =>
              obtain ⟨hcid, -, hentries⟩ := hcshown
              have hsame : id = id' := by
                rw [← hcid]
                exact (beq_iff_eq.mp heid).symm
              have hpoints := htexts _ hc
              rw [hid, hsame] at hpoints
              exact Localized.textsOf_exists hentries (hpoints rfl) hpool

namespace PackageSource

/-- Fields of the header of a package. -/
def fields (p : PackageSource) : List UInt8 :=
  wordBytes [p.id] ++ nameField p.name ++
    wordBytes [headerSize, p.types.length,
      headerSize + (StringPool.encode false p.types).length, p.keys.length, 0]

/-- Body of a package. -/
def body (p : PackageSource) : List UInt8 :=
  StringPool.encode false p.types ++ StringPool.encode true p.keys ++
    p.chunks.flatMap ChunkSource.encode

theorem encode_eq (p : PackageSource) : p.encode = encodeChunk packageType p.fields p.body :=
  rfl

theorem Fits.length_fields {strings : Nat} {p : PackageSource} (h : p.Fits strings) :
    chunkHeaderSize + p.fields.length = headerSize := by
  simp [fields, length_nameField h.nameLength, nameSize, headerSize, chunkHeaderSize]

theorem Fits.length_encode {strings : Nat} {p : PackageSource} (h : p.Fits strings) :
    p.encode.length = headerSize + (StringPool.encode false p.types).length +
      (StringPool.encode true p.keys).length + (p.chunks.flatMap ChunkSource.encode).length := by
  rw [encode_eq, length_encodeChunk, h.length_fields, body, List.length_append, List.length_append]
  omega

/-- The pools of a package stand where its header says, and its chunks behind them. -/
theorem Fits.parts_at {strings : Nat} {p : PackageSource} (h : p.Fits strings)
    (hp : Holds buffer start p.encode) :
    Holds buffer (start + headerSize) (StringPool.encode false p.types) ∧
      Holds buffer (start + (headerSize + (StringPool.encode false p.types).length))
        (StringPool.encode true p.keys) ∧
      Holds buffer (start + (headerSize + (StringPool.encode false p.types).length) +
        (StringPool.encode true p.keys).length) (p.chunks.flatMap ChunkSource.encode) := by
  rw [p.encode_eq] at hp
  have hbody := hp.chunkBody
  rw [Nat.add_assoc, h.length_fields, body] at hbody
  have hkeys := hbody.left.right
  have hchunks := hbody.right
  rw [Nat.add_assoc] at hkeys
  rw [List.length_append, ← Nat.add_assoc, Nat.add_assoc start] at hchunks
  exact ⟨hbody.left.left, hkeys, hchunks⟩

end PackageSource

/-- A package is read back. -/
theorem Package.read_exists {p : PackageSource} (h : Holds buffer start p.encode)
    (hfits : p.Fits pool.strings.size) (hpool : pool.strings.size ≤ noIndex)
    (hsize : buffer.size < 0x100000000) :
    ∃ q, p.ShownAs q ∧ (Package.read (some pool)).Yields buffer start q := by
  obtain ⟨htypes, hkeys, hchunks⟩ := hfits.parts_at h
  have hroom := h.le_size
  have hlength := hfits.length_encode
  have hmanyTypes := StringPool.length_le_encode false p.types
  have hmanyKeys := StringPool.length_le_encode true p.keys
  obtain ⟨typePool, htypeStrings, -, -, htypesRead⟩ :=
    StringPool.read_exists htypes hsize hfits.types
  obtain ⟨keyPool, hkeyStrings, hmany, hkeyStop, hkeysRead⟩ :=
    StringPool.read_exists hkeys hsize hfits.keys
  have hchunkFits : ∀ c ∈ p.chunks, c.Fits keyPool.strings.size := by
    rw [hkeyStrings, List.size_toArray]
    exact hfits.chunks
  obtain ⟨found, hshown, hfound⟩ := readPackageChunks_exists hchunks rfl hchunkFits hmany hsize
  obtain ⟨localized, hlocalized⟩ := gatherStrings_exists
    (by rw [htypeStrings, List.toList_toArray]) hshown hfits.texts hpool
  rw [p.encode_eq] at h hroom hlength
  obtain ⟨header, hoffset, -, hstop, hread⟩ := ChunkHeader.read_exists h (by decide)
    (by rw [hfits.length_fields]; decide) hsize
  have hname : (Decoder.take nameSize).Decodes buffer (PackageSource.nameField p.name)
      (PackageSource.nameField p.name) := by
    rw [← length_nameField hfits.nameLength]
    exact .take _
  refine ⟨⟨header, p.id, p.name, PackageSource.headerSize, p.types.length,
    PackageSource.headerSize + (StringPool.encode false p.types).length, p.keys.length, typePool,
    keyPool, found, localized⟩, ?_, ?_⟩
  · exact ⟨rfl, rfl, by rw [htypeStrings, List.toList_toArray],
      by rw [hkeyStrings, List.toList_toArray], hshown,
      fun type => (grouped_of_shown hshown type).1, fun type => (grouped_of_shown hshown type).2⟩
  have hend : header.stop = keyPool.header.stop + (p.chunks.flatMap ChunkSource.encode).length := by
    omega
  rw [← hkeyStop, ← hend] at hfound
  have hfields := h.chunk
  simp only [PackageSource.fields, wordBytes_cons, wordBytes_nil, List.append_nil,
    List.append_assoc] at hfields
  simp only [PackageSource.headerSize] at hlength
  unfold Package.read
  refine .bind hread (.u32 hfields hfits.id fun hfields => .field hfields hname fun hfields => ?_)
  refine .u32 hfields (by decide) fun hfields => .u32 hfields (by omega) fun hfields => ?_
  refine .u32 hfields (by simp only [PackageSource.headerSize]; omega) fun hfields => ?_
  refine .u32 hfields (by omega) fun _ => ?_
  rw [hoffset]
  refine .bind (.goTo _) (.bind htypesRead (.bind (.goTo _) (.bind hkeysRead ?_)))
  refine .bind_finds hfound fun _ => .bind (.resolved hlocalized) (.bind (.note _) ?_)
  rw [decodeName_nameField hfits.nameZeros hfits.nameBlanks]
  exact .pure _

end Packages

section Tables

/-! ## Tables -/

variable {buffer : Bytes}

namespace TableSource

/-- A table within the limits of the format: its strings go into a pool, and its packages are of
different names and refer to its strings. -/
@[mk_iff]
structure Fits (s : TableSource) : Prop where
  strings : ∀ text ∈ s.strings, StringPool.Fits true text
  names : (s.packages.map PackageSource.name).Nodup
  packages : ∀ p ∈ s.packages, p.Fits s.strings.length

instance (s : TableSource) : Decidable s.Fits :=
  decidable_of_iff _ (fits_iff s).symm

/-- A decoded table shows a written one: the global strings, the number of packages, and the
packages in order. -/
structure ShownAs (s : TableSource) (t : Table) : Prop where
  strings : t.strings = s.strings
  packageCount : t.packageCount = s.packages.length
  packages : List.Forall₂ PackageSource.ShownAs s.packages t.packages

end TableSource

namespace Table

/-- One round of the loop over the chunks of a table. -/
theorem readChunks_step {t t' result : Table} {type stop position : Nat} {fields body : List UInt8}
    (h : Holds buffer position (encodeChunk type fields body)) (htype : type < 0x10000)
    (hfields : chunkHeaderSize + fields.length < 0x10000) (hsize : buffer.size < 0x100000000)
    (hstop : position < stop)
    (hread : (t.readChunk (.written type position fields body) position).Yields buffer position t')
    (hrest : (readChunks stop t'
      (position + advance (.written type position fields body))).Finds buffer result) :
    (readChunks stop t position).Finds buffer result := by
  have hroom := h.le_size
  have hheader : (ChunkHeader.read none).Reads buffer position (.written type position fields body)
      (position + chunkHeaderSize) :=
    ChunkHeader.read_reads h htype hfields (by omega) (.inl rfl)
  rw [readChunks, dif_pos hstop]
  refine .goTo (.bind hheader (.bind (.goTo _) (.bind hread.reads ?_)))
  exact hrest _

/-- The packages of a table are read back, behind those that it already has. -/
theorem readChunks_packages {t : Table} {pool : StringPool} {packages : List PackageSource}
    {stop position : Nat} (h : Holds buffer position (packages.flatMap PackageSource.encode))
    (hstop : stop = position + (packages.flatMap PackageSource.encode).length)
    (hfits : ∀ p ∈ packages, p.Fits pool.strings.size) (hpool : t.pool = some pool)
    (hmany : pool.strings.size ≤ noIndex) (hsize : buffer.size < 0x100000000)
    (hnames : (packages.map PackageSource.name).Nodup)
    (hnew : ∀ q ∈ t.packages, ∀ p ∈ packages, q.name ≠ p.name) :
    ∃ found, List.Forall₂ PackageSource.ShownAs packages found ∧
      (readChunks stop t position).Finds buffer { t with packages := t.packages ++ found } := by
  induction packages generalizing position t with
  | nil =>
      refine ⟨[], .nil, ?_⟩
      rw [readChunks, dif_neg (by simp [hstop]), List.append_nil]
      exact .pure t
  | cons p rest ih =>
      rw [List.flatMap_cons] at h hstop
      rw [List.length_append] at hstop
      have hp := hfits p List.mem_cons_self
      obtain ⟨q, hshown, hread⟩ := Package.read_exists h.left hp hmany hsize
      have hput : putPackage q t.packages = t.packages ++ [q] := by
        refine putPackage_of_new fun a ha => ?_
        rw [hshown.name]
        exact hnew a ha p List.mem_cons_self
      rw [List.map_cons, List.nodup_cons] at hnames
      have hnewRest : ∀ a ∈ t.packages ++ [q], ∀ b ∈ rest, a.name ≠ b.name := by
        intro a ha b hb
        rcases List.mem_append.mp ha with hold | hq
        · exact hnew a hold b (List.mem_cons_of_mem _ hb)
        · rw [List.mem_singleton.mp hq, hshown.name]
          exact fun heq => hnames.1 (heq ▸ List.mem_map_of_mem hb)
      obtain ⟨found, hall, hrest⟩ := ih (t := { t with packages := t.packages ++ [q] }) h.right
        (by omega) (fun a ha => hfits a (List.mem_cons_of_mem _ ha)) hpool hnames.2 hnewRest
      refine ⟨q :: found, .cons hshown hall, ?_⟩
      have hfirst := h.left
      rw [p.encode_eq] at hfirst hrest hstop
      have hlength := length_encodeChunk packageType p.fields p.body
      have hchunk : (t.readChunk (.written packageType position p.fields p.body) position).Yields
          buffer position { t with packages := t.packages ++ [q] } := by
        simp only [readChunk, ChunkHeader.written_type]
        rw [if_neg (by decide), if_neg (by decide), if_pos trivial, ← hput, hpool]
        exact .bind (.require rfl) (.bind hread.reads (.pure _))
      refine readChunks_step hfirst (by decide) ?_ hsize ?_ hchunk ?_
      · rw [hp.length_fields]
        decide
      · simp only [chunkHeaderSize] at hlength
        omega
      · rw [advance, ChunkHeader.written_type, if_neg (by decide), ChunkHeader.written_size]
        simpa only [List.append_assoc, List.singleton_append] using hrest

/-- The chunk of a table tells how many packages follow. -/
theorem readChunk_count {t : Table} {start count : Nat} {body : List UInt8}
    (h : Holds buffer start (encodeChunk resourceTableType (wordBytes [count]) body))
    (hcount : count < 0x100000000) :
    (t.readChunk (.written resourceTableType start (wordBytes [count]) body) start).Yields buffer
      start { t with packageCount := count } := by
  have hfields := h.chunk
  rw [wordBytes_cons, wordBytes_nil, List.append_nil] at hfields
  simp only [readChunk, ChunkHeader.written_type]
  rw [if_neg (by decide), if_pos trivial]
  exact .bind (.goTo _) (.u32 hfields hcount fun _ => .pure _)

/-- The first pool of a table becomes its global pool. -/
theorem readChunk_pool {t : Table} {pool : StringPool} {start stop : Nat}
    {fields body : List UInt8} (hnone : t.pool = none)
    (hread : StringPool.read.Reads buffer start pool stop) :
    (t.readChunk (.written stringPoolType start fields body) start).Yields buffer start
      { t with pool := some pool } := by
  simp only [readChunk, ChunkHeader.written_type, noteSecondPool, hnone, Option.isSome_none]
  rw [if_pos trivial]
  exact .bind (.pure ()) (.bind hread (.pure _))

/-- The pool of a table is read back, and then its packages. -/
theorem readChunks_body {s : TableSource} {count position : Nat} (hfits : s.Fits)
    (h : Holds buffer position
      (StringPool.encode true s.strings ++ s.packages.flatMap PackageSource.encode))
    (hend : buffer.size = position + (StringPool.encode true s.strings).length +
      (s.packages.flatMap PackageSource.encode).length)
    (hsize : buffer.size < 0x100000000) :
    ∃ pool : StringPool, pool.strings = s.strings.toArray ∧
      ∃ found, List.Forall₂ PackageSource.ShownAs s.packages found ∧
        (readChunks buffer.size ⟨count, none, []⟩ position).Finds buffer
          ⟨count, some pool, found⟩ := by
  obtain ⟨pool, hstrings, hmany, -, hread⟩ :=
    StringPool.read_exists h.left hsize hfits.strings
  have hpackages := hfits.packages
  rw [← List.size_toArray, ← hstrings] at hpackages
  obtain ⟨found, hshown, hfound⟩ := readChunks_packages (t := ⟨count, some pool, []⟩)
    h.right hend hpackages rfl hmany hsize hfits.names (fun q hq => by cases hq)
  refine ⟨pool, hstrings, found, hshown, ?_⟩
  have hroom := StringPool.length_le_encode true s.strings
  have hpool := h.left
  rw [StringPool.encode_eq] at hpool hfound
  refine readChunks_step hpool (by decide) ?_ hsize (by omega) (readChunk_pool rfl hread) ?_
  · simp [StringPool.poolFields, chunkHeaderSize]
  · rw [advance, ChunkHeader.written_type, if_neg (by decide), ChunkHeader.written_size]
    simpa using hfound

/-- **A resource table that is written is read back.** -/
theorem decode_encode_source (s : TableSource) (hfits : s.Fits)
    (hsize : s.encode.length < 0x100000000) :
    ∃ t, Table.decode s.encode.toArray = .ok t ∧ s.ShownAs t := by
  have hall := Holds.all s.encode
  have hbuffer : s.encode.toArray.size = s.encode.length := List.size_toArray
  generalize s.encode.toArray = buffer at hall hbuffer ⊢
  have hlength := length_encodeChunk resourceTableType (wordBytes [s.packages.length])
    (StringPool.encode true s.strings ++ s.packages.flatMap PackageSource.encode)
  have hcount : chunkHeaderSize + (wordBytes [s.packages.length]).length = 12 := by
    simp [chunkHeaderSize]
  rw [TableSource.encode] at hall hbuffer hsize
  rw [List.length_append, hcount] at hlength
  have hmany : 1 * s.packages.length ≤ (s.packages.flatMap PackageSource.encode).length := by
    refine mul_length_le_length_flatMap fun p _ => ?_
    rw [p.encode_eq, length_encodeChunk]
    simp only [chunkHeaderSize]
    omega
  have hbody := hall.chunkBody
  rw [Nat.zero_add, hcount] at hbody
  obtain ⟨pool, hstrings, found, hshown, hfound⟩ :=
    readChunks_body hfits hbody (by omega) (by omega)
  have hfromStart : (readChunks buffer.size empty 0).Finds buffer
      ⟨s.packages.length, some pool, found⟩ := by
    refine readChunks_step hall (by decide) ?_ (by omega) (by omega)
      (readChunk_count hall (by omega)) ?_
    · rw [hcount]
      decide
    · rw [advance, ChunkHeader.written_type, if_pos rfl, ChunkHeader.written_headerSize, hcount]
      exact hfound
  have hread : Table.read.Yields buffer 0 ⟨s.packages.length, some pool, found⟩ :=
    .bind .bufferSize (.bind_finds hfromStart fun _ => .bind (.note _) (.pure _))
  refine ⟨⟨s.packages.length, some pool, found⟩, ?_, ?_, rfl, hshown⟩
  · rw [decode, run, Outcome.within, hread]
    rfl
  · simp only [strings, hstrings]

end Table

/-- A table of two strings and one package, with texts in three configurations. -/
def TableSource.small : TableSource where
  strings := ["Hello", "h\u00e9"]
  packages := [⟨0x7f, "com.example", ["attr", "string"], ["accent", "hello"],
    [.spec 1 1, .entries 1 ⟨.none, .none, 0⟩ [.complex 0], .spec 2 2,
      .entries 2 ⟨.none, .none, 240⟩ [.simple 1 3 0, .absent],
      .entries 2 ⟨.letters 'f' 'r', .letters 'C' 'H', 0⟩ [.absent, .simple 1 0x10 42],
      .entries 2 ⟨.packed 5 8 11, .none, 0⟩ [.simple 1 3 1]]⟩]

/-- The small table keeps to the limits and is read back. -/
theorem Table.decode_encode_source_small :
    TableSource.small.Fits ∧ TableSource.small.encode.length < 0x100000000 ∧
      ∃ t, Table.decode TableSource.small.encode.toArray = .ok t ∧
        TableSource.small.ShownAs t := by
  have hfits : TableSource.small.Fits := by decide +kernel
  have hsize : TableSource.small.encode.length < 0x100000000 := by decide +kernel
  exact ⟨hfits, hsize, Table.decode_encode_source TableSource.small hfits hsize⟩

end Tables

end ApkFormats.Resource
