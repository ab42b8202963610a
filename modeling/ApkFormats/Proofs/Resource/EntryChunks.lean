import ApkFormats.Proofs.Resource.Alike
import ApkFormats.Proofs.Resource.Tiling
import Mathlib.Order.Bounds.Basic

/-!
# What a chunk of entries holds

A chunk of entries names the place of every entry by a word, counted from a
start that it names, too.  Where a word says "no entry" there is none; every
other one leads to sixteen bytes that end in the chunk, and these are the entry.
Of several entries with one key, the index of keys leads to the last.

* `TypeEntries.Exact`: a chunk holds what its bytes say, and nothing else;
* `TypeEntries.StandsAt`: a chunk is accepted at a position in a package;
* `TypeEntries.exact_of_standsAt`: then it is exact, and the same bytes are
  accepted as the same chunk in every other package with the same keys.
-/

namespace ApkFormats

theorem StringPool.stringAt_eq_ok_iff {pool : StringPool} {i : Nat} {s : String} :
    pool.stringAt i = .ok s ↔ i ≠ noIndex ∧ pool.strings[i]? = some s := by
  constructor
  · intro h
    unfold stringAt at h
    split at h
    · cases h
    · rename_i hindex
      rw [Int.toNat_natCast] at h
      refine ⟨by omega, ?_⟩
      cases hstring : pool.strings[i]? with
      | none =>
          rw [hstring] at h
          cases h
      | some s' =>
          rw [hstring] at h
          exact congrArg some (Except.ok.inj h)
  · rintro ⟨hindex, hstring⟩
    rw [stringAt, if_neg (by omega), Int.toNat_natCast, hstring]

namespace Resource

section Lists

/-! ## The last one wins -/

variable {pairs : List (String × Nat)} {key : String} {i : Nat}

/-- Among pairs whose numbers fall, the first one with a key has the greatest number. -/
theorem lookup_eq_some_iff_of_falling (hfalling : pairs.Pairwise fun a b => b.2 < a.2) :
    pairs.lookup key = some i ↔ IsGreatest {j | (key, j) ∈ pairs} i := by
  induction pairs with
  | nil => simp [IsGreatest]
  | cons pair rest ih =>
      obtain ⟨name, first⟩ := pair
      obtain ⟨hfirst, hrest⟩ := List.pairwise_cons.mp hfalling
      by_cases hname : key = name
      · subst hname
        have hgreatest : IsGreatest {j | (key, j) ∈ (key, first) :: rest} first := by
          refine ⟨List.mem_cons_self, fun j hj => ?_⟩
          rcases List.mem_cons.mp hj with heq | hj
          · exact Nat.le_of_eq (Prod.mk.inj heq).2
          · exact Nat.le_of_lt (hfirst _ hj)
        rw [List.lookup_cons_self, Option.some.injEq]
        exact ⟨fun heq => heq ▸ hgreatest, fun h => hgreatest.unique h⟩
      · have hsame : {j | (key, j) ∈ (name, first) :: rest} = {j | (key, j) ∈ rest} := by
          ext j
          simp [hname]
        rw [hsame, ← ih hrest, List.lookup_cons, beq_false_of_ne hname]

end Lists

section Fields

/-! ## Entries in their places -/

variable {buffer : Bytes} {start stop : Nat}

/-- The value that eight bytes spell. -/
def StoredValue.spelledAt (buffer : Bytes) (place : Nat) : StoredValue where
  size := numberAt 2 buffer place
  reserved := numberAt 1 buffer (place + 2)
  type := numberAt 1 buffer (place + 3)
  data := numberAt 4 buffer (place + 4)

/-- The entry that sixteen bytes spell: the lowest bit of its flags says what the last eight of them
are. -/
def Entry.spelledAt (buffer : Bytes) (place : Nat) : Entry where
  size := numberAt 2 buffer place
  flags := numberAt 2 buffer (place + 2)
  key := numberAt 4 buffer (place + 4)
  content :=
    if numberAt 2 buffer (place + 2) % 2 = 1 then
      .complex (numberAt 4 buffer (place + 8)) (numberAt 4 buffer (place + 12))
    else .simple (.spelledAt buffer (place + 8))

theorem Entry.eq_spelledAt_of_read {e : Entry} (h : read.Reads buffer start e stop) :
    e = spelledAt buffer start := by
  unfold read at h
  simp only [Decoder.reads_u16_bind_iff, Decoder.reads_u32_bind_iff, Nat.add_assoc,
    Nat.reduceAdd] at h
  obtain ⟨-, -, -, h⟩ := h
  obtain ⟨content, _, hcontent, h⟩ := Decoder.reads_bind_iff.mp h
  rw [← (Decoder.reads_pure_iff.mp h).1, spelledAt, Entry.mk.injEq]
  refine ⟨rfl, rfl, rfl, ?_⟩
  unfold readContent marksComplex StoredValue.read at hcontent
  rcases Decoder.reads_ite_iff.mp hcontent with ⟨hflag, hcontent⟩ | ⟨hflag, hcontent⟩
  · simp only [Decoder.reads_u32_bind_iff, Decoder.reads_pure_iff, Nat.add_assoc,
      Nat.reduceAdd] at hcontent
    rw [if_pos (beq_iff_eq.mp hflag)]
    exact hcontent.2.2.1.symm
  · simp only [bind_assoc, pure_bind, Decoder.reads_u16_bind_iff, Decoder.reads_u8_bind_iff,
      Decoder.reads_u32_bind_iff, Decoder.reads_pure_iff, Nat.add_assoc,
      Nat.reduceAdd] at hcontent
    rw [if_neg (fun heq => hflag (beq_iff_eq.mpr heq))]
    exact hcontent.2.2.2.2.1.symm

end Fields

section Chunks

/-! ## Chunks -/

namespace TypeEntries

variable {keys keys' : StringPool} {buffer buffer' : Bytes} {start stop : Nat} {c : TypeEntries}

/-- The word that names the place of an entry. -/
def wordAt (buffer : Bytes) (c : TypeEntries) (i : Nat) : Nat :=
  numberAt 4 buffer (c.header.payload + 4 * i)

/-- The place that a word names. -/
def placeAt (buffer : Bytes) (c : TypeEntries) (i : Nat) : Nat :=
  c.header.offset + c.entriesStart + c.wordAt buffer i

/-- Indices whose entries have a key. -/
def indicesOf (keys : StringPool) (c : TypeEntries) (key : String) : Set Nat :=
  {i | ∃ e, c.entries[i]? = some (some e) ∧ keys.strings[e.key]? = some key}

/-- The fixed fields, the configuration and the words of a chunk stand in their places. -/
structure FieldsAt (buffer : Bytes) (c : TypeEntries) : Prop where
  id : c.id = numberAt 1 buffer (c.header.offset + 8)
  flags : c.flags = numberAt 1 buffer (c.header.offset + 9)
  reserved : c.reserved = numberAt 2 buffer (c.header.offset + 10)
  entryCount : c.entryCount = numberAt 4 buffer (c.header.offset + 12)
  entriesStart : c.entriesStart = numberAt 4 buffer (c.header.offset + 16)
  config : ∃ stop ≤ c.header.payload, Config.read.Reads buffer (c.header.offset + 20) c.config stop
  words : c.header.payload + 4 * c.entryCount ≤ c.header.stop

/-- A chunk holds what its bytes say. -/
structure Exact (keys : StringPool) (buffer : Bytes) (c : TypeEntries) : Prop where
  fields : c.FieldsAt buffer
  size_entries : c.entries.size = c.entryCount
  absent_iff : ∀ i < c.entryCount, c.entries[i]? = some none ↔ c.wordAt buffer i = noIndex
  present : ∀ i < c.entryCount, c.wordAt buffer i ≠ noIndex →
    c.entries[i]? = some (some (.spelledAt buffer (c.placeAt buffer i))) ∧
      c.placeAt buffer i + Entry.fixedSize ≤ c.header.stop
  keyed : ∀ (i : Nat) (e : Entry), c.entries[i]? = some (some e) →
    e.key ≠ noIndex ∧ e.key < keys.strings.size
  keys_iff : ∀ key i, (key, i) ∈ c.keys ↔ IsGreatest (c.indicesOf keys key) i
  nodup_keys : (c.keys.map Prod.fst).Nodup
  indexOf?_iff : ∀ key i, c.indexOf? key = some i ↔ IsGreatest (c.indicesOf keys key) i

/-- A word leads to no entry, or to one whose bytes end in the chunk. -/
theorem readEntry_cases {header : ChunkHeader} {base i word : Nat}
    {item : Option (Entry × String)}
    (h : (readEntry keys header base (i, word)).Reads buffer start item stop) :
    word = noIndex ∧ item = none ∨
      word ≠ noIndex ∧ base + word + Entry.fixedSize ≤ header.stop ∧
        ∃ key, item = some (Entry.spelledAt buffer (base + word), key) := by
  unfold readEntry at h
  rcases Decoder.reads_ite_iff.mp h with ⟨hword, h⟩ | ⟨hword, h⟩
  · exact .inl ⟨hword, (Decoder.reads_pure_iff.mp h).1.symm⟩
  · rw [Decoder.reads_require_bind_iff, Decoder.reads_goTo_bind_iff] at h
    obtain ⟨hplace, h⟩ := h
    obtain ⟨e, _, hentry, h⟩ := Decoder.reads_bind_iff.mp h
    obtain ⟨key, _, -, h⟩ := Decoder.reads_bind_iff.mp h
    have hitem := (Decoder.reads_pure_iff.mp h).1
    rw [Entry.eq_spelledAt_of_read hentry] at hitem
    exact .inr ⟨hword, of_decide_eq_true hplace, key, hitem.symm⟩

/-- What a chunk is read from: its fields, and an item for each of its words. -/
theorem items_of_read (h : (read keys).Reads buffer start c stop) :
    c.header.offset = start ∧ c.header.size = numberAt 4 buffer (start + 4) ∧
      c.header.stop ≤ buffer.size ∧ c.FieldsAt buffer ∧ ∃ items : List (Option (Entry × String)),
        c.entries = (items.map fun item => item.map Prod.fst).toArray ∧
        c.namedIndices = namedFrom 0 items ∧
        ∀ i < c.entryCount, ∃ item, items[i]? = some item ∧ ∃ from' to',
          (readEntry keys c.header (c.header.offset + c.entriesStart)
            (i, c.wordAt buffer i)).Reads buffer from' item to' := by
  rw [read_eq] at h
  obtain ⟨header, _, hheader, h⟩ := Decoder.reads_bind_iff.mp h
  obtain ⟨rfl, -, -, hsize, hinside, rfl⟩ := ChunkHeader.fields_of_read hheader
  unfold readBehind at h
  simp only [Decoder.reads_u8_bind_iff, Decoder.reads_u16_bind_iff, Decoder.reads_u32_bind_iff,
    Nat.add_assoc, chunkHeaderSize, Nat.reduceAdd] at h
  obtain ⟨-, -, -, -, -, h⟩ := h
  obtain ⟨config, cursor, hconfig, h⟩ := Decoder.reads_bind_iff.mp h
  simp only [Decoder.reads_position_bind_iff, Decoder.reads_require_bind_iff,
    Decoder.reads_goTo_bind_iff] at h
  obtain ⟨hroom, hwords, h⟩ := h
  obtain ⟨words, _, hreadWords, h⟩ := Decoder.reads_bind_iff.mp h
  obtain ⟨items, _, hitems, h⟩ := Decoder.reads_bind_iff.mp h
  rw [← (Decoder.reads_pure_iff.mp h).1]
  refine ⟨rfl, hsize, hinside, ⟨rfl, rfl, rfl, rfl, rfl, ?_, ?_⟩, items, rfl, rfl,
    fun i hi => ?_⟩
  · exact ⟨cursor, of_decide_eq_true hroom, hconfig⟩
  · exact of_decide_eq_true hwords
  · have hword := Decoder.getElem?_of_reads_u32s hreadWords hi
    have hpair : ((List.range _).zip words)[i]? = some (i, _) :=
      List.getElem?_zip_eq_some.mpr ⟨List.getElem?_range hi, hword⟩
    exact getElem?_of_forall₂ (Decoder.forall₂_of_reads_each hitems) hpair

theorem mem_keys_iff {key : String} {i : Nat} : (key, i) ∈ c.keys ↔ c.indexOf? key = some i := by
  rw [TypeEntries.keys, List.mem_filterMap]
  constructor
  · rintro ⟨key', -, h⟩
    obtain ⟨j, hj, heq⟩ := Option.map_eq_some_iff.mp h
    obtain ⟨rfl, rfl⟩ := Prod.mk.inj heq
    exact hj
  · intro h
    refine ⟨key, ?_, by rw [h, Option.map_some]⟩
    obtain ⟨front, back, hsplit, -⟩ := List.lookup_eq_some_iff.mp h
    have hmem : (key, i) ∈ c.namedIndices.reverse := hsplit ▸ by simp
    rw [List.mem_eraseDups]
    exact List.mem_map_of_mem (List.mem_reverse.mp hmem)

theorem nodup_keys (c : TypeEntries) : (c.keys.map Prod.fst).Nodup := by
  have hkey (key : String) : ((c.indexOf? key).map fun index => (key, index)).map Prod.fst =
      Option.guard (fun key => (c.indexOf? key).isSome) key := by
    cases hindex : c.indexOf? key <;> simp [Option.guard, hindex]
  rw [TypeEntries.keys, List.map_filterMap]
  simp only [hkey]
  rw [List.filterMap_eq_filter]
  exact (nodup_eraseDups _).filter _

theorem pairwise_namedFrom (items : List (Option (Entry × String))) (first : Nat) :
    (namedFrom first items).Pairwise fun a b => a.2 < b.2 := by
  induction items generalizing first with
  | nil => exact .nil
  | cons item rest ih =>
      cases item with
      | none => exact ih (first + 1)
      | some item =>
          refine .cons (fun pair hpair => ?_) (ih (first + 1))
          obtain ⟨k, -, -, hk⟩ := mem_namedFrom.mp hpair
          dsimp only
          omega

/-- Keys in the order of their indices lead to the greatest index whose entry has the key. -/
theorem Sound.indexOf?_iff (hsound : c.Sound keys)
    (hordered : c.namedIndices.Pairwise fun a b => a.2 < b.2) {key : String} {i : Nat} :
    c.indexOf? key = some i ↔ IsGreatest (c.indicesOf keys key) i := by
  have hsame : {j | (key, j) ∈ c.namedIndices.reverse} = c.indicesOf keys key := by
    ext j
    rw [Set.mem_ofPred_eq, List.mem_reverse, hsound.named]
    refine exists_congr fun e => ?_
    rw [entry?_eq_some]
    refine and_congr_right fun he => ?_
    obtain ⟨name, hname⟩ := hsound.keyed j e (entry?_eq_some.mpr he)
    have hindex := (StringPool.stringAt_eq_ok_iff.mp hname).1
    rw [StringPool.stringAt_eq_ok_iff, and_iff_right hindex]
  rw [← hsame]
  exact lookup_eq_some_iff_of_falling (List.pairwise_reverse.mpr hordered)

theorem exact_of_reads (h : (read keys).Reads buffer start c stop) : c.Exact keys buffer := by
  have hsound := sound_of_read h
  obtain ⟨-, -, -, hfields, items, hentries, hnamed, hitems⟩ := items_of_read h
  have hordered : c.namedIndices.Pairwise fun a b => a.2 < b.2 :=
    hnamed ▸ pairwise_namedFrom items 0
  have hitem (i : Nat) : c.entries[i]? = (items[i]?).map fun item => item.map Prod.fst := by
    rw [hentries, List.getElem?_toArray, List.getElem?_map]
  refine ⟨hfields, hsound.size_entries, fun i hi => ?_, fun i hi hpresent => ?_, fun i e he => ?_,
    fun key i => ?_, nodup_keys c, fun key i => hsound.indexOf?_iff hordered⟩
  · obtain ⟨item, hi', _, _, hread⟩ := hitems i hi
    rw [hitem, hi']
    rcases readEntry_cases hread with ⟨hword, rfl⟩ | ⟨hword, -, key, rfl⟩
    · exact iff_of_true rfl hword
    · exact iff_of_false nofun hword
  · obtain ⟨item, hi', _, _, hread⟩ := hitems i hi
    rw [hitem, hi']
    rcases readEntry_cases hread with ⟨hword, -⟩ | ⟨-, hplace, key, rfl⟩
    · exact absurd hword hpresent
    · exact ⟨rfl, hplace⟩
  · obtain ⟨key, hkey⟩ := hsound.keyed i e (entry?_eq_some.mpr he)
    obtain ⟨hindex, hstring⟩ := StringPool.stringAt_eq_ok_iff.mp hkey
    exact ⟨hindex, (Array.getElem?_eq_some_iff.mp hstring).1⟩
  · rw [mem_keys_iff, hsound.indexOf?_iff hordered]

/-- A chunk of entries is accepted at a position of a package that ends at `last`. -/
def StandsAt (keys : StringPool) (last : Nat) (buffer : Bytes) (position : Nat)
    (c : TypeEntries) : Prop :=
  ∃ header stop, PackageChunk.StandsAt keys last buffer position header (.entries c) stop

variable {last last' position position' : Nat}

/-- A chunk is accepted in a package when it can be read and ends there. -/
theorem standsAt_iff : c.StandsAt keys last buffer position ↔
    (∃ stop, (read keys).Reads buffer position c stop) ∧ c.header.stop ≤ last := by
  constructor
  · rintro ⟨header, stop, hheader, hroom, hread⟩
    obtain ⟨hoffset, -, -, hsize, -, -⟩ := ChunkHeader.fields_of_read hheader
    obtain ⟨hoffset', hsize'⟩ := PackageChunk.header_of_read hread
    rw [PackageChunk.header] at hoffset' hsize'
    rw [ChunkHeader.stop, hoffset, hsize] at hroom
    rcases PackageChunk.read_cases hread with ⟨_, hread, -, heq⟩ | ⟨_, -, -, heq⟩
    · cases heq
      refine ⟨⟨stop, hread⟩, ?_⟩
      rwa [ChunkHeader.stop, hoffset', hsize']
    · cases heq
  · rintro ⟨⟨stop, hread⟩, hroom⟩
    rw [read_eq] at hread
    obtain ⟨header, _, hheader, hbehind⟩ := Decoder.reads_bind_iff.mp hread
    obtain ⟨rfl, htype, hheaderSize, hsize, hwanted, hinside, rfl⟩ :=
      ChunkHeader.reads_read_iff.mp hheader
    have heq := (least_of_readBehind hbehind).1
    have htypeEq : header.type = typeEntriesType := hwanted _ rfl
    refine ⟨header, stop, ?_, heq ▸ hroom, ?_⟩
    · exact ChunkHeader.reads_read_iff.mpr
        ⟨rfl, htype, hheaderSize, hsize, (fun _ hnone => by cases hnone), hinside, rfl⟩
    · rw [PackageChunk.read, if_pos htypeEq]
      exact hread.bind (.pure _)

theorem StandsAt.unique (h : c.StandsAt keys last buffer position) {c' : TypeEntries}
    (h' : c'.StandsAt keys last' buffer position) : c = c' := by
  obtain ⟨⟨_, hread⟩, -⟩ := standsAt_iff.mp h
  obtain ⟨⟨_, hread'⟩, -⟩ := standsAt_iff.mp h'
  exact Except.ok.inj (hread.result.symm.trans hread'.result)

theorem atOrigin_movedBy (h : c.header.offset = 0) (shift : Nat) :
    (c.movedBy shift).atOrigin = c := by
  obtain ⟨⟨type, headerSize, size, offset, hleast, hroom⟩, id, flags, reserved, count, first,
    config, entries, named⟩ := c
  obtain rfl : offset = 0 := h
  rfl

/-- A chunk is read of its own bytes as it is read of the buffer. -/
theorem read_alone (h : (read keys).Reads buffer start c stop) :
    ∃ stop', (read keys).Reads (buffer.extract start (start + c.header.size)) 0 c.atOrigin
      stop' := by
  obtain ⟨rfl, hsize, hinside, -⟩ := items_of_read h
  obtain ⟨hpart, hlength⟩ := holds_chunk hinside
  have hends : 0 + numberAt 4 buffer (c.header.offset + 0 + 4) ≤
      (buffer.extract c.header.offset c.header.stop).size := by
    rw [Nat.add_zero, ← hsize]
    omega
  obtain ⟨alone, stop', halone, hmoved, -⟩ := (read_mirrors hpart rfl hends c stop).mp h
  have heq := atOrigin_movedBy (items_of_read halone).1 c.header.offset
  rw [hmoved] at heq
  exact ⟨stop', heq.symm ▸ halone⟩

/-- A chunk that is read of some bytes is read wherever they stand, with the same keys. -/
theorem read_of_part {part : Bytes} {shift : Nat} (hpart : Holds buffer shift part.toList)
    (hkeys : keys'.strings = keys.strings) (h : (read keys).Reads part start c stop) :
    (read keys').Reads buffer (shift + start) (c.movedBy shift) (shift + stop) := by
  obtain ⟨rfl, hsize, hinside, -⟩ := items_of_read h
  have hends : c.header.offset + numberAt 4 buffer (shift + c.header.offset + 4) ≤ part.size := by
    have hleast := Nat.le_trans c.header.le_headerSize c.header.headerSize_le
    rw [chunkHeaderSize] at hleast
    rw [ChunkHeader.stop] at hinside
    rw [Nat.add_assoc, hpart.numberAt_part (by omega), ← hsize]
    exact hinside
  exact (read_mirrors hpart (StringPool.stringAt_congr hkeys) hends _ _).mpr ⟨c, stop, h, rfl, rfl⟩

/-- The bytes of an accepted chunk are accepted as the same chunk wherever they stand in a
package. -/
theorem StandsAt.elsewhere (h : c.StandsAt keys last buffer position)
    (hkeys : keys'.strings = keys.strings)
    (hbytes : buffer'.extract position' (position' + c.header.size) =
      buffer.extract position (position + c.header.size))
    (hlast : position' + c.header.size ≤ last') :
    (c.atOrigin.movedBy position').StandsAt keys' last' buffer' position' := by
  -- The chunk is read of its bytes alone, and then of these in their new place.
  obtain ⟨⟨stop, hread⟩, -⟩ := standsAt_iff.mp h
  obtain ⟨stop', halone⟩ := read_alone hread
  have hpos := c.header.size_pos
  have hroom := (items_of_read halone).2.2.1
  rw [← hbytes, Array.size_extract] at hroom
  change 0 + c.header.size ≤ _ at hroom
  have hpart : Holds buffer' position'
      (buffer'.extract position' (position' + c.header.size)).toList :=
    .of_extract (by omega)
  rw [hbytes] at hpart
  exact standsAt_iff.mpr ⟨⟨_, read_of_part hpart hkeys halone⟩, hlast⟩

/-- An accepted chunk ends in its package and holds what its bytes say.  Where the same bytes stand
in some package with the same keys, this chunk is accepted there and no other one. -/
theorem exact_of_standsAt (h : c.StandsAt keys last buffer position) :
    c.header.offset = position ∧ c.header.stop ≤ last ∧ c.header.stop ≤ buffer.size ∧
    c.Exact keys buffer ∧
    ∀ keys' last' buffer' position', keys'.strings = keys.strings →
      buffer'.extract position' (position' + c.header.size) =
        buffer.extract position (position + c.header.size) →
      position' + c.header.size ≤ last' →
      ∀ c', c'.StandsAt keys' last' buffer' position' ↔ c' = c.atOrigin.movedBy position' := by
  obtain ⟨⟨stop, hread⟩, hroom⟩ := standsAt_iff.mp h
  obtain ⟨hoffset, -, hinside, -⟩ := items_of_read hread
  refine ⟨hoffset, hroom, hinside, exact_of_reads hread, fun keys' last' buffer' position' hkeys
    hbytes hlast c' => ?_⟩
  have hsame := h.elsewhere hkeys hbytes hlast
  exact ⟨fun h' => h'.unique hsame, fun heq => heq ▸ hsame⟩

end TypeEntries

/-- The chunks of entries of a package that is read are accepted where they stand. -/
theorem Package.standsAt_of_read {buffer : Bytes} {start stop : Nat} {strings : Option StringPool}
    {p : Package} {c : TypeEntries} (h : (Package.read strings).Reads buffer start p stop)
    (hc : c ∈ p.entryChunks) :
    c.StandsAt p.keyPool p.header.stop buffer c.header.offset := by
  obtain ⟨-, -, -, -, hchunks, -⟩ := reads_read_iff.mp h
  obtain ⟨place, header, stop', -, hstands⟩ :=
    standsAt_of_mem_chunks hchunks (mem_entriesAmong.mp hc)
  obtain rfl := (PackageChunk.header_of_read hstands.readChunk).1
  exact ⟨header, stop', hstands⟩

end Chunks

/-- A chunk with two entries of one key, a place without an entry and a complex entry. -/
def TableSource.repeated : TableSource :=
  .ofChunks [.entries 1 ⟨.none, .none, 0⟩
    [.simple 0 3 0, .absent, .simple 0 3 1, .complex 1]]

/-- The key of two entries leads to the second one, in the table and of the bytes of the chunk
alone. -/
theorem TypeEntries.exact_of_standsAt_repeated :
    ∃ t p c, Table.decode TableSource.repeated.encode.toArray = .ok t ∧ p ∈ t.packages ∧
      c ∈ p.entryChunks ∧
      c.StandsAt p.keyPool p.header.stop TableSource.repeated.encode.toArray c.header.offset ∧
      c.Exact p.keyPool TableSource.repeated.encode.toArray ∧
      c.keys = [("greeting", 2), ("button", 3)] ∧ c.entries[1]? = some none ∧
      ∀ c', c'.StandsAt p.keyPool c.header.size
        (TableSource.repeated.encode.toArray.extract c.header.offset
          (c.header.offset + c.header.size)) 0 ↔ c' = c.atOrigin.movedBy 0 := by
  obtain ⟨t, p, hdecode, hfirst, htest⟩ := Table.exists_first_of_test
    TableSource.repeated.encode.toArray
    (fun t p => ∃ c ∈ p.entryChunks,
      c.keys = [("greeting", 2), ("button", 3)] ∧ c.entries[1]? = some none)
    (by decide +kernel)
  obtain ⟨c, hc, hkeys, habsent⟩ := of_decide_eq_true htest
  have hp := Table.mem_of_firstPackage hfirst
  obtain ⟨_, _, hread⟩ := Table.read_of_decode hdecode hp
  have hstands := Package.standsAt_of_read hread.reads hc
  obtain ⟨-, -, -, hexact, helsewhere⟩ := exact_of_standsAt hstands
  refine ⟨t, p, c, hdecode, hp, hc, hstands, hexact, hkeys, habsent, ?_⟩
  refine helsewhere _ _ _ 0 rfl ?_ (Nat.le_of_eq (Nat.zero_add _))
  rw [Array.extract_extract, Nat.add_zero, Nat.zero_add, Nat.min_self]

end Resource

end ApkFormats
