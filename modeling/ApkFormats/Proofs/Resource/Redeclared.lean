import ApkFormats.Proofs.Resource.Rearranged
import ApkFormats.Proofs.StringPool.Redeclared

/-!
# Buffers that differ in declared sizes

An entry, the value of a simple entry and a string in UTF-8 each declare a size.
Here two buffers are compared that declare different ones, and are the same
wherever else anything is read of a resource table.

* `EntryRedeclared`, `EntriesRedeclared`, `PackageRedeclared`: they hold the same
  entry, chunk or package at an offset, but for declared sizes;
* `Redeclared`: they hold the same chunks, each of them but for these;
* `Redeclared.symm`: what tells where everything stands is the same in both.
-/

namespace ApkFormats.Resource

variable {b b' : Bytes} {x place : Nat}

section Entries

/-! ## Entries -/

/-- Offset of the first byte behind the key of the entry at an offset that is no declared size. -/
def contentStart (buffer : Bytes) (place : Nat) : Nat :=
  if Entry.marksComplex (numberAt 2 buffer (place + 2)) then place + 8 else place + 10

/-- Two buffers hold the same entry at an offset, but for its size and that of its value. -/
structure EntryRedeclared (b b' : Bytes) (place : Nat) : Prop where
  fields : SameBetween b b' (place + 2) (place + 8)
  content : SameBetween b b' (contentStart b place) (place + Entry.fixedSize)

instance (b b' : Bytes) (place : Nat) : Decidable (EntryRedeclared b b' place) :=
  decidable_of_iff
    (SameBetween b b' (place + 2) (place + 8) ∧
      SameBetween b b' (contentStart b place) (place + Entry.fixedSize))
    ⟨fun h => ⟨h.1, h.2⟩, fun h => ⟨h.fields, h.content⟩⟩

theorem EntryRedeclared.symm (h : EntryRedeclared b b' place) : EntryRedeclared b' b place := by
  have hstart : contentStart b' place = contentStart b place := by
    rw [contentStart, contentStart, h.fields.numberAt_eq (by omega) (by omega)]
  refine ⟨h.fields.symm, ?_⟩
  rw [hstart]
  exact h.content.symm

end Entries

section Chunks

/-! ## Chunks of a package -/

/-- Two buffers hold the same chunk of entries at an offset, but for the sizes of its entries and
their values. -/
structure EntriesRedeclared (b b' : Bytes) (x : Nat) : Prop where
  fields : SameBetween b b' x (x + TypeEntries.leastHeaderSize)
  words : SameBetween b b' (payloadAt b x) (payloadAt b x + 4 * numberAt 4 b (x + 12))
  entries : ∀ i < numberAt 4 b (x + 12), numberAt 4 b (payloadAt b x + 4 * i) ≠ noIndex →
    EntryRedeclared b b' (x + numberAt 4 b (x + 16) + numberAt 4 b (payloadAt b x + 4 * i))

instance (b b' : Bytes) (x : Nat) : Decidable (EntriesRedeclared b b' x) :=
  decidable_of_iff
    (SameBetween b b' x (x + TypeEntries.leastHeaderSize) ∧
      SameBetween b b' (payloadAt b x) (payloadAt b x + 4 * numberAt 4 b (x + 12)) ∧
      ∀ i < numberAt 4 b (x + 12), numberAt 4 b (payloadAt b x + 4 * i) ≠ noIndex →
        EntryRedeclared b b' (x + numberAt 4 b (x + 16) + numberAt 4 b (payloadAt b x + 4 * i)))
    ⟨fun h => ⟨h.1, h.2.1, h.2.2⟩, fun h => ⟨h.fields, h.words, h.entries⟩⟩

/-- Two buffers hold the same chunk of a package, but for the sizes of entries and their values. -/
structure ChunkRedeclared (b b' : Bytes) (c : TopChunk) : Prop where
  header : SameBetween b b' c.position (c.position + chunkHeaderSize)
  entries : c.type = typeEntriesType → EntriesRedeclared b b' c.position
  spec : c.type = typeSpecType → SameBetween b b' c.position (c.position + TypeSpec.fixedSize)

instance (b b' : Bytes) (c : TopChunk) : Decidable (ChunkRedeclared b b' c) :=
  decidable_of_iff
    (SameBetween b b' c.position (c.position + chunkHeaderSize) ∧
      (c.type = typeEntriesType → EntriesRedeclared b b' c.position) ∧
      (c.type = typeSpecType → SameBetween b b' c.position (c.position + TypeSpec.fixedSize)))
    ⟨fun h => ⟨h.1, h.2.1, h.2.2⟩, fun h => ⟨h.header, h.entries, h.spec⟩⟩

theorem EntriesRedeclared.symm (h : EntriesRedeclared b b' x) : EntriesRedeclared b' b x := by
  have hfields := h.fields
  rw [TypeEntries.leastHeaderSize, chunkHeaderSize, Config.leastSize] at hfields
  have hpayload : payloadAt b' x = payloadAt b x := by
    rw [payloadAt, payloadAt, hfields.numberAt_eq (by omega) (by omega)]
  have hcount : numberAt 4 b' (x + 12) = numberAt 4 b (x + 12) :=
    hfields.numberAt_eq (by omega) (by omega)
  refine ⟨h.fields.symm, ?_, ?_⟩
  · rw [hpayload, hcount]
    exact h.words.symm
  · rw [hpayload, hcount, hfields.numberAt_eq (by omega) (by omega)]
    intro i hi
    rw [h.words.numberAt_eq (by omega) (by omega)]
    exact fun hpresent => (h.entries i hi hpresent).symm

theorem ChunkRedeclared.symm {c : TopChunk} (h : ChunkRedeclared b b' c) :
    ChunkRedeclared b' b c where
  header := h.header.symm
  entries htype := (h.entries htype).symm
  spec htype := (h.spec htype).symm

end Chunks

section Packages

/-! ## Packages -/

/-- Two buffers hold the same package at an offset, but for declared sizes. -/
structure PackageRedeclared (b b' : Bytes) (x : Nat) : Prop where
  fields : SameBetween b b' x (x + Package.fixedSize)
  typePool : StringPool.PoolRedeclared b b' (typePoolAt b x)
  keyPool : StringPool.PoolRedeclared b b' (keyPoolAt b x)
  inner : innerChunksAt b' x = innerChunksAt b x
  chunks : ∀ c ∈ innerChunksAt b x, ChunkRedeclared b b' c

instance (b b' : Bytes) (x : Nat) : Decidable (PackageRedeclared b b' x) :=
  decidable_of_iff
    (SameBetween b b' x (x + Package.fixedSize) ∧
      StringPool.PoolRedeclared b b' (typePoolAt b x) ∧
      StringPool.PoolRedeclared b b' (keyPoolAt b x) ∧
      innerChunksAt b' x = innerChunksAt b x ∧ ∀ c ∈ innerChunksAt b x, ChunkRedeclared b b' c)
    ⟨fun h => ⟨h.1, h.2.1, h.2.2.1, h.2.2.2.1, h.2.2.2.2⟩,
      fun h => ⟨h.fields, h.typePool, h.keyPool, h.inner, h.chunks⟩⟩

theorem PackageRedeclared.symm (h : PackageRedeclared b b' x) : PackageRedeclared b' b x := by
  have hfields := h.fields
  rw [Package.fixedSize, chunkHeaderSize, nameSize] at hfields
  have htypes : typePoolAt b' x = typePoolAt b x := by
    rw [typePoolAt, typePoolAt, hfields.numberAt_eq (by omega) (by omega)]
  have hkeys : keyPoolAt b' x = keyPoolAt b x := by
    rw [keyPoolAt, keyPoolAt, hfields.numberAt_eq (by omega) (by omega)]
  refine ⟨h.fields.symm, ?_, ?_, h.inner.symm, ?_⟩
  · rw [htypes]
    exact h.typePool.symm
  · rw [hkeys]
    exact h.keyPool.symm
  · rw [h.inner]
    exact fun c hc => (h.chunks c hc).symm

end Packages

section Tables

/-! ## Tables -/

/-- Two buffers hold the same chunk at top level, but for declared sizes. -/
structure TopRedeclared (b b' : Bytes) (c : TopChunk) : Prop where
  fields : SameBetween b b' c.position (c.position + chunkHeaderSize + 4)
  pool : c.type = stringPoolType → StringPool.PoolRedeclared b b' c.position
  package : c.type = packageType → PackageRedeclared b b' c.position

instance (b b' : Bytes) (c : TopChunk) : Decidable (TopRedeclared b b' c) :=
  decidable_of_iff
    (SameBetween b b' c.position (c.position + chunkHeaderSize + 4) ∧
      (c.type = stringPoolType → StringPool.PoolRedeclared b b' c.position) ∧
      (c.type = packageType → PackageRedeclared b b' c.position))
    ⟨fun h => ⟨h.1, h.2.1, h.2.2⟩, fun h => ⟨h.fields, h.pool, h.package⟩⟩

/-- Two buffers of one size are the same wherever anything is read of the first one, but for the
declared sizes of entries and values and the declared units of strings in UTF-8. -/
structure Redeclared (b b' : Bytes) : Prop where
  size : b'.size = b.size
  same : topChunksFrom b' 0 = topChunksFrom b 0
  chunks : ∀ c ∈ topChunksFrom b 0, TopRedeclared b b' c

instance (b b' : Bytes) : Decidable (Redeclared b b') :=
  decidable_of_iff
    (b'.size = b.size ∧ topChunksFrom b' 0 = topChunksFrom b 0 ∧
      ∀ c ∈ topChunksFrom b 0, TopRedeclared b b' c)
    ⟨fun h => ⟨h.1, h.2.1, h.2.2⟩, fun h => ⟨h.size, h.same, h.chunks⟩⟩

theorem TopRedeclared.symm {c : TopChunk} (h : TopRedeclared b b' c) : TopRedeclared b' b c where
  fields := h.fields.symm
  pool htype := (h.pool htype).symm
  package htype := (h.package htype).symm

theorem Redeclared.symm (h : Redeclared b b') : Redeclared b' b where
  size := h.size.symm
  same := h.same.symm
  chunks := by
    rw [h.same]
    exact fun c hc => (h.chunks c hc).symm

end Tables

end ApkFormats.Resource
