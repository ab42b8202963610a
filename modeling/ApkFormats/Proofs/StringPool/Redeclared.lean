import ApkFormats.Proofs.Agreement
import ApkFormats.Proofs.StringPool.Accepted
import ApkFormats.Proofs.StringPool.Marks

/-!
# String pools that declare other numbers of units

A string in UTF-8 has two marks in front of it: one for its units in UTF-16, one
for its bytes.  The first one is only stepped over.

* `textStart` and `textLength`: where the text of a string stands, as the marks
  have it;
* `StringRedeclared`, `PoolRedeclared`: two buffers hold the same strings, up to
  the number of units that a string in UTF-8 declares;
* `StringPool.read_carries`: the same pool is read of both.
-/

namespace ApkFormats

open Decoder (Carries)

variable {b b' : Bytes} {start stop x n : Nat}

/-- Offset of the first byte behind the header of the chunk at an offset. -/
def payloadAt (buffer : Bytes) (x : Nat) : Nat :=
  x + numberAt 2 buffer (x + 2)

namespace ChunkHeader

variable {expected : Option Nat} {header : ChunkHeader}

/-- A header whose bytes are the same in buffers of one size is read of both. -/
theorem read_carries (hsize : b'.size = b.size) (expected : Option Nat)
    (hsame : SameBetween b b' x stop) (hroom : x + chunkHeaderSize ≤ stop) :
    Carries b b' id x (read expected) (read expected) := by
  rw [chunkHeaderSize] at hroom
  intro header _ h
  obtain ⟨hoffset, htype, hheaderSize, hdeclared, hwanted, hinside, hstop⟩ := reads_read_iff.mp h
  refine ⟨header, rfl, reads_read_iff.mpr ⟨hoffset, ?_, ?_, ?_, hwanted, hsize ▸ hinside, hstop⟩⟩
  · rw [htype, hsame.numberAt_eq (by omega) (by omega)]
  · rw [hheaderSize, hsame.numberAt_eq (by omega) (by omega)]
  · rw [hdeclared, hsame.numberAt_eq (by omega) (by omega)]

/-- What stands behind a header that is read starts in the buffer. -/
theorem payload_of_read (h : (read expected).Reads b x header stop) :
    header.payload = payloadAt b x ∧ payloadAt b x ≤ b.size := by
  obtain ⟨rfl, -, hheaderSize, -, hinside, -⟩ := fields_of_read h
  rw [payload, payloadAt, ← hheaderSize]
  exact ⟨rfl, Nat.le_trans (Nat.add_le_add_left header.headerSize_le _) hinside⟩

end ChunkHeader

namespace StringPool

section Strings

/-! ## Strings -/

/-- Number of bytes of the units that strings are stored in. -/
def unitSize (utf8 : Bool) : Nat := if utf8 then 1 else 2

/-- Offset of the mark that tells the length of the text of the string at an offset. -/
def lengthStart (utf8 : Bool) (buffer : Bytes) (place : Nat) : Nat :=
  if utf8 then place + markWidth 1 buffer place else place

/-- Offset of the text of the string at an offset. -/
def textStart (utf8 : Bool) (buffer : Bytes) (place : Nat) : Nat :=
  lengthStart utf8 buffer place + markWidth (unitSize utf8) buffer (lengthStart utf8 buffer place)

/-- Number of bytes of the text of the string at an offset. -/
def textLength (utf8 : Bool) (buffer : Bytes) (place : Nat) : Nat :=
  unitSize utf8 * markValue (unitSize utf8) buffer (lengthStart utf8 buffer place)

/-- Two buffers hold the same string at an offset, but for the number of units that a string in
UTF-8 declares in as many bytes. -/
structure StringRedeclared (utf8 : Bool) (b b' : Bytes) (place : Nat) : Prop where
  units : lengthStart utf8 b' place = lengthStart utf8 b place
  text : SameBetween b b' (lengthStart utf8 b place)
    (textStart utf8 b place + textLength utf8 b place)

instance (utf8 : Bool) (b b' : Bytes) (place : Nat) :
    Decidable (StringRedeclared utf8 b b' place) :=
  decidable_of_iff
    (lengthStart utf8 b' place = lengthStart utf8 b place ∧
      SameBetween b b' (lengthStart utf8 b place)
        (textStart utf8 b place + textLength utf8 b place))
    ⟨fun h => ⟨h.1, h.2⟩, fun h => ⟨h.units, h.text⟩⟩

/-- A mark whose bytes are the same in two buffers is the same mark. -/
theorem mark_eq_of_same {unit : Nat}
    (hsame : SameBetween b b' x (x + markWidth unit b x)) :
    markWidth unit b' x = markWidth unit b x ∧ markValue unit b' x = markValue unit b x := by
  have hfirst : numberAt unit b' x = numberAt unit b x := by
    refine hsame.numberAt_eq (Nat.le_refl x) ?_
    rw [markWidth]
    split <;> omega
  refine ⟨by rw [markWidth, markWidth, hfirst], ?_⟩
  rw [markValue, markValue, hfirst]
  by_cases hshort : numberAt unit b x < highBit unit
  · rw [if_pos hshort, if_pos hshort]
  · rw [markWidth, if_neg hshort] at hsame
    rw [if_neg hshort, if_neg hshort, hsame.numberAt_eq (by omega) (by omega)]

variable {utf8 : Bool} {place : Nat}

/-- The length of a text is read exactly when its marks are there. -/
theorem reads_byteLength_iff :
    (byteLength utf8).Reads b place n stop ↔ textStart utf8 b place ≤ b.size ∧
      textLength utf8 b place = n ∧ textStart utf8 b place = stop := by
  cases utf8 with
  | true =>
      simp only [byteLength, shortMark_eq, if_true, Decoder.reads_bind_iff,
        reads_mark_iff Nat.one_ne_zero, textStart, textLength, lengthStart, unitSize, Nat.one_mul]
      constructor
      · rintro ⟨units, mid, ⟨-, -, rfl⟩, h⟩
        exact h
      · rintro ⟨hinside, hn, hstop⟩
        exact ⟨_, _, ⟨Nat.le_of_add_right_le hinside, rfl, rfl⟩, hinside, hn, hstop⟩
  | false =>
      simp only [byteLength, longMark_eq, if_false, Bool.false_eq_true, Decoder.reads_bind_iff,
        reads_mark_iff (Nat.succ_ne_zero 1), Decoder.reads_pure_iff, textStart, textLength,
        lengthStart, unitSize]
      constructor
      · rintro ⟨units, mid, ⟨hinside, rfl, rfl⟩, hn, hstop⟩
        exact ⟨hinside, hn, hstop⟩
      · rintro ⟨hinside, hn, hstop⟩
        exact ⟨_, _, ⟨hinside, rfl, rfl⟩, hn, hstop⟩

theorem StringRedeclared.text_eq (h : StringRedeclared utf8 b b' place) :
    textStart utf8 b' place = textStart utf8 b place ∧
      textLength utf8 b' place = textLength utf8 b place := by
  obtain ⟨hwidth, hvalue⟩ := mark_eq_of_same
    (h.text.part (Nat.le_refl _) (Nat.le_add_right _ _) (Nat.le_add_right _ _))
  exact ⟨by rw [textStart, h.units, hwidth, textStart],
    by rw [textLength, h.units, hvalue, textLength]⟩

theorem StringRedeclared.symm (h : StringRedeclared utf8 b b' place) :
    StringRedeclared utf8 b' b place := by
  obtain ⟨hstart, hlength⟩ := h.text_eq
  refine ⟨h.units.symm, ?_⟩
  rw [h.units, hstart, hlength]
  exact h.text.symm

variable (hsize : b'.size = b.size)
include hsize

/-- A string is read whatever number of units it declares. -/
theorem readString_carries (h : StringRedeclared utf8 b b' place) (header : ChunkHeader) :
    Carries b b' id start (readString header utf8 place) (readString header utf8 place) := by
  obtain ⟨hstart, hlength⟩ := h.text_eq
  have hbytes : Carries b b' id place (byteLength utf8) (byteLength utf8) := by
    intro n stop hread
    rw [reads_byteLength_iff] at hread
    refine ⟨n, rfl, reads_byteLength_iff.mpr ?_⟩
    rwa [hstart, hlength, hsize]
  unfold readString
  refine .require fun _ => .goTo (hbytes.bind_same fun n mid hread => ?_)
  obtain ⟨-, rfl, rfl⟩ := reads_byteLength_iff.mp hread
  have htext := h.text.part (Nat.le_add_right _ _) (Nat.le_refl _) (Nat.le_add_right _ _)
  refine .position (.require fun _ => .take hsize htext fun bytes => ?_)
  cases decodeText utf8 bytes with
  | ok s => exact .pure rfl
  | error malformed => exact .fail

end Strings

section Pools

/-! ## Pools -/

/-- Declared number of strings of the pool at an offset. -/
def countAt (buffer : Bytes) (x : Nat) : Nat :=
  numberAt 4 buffer (x + 8)

/-- Whether the pool at an offset is stored in UTF-8. -/
def utf8At (buffer : Bytes) (x : Nat) : Bool :=
  storesUtf8 (numberAt 4 buffer (x + 16))

/-- Offset of a string of the pool at an offset. -/
def stringStart (buffer : Bytes) (x i : Nat) : Nat :=
  x + numberAt 4 buffer (x + 20) + numberAt 4 buffer (payloadAt buffer x + 4 * i)

/-- Two buffers hold the same pool at an offset, but for the numbers of units that its strings
declare. -/
structure PoolRedeclared (b b' : Bytes) (x : Nat) : Prop where
  fields : SameBetween b b' x (x + fixedSize)
  words : SameBetween b b' (payloadAt b x) (payloadAt b x + 4 * countAt b x)
  strings : ∀ i < countAt b x, StringRedeclared (utf8At b x) b b' (stringStart b x i)

instance (b b' : Bytes) (x : Nat) : Decidable (PoolRedeclared b b' x) :=
  decidable_of_iff
    (SameBetween b b' x (x + fixedSize) ∧
      SameBetween b b' (payloadAt b x) (payloadAt b x + 4 * countAt b x) ∧
      ∀ i < countAt b x, StringRedeclared (utf8At b x) b b' (stringStart b x i))
    ⟨fun h => ⟨h.1, h.2.1, h.2.2⟩, fun h => ⟨h.fields, h.words, h.strings⟩⟩

namespace PoolRedeclared

/-- What tells where the strings stand is the same in both buffers. -/
theorem layout_eq (h : PoolRedeclared b b' x) :
    payloadAt b' x = payloadAt b x ∧ countAt b' x = countAt b x ∧ utf8At b' x = utf8At b x ∧
      ∀ i < countAt b x, stringStart b' x i = stringStart b x i := by
  have hfields := h.fields
  rw [fixedSize] at hfields
  have hpayload : payloadAt b' x = payloadAt b x := by
    rw [payloadAt, payloadAt, hfields.numberAt_eq (by omega) (by omega)]
  refine ⟨hpayload, hfields.numberAt_eq (by omega) (by omega), ?_, fun i hi => ?_⟩
  · rw [utf8At, utf8At, hfields.numberAt_eq (by omega) (by omega)]
  · rw [stringStart, stringStart, hpayload, hfields.numberAt_eq (by omega) (by omega),
      h.words.numberAt_eq (by omega) (by omega)]

theorem symm (h : PoolRedeclared b b' x) : PoolRedeclared b' b x := by
  obtain ⟨hpayload, hcount, hutf8, hstart⟩ := h.layout_eq
  refine ⟨h.fields.symm, ?_, fun i hi => ?_⟩
  · rw [hpayload, hcount]
    exact h.words.symm
  · rw [hcount] at hi
    rw [hutf8, hstart i hi]
    exact (h.strings i hi).symm

end PoolRedeclared

theorem noteStyles_carries {styleCount offset : Nat} {after after' : Unit → Decoder StringPool}
    (h : Carries b b' id start (after ()) (after' ())) :
    Carries b b' id start (noteStyles styleCount offset >>= after)
      (noteStyles styleCount offset >>= after') := by
  unfold noteStyles
  split
  · exact .note h
  · exact h

variable (hsize : b'.size = b.size)
include hsize

/-- The same pool is read, whatever numbers of units its strings declare. -/
theorem read_carries (h : PoolRedeclared b b' x) : Carries b b' id x read read := by
  obtain ⟨hfields, hwords, hstrings⟩ := h
  rw [fixedSize] at hfields
  rw [read_eq]
  refine .bind_same (ChunkHeader.read_carries hsize _ hfields (Nat.add_le_add_left (by decide) x))
    fun header mid hread => ?_
  obtain ⟨hpayload, hroom⟩ := ChunkHeader.payload_of_read hread
  obtain ⟨rfl, -, -, -, -, rfl⟩ := ChunkHeader.fields_of_read hread
  unfold readBehind
  simp only [chunkHeaderSize]
  refine .require fun _ => .u32 hsize ?_ <| .u32 hsize ?_ <| .u32 hsize ?_ <| .u32 hsize ?_ <|
    .u32 hsize ?_ <| .goTo <| .require fun _ => ?_
  iterate 5 exact hfields.part (by omega) (by omega) (by omega)
  rw [hpayload]
  refine .bind_same (.words hsize hwords hroom) fun words mid hread => ?_
  refine noteStyles_carries (.bind_same ?_ fun strings mid _ => .note (.goTo (.pure rfl)))
  refine .each_same fun word hword start => ?_
  obtain ⟨i, hi, rfl⟩ := Decoder.exists_of_mem_u32s hread hword
  exact readString_carries hsize (hstrings i hi) header

end Pools

end StringPool

end ApkFormats
