import ApkFormats.Proofs.Failures
import ApkFormats.Proofs.StringPool.Locality
import ApkFormats.Proofs.Xml.Stream
import ApkFormats.Xml.Source

/-!
# A document ends where it says

The size that a document declares is the end of its records, while its string
pool is checked against the buffer, and the header of a record is read before it
is known whether the record fits.  Still nothing behind the declared size is
ever shown: a pool that reaches beyond it leaves no room for an element, and a
record that does is refused.

* `readRecords_mirrors`: the records of a document are read of the whole buffer
  exactly as they are read of a first part that holds them;
* `Document.decode_extract_iff`: a buffer is the document that its first part of
  the declared size is;
* `Document.decode_eq_of_extent`: so both are the same document, or both errors
  say that it cannot be read.
-/

namespace ApkFormats.Xml

open Decoder (Mirrors)

section Records

/-! ## Records in the first part of a buffer -/

variable {part buffer : Bytes} {start record tag size : Nat} {pool : StringPool}

theorem lookup_mirrors (index : Nat) :
    Mirrors part buffer 0 id start (lookup pool record index) (lookup pool record index) := by
  unfold lookup
  split
  · exact .pure _
  · exact .fail

theorem lookupOptional_mirrors (index : Nat) :
    Mirrors part buffer 0 id start (lookupOptional pool record index)
      (lookupOptional pool record index) :=
  .ite (fun _ => .pure none) fun _ => .bind (lookup_mirrors index) fun s _ _ => .pure (some s)

variable (hpart : Holds buffer 0 part.toList)
include hpart

theorem Attribute.read_mirrors (hroom : start + attributeSize ≤ part.size) :
    Mirrors part buffer 0 id start (Attribute.read pool record) (Attribute.read pool record) := by
  rw [attributeSize] at hroom
  unfold Attribute.read
  refine .u32 hpart (by omega) fun uriIndex => .u32 hpart (by omega) fun nameIndex => ?_
  refine .u32 hpart (by omega) fun rawString => .u32 hpart (by omega) fun flags => ?_
  refine .u32 hpart (by omega) fun data => ?_
  refine .bind (lookup_mirrors nameIndex) fun name _ _ => ?_
  refine .bind (lookupOptional_mirrors uriIndex) fun uri _ _ => ?_
  dsimp only [id]
  split
  · exact .pure _
  · exact .fail

/-- The attributes of an element lie in its record. -/
theorem Event.readStart_mirrors (hleast : nodeHeaderSize + 20 ≤ size)
    (hroom : record + size ≤ part.size) :
    Mirrors part buffer 0 id (record + nodeHeaderSize) (Event.readStart pool record size)
      (Event.readStart pool record size) := by
  rw [nodeHeaderSize] at hleast ⊢
  unfold Event.readStart
  refine .u32 hpart (by omega) fun uriIndex => .u32 hpart (by omega) fun nameIndex => ?_
  refine .u16 hpart (by omega) fun attributeStart => .u16 hpart (by omega) fun stride => ?_
  refine .u16 hpart (by omega) fun count => .u16 hpart (by omega) fun _ => ?_
  refine .u16 hpart (by omega) fun _ => .u16 hpart (by omega) fun _ => ?_
  refine .require rfl fun hfits => ?_
  refine .bind (lookupOptional_mirrors uriIndex) fun uri _ _ => ?_
  refine .bind (lookup_mirrors nameIndex) fun name _ _ => ?_
  refine .bind (.each fun i hi _ => ?_) fun attributes _ _ => .pure _
  have hi : i < count := List.mem_range.mp hi
  have hplace : attributeSize ≤ stride ∧
      record + nodeHeaderSize + attributeStart + count * stride ≤ record + size := by
    simp only [Bool.or_eq_true, Bool.and_eq_true, decide_eq_true_eq, beq_iff_eq] at hfits
    exact hfits.resolve_left (by omega)
  have hrow : (i + 1) * stride ≤ count * stride := Nat.mul_le_mul_right stride hi
  rw [Nat.succ_mul] at hrow
  exact .goTo (Nat.zero_add _).symm (Attribute.read_mirrors hpart (by omega))

/-- A record that is large enough for its kind and ends in the part lies there with all that is
read of it. -/
theorem Event.read_mirrors (hleast : leastRecordSize tag ≤ size)
    (hroom : record + size ≤ part.size) :
    Mirrors part buffer 0 id start (Event.read pool record tag size)
      (Event.read pool record tag size) := by
  unfold Event.read
  refine .goTo (Nat.zero_add _).symm ?_
  refine .ite (fun htag => ?_) fun _ => .ite (fun _ => .pure _) fun _ => .ite (fun _ => .pure _)
    fun _ => .ite (fun htag => ?_) fun _ => .ite (fun _ => .note (.pure _)) fun _ => .fail
  · subst htag
    exact Event.readStart_mirrors hpart hleast hroom
  · subst htag
    have htext : nodeHeaderSize + 12 ≤ size := hleast
    refine .u32 hpart (by omega) fun index => ?_
    exact .bind (lookup_mirrors index) fun content _ _ => .pure _

/-- The records of a document are read of the whole exactly as they are read of the part. -/
theorem readRecords_mirrors {fileSize : Nat} (hsize : fileSize ≤ part.size) (started : Bool)
    (b : Builder) :
    Mirrors part buffer 0 id start (readRecords pool fileSize started b record)
      (readRecords pool fileSize started b record) := by
  -- What is left of the document gets smaller with each record that fits.
  induction hleft : fileSize - record using Nat.strongRecOn
    generalizing started b record start with
  | ind left ih =>
      by_cases hinside : record < fileSize
      · by_cases hheader : record + chunkHeaderSize ≤ part.size
        · rw [readRecords]
          simp only [dif_pos hinside]
          rw [chunkHeaderSize] at hheader
          refine .goTo (Nat.zero_add _).symm ?_
          refine .u32 hpart (by omega) fun tag => .u32 hpart (by omega) fun size => ?_
          split
          · rename_i hfits
            obtain ⟨hleast, hroom, hkind⟩ := hfits
            rw [chunkHeaderSize] at hleast
            refine .ite (fun _ => .note (ih _ (by omega) false b rfl)) fun _ => ?_
            refine .bind (Event.read_mirrors hpart hkind (by omega)) fun event _ _ => ?_
            dsimp only [id]
            split
            · exact .ite (fun _ => .pure _) fun _ => ih _ (by omega) true _ rfl
            · exact .fail
          · exact .fail
        · -- The header of such a record may stand in the whole; then the record does not fit.
          have hnone : ∀ {buffer cursor r stop},
              ¬(readRecords pool fileSize started b record).Reads buffer cursor r stop := by
            intro buffer cursor r stop h
            rcases readRecords_cases h with ⟨hend, -⟩ | ⟨_, _, -, -, -, hleast, hroom, -⟩
            · omega
            · omega
          exact .of_not (fun _ _ => hnone) fun _ _ => hnone
      · rw [readRecords]
        simp only [dif_neg hinside]
        exact .pure b

omit hpart in
/-- Records that start behind the end build nothing. -/
theorem root?_of_readRecords_empty {fileSize cursor stop : Nat} {b : Builder}
    (h : (readRecords pool fileSize false .empty record).Reads buffer cursor b stop)
    (hroot : b.root? ≠ none) : record < fileSize := by
  rcases readRecords_cases h with ⟨-, rfl⟩ | ⟨_, _, -, -, hinside, -⟩
  · exact absurd rfl hroot
  · exact hinside

end Records

namespace Document

variable {buffer : Bytes} {n : Nat}

/-- A buffer is the document that its first part of the declared size is. -/
theorem decode_extract_iff (hdeclared : numberAt 4 buffer 4 = n) (hsize : max 8 n ≤ buffer.size)
    (d : Document) : decode buffer = .ok d ↔ decode (buffer.extract 0 n) = .ok d := by
  obtain ⟨hpart, hlength⟩ := Holds.of_first (Nat.le_trans (Nat.le_max_right 8 n) hsize)
  generalize buffer.extract 0 n = part at hlength hpart ⊢
  -- The fixed bytes and the size stand in the part as soon as it has room for them.
  have hfront (hroom : 8 ≤ n) : buffer.extract 0 4 = part.extract 0 4 ∧
      numberAt 4 buffer 4 = numberAt 4 part 4 := by
    have hmagic : buffer.extract (0 + 0) (0 + 0 + 4) = part.extract 0 (0 + 4) :=
      hpart.extract_part (by omega)
    have hnumber : numberAt 4 buffer (0 + 4) = numberAt 4 part 4 :=
      hpart.numberAt_part (by omega)
    exact ⟨hmagic, hnumber⟩
  rw [decode_eq_ok_iff, decode_eq_ok_iff]
  constructor
  · rintro ⟨-, hmagic, hfile, -, cursor, b, last, hpool, hrecords, hroot⟩
    have hinside := root?_of_readRecords_empty hrecords (by simp [hroot])
    obtain ⟨hoffset, -, hcursor, -⟩ := StringPool.ends_of_read hpool
    rw [ChunkHeader.stop, hoffset] at hinside hcursor
    obtain ⟨hmagic', hnumber⟩ := hfront (by omega)
    refine ⟨by omega, hmagic' ▸ hmagic, hnumber ▸ hfile, by omega, cursor, b, last, ?_, ?_, hroot⟩
    · exact (StringPool.reads_read_first_iff hpart).mp ⟨hpool, by omega⟩
    · exact (readRecords_mirrors hpart (by omega) false .empty).reads_iff.mp hrecords
  · rintro ⟨hroom, hmagic, hfile, hfits, cursor, b, last, hpool, hrecords, hroot⟩
    obtain ⟨hmagic', hnumber⟩ := hfront (by omega)
    refine ⟨by omega, hmagic'.symm ▸ hmagic, hnumber.symm ▸ hfile, by omega, cursor, b, last, ?_,
      ?_, hroot⟩
    · exact ((StringPool.reads_read_first_iff hpart).mpr hpool).1
    · exact (readRecords_mirrors hpart (by omega) false .empty).reads_iff.mpr hrecords

/-- Nothing behind the declared size matters: a buffer and its first part of that size are the same
document, or neither of them can be read. -/
theorem decode_eq_of_extent (hdeclared : numberAt 4 buffer 4 = n) (hsize : max 8 n ≤ buffer.size) :
    (∃ d, decode buffer = .ok d ∧ decode (buffer.extract 0 n) = .ok d) ∨
      ∃ e e', decode buffer = .error e ∧ e.IsOneOf Family ∧
        decode (buffer.extract 0 n) = .error e' ∧ e'.IsOneOf Family := by
  have hsame := decode_extract_iff hdeclared hsize
  cases hwhole : decode buffer with
  | ok d => exact .inl ⟨d, rfl, (hsame d).mp hwhole⟩
  | error e =>
      cases hpart : decode (buffer.extract 0 n) with
      | ok d =>
          rw [(hsame d).mpr hpart] at hwhole
          cases hwhole
      | error e' =>
          exact .inr ⟨e, e', rfl, isOneOf_of_decode hwhole, rfl, isOneOf_of_decode hpart⟩

/-- A document with the start of another root behind its declared size. -/
def trailed : Bytes :=
  let pool := ["a"]
  let body := StringPool.encode true pool ++ encodeStart pool none "a" [] ++ encodeEnd pool none "a"
  (magic ++ wordBytes [chunkHeaderSize + body.length] ++ body ++
    encodeStart pool none "a" []).toArray

/-- The second root is not seen. -/
theorem decode_eq_of_extent_trailed :
    (numberAt 4 trailed 4 = 104 ∧ max 8 104 < trailed.size) ∧
      ∃ d, decode trailed = .ok d ∧ decode (trailed.extract 0 104) = .ok d := by
  have hsizes : numberAt 4 trailed 4 = 104 ∧ max 8 104 < trailed.size := by
    decide +kernel
  have haccepted : (decode trailed).toOption.any (fun d => d.root.children.isEmpty) = true := by
    decide +kernel
  obtain ⟨d, hdecode, -⟩ := exists_ok_of_any haccepted
  rcases decode_eq_of_extent hsizes.1 (Nat.le_of_lt hsizes.2) with hboth | ⟨e, _, hwhole, -⟩
  · exact ⟨hsizes, hboth⟩
  · rw [hdecode] at hwhole
    cases hwhole

end Document

end ApkFormats.Xml
