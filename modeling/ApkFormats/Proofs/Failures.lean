import ApkFormats.FileKind
import ApkFormats.Proofs.FailsOnly
import ApkFormats.Resource.Table
import ApkFormats.Xml.Document

/-!
# How the entry points may fail

Each kind of file has its own faults: `Fault.Concerns` says which ones reading
it may bring about.  A fault that no entry point has an error for concerns no
kind of file, so it never leaves one.

For every structure of a file a lemma `…read_failsOnly` says that reading it
brings about faults of its kind of file only; it follows the decoder step by
step.

The main statement is `decode_ok_or_own_error`: on every buffer each entry point
gives a value or an error of its own family, and a DEX file is valid exactly
when it can be decoded.
-/

namespace ApkFormats

/-- The faults that reading a kind of file may bring about. -/
def Fault.Concerns (kind : FileKind) : Fault → Prop
  | .stream _ => True
  | .missingByte => False
  | .longLeb128 _ => kind = .dex
  | .chunk _ => kind = .xml ∨ kind = .resources
  | .pool _ => kind = .xml ∨ kind = .resources
  | .xml _ => kind = .xml
  | .dex _ => kind = .dex
  | .table _ => kind = .resources

open Decoder (FailsOnly)

/-- Stream faults concern every kind of file. -/
instance (kind : FileKind) : Decoder.AllowsStream (Fault.Concerns kind) :=
  ⟨fun _ => trivial⟩

/-- A fault that concerns some kind of file is one that entry points have an error for. -/
theorem Fault.isTranslated_of_concerns {kind : FileKind} {fault : Fault}
    (h : fault.Concerns kind) : fault.isTranslated := by
  cases fault <;> simp_all [Fault.Concerns, Fault.isTranslated]

section Chunks

/-! ## Chunks and string pools -/

variable {kind : FileKind} (hkind : kind = .xml ∨ kind = .resources)
include hkind

theorem ChunkHeader.read_failsOnly (expected : Option Nat) :
    FailsOnly (Fault.Concerns kind) (ChunkHeader.read expected) := by
  have hchunk : ∀ c, Fault.Concerns kind (.chunk c) := fun _ => hkind
  unfold ChunkHeader.read
  refine .bind .position fun offset => ?_
  refine .bind .u16 fun type => ?_
  refine .bind .u16 fun headerSize => ?_
  refine .bind .u32 fun size => ?_
  refine .bind .bufferSize fun bufferSize => ?_
  refine .bind ?_ fun _ => ?_
  · cases expected with
    | none => exact .pure _
    | some wanted => exact .require _ (hchunk _)
  · split
    · exact .bind (.require _ (hchunk _)) fun _ => .pure _
    · exact .fail (hchunk _)

omit hkind in
theorem StringPool.byteLength_failsOnly (utf8 : Bool) :
    FailsOnly (Fault.Concerns kind) (StringPool.byteLength utf8) := by
  have hshort : FailsOnly (Fault.Concerns kind) StringPool.shortMark :=
    .bind .u8 fun _ => .ite (.pure _) (.bind .u8 fun _ => .pure _)
  have hlong : FailsOnly (Fault.Concerns kind) StringPool.longMark :=
    .bind .u16 fun _ => .ite (.pure _) (.bind .u16 fun _ => .pure _)
  exact .ite (.bind hshort fun _ => hshort) (.bind hlong fun _ => .pure _)

theorem StringPool.readString_failsOnly (header : ChunkHeader) (utf8 : Bool) (start : Nat) :
    FailsOnly (Fault.Concerns kind) (StringPool.readString header utf8 start) := by
  have hpool : ∀ p, Fault.Concerns kind (.pool p) := fun _ => hkind
  unfold StringPool.readString
  refine .bind (.require _ (hpool _)) fun _ => ?_
  refine .bind (.goTo _) fun _ => ?_
  refine .bind (byteLength_failsOnly utf8) fun length => ?_
  refine .bind .position fun cursor => ?_
  refine .bind (.require _ (hpool _)) fun _ => ?_
  refine .bind (.take _) fun bytes => ?_
  split
  · exact .pure _
  · exact .fail (hpool _)

theorem StringPool.read_failsOnly : FailsOnly (Fault.Concerns kind) StringPool.read := by
  have hpool : ∀ p, Fault.Concerns kind (.pool p) := fun _ => hkind
  unfold StringPool.read
  refine .bind (ChunkHeader.read_failsOnly hkind _) fun header => ?_
  refine .bind (.require _ (hpool _)) fun _ => ?_
  refine .bind .u32 fun stringCount => ?_
  refine .bind .u32 fun styleCount => ?_
  refine .bind .u32 fun flags => ?_
  refine .bind .u32 fun stringsStart => ?_
  refine .bind .u32 fun stylesStart => ?_
  refine .bind (.goTo _) fun _ => ?_
  refine .bind (.require _ (hpool _)) fun _ => ?_
  refine .bind (.times _ .u32) fun offsets => ?_
  refine .bind (.ite (.note _) (.pure _)) fun _ => ?_
  refine .bind (.each _ fun _ => readString_failsOnly hkind _ _ _) fun strings => ?_
  refine .bind (.note _) fun _ => ?_
  exact .bind (.goTo _) fun _ => .pure _

end Chunks

section Documents

/-! ## Binary XML documents -/

open Xml

theorem Xml.lookup_failsOnly (pool : StringPool) (record index : Nat) :
    FailsOnly (Fault.Concerns .xml) (lookup pool record index) := by
  unfold lookup
  split
  · exact .pure _
  · exact .fail rfl

theorem Xml.lookupOptional_failsOnly (pool : StringPool) (record index : Nat) :
    FailsOnly (Fault.Concerns .xml) (lookupOptional pool record index) :=
  .ite (.pure _) (.bind (lookup_failsOnly pool record index) fun _ => .pure _)

theorem Xml.Attribute.read_failsOnly (pool : StringPool) (record : Nat) :
    FailsOnly (Fault.Concerns .xml) (Attribute.read pool record) := by
  unfold Attribute.read
  refine .bind .u32 fun uriIndex => ?_
  refine .bind .u32 fun nameIndex => ?_
  refine .bind .u32 fun rawString => ?_
  refine .bind .u32 fun flags => ?_
  refine .bind .u32 fun data => ?_
  refine .bind (lookup_failsOnly _ _ _) fun name => ?_
  refine .bind (lookupOptional_failsOnly _ _ _) fun uri => ?_
  split
  · exact .pure _
  · exact .fail rfl

theorem Xml.Event.readStart_failsOnly (pool : StringPool) (record size : Nat) :
    FailsOnly (Fault.Concerns .xml) (Event.readStart pool record size) := by
  unfold Event.readStart
  refine .bind .u32 fun uriIndex => ?_
  refine .bind .u32 fun nameIndex => ?_
  refine .bind .u16 fun attributeStart => ?_
  refine .bind .u16 fun stride => ?_
  refine .bind .u16 fun count => ?_
  refine .bind .u16 fun _ => ?_
  refine .bind .u16 fun _ => ?_
  refine .bind .u16 fun _ => ?_
  refine .bind (.require _ rfl) fun _ => ?_
  refine .bind (lookupOptional_failsOnly _ _ _) fun uri => ?_
  refine .bind (lookup_failsOnly _ _ _) fun name => ?_
  refine .bind (.each _ fun i => ?_) fun attributes => .pure _
  exact .bind (.goTo _) fun _ => Attribute.read_failsOnly pool record

theorem Xml.Event.read_failsOnly (pool : StringPool) (record tag size : Nat) :
    FailsOnly (Fault.Concerns .xml) (Event.read pool record tag size) := by
  unfold Event.read
  refine .bind (.goTo _) fun _ => ?_
  refine .ite (readStart_failsOnly pool record size) ?_
  refine .ite (.pure _) (.ite (.pure _) (.ite ?_ (.ite ?_ (.fail rfl))))
  · exact .bind .u32 fun _ => .bind (lookup_failsOnly _ _ _) fun _ => .pure _
  · exact .bind (.note _) fun _ => .pure _

/-- The records of a document, by induction on the bytes that are left of it. -/
theorem Xml.readRecords_failsOnly (pool : StringPool) (fileSize : Nat) (started : Bool)
    (b : Builder) (record : Nat) :
    FailsOnly (Fault.Concerns .xml) (readRecords pool fileSize started b record) := by
  induction hleft : fileSize - record using Nat.strongRecOn
    generalizing started b record with
  | ind left ih =>
      rw [readRecords]
      split
      · rename_i hrecord
        refine .bind (.goTo _) fun _ => ?_
        refine .bind .u32 fun tag => ?_
        refine .bind .u32 fun size => ?_
        split
        · rename_i hsize
          simp only [chunkHeaderSize] at hsize
          have hrest (started : Bool) (b : Builder) :
              FailsOnly (Fault.Concerns .xml)
                (readRecords pool fileSize started b (record + size)) :=
            ih (fileSize - (record + size)) (by omega) started b _ rfl
          refine .ite (.bind (.note _) fun _ => hrest _ _) ?_
          refine .bind (Event.read_failsOnly _ _ _ _) fun event => ?_
          split
          · exact .ite (.pure _) (hrest _ _)
          · exact .fail rfl
        · exact .fail rfl
      · exact .pure _

theorem Xml.Document.read_failsOnly : FailsOnly (Fault.Concerns .xml) Document.read := by
  unfold Document.read
  refine .bind (.fixed _) fun _ => ?_
  refine .bind .u32 fun fileSize => ?_
  refine .bind .bufferSize fun bufferSize => ?_
  refine .bind (.require _ rfl) fun _ => ?_
  refine .bind (StringPool.read_failsOnly (Or.inl rfl)) fun pool => ?_
  refine .bind (readRecords_failsOnly _ _ _ _ _) fun b => ?_
  split
  · exact .pure _
  · exact .fail rfl

end Documents

section DexFiles

/-! ## DEX files -/

open Dex

theorem Leb128.readGroups_failsOnly (start room : Nat) :
    FailsOnly (Fault.Concerns .dex) (Leb128.readGroups start room) := by
  induction room with
  | zero => exact .fail rfl
  | succ room ih =>
      exact .bind .byte fun _ => .ite (.bind ih fun _ => .pure _) (.pure _)

theorem Leb128.groups_failsOnly : FailsOnly (Fault.Concerns .dex) Leb128.groups :=
  .bind .position fun start => readGroups_failsOnly start maxLeb128Bytes

theorem Leb128.stored_failsOnly (kind : Leb128.Kind) :
    FailsOnly (Fault.Concerns .dex) (Leb128.stored kind) :=
  .bind groups_failsOnly fun _ => .pure _

theorem Leb128.unsigned_failsOnly : FailsOnly (Fault.Concerns .dex) Leb128.unsigned :=
  .bind groups_failsOnly fun _ => .pure _

theorem Leb128.unsignedMinusOne_failsOnly :
    FailsOnly (Fault.Concerns .dex) Leb128.unsignedMinusOne :=
  .bind groups_failsOnly fun _ => .pure _

theorem Leb128.signed_failsOnly : FailsOnly (Fault.Concerns .dex) Leb128.signed :=
  .bind groups_failsOnly fun _ => .pure _

theorem Dex.TableRef.read_failsOnly : FailsOnly (Fault.Concerns .dex) TableRef.read :=
  .bind .u32 fun _ => .bind .u32 fun _ => .pure _

theorem Dex.Header.read_failsOnly : FailsOnly (Fault.Concerns .dex) Header.read := by
  unfold Header.read
  refine .bind (.take _) fun start => ?_
  refine .bind (.require _ trivial) fun _ => ?_
  split
  · exact .fail rfl
  · refine .bind .u32 fun checksum => ?_
    refine .bind (.take _) fun signature => ?_
    refine .bind .u32 fun fileSize => ?_
    refine .bind .u32 fun headerSize => ?_
    refine .bind (.require _ rfl) fun _ => ?_
    refine .bind .u32 fun byteOrder => ?_
    refine .bind (.require _ rfl) fun _ => ?_
    refine .bind TableRef.read_failsOnly fun link => ?_
    refine .bind .u32 fun mapOffset => ?_
    refine .bind TableRef.read_failsOnly fun strings => ?_
    refine .bind TableRef.read_failsOnly fun types => ?_
    refine .bind TableRef.read_failsOnly fun protos => ?_
    refine .bind TableRef.read_failsOnly fun fields => ?_
    refine .bind TableRef.read_failsOnly fun methods => ?_
    refine .bind TableRef.read_failsOnly fun classes => ?_
    exact .bind TableRef.read_failsOnly fun data => .pure _

theorem Dex.MapItem.readAll_failsOnly :
    FailsOnly (Fault.Concerns .dex) MapItem.readAll := by
  unfold MapItem.readAll
  refine .bind .u32 fun count => ?_
  refine .bind .position fun cursor => ?_
  refine .bind .bufferSize fun bufferSize => ?_
  refine .bind (.require _ rfl) fun _ => .times _ ?_
  exact .bind .u16 fun _ => .bind .u16 fun _ => .bind .u32 fun _ => .bind .u32 fun _ => .pure _

theorem Dex.readUnit_failsOnly (start : Nat) :
    FailsOnly (Fault.Concerns .dex) (readUnit start) := by
  have hcont : FailsOnly (Fault.Concerns .dex) (readContinuation start) :=
    .bind .position fun _ => .bind .u8 fun _ => .ite (.pure _) (.fail rfl)
  unfold readUnit
  refine .bind .position fun position => ?_
  refine .bind .u8 fun a => ?_
  refine .ite (.pure _) (.ite (.bind hcont fun _ => .pure _) (.ite ?_ (.fail rfl)))
  exact .bind hcont fun _ => .bind hcont fun _ => .pure _

theorem Dex.StringData.read_failsOnly :
    FailsOnly (Fault.Concerns .dex) StringData.read := by
  unfold StringData.read
  refine .bind (Leb128.stored_failsOnly _) fun length => ?_
  refine .bind .position fun offset => ?_
  refine .bind .bufferSize fun bufferSize => ?_
  refine .bind (.require _ rfl) fun _ => ?_
  refine .bind (.times _ (readUnit_failsOnly offset)) fun units => ?_
  split
  · exact .pure _
  · exact .fail rfl

theorem Dex.readTypeList_failsOnly : FailsOnly (Fault.Concerns .dex) readTypeList :=
  .bind .u32 fun _ => .bind (.take _) fun _ => .pure _

theorem Dex.Handlers.read_failsOnly : FailsOnly (Fault.Concerns .dex) Handlers.read := by
  have htyped : FailsOnly (Fault.Concerns .dex) TypedHandler.read :=
    .bind Leb128.unsigned_failsOnly fun _ => .bind Leb128.unsigned_failsOnly fun _ => .pure _
  unfold Handlers.read
  refine .bind Leb128.signed_failsOnly fun size => ?_
  refine .bind (.times _ htyped) fun typed => ?_
  exact .ite (.bind Leb128.unsigned_failsOnly fun _ => .pure _) (.pure _)

theorem Dex.DebugInfo.read_failsOnly : FailsOnly (Fault.Concerns .dex) DebugInfo.read :=
  .bind Leb128.unsigned_failsOnly fun _ => .bind Leb128.unsigned_failsOnly fun _ =>
    .bind (.times _ Leb128.unsignedMinusOne_failsOnly) fun _ => .pure _

theorem Dex.Code.readTries_failsOnly (tryCount unitCount : Nat) :
    FailsOnly (Fault.Concerns .dex) (Code.readTries tryCount unitCount) := by
  have hrange : FailsOnly (Fault.Concerns .dex) TryRange.read :=
    .bind .u32 fun _ => .bind .u16 fun _ => .bind .u16 fun _ => .pure _
  have hpad : FailsOnly (Fault.Concerns .dex) (Code.skipPadding unitCount) :=
    .ite (.bind .u16 fun _ => .pure _) (.pure _)
  have hhandlers : FailsOnly (Fault.Concerns .dex) Handlers.readAll :=
    .bind Leb128.unsigned_failsOnly fun _ => .times _ Handlers.read_failsOnly
  refine .ite (.pure _) (.bind hpad fun _ => ?_)
  exact .bind (.times _ hrange) fun _ => .bind hhandlers fun _ => .pure _

theorem Dex.Code.read_failsOnly : FailsOnly (Fault.Concerns .dex) Code.read := by
  unfold Code.read
  refine .bind .u16 fun registers => ?_
  refine .bind .u16 fun ins => ?_
  refine .bind .u16 fun outs => ?_
  refine .bind .u16 fun tryCount => ?_
  refine .bind .u32 fun debugOffset => ?_
  refine .bind .u32 fun unitCount => ?_
  refine .bind (.take _) fun bytes => ?_
  refine .bind (readTries_failsOnly _ _) fun tries => ?_
  exact .bind (.atOffset _ DebugInfo.read_failsOnly) fun debug => .pure _

theorem Dex.MethodEntry.read_failsOnly : FailsOnly (Fault.Concerns .dex) MethodEntry.read := by
  have haway (offset : Nat) : FailsOnly (Fault.Concerns .dex) (Code.readAway offset) := by
    refine .ite (.pure _) (.bind .position fun back => ?_)
    refine .bind (.goTo _) fun _ => .bind Code.read_failsOnly fun _ => ?_
    exact .bind (.goTo _) fun _ => .pure _
  exact .bind Leb128.unsigned_failsOnly fun _ => .bind Leb128.unsigned_failsOnly fun _ =>
    .bind Leb128.unsigned_failsOnly fun _ => .bind (haway _) fun _ => .pure _

theorem Dex.ClassData.read_failsOnly : FailsOnly (Fault.Concerns .dex) ClassData.read := by
  have hfield : FailsOnly (Fault.Concerns .dex) FieldEntry.read :=
    .bind Leb128.unsigned_failsOnly fun _ => .bind Leb128.unsigned_failsOnly fun _ => .pure _
  have hcounts : FailsOnly (Fault.Concerns .dex) MemberCounts.read :=
    .bind (Leb128.stored_failsOnly _) fun _ => .bind (Leb128.stored_failsOnly _) fun _ =>
      .bind (Leb128.stored_failsOnly _) fun _ => .bind (Leb128.stored_failsOnly _) fun _ => .pure _
  unfold ClassData.read
  refine .bind .position fun start => ?_
  refine .bind hcounts fun counts => ?_
  refine .bind .position fun cursor => ?_
  refine .bind .bufferSize fun bufferSize => ?_
  refine .bind (.require _ rfl) fun _ => ?_
  refine .bind (.times _ hfield) fun staticFields => ?_
  refine .bind (.times _ hfield) fun instanceFields => ?_
  refine .bind (.times _ MethodEntry.read_failsOnly) fun directMethods => ?_
  exact .bind (.times _ MethodEntry.read_failsOnly) fun virtualMethods => .pure _

/-- A table fails only as the decoder of its rows does. -/
theorem Dex.readTable_failsOnly
    {α : Type} (layout : RowLayout) {row : Decoder α} (ref : TableRef)
    (h : FailsOnly (Fault.Concerns .dex) row) :
    FailsOnly (Fault.Concerns .dex) (readTable layout row ref) := by
  refine .ite (.pure _) (.bind .bufferSize fun bufferSize => ?_)
  refine .bind (.require _ rfl) fun _ => .each _ fun i => ?_
  exact .bind (.goTo _) fun _ => h

theorem Dex.StringId.read_failsOnly : FailsOnly (Fault.Concerns .dex) StringId.read :=
  .bind .u32 fun _ => .bind (.goTo _) fun _ => .bind StringData.read_failsOnly fun _ => .pure _

theorem Dex.ProtoId.read_failsOnly : FailsOnly (Fault.Concerns .dex) ProtoId.read :=
  .bind .u32 fun _ => .bind .u32 fun _ => .bind .u32 fun _ =>
    .bind (.atOffset _ readTypeList_failsOnly) fun _ => .pure _

theorem Dex.ClassDef.read_failsOnly : FailsOnly (Fault.Concerns .dex) ClassDef.read := by
  unfold ClassDef.read
  refine .bind .u32 fun type => ?_
  refine .bind .u32 fun flags => ?_
  refine .bind .u32 fun superclass => ?_
  refine .bind .u32 fun interfacesOffset => ?_
  refine .bind .u32 fun sourceFile => ?_
  refine .bind .u32 fun annotationsOffset => ?_
  refine .bind .u32 fun dataOffset => ?_
  refine .bind .u32 fun staticValuesOffset => ?_
  refine .bind (.atOffset _ readTypeList_failsOnly) fun interfaces => ?_
  exact .bind (.atOffset _ ClassData.read_failsOnly) fun data => .pure _

theorem Dex.Tables.read_failsOnly : FailsOnly (Fault.Concerns .dex) Tables.read := by
  have htype : FailsOnly (Fault.Concerns .dex) TypeId.read := .bind .u32 fun _ => .pure _
  have hfield : FailsOnly (Fault.Concerns .dex) FieldId.read :=
    .bind .u16 fun _ => .bind .u16 fun _ => .bind .u32 fun _ => .pure _
  have hmethod : FailsOnly (Fault.Concerns .dex) MethodId.read :=
    .bind .u16 fun _ => .bind .u16 fun _ => .bind .u32 fun _ => .pure _
  unfold Tables.read
  refine .bind Header.read_failsOnly fun header => ?_
  refine .bind .bufferSize fun bufferSize => ?_
  refine .bind (.require _ rfl) fun _ => ?_
  refine .bind (.atOffset _ MapItem.readAll_failsOnly) fun map => ?_
  refine .bind (readTable_failsOnly _ _ StringId.read_failsOnly) fun strings => ?_
  refine .bind (readTable_failsOnly _ _ htype) fun types => ?_
  refine .bind (readTable_failsOnly _ _ ProtoId.read_failsOnly) fun protos => ?_
  refine .bind (readTable_failsOnly _ _ hfield) fun fields => ?_
  refine .bind (readTable_failsOnly _ _ hmethod) fun methods => ?_
  exact .bind (readTable_failsOnly _ _ ClassDef.read_failsOnly) fun classes => .pure _

theorem Dex.File.read_failsOnly : FailsOnly (Fault.Concerns .dex) File.read := by
  unfold File.read
  refine .bind Tables.read_failsOnly fun tables => ?_
  refine .bind (.resolved _) fun classes => ?_
  refine .bind (.note _) fun _ => ?_
  exact .bind .bufferSize fun bufferSize => .pure _

end DexFiles

section ResourceTables

/-! ## Resource tables -/

open Resource

/-- Two bytes are enough for every code. -/
theorem Resource.decodeCode_ne_missingByte {code : List UInt8} (h : code.length = 2)
    (first : Char) : decodeCode code first ≠ .error .missingByte := by
  match code, h with
  | [high, low], _ =>
      unfold decodeCode
      by_cases hzero : [high, low] = [0, 0]
      · simp [hzero]
      · by_cases hplain : high < 0x80
        · cases plainLetters? [high, low] <;> simp [hzero, hplain]
        · simp [hzero, hplain]

theorem Resource.readCode_failsOnly (first : Char) :
    FailsOnly (Fault.Concerns .resources) (readCode first) := by
  unfold readCode
  refine .bind .position fun offset => ?_
  refine .bind_of_gives (.take _) fun code hcode => ?_
  have hlength := Decoder.length_of_take_gives hcode
  split
  · exact .pure _
  · rename_i e he
    cases e with
    | missingByte => exact absurd he (decodeCode_ne_missingByte hlength first)
    | notAscii => exact .fail rfl

theorem Resource.Config.read_failsOnly :
    FailsOnly (Fault.Concerns .resources) Config.read := by
  unfold Config.read
  refine .bind .position fun start => ?_
  refine .bind .u32 fun size => ?_
  refine .bind (.require _ rfl) fun _ => ?_
  refine .bind .u32 fun imsi => ?_
  refine .bind (readCode_failsOnly _) fun language => ?_
  refine .bind (readCode_failsOnly _) fun region => ?_
  exact .bind (.goTo _) fun _ => .pure _

theorem Resource.Entry.read_failsOnly :
    FailsOnly (Fault.Concerns .resources) Entry.read := by
  have hvalue : FailsOnly (Fault.Concerns .resources) StoredValue.read :=
    .bind .u16 fun _ => .bind .u8 fun _ => .bind .u8 fun _ => .bind .u32 fun _ => .pure _
  have hcontent (flags : Nat) :
      FailsOnly (Fault.Concerns .resources) (Entry.readContent flags) :=
    .ite (.bind .u32 fun _ => .bind .u32 fun _ => .pure _) (.bind hvalue fun _ => .pure _)
  exact .bind .u16 fun _ => .bind .u16 fun _ => .bind .u32 fun _ =>
    .bind (hcontent _) fun _ => .pure _

theorem Resource.TypeEntries.readEntry_failsOnly
    (keys : StringPool) (header : ChunkHeader) (base : Nat) (item : Nat × Nat) :
    FailsOnly (Fault.Concerns .resources) (TypeEntries.readEntry keys header base item) := by
  unfold TypeEntries.readEntry
  refine .ite (.pure _) ?_
  refine .bind (.require _ rfl) fun _ => ?_
  refine .bind (.goTo _) fun _ => ?_
  refine .bind Entry.read_failsOnly fun entry => ?_
  exact .bind (.resolved _) fun key => .pure _

theorem Resource.TypeEntries.read_failsOnly (keys : StringPool) :
    FailsOnly (Fault.Concerns .resources) (TypeEntries.read keys) := by
  unfold TypeEntries.read
  refine .bind (ChunkHeader.read_failsOnly (Or.inr rfl) _) fun header => ?_
  refine .bind .u8 fun id => ?_
  refine .bind .u8 fun flags => ?_
  refine .bind .u16 fun reserved => ?_
  refine .bind .u32 fun entryCount => ?_
  refine .bind .u32 fun entriesStart => ?_
  refine .bind Config.read_failsOnly fun config => ?_
  refine .bind .position fun cursor => ?_
  refine .bind (.require _ rfl) fun _ => ?_
  refine .bind (.goTo _) fun _ => ?_
  refine .bind (.require _ rfl) fun _ => ?_
  refine .bind (.times _ .u32) fun offsets => ?_
  exact .bind (.each _ fun item => readEntry_failsOnly _ _ _ item) fun items => .pure _

theorem Resource.TypeSpec.read_failsOnly :
    FailsOnly (Fault.Concerns .resources) TypeSpec.read :=
  .bind (ChunkHeader.read_failsOnly (Or.inr rfl) _) fun _ => .bind .u8 fun _ =>
    .bind .u8 fun _ => .bind .u16 fun _ => .bind .u32 fun _ => .pure _

/-- The chunks of a package, by induction on the bytes that are left of it. -/
theorem Resource.readPackageChunks_failsOnly (keys : StringPool) (stop position : Nat) :
    FailsOnly (Fault.Concerns .resources) (readPackageChunks keys stop position) := by
  induction hleft : stop - position using Nat.strongRecOn generalizing position with
  | ind left ih =>
      rw [readPackageChunks]
      split
      · refine .bind (.goTo _) fun _ => ?_
        refine .bind (ChunkHeader.read_failsOnly (Or.inr rfl) _) fun header => ?_
        refine .bind (.require _ rfl) fun _ => ?_
        refine .bind (.goTo _) fun _ => ?_
        refine .bind ?_ fun chunk => ?_
        · refine .ite (.bind (TypeEntries.read_failsOnly keys) fun _ => .pure _) ?_
          exact .ite (.bind TypeSpec.read_failsOnly fun _ => .pure _) (.fail rfl)
        · have := header.size_pos
          exact .bind (ih (stop - (position + header.size)) (by omega) _ rfl) fun _ => .pure _
      · exact .pure _

theorem Resource.Package.read_failsOnly (strings : Option StringPool) :
    FailsOnly (Fault.Concerns .resources) (Package.read strings) := by
  unfold Package.read
  refine .bind (ChunkHeader.read_failsOnly (Or.inr rfl) _) fun header => ?_
  refine .bind .u32 fun id => ?_
  refine .bind (.take _) fun nameBytes => ?_
  refine .bind .u32 fun typeStringsOffset => ?_
  refine .bind .u32 fun lastPublicType => ?_
  refine .bind .u32 fun keyStringsOffset => ?_
  refine .bind .u32 fun lastPublicKey => ?_
  refine .bind (.goTo _) fun _ => ?_
  refine .bind (StringPool.read_failsOnly (Or.inr rfl)) fun typePool => ?_
  refine .bind (.goTo _) fun _ => ?_
  refine .bind (StringPool.read_failsOnly (Or.inr rfl)) fun keyPool => ?_
  refine .bind (readPackageChunks_failsOnly _ _ _) fun chunks => ?_
  refine .bind (.resolved _) fun localized => ?_
  exact .bind (.note _) fun _ => .pure _

theorem Resource.Table.readChunk_failsOnly (t : Table) (header : ChunkHeader) (position : Nat) :
    FailsOnly (Fault.Concerns .resources) (t.readChunk header position) := by
  unfold Table.readChunk
  refine .ite ?_ (.ite ?_ (.ite ?_ (.fail rfl)))
  · refine .bind (.ite (.note _) (.pure _)) fun _ => ?_
    exact .bind (StringPool.read_failsOnly (Or.inr rfl)) fun pool => .pure _
  · exact .bind (.goTo _) fun _ => .bind .u32 fun _ => .pure _
  · refine .bind (.require _ rfl) fun _ => ?_
    exact .bind (Package.read_failsOnly _) fun _ => .pure _

/-- The chunks of a table, by induction on the bytes that are left of the buffer. -/
theorem Resource.Table.readChunks_failsOnly (stop : Nat) (t : Table) (position : Nat) :
    FailsOnly (Fault.Concerns .resources) (readChunks stop t position) := by
  induction hleft : stop - position using Nat.strongRecOn generalizing t position with
  | ind left ih =>
      rw [readChunks]
      split
      · refine .bind (.goTo _) fun _ => ?_
        refine .bind (ChunkHeader.read_failsOnly (Or.inr rfl) _) fun header => ?_
        refine .bind (.goTo _) fun _ => ?_
        refine .bind (readChunk_failsOnly t header position) fun t' => ?_
        have := advance_pos header
        exact ih (stop - (position + advance header)) (by omega) _ _ rfl
      · exact .pure _

theorem Resource.Table.read_failsOnly : FailsOnly (Fault.Concerns .resources) Table.read :=
  .bind .bufferSize fun _ => .bind (readChunks_failsOnly _ _ _) fun _ =>
    .bind (.note _) fun _ => .pure _

end ResourceTables

/-! ## Entry points -/

/-- An error that leaves an entry point is a translated one of some categories. -/
def DecodeError.IsOneOf (e : DecodeError) (family : Category → Prop) : Prop :=
  e.fault.isTranslated ∧ family e.category

/-- The failures of binary XML documents. -/
def Xml.Document.Family (c : Category) : Prop :=
  c = .unreadable

/-- The failures of DEX files. -/
def Dex.File.Family (c : Category) : Prop :=
  c = .invalid ∨ c = .malformedHeader ∨ c = .outOfBounds

/-- The failures of resource tables. -/
def Resource.Table.Family (c : Category) : Prop :=
  c = .invalid ∨ c = .malformedHeader ∨ c = .outOfBounds ∨ ∃ type, c = .unknownChunkType type

/-- A fault that concerns DEX files is of one of their categories. -/
theorem Fault.family_of_concerns_dex {fault : Fault} (h : fault.Concerns .dex) :
    Dex.File.Family fault.category := by
  cases fault with
  | stream s => cases s <;> simp [Dex.File.Family, Fault.category]
  | dex d => cases d <;> simp [Dex.File.Family, Fault.category]
  | longLeb128 start => simp [Dex.File.Family, Fault.category]
  | missingByte => exact h.elim
  | chunk c => simp [Fault.Concerns] at h
  | pool p => simp [Fault.Concerns] at h
  | xml x => simp [Fault.Concerns] at h
  | table t => simp [Fault.Concerns] at h

/-- A fault that concerns resource tables is of one of their categories. -/
theorem Fault.family_of_concerns_resources {fault : Fault} (h : fault.Concerns .resources) :
    Resource.Table.Family fault.category := by
  cases fault with
  | stream s => cases s <;> simp [Resource.Table.Family, Fault.category]
  | chunk c => cases c <;> simp [Resource.Table.Family, Fault.category]
  | pool p => cases p <;> simp [Resource.Table.Family, Fault.category]
  | table t => cases t <;> simp [Resource.Table.Family, Fault.category]
  | missingByte => exact h.elim
  | longLeb128 start => simp [Fault.Concerns] at h
  | xml x => simp [Fault.Concerns] at h
  | dex d => simp [Fault.Concerns] at h

/-- A translated error comes from an error. -/
theorem exists_of_mapError {α ε ε' : Type} {translate : ε → ε'} {e : ε'} :
    ∀ {x : Except ε α}, x.mapError translate = .error e →
      ∃ fault, x = .error fault ∧ translate fault = e
  | .ok _, h => nomatch h
  | .error fault, h => ⟨fault, rfl, Except.error.inj h⟩

/-- The error of a fault in its own category is of every family that the fault's kind of file
allows. -/
theorem Outcome.isOneOf_of_within
    {α : Type} {d : Decoder α} {kind : FileKind} {family : Category → Prop}
    (hd : FailsOnly (Fault.Concerns kind) d)
    (hfamily : ∀ fault : Fault, fault.Concerns kind → family fault.category)
    {subject : String} {buffer : Bytes} {e : DecodeError}
    (h : (d buffer 0).within subject = .error e) :
    e.IsOneOf family := by
  obtain ⟨fault, hrun, rfl⟩ := exists_of_mapError h
  have hfault := hd buffer 0 fault hrun
  exact ⟨Fault.isTranslated_of_concerns hfault, hfamily fault hfault⟩

/-- Every error of a document is that it cannot be read. -/
theorem Xml.Document.isOneOf_of_decode {buffer : Bytes} {e : DecodeError}
    (h : decode buffer = .error e) : e.IsOneOf Family := by
  obtain ⟨fault, hrun, rfl⟩ := exists_of_mapError h
  have hfault := read_failsOnly buffer 0 fault hrun
  exact ⟨Fault.isTranslated_of_concerns hfault, rfl⟩

/-- A DEX file is valid exactly when it can be decoded. -/
theorem isValidDex_iff (buffer : Bytes) :
    isValidDex buffer = true ↔ ∃ f, Dex.File.decode buffer = .ok f := by
  unfold isValidDex
  cases Dex.File.decode buffer <;> simp

/-- On every buffer each entry point gives a value or an error of its own family, and a buffer
counts as a valid DEX file exactly when decoding it gives one. -/
theorem decode_ok_or_own_error (buffer : Bytes) :
    ((∃ d, Xml.Document.decode buffer = .ok d) ∨
      ∃ e, Xml.Document.decode buffer = .error e ∧ e.IsOneOf Xml.Document.Family) ∧
    ((∃ f, Dex.File.decode buffer = .ok f) ∨
      ∃ e, Dex.File.decode buffer = .error e ∧ e.IsOneOf Dex.File.Family) ∧
    ((∃ t, Resource.Table.decode buffer = .ok t) ∨
      ∃ e, Resource.Table.decode buffer = .error e ∧ e.IsOneOf Resource.Table.Family) ∧
    (isValidDex buffer = true ↔ ∃ f, Dex.File.decode buffer = .ok f) := by
  refine ⟨?_, ?_, ?_, isValidDex_iff buffer⟩
  · cases h : Xml.Document.decode buffer with
    | ok d => exact Or.inl ⟨d, rfl⟩
    | error e => exact Or.inr ⟨e, rfl, Xml.Document.isOneOf_of_decode h⟩
  · cases h : Dex.File.decode buffer with
    | ok f => exact Or.inl ⟨f, rfl⟩
    | error e =>
        exact Or.inr ⟨e, rfl, Outcome.isOneOf_of_within Dex.File.read_failsOnly
          (fun _ => Fault.family_of_concerns_dex) h⟩
  · cases h : Resource.Table.decode buffer with
    | ok t => exact Or.inl ⟨t, rfl⟩
    | error e =>
        exact Or.inr ⟨e, rfl, Outcome.isOneOf_of_within Resource.Table.read_failsOnly
          (fun _ => Fault.family_of_concerns_resources) h⟩

end ApkFormats
