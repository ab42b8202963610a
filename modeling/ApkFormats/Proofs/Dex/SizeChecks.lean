import ApkFormats.Proofs.Dex.Extent

/-!
# Sizes that are checked beforehand

A declared number of units, members, sections or rows is compared with the bytes
that are left before any of them is read.  Each check asks for no more than what
the reader behind it goes over, so it keeps a hopeless read from starting and
decides nothing else.

* `Decoder.Agrees`: two decoders run alike, or both fail;
* `StringData.read_agrees`, `ClassData.read_agrees`, `MapItem.readAll_agrees` and
  `readTable_agrees`: each reader agrees with itself without its check;
* `File.read_agrees`: and so does the reader of files, without any of them;
* `File.sizeChecks_spare`: what this means for buffers and positions.
-/

namespace ApkFormats

namespace Decoder

section Agreement

/-! ## Agreement -/

/-- A decoder gives no value from a cursor on. -/
def Fails {α : Type} (d : Decoder α) (buffer : Bytes) (start : Nat) : Prop :=
  ∀ a, (d buffer start).result ≠ .ok a

/-- Two decoders run alike from a cursor on, or both fail. -/
def Agrees {α : Type} (d d' : Decoder α) (buffer : Bytes) (start : Nat) : Prop :=
  d buffer start = d' buffer start ∨ d.Fails buffer start ∧ d'.Fails buffer start

variable {α β : Type} {buffer : Bytes} {start stop : Nat} {a : α}
variable {d d' d'' : Decoder α} {next next' : α → Decoder β}

theorem Fails.bind (h : d.Fails buffer start) : (d >>= next).Fails buffer start := by
  intro b hresult
  obtain ⟨a, mid, hread, -⟩ := reads_bind_iff.mp ⟨hresult, rfl⟩
  exact h a hread.result

namespace Agrees

theorem refl (d : Decoder α) : d.Agrees d buffer start :=
  .inl rfl

theorem trans (h : d.Agrees d' buffer start) (h' : d'.Agrees d'' buffer start) :
    d.Agrees d'' buffer start := by
  rcases h with heq | ⟨hfails, hfails'⟩
  · unfold Agrees Fails
    rw [heq]
    exact h'
  · rcases h' with heq' | ⟨-, hfails''⟩
    · unfold Fails at hfails'
      rw [heq'] at hfails'
      exact .inr ⟨hfails, hfails'⟩
    · exact .inr ⟨hfails, hfails''⟩

theorem reads_iff (h : d.Agrees d' buffer start) :
    d.Reads buffer start a stop ↔ d'.Reads buffer start a stop := by
  rcases h with heq | ⟨hfails, hfails'⟩
  · constructor
    · exact fun hread => ⟨heq ▸ hread.result, heq ▸ hread.cursor⟩
    · exact fun hread => ⟨heq ▸ hread.result, heq ▸ hread.cursor⟩
  · exact iff_of_false (fun hread => hfails a hread.result) fun hread => hfails' a hread.result

theorem yields_iff (h : d.Agrees d' buffer start) :
    d.Yields buffer start a ↔ d'.Yields buffer start a :=
  ⟨fun hd => (h.reads_iff.mp hd.reads).result, fun hd => (h.reads_iff.mpr hd.reads).result⟩

/-- What follows has to agree only behind what has been read. -/
theorem bind (hd : d.Agrees d' buffer start)
    (hnext : ∀ {a mid}, d.Reads buffer start a mid → (next a).Agrees (next' a) buffer mid) :
    (d >>= next).Agrees (d' >>= next') buffer start := by
  rcases hd with heq | ⟨hfails, hfails'⟩
  · unfold Agrees Fails
    simp only [bind_apply, andThen, ← heq]
    rcases hrun : d buffer start with ⟨fault | a, mid, notes⟩
    · exact .inl rfl
    · exact (hnext ⟨by rw [hrun], by rw [hrun]⟩).imp_left fun hrest => by simp only [hrest]
  · exact .inr ⟨hfails.bind, hfails'.bind⟩

/-- What is read before two decoders that agree may be the same. -/
theorem behind (d : Decoder α) (hnext : ∀ a mid, (next a).Agrees (next' a) buffer mid) :
    (d >>= next).Agrees (d >>= next') buffer start :=
  (refl d).bind fun _ => hnext _ _

theorem each {items : List α} (hnext : ∀ a mid, (next a).Agrees (next' a) buffer mid) :
    (Decoder.each next items).Agrees (Decoder.each next' items) buffer start := by
  induction items generalizing start with
  | nil => exact refl _
  | cons item items ih =>
      rw [each_cons, each_cons]
      exact (hnext item start).bind fun _ => ih.bind fun _ => refl _

/-- A check may be left out when nothing is read unless it holds. -/
theorem check {condition : Bool} {fault : Fault}
    (hneeds : ∀ {a stop}, d.Reads buffer start a stop → condition = true) :
    (Decoder.require condition fault >>= fun _ => d).Agrees d buffer start := by
  cases condition with
  | true => exact .inl rfl
  | false =>
      have hfails : d.Fails buffer start := fun a hresult =>
        Bool.noConfusion (hneeds ⟨hresult, rfl⟩)
      exact .inr ⟨fun _ => nofun, hfails⟩

/-- The cursor may be asked for in passing. -/
theorem position {d : Nat → Decoder α} (h : (d start).Agrees d' buffer start) :
    (Decoder.position >>= d).Agrees d' buffer start :=
  h

/-- A check of the size may be left out when nothing is read unless it holds. -/
theorem checkSize {condition : Nat → Bool} {fault : Nat → Fault}
    (hneeds : ∀ {a stop}, d.Reads buffer start a stop → condition buffer.size = true) :
    (Decoder.bufferSize >>= fun size =>
      Decoder.require (condition size) (fault size) >>= fun _ => d).Agrees d buffer start :=
  have hcheck : (Decoder.require (condition buffer.size) (fault buffer.size) >>= fun _ => d).Agrees
      d buffer start := check hneeds
  hcheck

end Agrees

end Agreement

/-- What a decoder goes over lies behind the cursor and in the buffer. -/
theorem Gauged.le_room {α : Type} {least : Nat} {d : Decoder α} {rest : Bytes → α → Nat → Prop}
    {buffer : Bytes} {start stop : Nat} {a : α} (hd : Gauged least d rest)
    (h : d.Reads buffer start a stop) : least ≤ buffer.size - start := by
  have hle := hd.le h
  have hinside := hd.inside h
  omega

/-- What a decoder reads at the cursor lies in the buffer. -/
theorem Points.room {α : Type} {size : Nat} {d : Decoder α} {away : Bytes → α → Nat → Prop}
    {buffer : Bytes} {start stop : Nat} {a : α} (hd : Points size d away)
    (h : d.Reads buffer start a stop) : size = 0 ∨ start + size ≤ buffer.size :=
  (((hd.reaches h).reads_iff (Holds.all buffer.toList)).mp h).1

end Decoder

namespace Dex

open Decoder (Points)

variable {buffer : Bytes} {start : Nat}

section Pieces

/-! ## Strings, members and maps -/

/-- Reads a string whatever number of units it declares. -/
def StringData.readOutright : Decoder StringData := do
  let length ← Leb128.stored .unsigned
  let offset ← Decoder.position
  readText length offset

/-- Reads the members of a class whatever numbers of them it declares. -/
def ClassData.readOutright : Decoder ClassData := do
  let counts ← MemberCounts.read
  readMembers counts

/-- Reads a map whatever number of sections it declares. -/
def MapItem.readAllOutright : Decoder (List MapItem) := do
  let count ← Decoder.u32
  Decoder.times read count

/-- A unit takes a byte at least. -/
theorem StringData.read_agrees : read.Agrees readOutright buffer start := by
  refine .behind _ fun length cursor => .bind (.refl _) fun hoffset => .checkSize fun h => ?_
  obtain ⟨rfl, rfl⟩ := Decoder.reads_position_iff.mp hoffset
  exact decide_eq_true ((readText_gauged length _).le_room h)

-- Of a string that declares two units and has one, both fail, each with an error of its own.
example :
    (StringData.read #[2, 0x41] 0).result = .error (.dex (.stringSize 1 2 1)) ∧
    (StringData.readOutright #[2, 0x41] 0).result = .error (.stream (.short 1 0)) := by
  decide

/-- A field takes two bytes at least and a method three, wherever its code stands. -/
theorem ClassData.read_agrees : read.Agrees readOutright buffer start := by
  refine .position (.behind _ fun counts cursor => .position (.checkSize fun h => ?_))
  exact decide_eq_true ((readMembers_gauged counts).le_room h)

/-- A section takes the bytes of its entry. -/
theorem MapItem.readAll_agrees : readAll.Agrees readAllOutright buffer start := by
  refine .bind (.refl _) fun {count cursor} hcount => .position (.checkSize fun h => ?_)
  -- An empty map reads nothing behind its size, which has been read.
  have hcursor := (Decoder.reads_u32_iff.mp hcount)
  have hroom := (read_gauged.repeated count).le_room h
  rw [Nat.mul_comm] at hroom
  exact decide_eq_true (by omega)

end Pieces

section Tables

/-! ## Tables -/

/-- Reads a row of the table of strings, whatever its string declares. -/
def StringId.readOutright : Decoder StringId := do
  let dataOffset ← Decoder.u32
  Decoder.goTo dataOffset
  let data ← StringData.readOutright
  pure ⟨dataOffset, data⟩

/-- Reads a row of the table of classes, whatever its members declare. -/
def ClassDef.readOutright : Decoder ClassDef := do
  let type ← Decoder.u32
  let flags ← Decoder.u32
  let superclass ← Decoder.u32
  let interfacesOffset ← Decoder.u32
  let sourceFile ← Decoder.u32
  let annotationsOffset ← Decoder.u32
  let dataOffset ← Decoder.u32
  let staticValuesOffset ← Decoder.u32
  let interfaces ← Decoder.atOffset interfacesOffset readTypeList
  let data ← Decoder.atOffset dataOffset ClassData.readOutright
  pure ⟨type, flags, superclass, interfacesOffset, sourceFile, annotationsOffset, dataOffset,
    staticValuesOffset, interfaces, data⟩

/-- Reads the rows of a table, wherever it ends. -/
def readTableOutright {α : Type} (layout : RowLayout) (row : Decoder α) (ref : TableRef) :
    Decoder (List α) :=
  if ref.size = 0 then pure []
  else readRows layout row ref.size ref.offset

theorem StringId.read_agrees : read.Agrees readOutright buffer start :=
  .behind _ fun _ _ => .behind _ fun _ _ => .bind StringData.read_agrees fun _ => .refl _

variable {α : Type} {d d' : Decoder α}

theorem atOffset_agrees {offset : Nat} (hd : d.Agrees d' buffer offset) :
    (Decoder.atOffset offset d).Agrees (Decoder.atOffset offset d') buffer start := by
  unfold Decoder.atOffset
  split
  · exact .refl _
  · refine .bind (.refl _) fun h => ?_
    obtain rfl := Decoder.reads_goTo_iff.mp h
    exact .bind hd fun _ => .refl _

theorem ClassDef.read_agrees : read.Agrees readOutright buffer start := by
  refine .behind _ fun type _ => .behind _ fun flags _ => .behind _ fun superclass _ =>
    .behind _ fun interfacesOffset _ => .behind _ fun sourceFile _ =>
    .behind _ fun annotationsOffset _ => .behind _ fun dataOffset _ =>
    .behind _ fun staticValuesOffset _ => .behind _ fun interfaces _ => ?_
  exact .bind (atOffset_agrees ClassData.read_agrees) fun _ => .refl _

variable {layout : RowLayout} {ref : TableRef} {away : Bytes → α → Nat → Prop}

/-- A table whose last row has been read ends inside the buffer. -/
theorem room_of_readRows {size offset stop : Nat} {rows : List α}
    (hrow : Points layout.stride d away) (hstride : layout.stride ≠ 0) (hsize : size ≠ 0)
    (h : (readRows layout d size offset).Reads buffer start rows stop) :
    offset + size * layout.stride ≤ buffer.size := by
  obtain ⟨last, rfl⟩ := Nat.exists_eq_succ_of_ne_zero hsize
  have hlast : last ∈ List.range (last + 1) := List.mem_range.mpr (Nat.lt_succ_self last)
  obtain ⟨row, -, from', to', hread⟩ :=
    exists_of_mem_left (Decoder.forall₂_of_reads_each h) hlast
  have hroom := (hrow.room (Decoder.reads_goTo_bind_iff.mp hread)).resolve_left hstride
  rw [Nat.succ_mul]
  omega

/-- Every row takes its stride where it stands, wherever it leads. -/
theorem readTable_agrees (hrow : Points layout.stride d away) (hstride : layout.stride ≠ 0) :
    (readTable layout d ref).Agrees (readTableOutright layout d ref) buffer start := by
  unfold readTable readTableOutright
  split
  · exact .refl _
  · rename_i hsize
    exact .checkSize fun h => decide_eq_true (room_of_readRows hrow hstride hsize h)

/-- The rows may be read in a way that agrees with theirs. -/
theorem readTableOutright_agrees (hd : ∀ offset, d.Agrees d' buffer offset) :
    (readTableOutright layout d ref).Agrees (readTableOutright layout d' ref) buffer start := by
  unfold readTableOutright
  split
  · exact .refl _
  · exact .each fun i _ => .behind _ fun _ offset => hd offset

/-- Reads the header, the map and all tables of a file, whatever sizes are declared in them. -/
def Tables.readOutright : Decoder Tables := do
  let header ← Header.read
  let bufferSize ← Decoder.bufferSize
  Decoder.require (header.fileSize ≤ bufferSize) (.dex (.fileSize header.fileSize bufferSize))
  let map ← Decoder.atOffset header.mapOffset MapItem.readAllOutright
  let strings ← readTableOutright StringId.layout StringId.readOutright header.strings
  let types ← readTableOutright TypeId.layout TypeId.read header.types
  let protos ← readTableOutright ProtoId.layout ProtoId.read header.protos
  let fields ← readTableOutright FieldId.layout FieldId.read header.fields
  let methods ← readTableOutright MethodId.layout MethodId.read header.methods
  let classes ← readTableOutright ClassDef.layout ClassDef.readOutright header.classes
  pure ⟨header, map, strings.toArray, types.toArray, protos.toArray, fields.toArray,
    methods.toArray, classes.toArray⟩

theorem Tables.read_agrees : read.Agrees readOutright buffer start := by
  refine .behind _ fun header _ => .behind _ fun bufferSize _ => .behind _ fun _ _ => ?_
  refine .bind (atOffset_agrees MapItem.readAll_agrees) fun _ => ?_
  refine .bind ((readTable_agrees StringId.read_points (by decide)).trans
    (readTableOutright_agrees fun _ => StringId.read_agrees)) fun _ => ?_
  refine .bind (readTable_agrees TypeId.read_points (by decide)) fun _ => ?_
  refine .bind (readTable_agrees ProtoId.read_points (by decide)) fun _ => ?_
  refine .bind (readTable_agrees FieldId.read_points (by decide)) fun _ => ?_
  refine .bind (readTable_agrees MethodId.read_points (by decide)) fun _ => ?_
  refine .bind ((readTable_agrees ClassDef.read_points (by decide)).trans
    (readTableOutright_agrees fun _ => ClassDef.read_agrees)) fun _ => ?_
  exact .refl _

end Tables

section Files

/-! ## Files -/

namespace File

/-- Reads a file, whatever sizes are declared in it. -/
def readOutright : Decoder File := do
  let tables ← Tables.readOutright
  let classes ← Decoder.resolved (tables.classDefs.toList.mapM (ClassView.resolve tables))
  Decoder.note (.dexFile tables.header.version tables.stringIds.size tables.typeIds.size
    tables.methodIds.size tables.classDefs.size)
  let bufferSize ← Decoder.bufferSize
  pure ⟨tables, classes, bufferSize⟩

/-- The file that some bytes encode, whatever sizes are declared in it. -/
def decodeOutright (buffer : Bytes) : Except DecodeError File :=
  (readOutright buffer 0).within subject

theorem read_agrees : read.Agrees readOutright buffer start :=
  .bind Tables.read_agrees fun _ => .refl _

/-- No size check decides whether something can be read or what it is: each of the four may be left
out alone, at every cursor, and all of them together. -/
theorem sizeChecks_spare (buffer : Bytes) (start : Nat) :
    StringData.read.Agrees StringData.readOutright buffer start ∧
    ClassData.read.Agrees ClassData.readOutright buffer start ∧
    MapItem.readAll.Agrees MapItem.readAllOutright buffer start ∧
    (∀ ref,
      (readTable StringId.layout StringId.read ref).Agrees
        (readTableOutright StringId.layout StringId.read ref) buffer start ∧
      (readTable TypeId.layout TypeId.read ref).Agrees
        (readTableOutright TypeId.layout TypeId.read ref) buffer start ∧
      (readTable ProtoId.layout ProtoId.read ref).Agrees
        (readTableOutright ProtoId.layout ProtoId.read ref) buffer start ∧
      (readTable FieldId.layout FieldId.read ref).Agrees
        (readTableOutright FieldId.layout FieldId.read ref) buffer start ∧
      (readTable MethodId.layout MethodId.read ref).Agrees
        (readTableOutright MethodId.layout MethodId.read ref) buffer start ∧
      (readTable ClassDef.layout ClassDef.read ref).Agrees
        (readTableOutright ClassDef.layout ClassDef.read ref) buffer start) ∧
    read.Agrees readOutright buffer start ∧
    ∀ f, decodeOutright buffer = .ok f ↔ decode buffer = .ok f := by
  refine ⟨StringData.read_agrees, ClassData.read_agrees, MapItem.readAll_agrees, fun ref => ?_,
    read_agrees, fun f => ?_⟩
  · exact ⟨readTable_agrees StringId.read_points (by decide),
      readTable_agrees TypeId.read_points (by decide),
      readTable_agrees ProtoId.read_points (by decide),
      readTable_agrees FieldId.read_points (by decide),
      readTable_agrees MethodId.read_points (by decide),
      readTable_agrees ClassDef.read_points (by decide)⟩
  · rw [decode, decodeOutright, Outcome.within, Outcome.within, mapError_eq_ok_iff,
      mapError_eq_ok_iff]
    exact read_agrees.yields_iff.symm

end File

end Files

end Dex

end ApkFormats
