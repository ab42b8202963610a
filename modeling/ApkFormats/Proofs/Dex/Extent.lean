import ApkFormats.Proofs.Dex.Bounds
import ApkFormats.Proofs.FirstPart

/-!
# How far a DEX file reaches

Offsets lead from the header of a DEX file to its tables and from there to all
of its data.  Decoding bounds each of them by the buffer, not by the size that
the header declares, so how much of a buffer a file takes follows from what was
read: numbers in place, and whatever an offset points to.

* `Code.EndsIn`, `ClassDef.EndsIn`, `Tables.EndsIn`: what was read ends within the
  first bytes of a buffer;
* `Tables.read_reaches`: the tables are read of these bytes exactly then;
* `File.decode_part_iff`: the first bytes of a buffer are a file exactly when the
  buffer is one and all of it ends there;
* `File.string_behind_end`: which the declared size does not ensure.
-/

namespace ApkFormats

open Decoder (Forward Gauged Grows Points Reaches Solid)

namespace Leb128

section Numbers

/-! ## Numbers -/

theorem readGroups_solid (start room : Nat) : Solid (readGroups start room) := by
  induction room with
  | zero => exact .fail
  | succ room ih =>
      rw [readGroups]
      refine .ahead .byte (fun b => .ite ?_ (.pure _)) (Nat.le_refl 1)
      exact .behind ih fun rest => .pure _

theorem groups_solid : Solid groups :=
  .behind .position fun start => readGroups_solid start maxLeb128Bytes

theorem stored_solid (kind : Kind) : Solid (stored kind) :=
  groups_solid.add fun _ => .pure _

theorem unsigned_solid : Solid unsigned :=
  groups_solid.add fun _ => .pure _

theorem unsignedMinusOne_solid : Solid unsignedMinusOne :=
  groups_solid.add fun _ => .pure _

theorem signed_solid : Solid signed :=
  groups_solid.add fun _ => .pure _

end Numbers

end Leb128

namespace Dex

variable {buffer : Bytes} {start stop n : Nat}

section Pieces

/-! ## Pieces that are read in place -/

theorem MapItem.read_gauged : Gauged stride read fun _ _ _ => True :=
  Gauged.u16.add fun _ => Gauged.u16.add fun _ => Gauged.u32.add fun _ => Gauged.u32.add fun _ =>
    .pure _

theorem MapItem.readAll_solid : Solid readAll := by
  refine .ahead .u32 (fun count => ?_) (by decide)
  refine (Gauged.check (fun _ => read_gauged.repeated count) ?_ ?_ fun _ _ => rfl).weaken
    (Nat.zero_le _)
  · intro cursor size size' hle h
    exact decide_eq_true (Nat.le_trans (of_decide_eq_true h) hle)
  · intro cursor size h
    rw [Nat.mul_comm] at h
    exact decide_eq_true h

theorem readTypeList_solid : Solid readTypeList :=
  .ahead .u32 (fun _ => .behind (.take _) fun _ => .pure _) (by decide)

theorem readContinuation_forward (offset : Nat) : Forward (readContinuation offset) :=
  .behind .position fun _ => .behind .u8 fun _ => .ite (.pure _) .fail

/-- A unit takes a byte at least. -/
theorem readUnit_solid (offset : Nat) : Solid (readUnit offset) := by
  refine .behind .position fun position => .ahead .u8 (fun a => ?_) (Nat.le_refl 1)
  refine .ite (.pure _) (.ite ?_ (.ite ?_ .fail))
  · exact .behind (readContinuation_forward offset) fun b => .pure _
  · refine .behind (readContinuation_forward offset) fun b => ?_
    exact .behind (readContinuation_forward offset) fun c => .pure _

namespace StringData

theorem readText_gauged (length : Leb128.Stored) (offset : Nat) :
    Gauged length.value.toNat (readText length offset) fun _ _ _ => True := by
  refine .ahead ((readUnit_solid offset).repeated _) (fun units => ?_) (by omega)
  split
  · exact .pure _
  · exact .fail

theorem read_solid : Solid read := by
  refine .ahead (Leb128.stored_solid .unsigned) (fun length => ?_) (Nat.le_refl 1)
  exact (Gauged.checkLeast (readText_gauged length) fun _ _ => rfl).weaken (Nat.zero_le _)

end StringData

theorem TryRange.read_forward : Forward TryRange.read :=
  .behind .u32 fun _ => .behind .u16 fun _ => .behind .u16 fun _ => .pure _

theorem TypedHandler.read_forward : Forward TypedHandler.read :=
  .behind Leb128.unsigned_solid fun _ => .behind Leb128.unsigned_solid fun _ => .pure _

theorem Handlers.read_forward : Forward Handlers.read := by
  refine .behind Leb128.signed_solid fun size => ?_
  refine .behind (TypedHandler.read_forward.repeated _) fun typed => ?_
  exact .ite (.behind Leb128.unsigned_solid fun _ => .pure _) (.pure _)

theorem Handlers.readAll_forward : Forward Handlers.readAll := by
  refine .behind Leb128.unsigned_solid fun size => ?_
  exact (read_forward.repeated size).weaken (Nat.zero_le _)

theorem DebugInfo.read_solid : Solid DebugInfo.read := by
  refine .ahead Leb128.unsigned_solid (fun _ => ?_) (Nat.le_refl 1)
  refine .behind Leb128.unsigned_solid fun count => ?_
  exact .behind (Leb128.unsignedMinusOne_solid.repeated count) fun _ => .pure _

/-- A field takes two bytes at least. -/
theorem FieldEntry.read_gauged : Gauged 2 FieldEntry.read fun _ _ _ => True :=
  Leb128.unsigned_solid.add fun _ => Leb128.unsigned_solid.add fun _ => .pure _

theorem MemberCounts.read_solid : Solid MemberCounts.read := by
  refine .ahead (Leb128.stored_solid .unsigned) (fun _ => ?_) (Nat.le_refl 1)
  refine .behind (Leb128.stored_solid .unsigned) fun _ => ?_
  refine .behind (Leb128.stored_solid .unsigned) fun _ => ?_
  exact .behind (Leb128.stored_solid .unsigned) fun _ => .pure _

theorem TableRef.read_forward : Forward TableRef.read :=
  .behind .u32 fun _ => .behind .u32 fun _ => .pure _

theorem Header.read_solid : Solid Header.read := by
  refine .ahead (.take 8) (fun start => ?_) (by decide)
  refine .behind (.require _ _) fun _ => ?_
  split
  · exact .fail
  · refine .behind .u32 fun checksum => ?_
    refine .behind (.take 20) fun signature => ?_
    refine .behind .u32 fun fileSize => ?_
    refine .behind .u32 fun headerSize => ?_
    refine .behind (.require _ _) fun _ => ?_
    refine .behind .u32 fun byteOrder => ?_
    refine .behind (.require _ _) fun _ => ?_
    refine .behind TableRef.read_forward fun link => ?_
    refine .behind .u32 fun mapOffset => ?_
    refine .behind TableRef.read_forward fun strings => ?_
    refine .behind TableRef.read_forward fun types => ?_
    refine .behind TableRef.read_forward fun protos => ?_
    refine .behind TableRef.read_forward fun fields => ?_
    refine .behind TableRef.read_forward fun methods => ?_
    refine .behind TableRef.read_forward fun classes => ?_
    exact .behind TableRef.read_forward fun data => .pure _

end Pieces

section Codes

/-! ## Codes -/

variable {α : Type} {d : Decoder α} {rest : Bytes → α → Nat → Prop} {offset : Nat}

theorem atOffset_grows (hd : Gauged 1 d rest) : Grows (Decoder.atOffset offset d) :=
  .ite (.pure _) (.bind (.goTo offset) fun _ => hd.grows.bind fun _ => .pure _)

/-- What an offset points to is reached, unless the offset is zero. -/
theorem atOffset_reaches (hd : Gauged 1 d rest) {o : Option α}
    (h : (Decoder.atOffset offset d).Reads buffer start o stop) :
    Reaches (Decoder.atOffset offset d) buffer start o stop
      fun n => ∀ a, o = some a → d.EndsIn buffer offset a n ∧ rest buffer a n := by
  unfold Decoder.atOffset at h ⊢
  split at h
  · obtain ⟨rfl, rfl⟩ := Decoder.reads_pure_iff.mp h
    rename_i hzero
    rw [if_pos hzero]
    refine Reaches.congr (.pure none) fun n => iff_of_true trivial fun a ha => ?_
    cases ha
  · rename_i hoffset
    rw [if_neg hoffset]
    rw [Decoder.reads_goTo_bind_iff] at h
    obtain ⟨a, mid, hread, h⟩ := Decoder.reads_bind_iff.mp h
    obtain ⟨rfl, rfl⟩ := Decoder.reads_pure_iff.mp h
    refine Reaches.congr (.goTo (.map (hd.reaches hread))) fun n => ?_
    exact ⟨fun h _ ha => Option.some.inj ha ▸ h, fun h => h a rfl⟩

namespace Code

/-- Code without its debug information. -/
def body (c : Code) : Code :=
  { c with debug := none }

/-- Reads code up to its debug information. -/
def readBody : Decoder Code := do
  let registers ← Decoder.u16
  let ins ← Decoder.u16
  let outs ← Decoder.u16
  let tryCount ← Decoder.u16
  let debugOffset ← Decoder.u32
  let unitCount ← Decoder.u32
  let bytes ← Decoder.take (2 * unitCount)
  let (tries, handlers) ← readTries tryCount unitCount
  pure ⟨registers, ins, outs, tryCount, debugOffset, unitCount, halfWords bytes, tries, handlers,
    none⟩

theorem read_eq : read = (do
    let body ← readBody
    let debug ← Decoder.atOffset body.debugOffset DebugInfo.read
    pure { body with debug }) := by
  simp only [read, readBody, bind_assoc, pure_bind]

theorem readTries_forward (tryCount unitCount : Nat) : Forward (readTries tryCount unitCount) := by
  have hpadding : Forward (skipPadding unitCount) :=
    .ite (.behind .u16 fun _ => .pure _) (.pure _)
  refine .ite (.pure _) (.behind hpadding fun _ => ?_)
  refine .behind (TryRange.read_forward.repeated tryCount) fun tries => ?_
  exact .behind Handlers.readAll_forward fun handlers => .pure _

theorem readBody_solid : Solid readBody := by
  refine .ahead .u16 (fun registers => ?_) (by decide)
  refine .behind .u16 fun ins => ?_
  refine .behind .u16 fun outs => ?_
  refine .behind .u16 fun tryCount => ?_
  refine .behind .u32 fun debugOffset => ?_
  refine .behind .u32 fun unitCount => ?_
  refine .behind (.take _) fun bytes => ?_
  exact .behind (readTries_forward tryCount unitCount) fun _ => .pure _

theorem body_of_reads {c : Code} (h : readBody.Reads buffer start c stop) : c.body = c := by
  simp only [readBody, Decoder.reads_bind_iff, Decoder.reads_pure_iff] at h
  obtain ⟨_, _, -, _, _, -, _, _, -, _, _, -, _, _, -, _, _, -, _, _, -, _, _, -, rfl, -⟩ := h
  rfl

/-- Code and its debug information end within the first bytes of a buffer. -/
structure EndsIn (buffer : Bytes) (offset : Nat) (c : Code) (n : Nat) : Prop where
  body : readBody.EndsIn buffer offset c.body n
  debug : ∀ debug, c.debug = some debug → DebugInfo.read.EndsIn buffer c.debugOffset debug n

theorem read_grows : Grows read := by
  rw [read_eq]
  exact readBody_solid.grows.bind fun body => (atOffset_grows DebugInfo.read_solid).bind
    fun debug => .pure _

theorem read_reaches {c : Code} (h : read.Reads buffer start c stop) :
    Reaches read buffer start c stop (c.EndsIn buffer start) := by
  rw [read_eq] at h ⊢
  obtain ⟨body, mid, hbody, h⟩ := Decoder.reads_bind_iff.mp h
  obtain ⟨debug, last, hdebug, h⟩ := Decoder.reads_bind_iff.mp h
  obtain ⟨rfl, rfl⟩ := Decoder.reads_pure_iff.mp h
  have hreach := readBody_solid.reaches hbody
  have hreach' := atOffset_reaches DebugInfo.read_solid hdebug
  refine Reaches.congr (.bind hreach (.map hreach')) fun n => ?_
  simp only [and_true]
  constructor
  · rintro ⟨hends, hends'⟩
    exact ⟨(body_of_reads hbody).symm ▸ hends, hends'⟩
  · rintro ⟨hends, hends'⟩
    exact ⟨body_of_reads hbody ▸ hends, hends'⟩

/-- The code that is read elsewhere ends within the first bytes of a buffer, if there is some. -/
def AwayEndsIn (offset : Nat) (buffer : Bytes) (o : Option Code) (n : Nat) : Prop :=
  ∀ c, o = some c → c.EndsIn buffer offset n

theorem readAway_gauged (offset : Nat) : Gauged 0 (readAway offset) (AwayEndsIn offset) := by
  by_cases hoffset : offset = 0
  · rw [readAway, if_pos hoffset]
    exact .value fun _ _ _ h => nomatch h
  · have hreads {buffer : Bytes} {start : Nat} {o : Option Code} {stop : Nat} :
        (readAway offset).Reads buffer start o stop ↔
          ∃ c mid, read.Reads buffer offset c mid ∧ some c = o ∧ start = stop := by
      rw [readAway, if_neg hoffset]
      simp only [Decoder.reads_position_bind_iff, Decoder.reads_goTo_bind_iff,
        Decoder.reads_bind_iff (d := read), Decoder.reads_pure_iff]
    constructor
    · intro buffer start o stop h
      obtain ⟨c, mid, -, -, rfl⟩ := hreads.mp h
      exact Nat.le_refl start
    · intro buffer start o stop h
      obtain ⟨c, mid, -, -, rfl⟩ := hreads.mp h
      exact .inr rfl
    · intro part buffer hpart start o stop h
      obtain ⟨c, mid, hread, hrest⟩ := hreads.mp h
      exact hreads.mpr ⟨c, mid, read_grows hpart hread, hrest⟩
    · intro part buffer start o stop hpart h _ hends
      obtain ⟨c, mid, hread, rfl, hstop⟩ := hreads.mp h
      have hread' := (read_reaches hread).reads hpart (hends c rfl)
      exact hreads.mpr ⟨c, mid, hread', rfl, hstop⟩
    · intro part buffer start o stop hpart h
      obtain ⟨c, mid, hread, rfl, hstop⟩ := hreads.mp h
      by_cases hends : c.EndsIn buffer offset part.size
      · have hread' := (read_reaches hread).reads hpart hends
        refine .inl ⟨hreads.mpr ⟨c, mid, hread', rfl, hstop⟩, fun _ hc => ?_⟩
        exact Option.some.inj hc ▸ hends
      · right
        rw [readAway, if_neg hoffset]
        exact .after .position (.after (.goTo offset) ((read_reaches hread).short hpart hends).bind)

end Code

section Members

/-! ## Members -/

/-- The code of a method ends within the first bytes of a buffer. -/
def MethodEntry.EndsIn (buffer : Bytes) (m : MethodEntry) (n : Nat) : Prop :=
  Code.AwayEndsIn m.codeOffset buffer m.code n

/-- A method takes three bytes at least, beside its code. -/
theorem MethodEntry.read_gauged : Gauged 3 MethodEntry.read MethodEntry.EndsIn :=
  Leb128.unsigned_solid.add fun _ => Leb128.unsigned_solid.add fun _ =>
    Leb128.unsigned_solid.add fun offset => (Code.readAway_gauged offset).map fun _ _ _ => Iff.rfl

namespace ClassData

/-- The methods of a class. -/
def methods (data : ClassData) : List MethodEntry :=
  data.directMethods ++ data.virtualMethods

/-- The codes of a class end within the first bytes of a buffer. -/
def CodesEndIn (buffer : Bytes) (data : ClassData) (n : Nat) : Prop :=
  ∀ m ∈ data.methods, m.EndsIn buffer n

theorem readMembers_gauged (counts : MemberCounts) :
    Gauged counts.leastSize (readMembers counts) CodesEndIn := by
  have hvirtual (static others : List FieldEntry) (direct : List MethodEntry) :
      Gauged (3 * counts.virtualMethods.value.toNat)
        (Decoder.times MethodEntry.read counts.virtualMethods.value.toNat >>= fun virtual =>
          pure (⟨counts, static, others, direct, virtual⟩ : ClassData))
        fun buffer data n => ∀ m ∈ data.virtualMethods, m.EndsIn buffer n :=
    (MethodEntry.read_gauged.times _).map fun _ _ _ => Iff.rfl
  refine Gauged.weaken ((FieldEntry.read_gauged.repeated _).add fun static =>
    (FieldEntry.read_gauged.repeated _).add fun others =>
      (MethodEntry.read_gauged.times _).bind (hvirtual static others) fun _ h => ?_) ?_
  · obtain ⟨virtual, _, -, hpure⟩ := Decoder.reads_bind_iff.mp h
    rw [← (Decoder.reads_pure_iff.mp hpure).1]
    exact List.forall_mem_append
  · rw [MemberCounts.leastSize]
    omega

theorem read_solid : Gauged 1 read CodesEndIn := by
  refine .behind .position fun start => ?_
  refine .ahead MemberCounts.read_solid (fun counts => ?_) (Nat.le_refl 1)
  exact (Gauged.checkLeast (fun _ => readMembers_gauged counts) fun _ _ => rfl).weaken
    (Nat.zero_le _)

end ClassData

end Members

end Codes

section Rows

/-! ## Rows -/

/-- The string of a row ends within the first bytes of a buffer. -/
def StringId.EndsIn (buffer : Bytes) (row : StringId) (n : Nat) : Prop :=
  StringData.read.EndsIn buffer row.dataOffset row.data n

/-- The parameters of a row, if it has some, end within the first bytes of a buffer. -/
def ProtoId.EndsIn (buffer : Bytes) (row : ProtoId) (n : Nat) : Prop :=
  ∀ types, row.parameters = some types →
    readTypeList.EndsIn buffer row.parametersOffset types n

/-- The interfaces of a row and its members with their codes, as far as it has them, end within the
first bytes of a buffer. -/
structure ClassDef.EndsIn (buffer : Bytes) (row : ClassDef) (n : Nat) : Prop where
  interfaces : ∀ types, row.interfaces = some types →
    readTypeList.EndsIn buffer row.interfacesOffset types n
  members : ∀ data, row.data = some data → ClassData.read.EndsIn buffer row.dataOffset data n ∧
    data.CodesEndIn buffer n

theorem StringId.read_points : Points layout.stride read StringId.EndsIn := by
  refine .u32 fun offset => .elsewhere ?_ fun h => ?_
  · exact .bind (.goTo offset) fun _ => StringData.read_solid.grows.bind fun _ => .pure _
  · rw [Decoder.reads_goTo_bind_iff] at h
    obtain ⟨data, mid, hdata, h⟩ := Decoder.reads_bind_iff.mp h
    obtain ⟨rfl, rfl⟩ := Decoder.reads_pure_iff.mp h
    refine Reaches.congr (.goTo (.map (StringData.read_solid.reaches hdata))) fun n => ?_
    exact iff_of_eq (and_true _)

theorem TypeId.read_points : Points layout.stride read fun _ _ _ => True :=
  .u32 fun _ => .pure _

theorem ProtoId.read_points : Points layout.stride read ProtoId.EndsIn := by
  refine .u32 fun _ => .u32 fun _ => .u32 fun offset => .elsewhere ?_ fun h => ?_
  · exact (atOffset_grows readTypeList_solid).bind fun _ => .pure _
  · obtain ⟨types, mid, htypes, h⟩ := Decoder.reads_bind_iff.mp h
    obtain ⟨rfl, rfl⟩ := Decoder.reads_pure_iff.mp h
    refine Reaches.congr (.map (atOffset_reaches readTypeList_solid htypes)) fun n => ?_
    simp only [and_true]
    rfl

theorem FieldId.read_points : Points layout.stride read fun _ _ _ => True :=
  .u16 fun _ => .u16 fun _ => .u32 fun _ => .pure _

theorem MethodId.read_points : Points layout.stride read fun _ _ _ => True :=
  .u16 fun _ => .u16 fun _ => .u32 fun _ => .pure _

theorem ClassDef.read_points : Points layout.stride read ClassDef.EndsIn := by
  refine .u32 fun type => .u32 fun flags => .u32 fun superclass => .u32 fun interfacesOffset =>
    .u32 fun sourceFile => .u32 fun annotationsOffset => .u32 fun dataOffset =>
    .u32 fun staticValuesOffset => .elsewhere ?_ fun h => ?_
  · exact (atOffset_grows readTypeList_solid).bind fun _ =>
      (atOffset_grows ClassData.read_solid).bind fun _ => .pure _
  · obtain ⟨types, mid, htypes, h⟩ := Decoder.reads_bind_iff.mp h
    obtain ⟨data, last, hdata, h⟩ := Decoder.reads_bind_iff.mp h
    obtain ⟨rfl, rfl⟩ := Decoder.reads_pure_iff.mp h
    have htypes' := atOffset_reaches readTypeList_solid htypes
    have hdata' := atOffset_reaches ClassData.read_solid hdata
    refine Reaches.congr (.bind htypes' (.map hdata')) fun n => ?_
    simp only [and_true]
    exact ⟨fun h => ⟨h.1, h.2⟩, fun h => ⟨h.interfaces, h.members⟩⟩

end Rows

section Files

/-! ## Tables and files -/

/-- The rows of a table end within the first bytes of a buffer. -/
def TableRef.EndsIn (layout : RowLayout) (ref : TableRef) (n : Nat) : Prop :=
  ref.size = 0 ∨ ref.offset + ref.size * layout.stride ≤ n

variable {α : Type} {layout : RowLayout} {row : Decoder α} {ref : TableRef}
  {away : Bytes → α → Nat → Prop}

theorem readTable_grows (hrow : Points layout.stride row away) :
    Grows (readTable layout row ref) := by
  refine .ite (.pure []) (.check ?_ (.each (fun i => .bind (.goTo _) fun _ => hrow.grows) _))
  intro size size' hle h
  exact decide_eq_true (Nat.le_trans (of_decide_eq_true h) hle)

/-- A table is reached when its rows and what they point to are. -/
theorem readTable_reaches (hrow : Points layout.stride row away) {rows : List α}
    (h : (readTable layout row ref).Reads buffer start rows stop) :
    Reaches (readTable layout row ref) buffer start rows stop
      fun n => ref.EndsIn layout n ∧ ∀ a ∈ rows, away buffer a n := by
  unfold readTable at h ⊢
  split at h
  · rename_i hempty
    obtain ⟨rfl, rfl⟩ := Decoder.reads_pure_iff.mp h
    rw [if_pos hempty]
    exact .congr (.pure []) fun n => iff_of_true trivial ⟨.inl hempty, fun _ ha => nomatch ha⟩
  · rename_i hsome
    rw [Decoder.reads_bufferSize_bind_iff, Decoder.reads_require_bind_iff] at h
    have hlength := (Decoder.forall₂_of_reads_each h.2).length_eq
    have hrows := Reaches.each (fun i _ _ _ _ hread =>
      .goTo (hrow.reaches (Decoder.reads_goTo_bind_iff.mp hread))) h.2
    rw [if_neg hsome]
    refine .congr (.check (fun _ => rfl) hrows) fun n => ?_
    rw [decide_eq_true_iff, List.forall₂_and_left, forall₂_right_iff hlength, ← and_assoc,
      TableRef.EndsIn, or_iff_right hsome]
    -- A row ends where the next one starts, at the latest where the table ends.
    refine and_congr_left fun _ => and_iff_left_of_imp fun hroom i hi => .inr ?_
    have hle := Nat.mul_le_mul_right layout.stride (Nat.succ_le_of_lt (List.mem_range.mp hi))
    rw [Nat.succ_mul] at hle
    omega

/-- Everything that was read for some tables ends within the first bytes of a buffer. -/
structure Tables.EndsIn (buffer : Bytes) (t : Tables) (n : Nat) : Prop where
  header : Header.read.EndsIn buffer 0 t.header n
  fileSize : t.header.fileSize ≤ n
  map : ∀ map, t.map = some map → MapItem.readAll.EndsIn buffer t.header.mapOffset map n
  stringIds : t.header.strings.EndsIn StringId.layout n
  strings : ∀ row ∈ t.stringIds, row.EndsIn buffer n
  typeIds : t.header.types.EndsIn TypeId.layout n
  protoIds : t.header.protos.EndsIn ProtoId.layout n
  parameters : ∀ row ∈ t.protoIds, row.EndsIn buffer n
  fieldIds : t.header.fields.EndsIn FieldId.layout n
  methodIds : t.header.methods.EndsIn MethodId.layout n
  classDefs : t.header.classes.EndsIn ClassDef.layout n
  classes : ∀ row ∈ t.classDefs, row.EndsIn buffer n

namespace Tables

theorem read_grows : Grows read := by
  refine Header.read_solid.grows.bind fun header => .check ?_ ?_
  · intro size size' hle h
    exact decide_eq_true (Nat.le_trans (of_decide_eq_true h) hle)
  · refine (atOffset_grows MapItem.readAll_solid).bind fun _ => ?_
    refine (readTable_grows StringId.read_points).bind fun _ => ?_
    refine (readTable_grows TypeId.read_points).bind fun _ => ?_
    refine (readTable_grows ProtoId.read_points).bind fun _ => ?_
    refine (readTable_grows FieldId.read_points).bind fun _ => ?_
    refine (readTable_grows MethodId.read_points).bind fun _ => ?_
    exact (readTable_grows ClassDef.read_points).bind fun _ => .pure _

/-- Tables are read of the first bytes of a buffer exactly when all that belongs to them ends
there. -/
theorem read_reaches {t : Tables} (h : read.Reads buffer 0 t stop) :
    Reaches read buffer 0 t stop (t.EndsIn buffer) := by
  unfold read at h ⊢
  obtain ⟨header, mid, hheader, h⟩ := Decoder.reads_bind_iff.mp h
  rw [Decoder.reads_bufferSize_bind_iff, Decoder.reads_require_bind_iff] at h
  obtain ⟨-, h⟩ := h
  obtain ⟨map, _, hmap, h⟩ := Decoder.reads_bind_iff.mp h
  obtain ⟨strings, _, hstrings, h⟩ := Decoder.reads_bind_iff.mp h
  obtain ⟨types, _, htypes, h⟩ := Decoder.reads_bind_iff.mp h
  obtain ⟨protos, _, hprotos, h⟩ := Decoder.reads_bind_iff.mp h
  obtain ⟨fields, _, hfields, h⟩ := Decoder.reads_bind_iff.mp h
  obtain ⟨methods, _, hmethods, h⟩ := Decoder.reads_bind_iff.mp h
  obtain ⟨classes, _, hclasses, h⟩ := Decoder.reads_bind_iff.mp h
  obtain ⟨rfl, rfl⟩ := Decoder.reads_pure_iff.mp h
  have hheader := Header.read_solid.reaches hheader
  have hmap := atOffset_reaches MapItem.readAll_solid hmap
  have hstrings := readTable_reaches StringId.read_points hstrings
  have htypes := readTable_reaches TypeId.read_points htypes
  have hprotos := readTable_reaches ProtoId.read_points hprotos
  have hfields := readTable_reaches FieldId.read_points hfields
  have hmethods := readTable_reaches MethodId.read_points hmethods
  have hclasses := readTable_reaches ClassDef.read_points hclasses
  refine .congr (.bind hheader (.check (fun _ => rfl) (.bind hmap (.bind hstrings
    (.bind htypes (.bind hprotos (.bind hfields (.bind hmethods (.map hclasses))))))))) fun n => ?_
  simp only [and_true, implies_true, decide_eq_true_iff, ← List.mem_toArray]
  constructor
  · rintro ⟨hheader, hsize, hmap, hstrings, htypes, hprotos, hfields, hmethods, hclasses⟩
    exact ⟨hheader, hsize, hmap, hstrings.1, hstrings.2, htypes, hprotos.1, hprotos.2, hfields,
      hmethods, hclasses.1, hclasses.2⟩
  · rintro ⟨hheader, hsize, hmap, hstrings, hstrings', htypes, hprotos, hprotos', hfields,
      hmethods, hclasses, hclasses'⟩
    exact ⟨hheader, hsize, hmap, ⟨hstrings, hstrings'⟩, htypes, ⟨hprotos, hprotos'⟩, hfields,
      hmethods, hclasses, hclasses'⟩

end Tables

namespace File

/-- The first bytes of a buffer are a file exactly when the buffer is one and everything that was
read of it ends there, and then they are the same file.  Otherwise something reaches outside them.
The size that the header declares is one of the tests. -/
theorem decode_part_iff (hn : n ≤ buffer.size) :
    (∀ g, decode (buffer.extract 0 n) = .ok g ↔
      ∃ f, decode buffer = .ok f ∧ f.tables.EndsIn buffer n ∧ g = { f with bufferSize := n }) ∧
    ∀ f, decode buffer = .ok f → ¬f.tables.EndsIn buffer n →
      ∃ e, decode (buffer.extract 0 n) = .error e ∧ e.category = .outOfBounds := by
  obtain ⟨hpart, hlength⟩ := Holds.of_first hn
  -- Classes are resolved in the tables alone, so that only the reading of these matters.
  refine ⟨fun g => ⟨fun hdecode => ?_, ?_⟩, fun f hdecode hcut => ?_⟩
  · obtain ⟨hread, hclasses, hsize⟩ := decode_eq_ok_iff.mp hdecode
    have hwhole := Tables.read_grows hpart hread.reads
    have hends := ((Tables.read_reaches hwhole).reads_iff hpart).mp hread.reads
    rw [hlength] at hends hsize
    refine ⟨{ g with bufferSize := buffer.size }, ?_, hends, ?_⟩
    · exact decode_eq_ok_iff.mpr ⟨hwhole.result, hclasses, rfl⟩
    · rw [hsize]
  · rintro ⟨f, hdecode, hends, rfl⟩
    obtain ⟨hread, hclasses, -⟩ := decode_eq_ok_iff.mp hdecode
    have hfirst := (Tables.read_reaches hread.reads).reads hpart (hlength.symm ▸ hends)
    exact decode_eq_ok_iff.mpr ⟨hfirst.result, hclasses, hlength⟩
  · obtain ⟨hread, -⟩ := decode_eq_ok_iff.mp hdecode
    have hshort := (Tables.read_reaches hread.reads).short hpart (hlength.symm ▸ hcut)
    exact hshort.bind.within

/-- A file of one string, which stands behind the end that the header declares. -/
def overlaid : Bytes :=
  (Stamp.encode ⟨"035", 0, List.replicate 20 0⟩ ++
    wordBytes [116, dexHeaderSize, byteOrderTag, 0, 0, 0, 1, 112, 0, 0, 0, 0, 0, 0, 0, 0, 0, 0, 0,
      0] ++
    wordBytes [116] ++ StringData.encode "hi" ++ [0]).toArray

/-- The string ends in the first 119 bytes of that file and not in the first 116. -/
theorem decode_part_iff_overlaid : 119 ≤ overlaid.size ∧ 116 ≤ overlaid.size ∧
    ∃ f, decode overlaid = .ok f ∧ f.tables.header.fileSize = 116 ∧
      f.tables.EndsIn overlaid 119 ∧ ¬f.tables.EndsIn overlaid 116 := by
  have hlonger : 119 ≤ overlaid.size := by decide +kernel
  have hdeclared : 116 ≤ overlaid.size := by decide +kernel
  have hread : (decode (overlaid.extract 0 119)).toOption.any (fun g =>
      decide (g.tables.header.fileSize = 116)) = true := by
    decide +kernel
  have hcut : (decode (overlaid.extract 0 116)).toOption = none := by
    decide +kernel
  obtain ⟨g, hg, hsize⟩ := exists_ok_of_any hread
  obtain ⟨f, hdecode, hends, rfl⟩ := ((decode_part_iff hlonger).1 g).mp hg
  refine ⟨hlonger, hdeclared, f, hdecode, of_decide_eq_true hsize, hends, fun hends => ?_⟩
  rw [((decode_part_iff hdeclared).1 _).mpr ⟨f, hdecode, hends, rfl⟩] at hcut
  cases hcut

/-- Decoding is not confined to the declared size: a file may hold a string from behind it, while
the bytes up to it are no file. -/
theorem string_behind_end :
    (∃ f, decode overlaid = .ok f ∧ f.tables.header.fileSize = 116 ∧
      f.tables.strings = #["hi"]) ∧
    116 ≤ overlaid.size ∧
    ∃ e, decode (overlaid.extract 0 116) = .error e ∧ e.category = .outOfBounds := by
  have hread : (decode overlaid).toOption.any (fun f =>
      decide (f.tables.header.fileSize = 116 ∧ f.tables.strings = #["hi"])) = true := by
    decide +kernel
  have hcut : decode (overlaid.extract 0 116) =
      .error ⟨subject, .outOfBounds, .stream (.short 1 0)⟩ := by
    decide +kernel
  obtain ⟨f, hdecode, htest⟩ := exists_ok_of_any hread
  exact ⟨⟨f, hdecode, of_decide_eq_true htest⟩, by decide +kernel, _, hcut, rfl⟩

end File

end Files

end Dex

end ApkFormats
