import ApkFormats.Proofs.Dex.Extent
import ApkFormats.Proofs.Leb128

/-!
# Members of classes apart from their codes

The code of a method stands wherever its offset points, even in the middle of the
members themselves.  What is read there has no part in the members.

* `MemberRows.read`: reads the numbers that members consist of, one behind the
  other, and never follows an offset (`MemberRows.read_sequential`);
* `ClassData.reads_read_iff`: members are read exactly where these numbers are,
  when a code stands at every offset of a method;
* `Numbered`: indices that differences add up to;
* `ClassView.numbered_of_resolve`: the members of a class are numbered list by
  list, within the tables of fields and methods;
* `ClassData.rows_of_read`: both for a whole file.
-/

namespace ApkFormats

namespace Decoder

variable {α β : Type} {buffer : Bytes} {start stop count : Nat}

/-- What stands at an offset, which is nothing at offset zero. -/
def StandsAt (d : Decoder α) (buffer : Bytes) (offset : Nat) (o : Option α) : Prop :=
  offset = 0 ∧ o = none ∨ offset ≠ 0 ∧ ∃ a, o = some a ∧ d.Yields buffer offset a

/-- Repeating one decoder reads what repeating another one does, if that holds once and something
else holds of every value. -/
theorem reads_times_iff_map {d : Decoder α} {d' : Decoder β} {f : α → β} {P : α → Prop}
    (hd : ∀ {start a stop}, d.Reads buffer start a stop ↔ d'.Reads buffer start (f a) stop ∧ P a)
    {as : List α} :
    (Decoder.times d count).Reads buffer start as stop ↔
      (Decoder.times d' count).Reads buffer start (as.map f) stop ∧ ∀ a ∈ as, P a := by
  induction count generalizing start as stop with
  | zero =>
      rw [times_zero, times_zero, reads_pure_iff, reads_pure_iff]
      cases as <;> simp
  | succ count ih =>
      simp only [times_succ, reads_bind_iff (d := d), reads_bind_iff (d := d'),
        reads_bind_iff (d := Decoder.times _ count), reads_pure_iff]
      constructor
      · rintro ⟨a, mid, ha, rest, _, hrest, rfl, rfl⟩
        obtain ⟨ha', hP⟩ := hd.mp ha
        obtain ⟨hrest', hall⟩ := ih.mp hrest
        exact ⟨⟨_, _, ha', _, _, hrest', rfl, rfl⟩, List.forall_mem_cons.mpr ⟨hP, hall⟩⟩
      · rintro ⟨⟨b, mid, hb, rest', _, hrest', hmap, rfl⟩, hall⟩
        obtain ⟨a, rest, rfl, rfl, rfl⟩ := List.map_eq_cons_iff.mp hmap.symm
        obtain ⟨hP, hall⟩ := List.forall_mem_cons.mp hall
        exact ⟨a, mid, hd.mpr ⟨hb, hP⟩, rest, _, ih.mpr ⟨hrest', hall⟩, rfl, rfl⟩

end Decoder

open Decoder (Gauged Sequential StandsAt)

namespace Leb128

/-- The bytes of a number are read in the same way wherever the number is said to start. -/
theorem reads_readGroups_iff {buffer : Bytes} {origin origin' room start stop : Nat}
    {bytes : List UInt8} :
    (readGroups origin room).Reads buffer start bytes stop ↔
      (readGroups origin' room).Reads buffer start bytes stop := by
  induction room generalizing start bytes stop with
  | zero => exact iff_of_false Decoder.not_reads_fail Decoder.not_reads_fail
  | succ room ih =>
      simp only [readGroups, Decoder.reads_bind_iff, Decoder.reads_ite_iff, ih]

theorem readGroups_sequential (origin room : Nat) : Sequential (readGroups origin room) := by
  induction room with
  | zero => exact .fail
  | succ room ih =>
      rw [readGroups]
      exact .bind .byte fun b => .ite (ih.bind fun rest => .pure _) (.pure _)

theorem groups_sequential : Sequential groups := by
  refine .congr (readGroups_sequential 0 maxLeb128Bytes) fun {buffer start bytes stop} => ?_
  rw [groups, Decoder.reads_position_bind_iff]
  exact reads_readGroups_iff

theorem stored_sequential (kind : Kind) : Sequential (stored kind) :=
  groups_sequential.bind fun _ => .pure _

theorem unsigned_sequential : Sequential unsigned :=
  groups_sequential.bind fun _ => .pure _

end Leb128

namespace Dex

variable {buffer : Bytes} {start stop offset : Nat}

section Rows

/-! ## Rows of members -/

/-- A method as it stands in its list, with the offset of its code. -/
structure MethodRow where
  /-- Difference to the index of the method before it. -/
  indexDiff : Nat
  flags : Nat
  /-- Offset of the code, or zero for a method without code. -/
  codeOffset : Nat
  deriving DecidableEq

/-- Reads a method as it stands in its list. -/
def MethodRow.read : Decoder MethodRow := do
  let indexDiff ← Leb128.unsigned
  let flags ← Leb128.unsigned
  let codeOffset ← Leb128.unsigned
  pure ⟨indexDiff, flags, codeOffset⟩

/-- A method without its code. -/
def MethodEntry.row (m : MethodEntry) : MethodRow :=
  ⟨m.indexDiff, m.flags, m.codeOffset⟩

/-- The members of a class without their codes. -/
structure MemberRows where
  counts : MemberCounts
  staticFields : List FieldEntry
  instanceFields : List FieldEntry
  directMethods : List MethodRow
  virtualMethods : List MethodRow

namespace MemberRows

/-- Reads the members of a class when their numbers are known. -/
def readLists (counts : MemberCounts) : Decoder MemberRows := do
  let staticFields ← Decoder.times FieldEntry.read counts.staticFields.value.toNat
  let instanceFields ← Decoder.times FieldEntry.read counts.instanceFields.value.toNat
  let directMethods ← Decoder.times MethodRow.read counts.directMethods.value.toNat
  let virtualMethods ← Decoder.times MethodRow.read counts.virtualMethods.value.toNat
  pure ⟨counts, staticFields, instanceFields, directMethods, virtualMethods⟩

/-- Reads the numbers of the members of a class, one behind the other.  No offset is followed. -/
def read : Decoder MemberRows := do
  let counts ← MemberCounts.read
  readLists counts

/-- Every list has the length that is declared for it. -/
structure Complete (rows : MemberRows) : Prop where
  staticFields : rows.staticFields.length = rows.counts.staticFields.value
  instanceFields : rows.instanceFields.length = rows.counts.instanceFields.value
  directMethods : rows.directMethods.length = rows.counts.directMethods.value
  virtualMethods : rows.virtualMethods.length = rows.counts.virtualMethods.value

end MemberRows

/-- The members of a class without their codes. -/
def ClassData.rows (data : ClassData) : MemberRows :=
  ⟨data.counts, data.staticFields, data.instanceFields, data.directMethods.map MethodEntry.row,
    data.virtualMethods.map MethodEntry.row⟩

/-- Code is read at its offset, and the cursor comes back. -/
theorem Code.reads_readAway_iff {o : Option Code} :
    (Code.readAway offset).Reads buffer start o stop ↔
      StandsAt Code.read buffer offset o ∧ start = stop := by
  unfold Code.readAway StandsAt
  split
  · rename_i hzero
    rw [Decoder.reads_pure_iff]
    constructor
    · rintro ⟨rfl, rfl⟩
      exact ⟨.inl ⟨hzero, rfl⟩, rfl⟩
    · rintro ⟨⟨-, rfl⟩ | ⟨hoffset, -⟩, rfl⟩
      · exact ⟨rfl, rfl⟩
      · exact absurd hzero hoffset
  · rename_i hoffset
    simp only [Decoder.reads_position_bind_iff, Decoder.reads_goTo_bind_iff,
      Decoder.reads_bind_iff (d := read), Decoder.reads_pure_iff]
    constructor
    · rintro ⟨c, mid, hread, rfl, rfl⟩
      exact ⟨.inr ⟨hoffset, c, rfl, hread.result⟩, rfl⟩
    · rintro ⟨⟨hzero, -⟩ | ⟨-, c, rfl, hread⟩, rfl⟩
      · exact absurd hzero hoffset
      · exact ⟨c, _, hread.reads, rfl, rfl⟩

theorem MethodEntry.reads_read_iff {m : MethodEntry} :
    MethodEntry.read.Reads buffer start m stop ↔
      MethodRow.read.Reads buffer start m.row stop ∧
        StandsAt Code.read buffer m.codeOffset m.code := by
  simp only [MethodEntry.read, MethodRow.read, Decoder.reads_bind_iff (d := Leb128.unsigned),
    Decoder.reads_bind_iff (d := Code.readAway _), Code.reads_readAway_iff, Decoder.reads_pure_iff]
  constructor
  · rintro ⟨_, _, hdiff, _, _, hflags, _, _, hoffset, _, _, ⟨hcode, rfl⟩, rfl, rfl⟩
    exact ⟨⟨_, _, hdiff, _, _, hflags, _, _, hoffset, rfl, rfl⟩, hcode⟩
  · rintro ⟨⟨_, _, hdiff, _, _, hflags, _, _, hoffset, hrow, rfl⟩, hcode⟩
    cases hrow
    exact ⟨_, _, hdiff, _, _, hflags, _, _, hoffset, _, _, ⟨hcode, rfl⟩, rfl, rfl⟩

theorem FieldEntry.read_sequential : Sequential FieldEntry.read :=
  Leb128.unsigned_sequential.bind fun _ => Leb128.unsigned_sequential.bind fun _ => .pure _

theorem MethodRow.read_sequential : Sequential MethodRow.read :=
  Leb128.unsigned_sequential.bind fun _ => Leb128.unsigned_sequential.bind fun _ =>
    Leb128.unsigned_sequential.bind fun _ => .pure _

theorem MemberCounts.read_sequential : Sequential MemberCounts.read := by
  refine .bind (Leb128.stored_sequential _) fun _ => .bind (Leb128.stored_sequential _) fun _ => ?_
  refine .bind (Leb128.stored_sequential _) fun _ => ?_
  exact .bind (Leb128.stored_sequential _) fun _ => .pure _

/-- Numbers of members are never negative. -/
theorem MemberCounts.nonneg_of_read {counts : MemberCounts}
    (h : read.Reads buffer start counts stop) : ∀ number ∈ counts.toList, 0 ≤ number.value := by
  simp only [read, Decoder.reads_bind_iff, Decoder.reads_pure_iff] at h
  obtain ⟨_, _, hstatics, _, _, hinstances, _, _, hdirects, _, _, hvirtuals, rfl, -⟩ := h
  simp only [toList, List.forall_mem_cons]
  exact ⟨Leb128.nonneg_of_stored_unsigned hstatics, Leb128.nonneg_of_stored_unsigned hinstances,
    Leb128.nonneg_of_stored_unsigned hdirects, Leb128.nonneg_of_stored_unsigned hvirtuals, by simp⟩

/-- A method takes three bytes at least. -/
theorem MethodRow.read_gauged : Gauged 3 MethodRow.read fun _ _ _ => True :=
  Leb128.unsigned_solid.add fun _ => Leb128.unsigned_solid.add fun _ =>
    Leb128.unsigned_solid.add fun _ => .pure _

namespace MemberRows

/-- The numbers of members depend on nothing but the bytes that they are read from. -/
theorem read_sequential : Sequential read := by
  refine MemberCounts.read_sequential.bind fun counts => ?_
  refine (FieldEntry.read_sequential.times _).bind fun staticFields => ?_
  refine (FieldEntry.read_sequential.times _).bind fun instanceFields => ?_
  refine (MethodRow.read_sequential.times _).bind fun directMethods => ?_
  exact (MethodRow.read_sequential.times _).bind fun virtualMethods => .pure _

theorem readLists_gauged (counts : MemberCounts) :
    Gauged counts.leastSize (readLists counts) fun _ _ _ => True := by
  refine Gauged.weaken ((FieldEntry.read_gauged.repeated _).add fun staticFields =>
    (FieldEntry.read_gauged.repeated _).add fun instanceFields =>
      (MethodRow.read_gauged.repeated _).add fun directMethods =>
        (MethodRow.read_gauged.repeated _).add fun virtualMethods => .pure _) ?_
  rw [MemberCounts.leastSize]
  omega

theorem read_solid : Decoder.Solid read :=
  .ahead MemberCounts.read_solid (fun counts => (readLists_gauged counts).weaken (Nat.zero_le _))
    (Nat.le_refl 1)

theorem complete_of_read {rows : MemberRows} (h : read.Reads buffer start rows stop) :
    rows.Complete := by
  have hlength {α : Type} {d : Decoder α} {number : Leb128.Stored} {start stop : Nat} {as : List α}
      (hnumber : 0 ≤ number.value)
      (has : (Decoder.times d number.value.toNat).Reads buffer start as stop) :
      as.length = number.value := by
    rw [Decoder.length_of_reads_times has, Int.toNat_of_nonneg hnumber]
  simp only [read, readLists, Decoder.reads_bind_iff, Decoder.reads_pure_iff] at h
  obtain ⟨counts, _, hcounts, _, _, hstatics, _, _, hinstances, _, _, hdirects, _, _, hvirtuals,
    rfl, -⟩ := h
  have hnonneg := MemberCounts.nonneg_of_read hcounts
  simp only [MemberCounts.toList, List.forall_mem_cons] at hnonneg
  obtain ⟨hs, hi, hd, hv, -⟩ := hnonneg
  exact ⟨hlength hs hstatics, hlength hi hinstances, hlength hd hdirects, hlength hv hvirtuals⟩

end MemberRows

namespace ClassData

theorem reads_readMembers_iff {counts : MemberCounts} {data : ClassData} :
    (readMembers counts).Reads buffer start data stop ↔
      (MemberRows.readLists counts).Reads buffer start data.rows stop ∧
        ∀ m ∈ data.methods, StandsAt Code.read buffer m.codeOffset m.code := by
  simp only [readMembers, MemberRows.readLists, Decoder.reads_bind_iff (d := Decoder.times _ _),
    Decoder.reads_times_iff_map MethodEntry.reads_read_iff, Decoder.reads_pure_iff, methods,
    List.forall_mem_append]
  constructor
  · rintro ⟨_, _, hstatics, _, _, hinstances, _, _, ⟨hdirects, hcodes⟩, _, _,
      ⟨hvirtuals, hcodes'⟩, rfl, rfl⟩
    exact ⟨⟨_, _, hstatics, _, _, hinstances, _, _, hdirects, _, _, hvirtuals, rfl, rfl⟩, hcodes,
      hcodes'⟩
  · rintro ⟨⟨_, _, hstatics, _, _, hinstances, _, _, hdirects, _, _, hvirtuals, hrows, rfl⟩, hcodes,
      hcodes'⟩
    cases hrows
    exact ⟨_, _, hstatics, _, _, hinstances, _, _, ⟨hdirects, hcodes⟩, _, _, ⟨hvirtuals, hcodes'⟩,
      rfl, rfl⟩

/-- The members of a class are read exactly where their numbers are, when a code stands at every
offset of a method. -/
theorem reads_read_iff {data : ClassData} :
    read.Reads buffer start data stop ↔
      MemberRows.read.Reads buffer start data.rows stop ∧
        ∀ m ∈ data.methods, StandsAt Code.read buffer m.codeOffset m.code := by
  rw [read, MemberRows.read, Decoder.reads_position_bind_iff, Decoder.reads_bind_iff,
    Decoder.reads_bind_iff]
  simp only [Decoder.reads_position_bind_iff, Decoder.reads_bufferSize_bind_iff,
    Decoder.reads_require_bind_iff, reads_readMembers_iff, decide_eq_true_eq]
  constructor
  · rintro ⟨counts, mid, hcounts, -, hlists, hcodes⟩
    exact ⟨⟨counts, mid, hcounts, hlists⟩, hcodes⟩
  · rintro ⟨⟨counts, mid, hcounts, hlists⟩, hcodes⟩
    -- The members themselves take the bytes that the check asks for.
    have hleast := (MemberRows.readLists_gauged counts).le hlists
    have hmid := MemberCounts.read_solid.inside hcounts
    have hpos := MemberCounts.read_solid.le hcounts
    have hstop := (MemberRows.readLists_gauged counts).inside hlists
    exact ⟨counts, mid, hcounts, by omega, hlists, hcodes⟩

end ClassData

end Rows

section Numbering

/-! ## Indices of members -/

variable {α β : Type} {bound : Nat}

@[simp] theorem length_runningSums (before : Nat) (diffs : List Nat) :
    (runningSums before diffs).length = diffs.length := by
  induction diffs generalizing before with
  | nil => rfl
  | cons d rest ih => rw [runningSums, List.length_cons, List.length_cons, ih]

theorem getElem_runningSums (before : Nat) (diffs : List Nat) (i : Nat)
    (hi : i < (runningSums before diffs).length) :
    (runningSums before diffs)[i] = before + (diffs.take (i + 1)).sum := by
  induction diffs generalizing before i with
  | nil => exact absurd hi (Nat.not_lt_zero i)
  | cons d rest ih =>
      cases i with
      | zero => simp [runningSums]
      | succ i =>
          have hrest := ih (before + d) i (Nat.lt_of_succ_lt_succ hi)
          rw [List.take_succ_cons, List.sum_cons, ← Nat.add_assoc]
          exact hrest

/-- Adding never decreases a sum. -/
theorem pairwise_runningSums (before : Nat) (diffs : List Nat) :
    (runningSums before diffs).Pairwise (· ≤ ·) ∧ ∀ n ∈ runningSums before diffs, before ≤ n := by
  induction diffs generalizing before with
  | nil => exact ⟨.nil, by simp [runningSums]⟩
  | cons d rest ih =>
      obtain ⟨hsorted, hleast⟩ := ih (before + d)
      refine ⟨List.pairwise_cons.mpr ⟨hleast, hsorted⟩, ?_⟩
      intro n hn
      rcases List.mem_cons.mp hn with rfl | hrest
      · exact Nat.le_add_right before d
      · exact Nat.le_of_add_right_le (hleast n hrest)

/-- Indices are what differences add up to from zero on.  They do not decrease and stay below a
bound. -/
structure Numbered (bound : Nat) (diffs indices : List Nat) : Prop where
  length : indices.length = diffs.length
  sum : ∀ i (hi : i < indices.length), indices[i] = (diffs.take (i + 1)).sum
  sorted : indices.Pairwise (· ≤ ·)
  inside : ∀ index ∈ indices, index < bound

/-- Items that are resolved with their indices, each below a bound, are numbered. -/
theorem numbered_of_mapM {diff : α → Nat} {items : List α}
    {resolve : Nat × α → Except IndexFault β} {index : β → Nat} {views : List β}
    (h : (withIndices diff items).mapM resolve = .ok views)
    (hresolve : ∀ item view, resolve item = .ok view → index view = item.1 ∧ item.1 < bound) :
    Numbered bound (items.map diff) (views.map index) := by
  have hviews := (forall₂_of_mapM h).imp hresolve
  have hindices : views.map index = runningSums 0 (items.map diff) := by
    have hfirst : (withIndices diff items).map Prod.fst = runningSums 0 (items.map diff) :=
      List.map_fst_zip (by simp)
    have hsame :
        List.Forall₂ (· = ·) (views.map index) ((withIndices diff items).map Prod.fst) := by
      rw [List.forall₂_map_left_iff, List.forall₂_map_right_iff]
      exact hviews.flip.imp fun _ _ hview => hview.1
    rw [List.forall₂_eq_eq_eq] at hsame
    rw [hsame, hfirst]
  refine ⟨?_, fun i hi => ?_, ?_, ?_⟩
  · rw [hindices, length_runningSums]
  · simp only [hindices, getElem_runningSums, Nat.zero_add]
  · rw [hindices]
    exact (pairwise_runningSums 0 _).1
  · intro n hn
    obtain ⟨view, hview, rfl⟩ := List.mem_map.mp hn
    obtain ⟨item, -, hindex, hinside⟩ := exists_of_mem_right hviews hview
    rwa [hindex]

/-- The members of a class are numbered by the differences in their rows, every list from zero on
and within the table that it refers to. -/
structure ClassView.NumberedBy (t : Tables) (rows : Option MemberRows) (view : ClassView) :
    Prop where
  staticFields : Numbered t.fieldIds.size
    (((rows.map MemberRows.staticFields).getD []).map FieldEntry.indexDiff)
    (view.staticFields.map FieldView.index)
  instanceFields : Numbered t.fieldIds.size
    (((rows.map MemberRows.instanceFields).getD []).map FieldEntry.indexDiff)
    (view.instanceFields.map FieldView.index)
  directMethods : Numbered t.methodIds.size
    (((rows.map MemberRows.directMethods).getD []).map MethodRow.indexDiff)
    (view.directMethods.map MethodView.index)
  virtualMethods : Numbered t.methodIds.size
    (((rows.map MemberRows.virtualMethods).getD []).map MethodRow.indexDiff)
    (view.virtualMethods.map MethodView.index)

variable {t : Tables} (hsmall : t.Small)
include hsmall

theorem FieldView.index_of_resolve {item : Nat × FieldEntry} {view : FieldView}
    (h : resolve t item = .ok view) : view.index = item.1 ∧ item.1 < t.fieldIds.size := by
  simp only [resolve, Tables.fieldIdAt, bind_eq_ok_iff, Tables.rowAt_eq_ok_iff hsmall.fields] at h
  obtain ⟨row, hrow, name, -, type, -, hview⟩ := h
  cases hview
  exact ⟨rfl, (Array.getElem?_eq_some_iff.mp hrow).1⟩

theorem MethodView.index_of_resolve {item : Nat × MethodEntry} {view : MethodView}
    (h : resolve t item = .ok view) : view.index = item.1 ∧ item.1 < t.methodIds.size := by
  simp only [resolve, Tables.methodIdAt, bind_eq_ok_iff, Tables.rowAt_eq_ok_iff hsmall.methods] at h
  obtain ⟨row, hrow, proto, -, name, -, returnType, -, parameters, -, names, -, hview⟩ := h
  cases hview
  exact ⟨rfl, (Array.getElem?_eq_some_iff.mp hrow).1⟩

theorem ClassView.numbered_of_resolve {row : ClassDef} {view : ClassView}
    (h : resolve t row = .ok view) : view.NumberedBy t (row.data.map ClassData.rows) := by
  simp only [resolve, bind_eq_ok_iff] at h
  obtain ⟨name, -, superclass, -, interfaces, -, sourceFile, -, statics, hstatics, instances,
    hinstances, directs, hdirects, virtuals, hvirtuals, hview⟩ := h
  cases hview
  have hfields {items : List FieldEntry} {views : List FieldView}
      (h : (withIndices FieldEntry.indexDiff items).mapM (FieldView.resolve t) = .ok views) :=
    numbered_of_mapM h fun _ _ => FieldView.index_of_resolve hsmall
  have hmethods {items : List MethodEntry} {views : List MethodView}
      (h : (withIndices MethodEntry.indexDiff items).mapM (MethodView.resolve t) = .ok views) :=
    numbered_of_mapM h fun _ _ => MethodView.index_of_resolve hsmall
  have hrows (methods : List MethodEntry) :
      (methods.map MethodEntry.row).map MethodRow.indexDiff = methods.map MethodEntry.indexDiff :=
    List.map_map
  cases hdata : row.data with
  | none =>
      rw [hdata] at hstatics hinstances hdirects hvirtuals
      exact ⟨hfields hstatics, hfields hinstances, hmethods hdirects, hmethods hvirtuals⟩
  | some data =>
      rw [hdata] at hstatics hinstances hdirects hvirtuals
      have hdirect := hmethods hdirects
      have hvirtual := hmethods hvirtuals
      rw [← hrows] at hdirect hvirtual
      exact ⟨hfields hstatics, hfields hinstances, hdirect, hvirtual⟩

end Numbering

section Files

/-! ## Members of the classes of a file -/

theorem standsAt_of_atOffset {α : Type} {d : Decoder α} {o : Option α}
    (h : (Decoder.atOffset offset d).Reads buffer start o stop) : StandsAt d buffer offset o := by
  unfold Decoder.atOffset at h
  split at h
  · rename_i hzero
    exact .inl ⟨hzero, (Decoder.reads_pure_iff.mp h).1.symm⟩
  · rename_i hoffset
    rw [Decoder.reads_goTo_bind_iff, Decoder.reads_bind_iff] at h
    obtain ⟨a, mid, hread, h⟩ := h
    exact .inr ⟨hoffset, a, (Decoder.reads_pure_iff.mp h).1.symm, hread.result⟩

/-- A class has the members that stand at its offset. -/
theorem ClassDef.standsAt_of_read {row : ClassDef} (h : ClassDef.read.Reads buffer start row stop) :
    StandsAt ClassData.read buffer row.dataOffset row.data := by
  simp only [ClassDef.read, Decoder.reads_u32_bind_iff] at h
  obtain ⟨-, -, -, -, -, -, -, -, h⟩ := h
  obtain ⟨interfaces, _, -, h⟩ := Decoder.reads_bind_iff.mp h
  obtain ⟨data, _, hdata, h⟩ := Decoder.reads_bind_iff.mp h
  obtain ⟨rfl, -⟩ := Decoder.reads_pure_iff.mp h
  exact standsAt_of_atOffset hdata

/-- The rows of a table are read one by one. -/
theorem reads_of_readTable {α : Type} {layout : RowLayout} {row : Decoder α} {ref : TableRef}
    {rows : List α} (h : (readTable layout row ref).Reads buffer start rows stop) :
    ∀ a ∈ rows, ∃ place next, row.Reads buffer place a next := by
  unfold readTable at h
  split at h
  · obtain ⟨rfl, -⟩ := Decoder.reads_pure_iff.mp h
    simp
  · rw [Decoder.reads_bufferSize_bind_iff, Decoder.reads_require_bind_iff] at h
    intro a ha
    obtain ⟨i, -, place, next, hread⟩ :=
      exists_of_mem_right (Decoder.forall₂_of_reads_each h.2) ha
    rw [Decoder.reads_goTo_bind_iff] at hread
    exact ⟨_, _, hread⟩

theorem Tables.classDefs_of_read {t : Tables} (h : read.Reads buffer start t stop) :
    ∀ row ∈ t.classDefs, ∃ place next, ClassDef.read.Reads buffer place row next := by
  unfold read at h
  obtain ⟨header, mid, -, h⟩ := Decoder.reads_bind_iff.mp h
  rw [Decoder.reads_bufferSize_bind_iff, Decoder.reads_require_bind_iff] at h
  obtain ⟨-, h⟩ := h
  obtain ⟨map, _, -, h⟩ := Decoder.reads_bind_iff.mp h
  obtain ⟨strings, _, -, h⟩ := Decoder.reads_bind_iff.mp h
  obtain ⟨types, _, -, h⟩ := Decoder.reads_bind_iff.mp h
  obtain ⟨protos, _, -, h⟩ := Decoder.reads_bind_iff.mp h
  obtain ⟨fields, _, -, h⟩ := Decoder.reads_bind_iff.mp h
  obtain ⟨methods, _, -, h⟩ := Decoder.reads_bind_iff.mp h
  obtain ⟨classes, _, hclasses, h⟩ := Decoder.reads_bind_iff.mp h
  obtain ⟨rfl, -⟩ := Decoder.reads_pure_iff.mp h
  intro row hrow
  exact reads_of_readTable hclasses row (by simpa using hrow)

/-- Members stand apart from their codes where they stand with them. -/
theorem MemberRows.standsAt {o : Option ClassData} (h : StandsAt ClassData.read buffer offset o) :
    StandsAt MemberRows.read buffer offset (o.map ClassData.rows) := by
  rcases h with ⟨hzero, rfl⟩ | ⟨hoffset, data, rfl, hdata⟩
  · exact .inl ⟨hzero, rfl⟩
  · have hrows := (ClassData.reads_read_iff.mp hdata.reads).1
    exact .inr ⟨hoffset, data.rows, rfl, hrows.result⟩

/-- In an accepted file the members of every class are numbered by the rows at its offset. -/
theorem File.numbered_of_decode {f : File} (h : File.decode buffer = .ok f) :
    List.Forall₂ (fun row view => ∃ rows, StandsAt MemberRows.read buffer row.dataOffset rows ∧
      ClassView.NumberedBy f.tables rows view) f.tables.classDefs.toList f.classes := by
  obtain ⟨htables, hviews, -⟩ := File.decode_eq_ok_iff.mp h
  have hsmall := Tables.small_of_read htables.reads
  have hrows := Tables.classDefs_of_read htables.reads
  have hclasses := (List.forall₂_and_left _ _).mpr
    ⟨fun row hrow => hrows row (Array.mem_toList_iff.mp hrow), forall₂_of_mapM hviews⟩
  refine hclasses.imp ?_
  rintro row view ⟨⟨place, next, hrow⟩, hview⟩
  exact ⟨_, MemberRows.standsAt (ClassDef.standsAt_of_read hrow),
    ClassView.numbered_of_resolve hsmall hview⟩

namespace ClassData

/-- Wherever the same bytes stand the same members are read, apart from their codes. -/
theorem rows_eq_of_holds {buffer' : Bytes} {start' stop' : Nat} {data data' : ClassData}
    (h : read.Reads buffer start data stop) (h' : read.Reads buffer' start' data' stop')
    (hbytes : Holds buffer' start' (buffer.extract start stop).toList) :
    data'.rows = data.rows ∧ stop' = start' + (stop - start) := by
  have hrows := (reads_read_iff.mp h).1
  have hend : stop ≤ buffer.size := by
    have hle := MemberRows.read_solid.le hrows
    have hinside := MemberRows.read_solid.inside hrows
    omega
  have hsame := MemberRows.read_sequential.reads_of_holds hrows hend hbytes
  exact (reads_read_iff.mp h').1.unique hsame

/-- The members of a class are those that are read one number behind the other, whatever stands at
the offsets of their codes: every list has its declared length, and the cursor ends behind them.
Wherever else the same bytes stand and members are read, they are the same members.  In an
accepted file members are numbered by what is read in this way, every list from zero on. -/
theorem rows_of_read (buffer : Bytes) :
    (∀ start data stop, read.Reads buffer start data stop →
      MemberRows.read.Reads buffer start data.rows stop ∧ data.rows.Complete ∧
      ∀ buffer' start' data' stop', read.Reads buffer' start' data' stop' →
        Holds buffer' start' (buffer.extract start stop).toList →
          data'.rows = data.rows ∧ stop' = start' + (stop - start)) ∧
    ∀ f, File.decode buffer = .ok f →
      List.Forall₂ (fun row view => ∃ rows, StandsAt MemberRows.read buffer row.dataOffset rows ∧
        ClassView.NumberedBy f.tables rows view) f.tables.classDefs.toList f.classes := by
  refine ⟨fun start data stop h => ?_, fun f => File.numbered_of_decode⟩
  have hrows := (reads_read_iff.mp h).1
  exact ⟨hrows, MemberRows.complete_of_read hrows, fun _ _ _ _ => rows_eq_of_holds h⟩

/-- The members of a class with one method, whose code starts in the middle of them. -/
def overlaid : Bytes :=
  #[0xFF, 0, 0, 1, 0, 2, 9, 5] ++ Array.replicate 13 0

/-- The method is read as it stands there, and the cursor comes back behind it. -/
theorem rows_of_read_overlaid : ∃ data, read.Reads overlaid 1 data 8 ∧
    data.directMethods.map MethodEntry.row = [⟨2, 9, 5⟩] ∧
    (∃ m ∈ data.directMethods, ∃ c, m.code = some c ∧ c.registers = 0x902) ∧
    MemberRows.read.Reads overlaid 1 data.rows 8 ∧ data.rows.Complete := by
  have hany : (read overlaid 1).result.toOption.any (fun data => decide (
      data.directMethods.map MethodEntry.row = [⟨2, 9, 5⟩] ∧
      ∃ m ∈ data.directMethods, ∃ c ∈ m.code.toList, c.registers = 0x902)) = true := by
    decide +kernel
  obtain ⟨data, hresult, htest⟩ := exists_ok_of_any hany
  obtain ⟨hmethods, m, hm, c, hc, hregisters⟩ := of_decide_eq_true htest
  have hread : read.Reads overlaid 1 data 8 := ⟨hresult, by decide +kernel⟩
  obtain ⟨hrows, hcomplete, -⟩ := (rows_of_read overlaid).1 _ _ _ hread
  exact ⟨data, hread, hmethods, ⟨m, hm, c, Option.mem_toList.mp hc, hregisters⟩, hrows, hcomplete⟩

end ClassData

end Files

end Dex

end ApkFormats
