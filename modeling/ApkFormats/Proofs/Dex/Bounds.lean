import ApkFormats.Dex.File
import ApkFormats.Dex.Layout
import ApkFormats.Proofs.Lists
import ApkFormats.Proofs.Success

/-!
# Indices of an accepted DEX file

The rows of a DEX file refer to each other by index.  Decoding a file resolves
the indices that its classes lead to; the other rows are stored as they are.

* `ClassView.resolve_succeeds_iff`: the indices that a class leads to;
* `File.tables_iff`: a file is accepted exactly when its tables can be read and
  these indices lie in their tables;
* `File.rows_resolve_iff`: the rows of an accepted file can be shown exactly
  when all their indices do;
* `File.rows_dangle`: which decoding does not ask for.
-/

namespace ApkFormats.Dex

section Lookups

/-! ## Lookups -/

namespace Tables

/-- The tables are short enough for every index to differ from "no index". -/
structure Small (t : Tables) : Prop where
  strings : t.stringIds.size ≤ noIndex
  types : t.typeIds.size ≤ noIndex
  protos : t.protoIds.size ≤ noIndex
  fields : t.fieldIds.size ≤ noIndex
  methods : t.methodIds.size ≤ noIndex

theorem itemAt?_eq_getElem? {α : Type} {rows : Array α} (hsmall : rows.size ≤ noIndex) (i : Nat) :
    itemAt? rows i = rows[i]? := by
  unfold itemAt?
  split
  · rw [Array.getElem?_eq_none]
    omega
  · rw [Int.toNat_natCast]

theorem rowAt_eq_ok_iff {α : Type} {kind : RowKind} {rows : Array α}
    (hsmall : rows.size ≤ noIndex) {i : Nat} {row : α} :
    rowAt kind rows i = .ok row ↔ rows[i]? = some row := by
  rw [rowAt, itemAt?_eq_getElem? hsmall]
  cases rows[i]? <;> simp

/-- A type stands at an index, and its descriptor is a string. -/
def HasType (t : Tables) (i : Nat) : Prop :=
  ∃ row, t.typeIds[i]? = some row ∧ row.descriptor < t.stringIds.size

variable {t : Tables} (hsmall : t.Small)
include hsmall

theorem stringAt_succeeds_iff {i : Nat} : Succeeds (t.stringAt i) ↔ i < t.stringIds.size := by
  rw [stringAt, itemAt?_eq_getElem? hsmall.strings]
  by_cases hi : i < t.stringIds.size
  · rw [Array.getElem?_eq_getElem hi]
    exact iff_of_true (succeeds_ok _) hi
  · rw [Array.getElem?_eq_none (by omega)]
    exact iff_of_false (not_succeeds_error _) hi

theorem typeDescriptor_succeeds_iff {i : Nat} : Succeeds (t.typeDescriptor i) ↔ t.HasType i := by
  rw [typeDescriptor, succeeds_bind_iff]
  simp only [rowAt_eq_ok_iff hsmall.types, stringAt_succeeds_iff hsmall]
  rfl

theorem typeName_succeeds_iff {i : Nat} : Succeeds (t.typeName i) ↔ t.HasType i := by
  simp only [typeName, succeeds_bind_iff, succeeds_ok, and_true, exists_ok_iff]
  exact typeDescriptor_succeeds_iff hsmall

theorem typeNames_succeed_iff {indices : List Nat} :
    Succeeds (indices.mapM fun (index : Nat) => t.typeName index) ↔
      ∀ index ∈ indices, t.HasType index := by
  rw [succeeds_mapM_iff]
  simp only [typeName_succeeds_iff hsmall]

end Tables

end Lookups

section Classes

/-! ## What classes lead to -/

namespace Tables

/-- A field stands at an index, with a name and a type. -/
def HasField (t : Tables) (i : Nat) : Prop :=
  ∃ row, t.fieldIds[i]? = some row ∧ row.name < t.stringIds.size ∧ t.HasType row.type

/-- A method stands at an index, with a prototype, a name, a type of its result and types of its
parameters. -/
def HasMethod (t : Tables) (i : Nat) : Prop :=
  ∃ row proto, t.methodIds[i]? = some row ∧ t.protoIds[row.proto]? = some proto ∧
    row.name < t.stringIds.size ∧ t.HasType proto.returnType ∧
    ∀ index ∈ proto.parameters.getD [], t.HasType index

end Tables

namespace ClassDef

/-- The fields of a class with their indices. -/
def fieldItems (row : ClassDef) : List (Nat × FieldEntry) :=
  withIndices FieldEntry.indexDiff ((row.data.map ClassData.staticFields).getD []) ++
    withIndices FieldEntry.indexDiff ((row.data.map ClassData.instanceFields).getD [])

/-- The methods of a class with their indices. -/
def methodItems (row : ClassDef) : List (Nat × MethodEntry) :=
  withIndices MethodEntry.indexDiff ((row.data.map ClassData.directMethods).getD []) ++
    withIndices MethodEntry.indexDiff ((row.data.map ClassData.virtualMethods).getD [])

/-- Every index that a class leads to lies in its table. -/
structure InBounds (t : Tables) (row : ClassDef) : Prop where
  type : t.HasType row.type
  superclass : row.superclass ≠ noIndex → t.HasType row.superclass
  interfaces : ∀ index ∈ row.interfaces.getD [], t.HasType index
  sourceFile : row.sourceFile ≠ noIndex → row.sourceFile < t.stringIds.size
  fields : ∀ item ∈ row.fieldItems, t.HasField item.1
  methods : ∀ item ∈ row.methodItems, t.HasMethod item.1 ∧
    ∀ index ∈ MethodView.nameIndices item.2.code, index < t.stringIds.size

end ClassDef

variable {t : Tables} (hsmall : t.Small)
include hsmall

theorem FieldView.resolve_succeeds_iff {item : Nat × FieldEntry} :
    Succeeds (FieldView.resolve t item) ↔ t.HasField item.1 := by
  simp only [FieldView.resolve, succeeds_bind_iff, succeeds_ok, and_true, exists_and_right,
    exists_ok_iff, Tables.fieldIdAt, Tables.rowAt_eq_ok_iff hsmall.fields,
    Tables.stringAt_succeeds_iff hsmall, Tables.typeName_succeeds_iff hsmall]
  rfl

theorem MethodView.parameterName_succeeds_iff {index : Int} :
    Succeeds (parameterName t index) ↔ index < t.stringIds.size := by
  unfold parameterName
  split
  · exact iff_of_true (succeeds_ok _) (by omega)
  · obtain ⟨i, rfl⟩ := Int.eq_ofNat_of_zero_le (by omega : 0 ≤ index)
    rw [succeeds_map_iff, Tables.stringAt_succeeds_iff hsmall, Int.ofNat_lt]

theorem MethodView.resolve_succeeds_iff {item : Nat × MethodEntry} :
    Succeeds (MethodView.resolve t item) ↔ t.HasMethod item.1 ∧
      ∀ index ∈ nameIndices item.2.code, index < t.stringIds.size := by
  simp only [MethodView.resolve, succeeds_bind_iff, succeeds_ok, and_true, exists_and_right,
    exists_ok_iff, Tables.methodIdAt, Tables.protoIdAt, Tables.rowAt_eq_ok_iff hsmall.methods,
    Tables.rowAt_eq_ok_iff hsmall.protos, Tables.stringAt_succeeds_iff hsmall,
    Tables.typeName_succeeds_iff hsmall, Tables.typeNames_succeed_iff hsmall, succeeds_mapM_iff,
    parameterName_succeeds_iff hsmall]
  constructor
  · rintro ⟨row, hrow, proto, hproto, hname, hresult, hparameters, hnames⟩
    exact ⟨⟨row, proto, hrow, hproto, hname, hresult, hparameters⟩, hnames⟩
  · rintro ⟨⟨row, proto, hrow, hproto, hname, hresult, hparameters⟩, hnames⟩
    exact ⟨row, hrow, proto, hproto, hname, hresult, hparameters, hnames⟩

omit hsmall in
theorem ClassView.resolveOptional_succeeds_iff {lookup : Int → Except IndexFault String}
    {index : Nat} :
    Succeeds (resolveOptional lookup index) ↔ (index ≠ noIndex → Succeeds (lookup index)) := by
  unfold resolveOptional
  split
  · rename_i h
    exact iff_of_true (succeeds_ok _) (fun hne => absurd h hne)
  · rename_i h
    rw [succeeds_map_iff]
    exact ⟨fun hfound _ => hfound, fun hfound => hfound h⟩

theorem ClassView.resolve_succeeds_iff {row : ClassDef} :
    Succeeds (ClassView.resolve t row) ↔ row.InBounds t := by
  simp only [ClassView.resolve, succeeds_bind_iff, succeeds_ok, and_true, exists_and_right,
    exists_ok_iff, succeeds_mapM_iff, resolveOptional_succeeds_iff,
    Tables.typeName_succeeds_iff hsmall, Tables.stringAt_succeeds_iff hsmall,
    FieldView.resolve_succeeds_iff hsmall, MethodView.resolve_succeeds_iff hsmall]
  constructor
  · rintro ⟨htype, hsuper, hinterfaces, hsource, hstatic, hinstance, hdirect, hvirtual⟩
    exact ⟨htype, hsuper, hinterfaces, hsource, List.forall_mem_append.mpr ⟨hstatic, hinstance⟩,
      List.forall_mem_append.mpr ⟨hdirect, hvirtual⟩⟩
  · rintro ⟨htype, hsuper, hinterfaces, hsource, hfields, hmethods⟩
    obtain ⟨hstatic, hinstance⟩ := List.forall_mem_append.mp hfields
    obtain ⟨hdirect, hvirtual⟩ := List.forall_mem_append.mp hmethods
    exact ⟨htype, hsuper, hinterfaces, hsource, hstatic, hinstance, hdirect, hvirtual⟩

end Classes

section Rows

/-! ## What rows lead to -/

namespace Tables

/-- Whatever is shown of a row can be shown, for all rows. -/
structure RowsResolve (t : Tables) : Prop where
  types : ∀ row ∈ t.typeIds, Succeeds (t.stringAt row.descriptor)
  protos : ∀ row ∈ t.protoIds, Succeeds (t.stringAt row.shorty) ∧
    Succeeds (t.typeDescriptor row.returnType) ∧
    ∀ index ∈ row.parameters.getD [], Succeeds (t.typeName (index : Nat))
  fields : ∀ row ∈ t.fieldIds, Succeeds (t.typeDescriptor row.owner) ∧
    Succeeds (t.typeDescriptor row.type) ∧ Succeeds (t.stringAt row.name)
  methods : ∀ row ∈ t.methodIds, Succeeds (t.typeDescriptor row.owner) ∧
    Succeeds (t.protoIdAt row.proto) ∧ Succeeds (t.methodShorty row) ∧
    Succeeds (t.stringAt row.name)

/-- Every index of a row lies in its table, for all rows. -/
structure RowsInBounds (t : Tables) : Prop where
  types : ∀ row ∈ t.typeIds, row.descriptor < t.stringIds.size
  protos : ∀ row ∈ t.protoIds, row.shorty < t.stringIds.size ∧
    row.returnType < t.typeIds.size ∧ ∀ index ∈ row.parameters.getD [], index < t.typeIds.size
  fields : ∀ row ∈ t.fieldIds, row.owner < t.typeIds.size ∧ row.type < t.typeIds.size ∧
    row.name < t.stringIds.size
  methods : ∀ row ∈ t.methodIds, row.owner < t.typeIds.size ∧ row.proto < t.protoIds.size ∧
    row.name < t.stringIds.size

variable {t : Tables}

theorem exists_getElem?_iff {α : Type} {rows : Array α} {i : Nat} :
    (∃ row, rows[i]? = some row) ↔ i < rows.size := by
  simp [Array.getElem?_eq_some_iff]

/-- When all types have descriptors, a type is an index into their table. -/
theorem hasType_iff (htypes : ∀ row ∈ t.typeIds, row.descriptor < t.stringIds.size) {i : Nat} :
    t.HasType i ↔ i < t.typeIds.size := by
  rw [← exists_getElem?_iff]
  refine exists_congr fun row => and_iff_left_of_imp fun hrow => ?_
  exact htypes row (Array.mem_of_getElem? hrow)

variable (hsmall : t.Small)
include hsmall

theorem protoIdAt_succeeds_iff {i : Nat} : Succeeds (t.protoIdAt i) ↔ i < t.protoIds.size := by
  rw [← exists_getElem?_iff]
  exact exists_congr fun row => rowAt_eq_ok_iff hsmall.protos

/-- When all prototypes have short descriptors, so have the methods that have a prototype. -/
theorem methodShorty_succeeds_iff
    (hprotos : ∀ row ∈ t.protoIds, row.shorty < t.stringIds.size) {row : MethodId} :
    Succeeds (t.methodShorty row) ↔ row.proto < t.protoIds.size := by
  rw [methodShorty, succeeds_bind_iff, ← exists_getElem?_iff]
  simp only [protoIdAt, rowAt_eq_ok_iff hsmall.protos, stringAt_succeeds_iff hsmall]
  refine exists_congr fun proto => and_iff_left_of_imp fun hproto => ?_
  exact hprotos proto (Array.mem_of_getElem? hproto)

/-- The rows can be shown exactly when all their indices lie in their tables. -/
theorem rowsResolve_iff : t.RowsResolve ↔ t.RowsInBounds := by
  constructor
  · rintro ⟨htypes, hprotos, hfields, hmethods⟩
    have htypes : ∀ row ∈ t.typeIds, row.descriptor < t.stringIds.size := fun row hrow =>
      (stringAt_succeeds_iff hsmall).mp (htypes row hrow)
    simp only [stringAt_succeeds_iff hsmall, typeDescriptor_succeeds_iff hsmall,
      typeName_succeeds_iff hsmall, protoIdAt_succeeds_iff hsmall,
      hasType_iff htypes] at hprotos hfields hmethods
    refine ⟨htypes, hprotos, hfields, fun row hrow => ?_⟩
    obtain ⟨howner, hproto, -, hname⟩ := hmethods row hrow
    exact ⟨howner, hproto, hname⟩
  · rintro ⟨htypes, hprotos, hfields, hmethods⟩
    have hshort : ∀ row ∈ t.protoIds, row.shorty < t.stringIds.size := fun row hrow =>
      (hprotos row hrow).1
    constructor
    · simpa only [stringAt_succeeds_iff hsmall] using htypes
    · simpa only [stringAt_succeeds_iff hsmall, typeDescriptor_succeeds_iff hsmall,
        typeName_succeeds_iff hsmall, hasType_iff htypes] using hprotos
    · simpa only [stringAt_succeeds_iff hsmall, typeDescriptor_succeeds_iff hsmall,
        hasType_iff htypes] using hfields
    · intro row hrow
      obtain ⟨howner, hproto, hname⟩ := hmethods row hrow
      rw [stringAt_succeeds_iff hsmall, typeDescriptor_succeeds_iff hsmall, hasType_iff htypes,
        protoIdAt_succeeds_iff hsmall, methodShorty_succeeds_iff hsmall hshort]
      exact ⟨howner, hproto, hproto, hname⟩

end Tables

end Rows

section Files

/-! ## Files -/

variable {buffer : Bytes} {start stop : Nat}

theorem TableRef.size_le_of_read {r : TableRef} (h : TableRef.read.Reads buffer start r stop) :
    r.size ≤ noIndex := by
  unfold TableRef.read at h
  simp only [Decoder.reads_u32_bind_iff, Decoder.reads_pure_iff] at h
  obtain ⟨-, -, rfl, -⟩ := h
  exact Nat.le_of_lt_succ (numberAt_lt 4 buffer start)

/-- The sizes of the tables are words, like the indices into them. -/
theorem Header.sizes_of_read {h : Header} (hread : Header.read.Reads buffer start h stop) :
    h.strings.size ≤ noIndex ∧ h.types.size ≤ noIndex ∧ h.protos.size ≤ noIndex ∧
      h.fields.size ≤ noIndex ∧ h.methods.size ≤ noIndex := by
  unfold Header.read at hread
  obtain ⟨front, _, -, hread⟩ := Decoder.reads_bind_iff.mp hread
  rw [Decoder.reads_require_bind_iff] at hread
  obtain ⟨-, hread⟩ := hread
  split at hread
  · exact absurd hread Decoder.not_reads_fail
  · simp only [Decoder.reads_u32_bind_iff, Decoder.reads_take_bind_iff,
      Decoder.reads_require_bind_iff] at hread
    obtain ⟨-, -, -, -, -, -, -, hread⟩ := hread
    obtain ⟨link, _, -, hread⟩ := Decoder.reads_bind_iff.mp hread
    rw [Decoder.reads_u32_bind_iff] at hread
    obtain ⟨strings, _, hstrings, hread⟩ := Decoder.reads_bind_iff.mp hread.2
    obtain ⟨types, _, htypes, hread⟩ := Decoder.reads_bind_iff.mp hread
    obtain ⟨protos, _, hprotos, hread⟩ := Decoder.reads_bind_iff.mp hread
    obtain ⟨fields, _, hfields, hread⟩ := Decoder.reads_bind_iff.mp hread
    obtain ⟨methods, _, hmethods, hread⟩ := Decoder.reads_bind_iff.mp hread
    obtain ⟨classes, _, -, hread⟩ := Decoder.reads_bind_iff.mp hread
    obtain ⟨data, _, -, hread⟩ := Decoder.reads_bind_iff.mp hread
    obtain ⟨rfl, -⟩ := Decoder.reads_pure_iff.mp hread
    exact ⟨TableRef.size_le_of_read hstrings, TableRef.size_le_of_read htypes,
      TableRef.size_le_of_read hprotos, TableRef.size_le_of_read hfields,
      TableRef.size_le_of_read hmethods⟩

/-- A table has as many rows as its header says. -/
theorem length_of_readTable {α : Type} {layout : RowLayout} {row : Decoder α} {ref : TableRef}
    {rows : List α} (h : (readTable layout row ref).Reads buffer start rows stop) :
    rows.length = ref.size := by
  unfold readTable at h
  split at h
  · rename_i hzero
    rw [← (Decoder.reads_pure_iff.mp h).1, hzero]
    rfl
  · rw [Decoder.reads_bufferSize_bind_iff, Decoder.reads_require_bind_iff] at h
    have hrows := (Decoder.forall₂_of_reads_each h.2).length_eq
    rw [← hrows, List.length_range]

namespace Tables

/-- Tables that are read have a header, whose size they keep to, and as many rows as it says. -/
theorem read_cases {t : Tables} (h : read.Reads buffer start t stop) :
    (∃ mid, Header.read.Reads buffer start t.header mid) ∧ t.header.fileSize ≤ buffer.size ∧
      t.stringIds.size = t.header.strings.size ∧ t.typeIds.size = t.header.types.size ∧
      t.protoIds.size = t.header.protos.size ∧ t.fieldIds.size = t.header.fields.size ∧
      t.methodIds.size = t.header.methods.size ∧ t.classDefs.size = t.header.classes.size := by
  unfold read at h
  obtain ⟨header, mid, hheader, h⟩ := Decoder.reads_bind_iff.mp h
  rw [Decoder.reads_bufferSize_bind_iff, Decoder.reads_require_bind_iff] at h
  obtain ⟨hsize, h⟩ := h
  obtain ⟨map, _, -, h⟩ := Decoder.reads_bind_iff.mp h
  obtain ⟨strings, _, hstrings, h⟩ := Decoder.reads_bind_iff.mp h
  obtain ⟨types, _, htypes, h⟩ := Decoder.reads_bind_iff.mp h
  obtain ⟨protos, _, hprotos, h⟩ := Decoder.reads_bind_iff.mp h
  obtain ⟨fields, _, hfields, h⟩ := Decoder.reads_bind_iff.mp h
  obtain ⟨methods, _, hmethods, h⟩ := Decoder.reads_bind_iff.mp h
  obtain ⟨classes, _, hclasses, h⟩ := Decoder.reads_bind_iff.mp h
  obtain ⟨rfl, -⟩ := Decoder.reads_pure_iff.mp h
  exact ⟨⟨mid, hheader⟩, of_decide_eq_true hsize, length_of_readTable hstrings,
    length_of_readTable htypes, length_of_readTable hprotos, length_of_readTable hfields,
    length_of_readTable hmethods, length_of_readTable hclasses⟩

theorem small_of_read {t : Tables} (h : read.Reads buffer start t stop) : t.Small := by
  obtain ⟨⟨mid, hheader⟩, -, hstrings, htypes, hprotos, hfields, hmethods, -⟩ := read_cases h
  have hsizes := Header.sizes_of_read hheader
  rw [← hstrings, ← htypes, ← hprotos, ← hfields, ← hmethods] at hsizes
  obtain ⟨hstrings, htypes, hprotos, hfields, hmethods⟩ := hsizes
  exact ⟨hstrings, htypes, hprotos, hfields, hmethods⟩

end Tables

namespace File

variable {f : File}

/-- A file is accepted exactly when its tables can be read and its classes can be resolved. -/
theorem decode_eq_ok_iff :
    decode buffer = .ok f ↔ Tables.read.Yields buffer 0 f.tables ∧
      f.tables.classDefs.toList.mapM (ClassView.resolve f.tables) = .ok f.classes ∧
      buffer.size = f.bufferSize := by
  rw [decode, Outcome.within, mapError_eq_ok_iff]
  constructor
  · intro hresult
    have h : read.Reads buffer 0 f _ := ⟨hresult, rfl⟩
    unfold read at h
    obtain ⟨t, _, htables, h⟩ := Decoder.reads_bind_iff.mp h
    obtain ⟨classes, _, hclasses, h⟩ := Decoder.reads_bind_iff.mp h
    rw [Decoder.reads_note_bind_iff, Decoder.reads_bufferSize_bind_iff,
      Decoder.reads_pure_iff] at h
    obtain ⟨rfl, -⟩ := h
    exact ⟨htables.result, (Decoder.reads_resolved_iff.mp hclasses).1, rfl⟩
  · obtain ⟨t, views, size⟩ := f
    rintro ⟨htables, hviews, rfl⟩
    have hread : read.Yields buffer 0 ⟨t, views, buffer.size⟩ :=
      .bind htables.reads (.bind (.resolved hviews) (.bind (.note _) (.bind .bufferSize (.pure _))))
    exact hread

/-- Tables are those of an accepted file exactly when they can be read and every index that a class
leads to lies in its table. -/
theorem tables_iff {t : Tables} :
    (∃ f, decode buffer = .ok f ∧ f.tables = t) ↔
      Tables.read.Yields buffer 0 t ∧ ∀ row ∈ t.classDefs, row.InBounds t := by
  have hclasses (hread : Tables.read.Yields buffer 0 t) :
      Succeeds (t.classDefs.toList.mapM (ClassView.resolve t)) ↔
        ∀ row ∈ t.classDefs, row.InBounds t := by
    simp only [succeeds_mapM_iff, Array.mem_toList_iff,
      ClassView.resolve_succeeds_iff (Tables.small_of_read hread.reads)]
  constructor
  · rintro ⟨f, hdecode, rfl⟩
    obtain ⟨hread, hviews, -⟩ := decode_eq_ok_iff.mp hdecode
    exact ⟨hread, (hclasses hread).mp ⟨_, hviews⟩⟩
  · rintro ⟨hread, hinside⟩
    obtain ⟨views, hviews⟩ := (hclasses hread).mpr hinside
    exact ⟨⟨t, views, buffer.size⟩, decode_eq_ok_iff.mpr ⟨hread, hviews, rfl⟩, rfl⟩

/-- In an accepted file every index that a class leads to lies in its table, and whatever is shown
of the rows can be shown exactly when every index of a row does. -/
theorem rows_resolve_iff (hdecode : decode buffer = .ok f) :
    (∀ row ∈ f.tables.classDefs, row.InBounds f.tables) ∧
      (f.tables.RowsResolve ↔ f.tables.RowsInBounds) := by
  obtain ⟨hread, hinside⟩ := tables_iff.mp ⟨f, hdecode, rfl⟩
  exact ⟨hinside, Tables.rowsResolve_iff (Tables.small_of_read hread.reads)⟩

end File

/-- A class with a field whose owner is no type, beside other rows with indices outside their
tables. -/
def Draft.astray : Draft where
  strings := ["LA;", "I", "x"]
  types := [0, 1, 9]
  protos := [⟨1, 7, [8]⟩]
  fields := [⟨7, 1, 2⟩]
  methods := [⟨0, 5, 2⟩]
  classes := [⟨0, 1, none, [], none, ⟨[⟨0, 1⟩], [], [], []⟩, true⟩]

/-- The bytes of that draft. -/
def astray : Bytes :=
  (Draft.astray.encode ⟨"035", 0, List.replicate 20 0⟩).toArray

namespace File

theorem decode_astray : ∃ f, decode astray = .ok f ∧ f.classes.length = 1 ∧
    (∃ row ∈ f.tables.typeIds, f.tables.stringAt row.descriptor = .error (.dexString 9 3)) ∧
    (∃ row ∈ f.tables.protoIds,
      f.tables.typeDescriptor row.returnType = .error (.row .type 7 3)) ∧
    (∃ row ∈ f.tables.fieldIds, f.tables.typeDescriptor row.owner = .error (.row .type 7 3)) ∧
    ∃ row ∈ f.tables.methodIds, f.tables.protoIdAt row.proto = .error (.row .proto 5 1) := by
  have haccepted : (decode astray).toOption.any (fun f => decide (f.classes.length = 1 ∧
      (∃ row ∈ f.tables.typeIds, f.tables.stringAt row.descriptor = .error (.dexString 9 3)) ∧
      (∃ row ∈ f.tables.protoIds,
        f.tables.typeDescriptor row.returnType = .error (.row .type 7 3)) ∧
      (∃ row ∈ f.tables.fieldIds, f.tables.typeDescriptor row.owner = .error (.row .type 7 3)) ∧
      ∃ row ∈ f.tables.methodIds, f.tables.protoIdAt row.proto = .error (.row .proto 5 1))) =
        true := by
    decide +kernel
  obtain ⟨f, hdecode, htest⟩ := exists_ok_of_any haccepted
  exact ⟨f, hdecode, of_decide_eq_true htest⟩

/-- The class of that file can be shown, not all of its rows. -/
theorem rows_resolve_iff_astray : ∃ f, decode astray = .ok f ∧ f.classes.length = 1 ∧
    (∀ row ∈ f.tables.classDefs, row.InBounds f.tables) ∧ ¬f.tables.RowsInBounds := by
  obtain ⟨f, hdecode, hlength, ⟨row, hrow, herror⟩, -⟩ := decode_astray
  obtain ⟨hinside, hrows⟩ := rows_resolve_iff hdecode
  refine ⟨f, hdecode, hlength, hinside, fun hbounds => ?_⟩
  have hfound := (hrows.mpr hbounds).types row hrow
  rw [herror] at hfound
  exact not_succeeds_error _ hfound

/-- An accepted file may hold types, prototypes, fields and methods that cannot be shown. -/
theorem rows_dangle : ∃ f, decode astray = .ok f ∧
    (∃ row ∈ f.tables.typeIds, f.tables.stringAt row.descriptor = .error (.dexString 9 3)) ∧
    (∃ row ∈ f.tables.protoIds,
      f.tables.typeDescriptor row.returnType = .error (.row .type 7 3)) ∧
    (∃ row ∈ f.tables.fieldIds, f.tables.typeDescriptor row.owner = .error (.row .type 7 3)) ∧
    ∃ row ∈ f.tables.methodIds, f.tables.protoIdAt row.proto = .error (.row .proto 5 1) := by
  obtain ⟨f, hdecode, -, herrors⟩ := decode_astray
  exact ⟨f, hdecode, herrors⟩

end File

end Files

end ApkFormats.Dex
