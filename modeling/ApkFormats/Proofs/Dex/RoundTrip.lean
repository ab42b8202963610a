import ApkFormats.Proofs.Dex.Bounds
import ApkFormats.Proofs.Dex.Draft
import ApkFormats.Proofs.Dex.Tables

/-!
# DEX files are read back

What was entered in a draft, and what a decoded file shows of it, name by name:
`FieldSource.ShownAs`, `MethodSource.ShownAs` and `ClassDecl.ShownAs`.  A name is
reached in up to three steps, from a row over a type to a string; each step is
taken in the tables of the file (`Tables.Shows`) and in the draft
(`Draft.HasString`, `Draft.HasType`, `Draft.HasProto`) at the same index.

`File.decode_encode_draft` puts everything together.
-/

namespace ApkFormats.Dex

section Lookups

/-! ## Lookups -/

variable {t : Tables} {d : Draft}

/-- A draft whose tables are short enough for every index to differ from "no index". -/
structure Draft.Small (d : Draft) : Prop where
  strings : d.strings.length ≤ noIndex
  types : d.types.length ≤ noIndex
  protos : d.protos.length ≤ noIndex
  fields : d.fields.length ≤ noIndex
  methods : d.methods.length ≤ noIndex

theorem itemAt?_eq {α : Type} {rows : Array α} {i : Nat} {a : α} (h : rows.toList[i]? = some a)
    (hsmall : rows.size ≤ noIndex) : Tables.itemAt? rows i = some a := by
  rw [Tables.itemAt?_eq_getElem? hsmall, ← Array.getElem?_toList]
  exact h

theorem rowAt_eq {α : Type} {kind : RowKind} {rows : Array α} {i : Nat} {a : α}
    (h : rows.toList[i]? = some a) (hsmall : rows.size ≤ noIndex) :
    Tables.rowAt kind rows i = .ok a := by
  rw [Tables.rowAt, itemAt?_eq h hsmall]

/-- An index word is resolved, unless it says that there is no index. -/
theorem resolveOptional_eq {lookup : Int → Except IndexFault String} {Has : Nat → String → Prop}
    (text : String → String) (hlookup : ∀ i s, Has i s → i < noIndex ∧ lookup i = .ok (text s))
    {o : Option Nat} {o' : Option String} (ho : Option.Rel Has o o') :
    ClassView.resolveOptional lookup (o.getD noIndex) = .ok (o'.map text) := by
  cases ho with
  | none => rfl
  | some hsome =>
      obtain ⟨hlt, heq⟩ := hlookup _ _ hsome
      rw [Option.getD_some, ClassView.resolveOptional, if_neg (Nat.ne_of_lt hlt), heq]
      rfl

variable (h : t.Shows d) (hsmall : d.Small)
include h hsmall

theorem Draft.HasString.stringAt_eq {i : Nat} {s : String} (hs : d.HasString i s) :
    t.stringAt i = .ok s := by
  obtain ⟨row, hrow, htext⟩ := getElem?_of_forall₂ h.strings hs
  have hsize : t.stringIds.size ≤ noIndex := by
    rw [← Array.length_toList, ← h.strings.length_eq]
    exact hsmall.strings
  simp only [Tables.stringAt, itemAt?_eq hrow hsize, htext]

theorem Draft.HasType.typeName_eq {i : Nat} {descriptor : String} (ht : d.HasType i descriptor) :
    t.typeName i = .ok (resolveDescriptor descriptor) := by
  obtain ⟨s, hs, hstring⟩ := ht
  obtain ⟨row, hrow, hdescriptor⟩ := getElem?_of_forall₂ h.types hs
  have hsize : t.typeIds.size ≤ noIndex := by
    rw [← Array.length_toList, ← h.types.length_eq]
    exact hsmall.types
  have hat : t.typeDescriptor i = .ok descriptor := by
    rw [Tables.typeDescriptor, rowAt_eq hrow hsize]
    rw [← hdescriptor] at hstring
    exact hstring.stringAt_eq h hsmall
  rw [Tables.typeName, hat]
  rfl

/-- The types of a list are resolved one by one. -/
theorem typeNames_eq {indices : List Nat} {descriptors : List String}
    (htypes : List.Forall₂ d.HasType indices descriptors) :
    (indices.mapM fun (index : Nat) => t.typeName index) =
      .ok (descriptors.map resolveDescriptor) := by
  refine mapM_ok ?_
  rw [List.forall₂_map_right_iff]
  exact htypes.imp fun _ _ ht => ht.typeName_eq h hsmall

end Lookups

section Views

/-! ## Members and classes -/

variable {t : Tables} {d : Draft} {fields : List FieldDecl} {methods : List MethodDecl}

/-- A field is shown with its index, its flags and the names of its declaration. -/
def FieldSource.ShownAs (decls : List FieldDecl) (f : FieldSource) (v : FieldView) : Prop :=
  v.index = f.index ∧ v.flags = ⟨.ofClass, f.flags⟩ ∧
    ∃ decl, decls[f.index]? = some decl ∧ v.name = decl.name ∧
      v.type = resolveDescriptor decl.type

/-- Indices of the names of a method's parameters, none for an unnamed one. -/
def MethodSource.parameterNames (m : MethodSource) : List (Option Nat) :=
  ((m.code.bind CodeSource.debug).map DebugSource.parameterNames).getD []

/-- A method is shown with its index, its flags, the names of its declaration, its code and the
names of its parameters. -/
structure MethodSource.ShownAs (d : Draft) (decls : List MethodDecl) (m : MethodSource)
    (v : MethodView) : Prop where
  index : v.index = m.index
  flags : v.flags = ⟨.ofMethod, m.flags⟩
  decl : ∃ decl, decls[m.index]? = some decl ∧ v.name = decl.name ∧
    v.returnType = resolveDescriptor decl.result ∧
    v.parameters = decl.parameters.map resolveDescriptor
  code : CodeSource.ReadAs m.code v.code
  parameterNames : List.Forall₂ (Option.Rel d.HasString) m.parameterNames v.parameterNames

/-- The members of a declared class that come to stand in a file. -/
def ClassDecl.written (c : ClassDecl) : MemberSource :=
  if c.hasMembers then c.members else .none

/-- A class is shown with its names and flags and, as far as they are written, its members. -/
structure ClassDecl.ShownAs (d : Draft) (fields : List FieldDecl) (methods : List MethodDecl)
    (c : ClassDecl) (v : ClassView) : Prop where
  name : v.name = resolveDescriptor c.name
  superclass : v.superclass = c.superclass.map resolveDescriptor
  flags : v.flags = ⟨.ofClass, c.flags⟩
  interfaces : v.interfaces = c.interfaces.map resolveDescriptor
  sourceFile : v.sourceFile = c.sourceFile
  staticFields : List.Forall₂ (FieldSource.ShownAs fields) c.written.staticFields v.staticFields
  instanceFields :
    List.Forall₂ (FieldSource.ShownAs fields) c.written.instanceFields v.instanceFields
  directMethods :
    List.Forall₂ (MethodSource.ShownAs d methods) c.written.directMethods v.directMethods
  virtualMethods :
    List.Forall₂ (MethodSource.ShownAs d methods) c.written.virtualMethods v.virtualMethods

/-- The indices of parameters' names are those that were written. -/
theorem nameIndices_eq {m : MethodSource} {code : Option Code}
    (hread : CodeSource.ReadAs m.code code) :
    MethodView.nameIndices code = m.parameterNames.map DebugSource.nameIndex := by
  rw [MethodSource.parameterNames]
  cases hcode : m.code with
  | none =>
      rw [hcode] at hread
      obtain rfl : code = none := hread
      rfl
  | some c =>
      rw [hcode] at hread
      obtain ⟨debugOffset, rfl⟩ := hread
      cases hdebug : c.debug with
      | none => simp [MethodView.nameIndices, CodeSource.toCode, hdebug]
      | some debug =>
          simp [MethodView.nameIndices, CodeSource.toCode, DebugSource.toDebugInfo, hdebug]

/-- The names of a method's parameters are strings of the draft. -/
theorem MethodSource.lt_of_mem_parameterNames {m : MethodSource} {strings : Nat}
    (hcode : ∀ c ∈ m.code.toList, c.Fits strings) :
    ∀ name ∈ m.parameterNames, ∀ i ∈ name.toList, i < strings := by
  intro name hname i hi
  rw [parameterNames] at hname
  cases hsource : m.code with
  | none => simp [hsource] at hname
  | some c =>
      cases hdebug : c.debug with
      | none => simp [hsource, hdebug] at hname
      | some debug =>
          have hfits := (hcode c (by simp [hsource])).debug debug (by simp [hdebug])
          simp only [hsource, Option.bind_some, hdebug, Option.map_some, Option.getD_some] at hname
          exact hfits.2 name hname i hi

variable (h : t.Shows d) (hsmall : d.Small)
include h hsmall

theorem FieldView.resolve_exists (hfields : List.Forall₂ d.IsField d.fields fields)
    {f : FieldSource} {item : Nat × FieldEntry} (hindex : f.index < d.fields.length)
    (hread : f.ReadAs item) :
    ∃ v, FieldView.resolve t item = .ok v ∧ f.ShownAs fields v := by
  obtain ⟨index, entry⟩ := item
  obtain ⟨rfl, hflags⟩ := hread
  have hrow : t.fieldIds.toList[f.index]? = some d.fields[f.index] := by
    rw [h.fields, List.getElem?_eq_getElem hindex]
  obtain ⟨decl, hdecl, -, htype, hname⟩ :=
    getElem?_of_forall₂ hfields (List.getElem?_eq_getElem hindex)
  have hsize : t.fieldIds.size ≤ noIndex := by
    rw [← Array.length_toList, h.fields]
    exact hsmall.fields
  refine ⟨⟨f.index, ⟨.ofClass, entry.flags⟩, decl.name, resolveDescriptor decl.type⟩, ?_,
    rfl, by rw [hflags], decl, hdecl, rfl, rfl⟩
  simp only [FieldView.resolve, Tables.fieldIdAt, rowAt_eq hrow hsize, bind, Except.bind,
    hname.stringAt_eq h hsmall, htype.typeName_eq h hsmall]

theorem MethodView.parameterName_eq {o : Option Nat}
    (hindex : ∀ i ∈ o.toList, i < d.strings.length) :
    ∃ name, MethodView.parameterName t (DebugSource.nameIndex o) = .ok name ∧
      Option.Rel d.HasString o name := by
  cases o with
  | none => exact ⟨none, rfl, .none⟩
  | some i =>
      have hi : i < d.strings.length := hindex i (by simp)
      have hstring : d.HasString i d.strings[i] := List.getElem?_eq_getElem hi
      refine ⟨some d.strings[i], ?_, .some hstring⟩
      rw [MethodView.parameterName, DebugSource.nameIndex, if_neg (by omega),
        hstring.stringAt_eq h hsmall]
      rfl

theorem MethodView.resolve_exists (hmethods : List.Forall₂ d.IsMethod d.methods methods)
    {m : MethodSource} {item : Nat × MethodEntry} (hindex : m.index < d.methods.length)
    (hcode : ∀ c ∈ m.code.toList, c.Fits d.strings.length) (hread : m.ReadAs item) :
    ∃ v, MethodView.resolve t item = .ok v ∧ m.ShownAs d methods v := by
  obtain ⟨index, entry⟩ := item
  obtain ⟨rfl, hflags, hcodeRead⟩ := hread
  have hrow : t.methodIds.toList[m.index]? = some d.methods[m.index] := by
    rw [h.methods, List.getElem?_eq_getElem hindex]
  obtain ⟨decl, hdecl, -, ⟨p, hp, hresult, hparameters⟩, hname⟩ :=
    getElem?_of_forall₂ hmethods (List.getElem?_eq_getElem hindex)
  obtain ⟨proto, hprotoRow, -, hreturnType, hprotoParameters⟩ := getElem?_of_forall₂ h.protos hp
  have hsize : t.methodIds.size ≤ noIndex := by
    rw [← Array.length_toList, h.methods]
    exact hsmall.methods
  have hprotoSize : t.protoIds.size ≤ noIndex := by
    rw [← Array.length_toList, ← h.protos.length_eq]
    exact hsmall.protos
  obtain ⟨names, hnames, hnamesShown⟩ := mapM_exists (R := Eq) (S := Option.Rel d.HasString)
    (f := fun o => MethodView.parameterName t (DebugSource.nameIndex o))
    (List.forall₂_refl m.parameterNames) (by
      rintro o ho _ rfl
      exact parameterName_eq h hsmall (MethodSource.lt_of_mem_parameterNames hcode o ho))
  have hnamesRead : (nameIndices entry.code).mapM (parameterName t) = .ok names := by
    rw [nameIndices_eq hcodeRead, List.mapM_map]
    exact hnames
  refine ⟨⟨m.index, ⟨.ofMethod, entry.flags⟩, decl.name, resolveDescriptor decl.result,
    decl.parameters.map resolveDescriptor, names, entry.code⟩, ?_, rfl, by rw [hflags],
    ⟨decl, hdecl, rfl, rfl, rfl⟩, hcodeRead, hnamesShown⟩
  rw [← hreturnType] at hresult
  rw [← hprotoParameters] at hparameters
  simp only [MethodView.resolve, Tables.methodIdAt, rowAt_eq hrow hsize, Tables.protoIdAt,
    rowAt_eq hprotoRow hprotoSize, bind, Except.bind, hname.stringAt_eq h hsmall,
    hresult.typeName_eq h hsmall, typeNames_eq h hsmall hparameters, hnamesRead]

/-- A class of a draft is shown with what was declared of it. -/
theorem ClassView.resolve_exists (hfields : List.Forall₂ d.IsField d.fields fields)
    (hmethods : List.Forall₂ d.IsMethod d.methods methods) {c : ClassSource} {decl : ClassDecl}
    {row : ClassDef} (hclass : d.IsClass c decl)
    (hfits : c.members.Fits d.fields.length d.methods.length d.strings.length)
    (hread : c.ReadAs row) :
    ∃ v, ClassView.resolve t row = .ok v ∧ decl.ShownAs d fields methods v := by
  have hwritten : decl.written = c.written := by
    rw [ClassDecl.written, ClassSource.written, hclass.members, hclass.hasMembers]
  have hwrittenFits := ClassSource.written_fits hfits
  obtain ⟨hstatic, hinstance, hdirect, hvirtual⟩ := hread.members
  obtain ⟨statics, hstatics, hstaticsShown⟩ := mapM_exists hstatic fun f hf _ =>
    FieldView.resolve_exists h hsmall hfields (hwrittenFits.staticFields.index f hf)
  obtain ⟨instances, hinstances, hinstancesShown⟩ := mapM_exists hinstance fun f hf _ =>
    FieldView.resolve_exists h hsmall hfields (hwrittenFits.instanceFields.index f hf)
  obtain ⟨directs, hdirects, hdirectsShown⟩ := mapM_exists hdirect fun m hm _ =>
    MethodView.resolve_exists h hsmall hmethods (hwrittenFits.directMethods.index m hm)
      (hwrittenFits.directMethods.code m hm)
  obtain ⟨virtuals, hvirtuals, hvirtualsShown⟩ := mapM_exists hvirtual fun m hm _ =>
    MethodView.resolve_exists h hsmall hmethods (hwrittenFits.virtualMethods.index m hm)
      (hwrittenFits.virtualMethods.code m hm)
  have hsuperclass : ClassView.resolveOptional t.typeName (c.superclass.getD noIndex) =
      .ok (decl.superclass.map resolveDescriptor) := by
    refine resolveOptional_eq resolveDescriptor
      (fun i s hs => ⟨?_, hs.typeName_eq h hsmall⟩) hclass.superclass
    obtain ⟨_, hi, -⟩ := hs
    exact Nat.lt_of_lt_of_le (List.getElem?_eq_some_iff.mp hi).1 hsmall.types
  have hsourceFile : ClassView.resolveOptional t.stringAt (c.sourceFile.getD noIndex) =
      .ok decl.sourceFile := by
    rw [resolveOptional_eq id (fun i s hs => ⟨?_, hs.stringAt_eq h hsmall⟩)
      hclass.sourceFile, Option.map_id_fun, id]
    exact Nat.lt_of_lt_of_le (List.getElem?_eq_some_iff.mp hs).1 hsmall.strings
  have htype := hclass.type
  have hinterfaces := hclass.interfaces
  rw [← hread.type] at htype
  rw [← hread.superclass] at hsuperclass
  rw [← hread.interfaces] at hinterfaces
  rw [← hread.sourceFile] at hsourceFile
  refine ⟨⟨resolveDescriptor decl.name, decl.superclass.map resolveDescriptor,
    ⟨.ofClass, row.flags⟩, decl.interfaces.map resolveDescriptor, decl.sourceFile, statics,
    instances, directs, virtuals⟩, ?_, ?_⟩
  · simp only [ClassView.resolve, htype.typeName_eq h hsmall, hsuperclass,
      typeNames_eq h hsmall hinterfaces, hsourceFile, hstatics, hinstances, hdirects, hvirtuals,
      bind, Except.bind]
  · rw [← hwritten] at hstaticsShown hinstancesShown hdirectsShown hvirtualsShown
    exact ⟨rfl, rfl, by rw [hread.flags, hclass.flags], rfl, rfl, hstaticsShown, hinstancesShown,
      hdirectsShown, hvirtualsShown⟩

end Views

section Files

/-! ## Files -/

variable {entries : List DraftEntry} {d : Draft} {stamp : Stamp}

/-- All references of a draft that holds what some entries declare lead somewhere. -/
theorem Draft.Enters.closed (h : Enters entries d) : d.Closed := by
  constructor
  · exact h.sound.types
  · exact fun p hp => ⟨h.sound.shorties p hp, h.sound.results p hp⟩
  · intro f hf
    obtain ⟨decl, -, -, -, hname⟩ := exists_of_mem_left h.fields hf
    exact (List.getElem?_eq_some_iff.mp hname).1
  · intro m hm
    obtain ⟨decl, -, -, -, hname⟩ := exists_of_mem_left h.methods hm
    exact (List.getElem?_eq_some_iff.mp hname).1
  · intro c hc
    obtain ⟨decl, -, hclass⟩ := exists_of_mem_left h.classes hc
    obtain ⟨s, hs, -⟩ := hclass.type
    exact (List.getElem?_eq_some_iff.mp hs).1
  · intro c hc t ht
    obtain ⟨decl, -, hclass⟩ := exists_of_mem_left h.classes hc
    have hsuperclass := hclass.superclass
    rw [Option.mem_toList.mp ht] at hsuperclass
    generalize decl.superclass = superclass at hsuperclass
    cases hsuperclass with
    | some htype =>
        obtain ⟨s, hs, -⟩ := htype
        exact (List.getElem?_eq_some_iff.mp hs).1
  · intro c hc s hs
    obtain ⟨decl, -, hclass⟩ := exists_of_mem_left h.classes hc
    have hsource := hclass.sourceFile
    rw [Option.mem_toList.mp hs] at hsource
    generalize decl.sourceFile = sourceFile at hsource
    cases hsource with
    | some hstring => exact (List.getElem?_eq_some_iff.mp hstring).1

/-- No index into a draft that fits into a file is taken for "no index". -/
theorem Draft.small_of_length (hstamp : stamp.Fits)
    (hsize : (d.encode stamp).length < 0x100000000) : d.Small := by
  have hlength := d.length_encode hstamp
  obtain ⟨hstrings, htypes, hprotos, hfields, hmethods⟩ := d.lengths_le
  constructor <;> simp only [noIndex] <;> omega

/-- A decoded file shows the entries of a draft: its tables have the rows of the draft in the same
order, and its classes are shown with what was declared of them. -/
structure File.Shows (f : File) (entries : List DraftEntry) : Prop where
  tables : f.tables.Shows (Draft.ofEntries entries)
  classes : List.Forall₂
    (ClassDecl.ShownAs (Draft.ofEntries entries) (entries.filterMap DraftEntry.fieldDecl?)
      (entries.filterMap DraftEntry.methodDecl?))
    (entries.filterMap DraftEntry.classDecl?) f.classes

/-- **A DEX file that is written from a draft is read back as it was entered.** -/
theorem File.decode_encode_draft (entries : List DraftEntry) (stamp : Stamp)
    (hfits : (Draft.ofEntries entries).Fits) (hstamp : stamp.Fits)
    (hsize : ((Draft.ofEntries entries).encode stamp).length < 0x100000000) :
    ∃ f : File, File.decode ((Draft.ofEntries entries).encode stamp).toArray = .ok f ∧
      f.Shows entries := by
  have hentered := Draft.enters_ofEntries entries
  obtain ⟨t, hshows, htables⟩ := Tables.read_yields hfits hentered.closed hstamp hsize
  have hsmall := Draft.small_of_length hstamp hsize
  obtain ⟨views, hviews, hshown⟩ := mapM_exists (f := ClassView.resolve t)
    (S := ClassDecl.ShownAs (Draft.ofEntries entries) (entries.filterMap DraftEntry.fieldDecl?)
      (entries.filterMap DraftEntry.methodDecl?))
    (forall₂_of_common hentered.classes hshows.classes) (by
      rintro decl _ row ⟨c, hc, hclass, hread⟩
      exact ClassView.resolve_exists hshows hsmall hentered.fields hentered.methods hclass
        (hfits.members c hc) hread)
  generalize ((Draft.ofEntries entries).encode stamp).toArray = buffer at htables ⊢
  have hread : File.read.Yields buffer 0 ⟨t, views, buffer.size⟩ :=
    .bind htables.reads (.bind (.resolved hviews) (.bind (.note _) (.bind .bufferSize (.pure _))))
  refine ⟨⟨t, views, buffer.size⟩, ?_, hshows, hshown⟩
  rw [File.decode, Outcome.within, hread]
  rfl

/-- A class with a field and two methods, one of which has guarded code and names one of its
parameters. -/
def DraftEntry.smallFile : List DraftEntry :=
  [.field "La/A;" "[I" "x", .method "La/A;" "V" ["I", "La/B;"] "f", .method "La/A;" "I" [] "g",
    .string "p",
    .classDef "La/A;" (some "La/B;") 1 ["La/C;"] (some "A.java")
      ⟨[⟨0, 9⟩], [],
        [⟨0, 1, some ⟨3, 3, 0, [0x000e], [⟨0, 1, 1⟩], [⟨[⟨0, 0⟩], some 0⟩],
          some ⟨1, [some 9, none]⟩⟩⟩, ⟨1, 0x401, none⟩], []⟩ true]

/-- A version without a checksum or a signature. -/
def Stamp.blank : Stamp :=
  ⟨"035", 0, List.replicate 20 0⟩

/-- The small file keeps to the limits and is read back. -/
theorem File.decode_encode_draft_small :
    (Draft.ofEntries DraftEntry.smallFile).Fits ∧ Stamp.blank.Fits ∧
      ((Draft.ofEntries DraftEntry.smallFile).encode Stamp.blank).length < 0x100000000 ∧
      ∃ f : File,
        File.decode ((Draft.ofEntries DraftEntry.smallFile).encode Stamp.blank).toArray = .ok f ∧
          f.Shows DraftEntry.smallFile := by
  have hfits : (Draft.ofEntries DraftEntry.smallFile).Fits := by decide +kernel
  have hstamp : Stamp.blank.Fits := by decide +kernel
  have hsize :
      ((Draft.ofEntries DraftEntry.smallFile).encode Stamp.blank).length < 0x100000000 := by
    decide +kernel
  exact ⟨hfits, hstamp, hsize,
    File.decode_encode_draft DraftEntry.smallFile Stamp.blank hfits hstamp hsize⟩

/-- A class with a field that is added without its members. -/
def DraftEntry.bareClass : List DraftEntry :=
  [.field "LA;" "I" "x", .classDef "LA;" none 1 [] none ⟨[⟨0, 9⟩], [], [], []⟩ false]

/-- Members that are given to a class added without them are not in the file. -/
theorem File.bareClass_without_members :
    (Draft.ofEntries DraftEntry.bareClass).Fits ∧ Stamp.blank.Fits ∧
      ((Draft.ofEntries DraftEntry.bareClass).encode Stamp.blank).length < 0x100000000 ∧
      ((Draft.ofEntries DraftEntry.bareClass).classes.map fun c => c.members.staticFields) =
        [[⟨0, 9⟩]] ∧
      (File.decode ((Draft.ofEntries DraftEntry.bareClass).encode Stamp.blank).toArray).toOption.map
        (fun f => f.classes.map (·.staticFields)) = some [[]] := by
  refine ⟨?_, ?_, ?_, ?_, ?_⟩ <;> decide +kernel

end Files

end ApkFormats.Dex
