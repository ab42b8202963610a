import ApkFormats.Dex.ClassView
import ApkFormats.Dex.Layout
import ApkFormats.Proofs.Dex.Code

/-!
# Members of classes are read back

Members are stored with differences of indices, and a reader adds them up again:
`runningSums_differences` says that nothing is lost when the indices do not
decrease, and `withIndices_forall₂` that each member then comes with its index.

`ClassData.read_yields` is the main result: the members of a class are read from
their bytes when their codes stand at the offsets that are stored with them.
-/

namespace ApkFormats.Dex

section Indices

/-! ## Indices -/

variable {σ ε : Type}

@[simp] theorem length_differences (before : Nat) (indices : List Nat) :
    (differences before indices).length = indices.length := by
  induction indices generalizing before with
  | nil => rfl
  | cons index rest ih => simp [differences, ih]

/-- A difference is no larger than the index that it leads to. -/
theorem lt_of_mem_differences {before bound : Nat} {indices : List Nat}
    (h : ∀ index ∈ indices, index < bound) : ∀ d ∈ differences before indices, d < bound := by
  induction indices generalizing before with
  | nil => intro d hd; cases hd
  | cons index rest ih =>
      intro d hd
      rcases List.mem_cons.mp hd with rfl | hrest
      · have hindex := h index List.mem_cons_self
        omega
      · exact ih (fun i hi => h i (List.mem_cons_of_mem _ hi)) d hrest

/-- Items that are stored with the differences of their sources have the indices of these. -/
theorem withIndices_from {index : σ → Nat} {diff : ε → Nat} {R : σ → ε → Prop} {before : Nat}
    {sources : List σ} {items : List ε}
    (hsorted : (before :: sources.map index).Pairwise (· ≤ ·))
    (h : List.Forall₂ (fun source item => diff item = source.1 ∧ R source.2 item)
      ((differences before (sources.map index)).zip sources) items) :
    List.Forall₂ (fun source item => item.1 = index source ∧ R source item.2) sources
      ((runningSums before (items.map diff)).zip items) := by
  induction sources generalizing before items with
  | nil =>
      cases h
      exact .nil
  | cons source rest ih =>
      rw [List.map_cons, differences, List.zip_cons_cons] at h
      cases h with
      | cons hfirst hrest =>
          obtain ⟨hdiff, hR⟩ := hfirst
          rw [List.map_cons, List.pairwise_cons] at hsorted
          have hle : before ≤ index source := hsorted.1 _ List.mem_cons_self
          have hsum : before + (index source - before) = index source := by omega
          rw [List.map_cons, runningSums, List.zip_cons_cons, hdiff, hsum]
          exact .cons ⟨rfl, hR⟩ (ih hsorted.2 hrest)

/-- The members of a list come with their own indices, which do not decrease. -/
theorem withIndices_forall₂ (index : σ → Nat) {diff : ε → Nat} {R : σ → ε → Prop}
    {sources : List σ} {items : List ε} (hsorted : (sources.map index).Pairwise (· ≤ ·))
    (h : List.Forall₂ (fun source item => diff item = source.1 ∧ R source.2 item)
      ((differences 0 (sources.map index)).zip sources) items) :
    List.Forall₂ (fun source item => item.1 = index source ∧ R source item.2) sources
      (withIndices diff items) :=
  withIndices_from (List.pairwise_cons.mpr ⟨fun _ _ => Nat.zero_le _, hsorted⟩) h

end Indices

section Fields

/-! ## Fields -/

variable {buffer : Bytes} {fields : List FieldSource}

/-- A stored field with its index shows the field that was written. -/
def FieldSource.ReadAs (f : FieldSource) (item : Nat × FieldEntry) : Prop :=
  item.1 = f.index ∧ item.2.flags = f.flags

/-- Fields whose indices do not decrease and stay below a bound, with flags of five bytes. -/
@[mk_iff]
structure FieldSource.AllFit (bound : Nat) (fields : List FieldSource) : Prop where
  sorted : (fields.map FieldSource.index).Pairwise (· ≤ ·)
  index : ∀ f ∈ fields, f.index < bound
  flags : ∀ f ∈ fields, f.flags < 2 ^ 35

instance (bound : Nat) (fields : List FieldSource) :
    Decidable (FieldSource.AllFit bound fields) :=
  decidable_of_iff _ (FieldSource.allFit_iff bound fields).symm

/-- Fields are read back, each with its index. -/
theorem FieldEntry.times_decodes {bound : Nat} (h : FieldSource.AllFit bound fields)
    (hbound : bound < 2 ^ 35) :
    ∃ entries, List.Forall₂ FieldSource.ReadAs fields (withIndices FieldEntry.indexDiff entries) ∧
      (Decoder.times FieldEntry.read fields.length).Decodes buffer entries
        (encodeFields fields) := by
  have hindex : ∀ i ∈ fields.map FieldSource.index, i < bound := by
    intro i hi
    obtain ⟨f, hf, rfl⟩ := List.mem_map.mp hi
    exact h.index f hf
  have hlength : ((differences 0 (fields.map FieldSource.index)).zip fields).length =
      fields.length := by
    simp
  refine ⟨((differences 0 (fields.map FieldSource.index)).zip fields).map fun item =>
    ⟨item.1, item.2.flags⟩, ?_, ?_⟩
  · refine withIndices_forall₂ FieldSource.index
      (R := fun f (e : FieldEntry) => e.flags = f.flags) h.sorted ?_
    rw [List.forall₂_map_right_iff, List.forall₂_same]
    exact fun item _ => ⟨rfl, rfl⟩
  · rw [← hlength]
    refine .times ?_
    rw [List.forall₂_map_right_iff, List.forall₂_same]
    intro item hitem
    obtain ⟨hdiff, hf⟩ := List.of_mem_zip hitem
    have hsmall := lt_of_mem_differences hindex _ hdiff
    exact (Leb128.unsigned_decodes (by omega)).bind
      ((Leb128.unsigned_decodes (h.flags _ hf)).last rfl)

end Fields

section Methods

/-! ## Methods -/

variable {buffer : Bytes} {methods : List MethodSource} {offsets : List Nat}

/-- Code that is read as it was written, wherever its debug information stands. -/
def CodeSource.ReadAs : Option CodeSource → Option Code → Prop
  | none, code => code = none
  | some c, code => ∃ debugOffset, code = some (c.toCode debugOffset)

/-- A stored method with its index shows the method that was written. -/
def MethodSource.ReadAs (m : MethodSource) (item : Nat × MethodEntry) : Prop :=
  item.1 = m.index ∧ item.2.flags = m.flags ∧ CodeSource.ReadAs m.code item.2.code

/-- Code is found at an offset, and reading goes on where it was. -/
def CodeAt (buffer : Bytes) (source : Option CodeSource) (offset : Nat) : Prop :=
  offset < 0x100000000 ∧ ∃ code, CodeSource.ReadAs source code ∧
    ∀ start, (Code.readAway offset).Reads buffer start code start

/-- Methods whose indices do not decrease and stay below a bound, with flags of five bytes and
code within the limits. -/
@[mk_iff]
structure MethodSource.AllFit (bound strings : Nat) (methods : List MethodSource) : Prop where
  sorted : (methods.map MethodSource.index).Pairwise (· ≤ ·)
  index : ∀ m ∈ methods, m.index < bound
  flags : ∀ m ∈ methods, m.flags < 2 ^ 35
  code : ∀ m ∈ methods, ∀ c ∈ m.code.toList, c.Fits strings

instance (bound strings : Nat) (methods : List MethodSource) :
    Decidable (MethodSource.AllFit bound strings methods) :=
  decidable_of_iff _ (MethodSource.allFit_iff bound strings methods).symm

/-- A method is read back with the code that its offset leads to. -/
theorem MethodEntry.read_decodes {m : MethodSource} {diff offset : Nat} (hdiff : diff < 2 ^ 35)
    (hflags : m.flags < 2 ^ 35) (hcode : CodeAt buffer m.code offset) :
    ∃ entry : MethodEntry, (entry.indexDiff = diff ∧ entry.flags = m.flags ∧
        CodeSource.ReadAs m.code entry.code) ∧
      MethodEntry.read.Decodes buffer entry (Leb128.encodeUnsigned diff ++
        Leb128.encodeUnsigned m.flags ++ Leb128.encodeUnsigned offset) := by
  obtain ⟨hoffset, code, hread, haway⟩ := hcode
  refine ⟨⟨diff, m.flags, offset, code⟩, ⟨rfl, rfl, hread⟩, ?_⟩
  rw [List.append_assoc]
  refine (Leb128.unsigned_decodes hdiff).bind ((Leb128.unsigned_decodes hflags).bind ?_)
  intro start hbytes
  refine (Leb128.unsigned_decodes (by omega) start hbytes).bind ?_
  exact (haway _).bind (.pure _)

/-- Methods are read back, each with its index and its code. -/
theorem MethodEntry.times_decodes {bound strings : Nat}
    (h : MethodSource.AllFit bound strings methods) (hbound : bound < 2 ^ 35)
    (hcodes : List.Forall₂ (CodeAt buffer) (methods.map MethodSource.code) offsets) :
    ∃ entries,
      List.Forall₂ MethodSource.ReadAs methods (withIndices MethodEntry.indexDiff entries) ∧
      (Decoder.times MethodEntry.read methods.length).Decodes buffer entries
        (encodeMethods methods offsets) := by
  have hoffsets := hcodes.length_eq
  rw [List.length_map] at hoffsets
  have hfirst : (methods.zip offsets).map Prod.fst = methods :=
    List.map_fst_zip (Nat.le_of_eq hoffsets)
  have hindices : (methods.zip offsets).map (fun pair => pair.1.index) =
      methods.map MethodSource.index := by
    have hmap := congrArg (List.map MethodSource.index) hfirst
    rwa [List.map_map] at hmap
  have hindex : ∀ i ∈ methods.map MethodSource.index, i < bound := by
    intro i hi
    obtain ⟨m, hm, rfl⟩ := List.mem_map.mp hi
    exact h.index m hm
  have hitems : ∀ item ∈ (differences 0 (methods.map MethodSource.index)).zip
      (methods.zip offsets), ∃ entry : MethodEntry, (entry.indexDiff = item.1 ∧
        entry.flags = item.2.1.flags ∧ CodeSource.ReadAs item.2.1.code entry.code) ∧
      MethodEntry.read.Decodes buffer entry (Leb128.encodeUnsigned item.1 ++
        Leb128.encodeUnsigned item.2.1.flags ++ Leb128.encodeUnsigned item.2.2) := by
    intro item hitem
    obtain ⟨hdiff, hpair⟩ := List.of_mem_zip hitem
    have hsmall := lt_of_mem_differences hindex _ hdiff
    have hcode : CodeAt buffer item.2.1.code item.2.2 := by
      rw [List.forall₂_map_left_iff] at hcodes
      exact (List.forall₂_iff_zip.mp hcodes).2 hpair
    exact MethodEntry.read_decodes (by omega) (h.flags _ (List.of_mem_zip hpair).1) hcode
  obtain ⟨entries, hentries⟩ := exists_forall₂ hitems
  refine ⟨entries, ?_, ?_⟩
  · have hshown := withIndices_forall₂ (fun pair : MethodSource × Nat => pair.1.index)
      (R := fun pair (e : MethodEntry) =>
        e.flags = pair.1.flags ∧ CodeSource.ReadAs pair.1.code e.code)
      (by rw [hindices]; exact h.sorted) (by rw [hindices]; exact hentries.imp fun _ _ he => he.1)
    exact forall₂_of_zip hoffsets hshown
  · have hcount : ((differences 0 (methods.map MethodSource.index)).zip
        (methods.zip offsets)).length = methods.length := by
      simp [hoffsets]
    rw [← hcount]
    exact .times (hentries.imp fun _ _ he => he.2)

end Methods

section Classes

/-! ## Members of a class -/

variable {buffer : Bytes} {m : MemberSource} {fieldBound methodBound strings : Nat}

/-- Members within the limits of the format, in a file with so many fields, methods and
strings. -/
@[mk_iff]
structure MemberSource.Fits (fieldBound methodBound strings : Nat) (m : MemberSource) : Prop where
  staticFields : FieldSource.AllFit fieldBound m.staticFields
  instanceFields : FieldSource.AllFit fieldBound m.instanceFields
  directMethods : MethodSource.AllFit methodBound strings m.directMethods
  virtualMethods : MethodSource.AllFit methodBound strings m.virtualMethods

instance (fieldBound methodBound strings : Nat) (m : MemberSource) :
    Decidable (m.Fits fieldBound methodBound strings) :=
  decidable_of_iff _ (MemberSource.fits_iff fieldBound methodBound strings m).symm

/-- The stored members of a class, of which there may be none at all, show members as they were
written. -/
structure MemberSource.ReadAs (m : MemberSource) (data : Option ClassData) : Prop where
  staticFields : List.Forall₂ FieldSource.ReadAs m.staticFields
    (withIndices FieldEntry.indexDiff ((data.map ClassData.staticFields).getD []))
  instanceFields : List.Forall₂ FieldSource.ReadAs m.instanceFields
    (withIndices FieldEntry.indexDiff ((data.map ClassData.instanceFields).getD []))
  directMethods : List.Forall₂ MethodSource.ReadAs m.directMethods
    (withIndices MethodEntry.indexDiff ((data.map ClassData.directMethods).getD []))
  virtualMethods : List.Forall₂ MethodSource.ReadAs m.virtualMethods
    (withIndices MethodEntry.indexDiff ((data.map ClassData.virtualMethods).getD []))

/-- A field takes two bytes at least. -/
theorem two_mul_length_le_encodeFields (fields : List FieldSource) :
    2 * fields.length ≤ (encodeFields fields).length := by
  have hcount : ((differences 0 (fields.map FieldSource.index)).zip fields).length =
      fields.length := by
    simp
  conv => lhs; rw [← hcount]
  refine mul_length_le_length_flatMap fun item _ => ?_
  have hdiff := Leb128.length_encodeUnsigned_pos item.1
  have hflags := Leb128.length_encodeUnsigned_pos item.2.flags
  rw [List.length_append]
  omega

/-- A method takes three bytes at least. -/
theorem three_mul_length_le_encodeMethods (methods : List MethodSource) (offsets : List Nat)
    (h : methods.length = offsets.length) :
    3 * methods.length ≤ (encodeMethods methods offsets).length := by
  have hcount : ((differences 0 (methods.map MethodSource.index)).zip
      (methods.zip offsets)).length = methods.length := by
    simp [h]
  conv => lhs; rw [← hcount]
  refine mul_length_le_length_flatMap fun item _ => ?_
  have hdiff := Leb128.length_encodeUnsigned_pos item.1
  have hflags := Leb128.length_encodeUnsigned_pos item.2.1.flags
  have hoffset := Leb128.length_encodeUnsigned_pos item.2.2
  rw [List.length_append, List.length_append]
  omega

/-- The stored numbers of members. -/
def MemberSource.counts (m : MemberSource) : MemberCounts :=
  ⟨⟨Leb128.encodeUnsigned m.staticFields.length, m.staticFields.length⟩,
    ⟨Leb128.encodeUnsigned m.instanceFields.length, m.instanceFields.length⟩,
    ⟨Leb128.encodeUnsigned m.directMethods.length, m.directMethods.length⟩,
    ⟨Leb128.encodeUnsigned m.virtualMethods.length, m.virtualMethods.length⟩⟩

/-- The members of a class are read back. -/
theorem ClassData.read_yields {start : Nat} {directOffsets virtualOffsets : List Nat}
    (hbytes : Holds buffer start (encodeMembers m directOffsets virtualOffsets))
    (h : m.Fits fieldBound methodBound strings) (hfields : fieldBound < 2 ^ 35)
    (hmethods : methodBound < 2 ^ 35) (hsize : buffer.size < 0x100000000)
    (hdirect : List.Forall₂ (CodeAt buffer) (m.directMethods.map MethodSource.code) directOffsets)
    (hvirtual :
      List.Forall₂ (CodeAt buffer) (m.virtualMethods.map MethodSource.code) virtualOffsets) :
    ∃ data, m.ReadAs (some data) ∧ ClassData.read.Yields buffer start data := by
  obtain ⟨statics, hstatics, hreadStatics⟩ := FieldEntry.times_decodes h.staticFields hfields
  obtain ⟨instances, hinstances, hreadInstances⟩ :=
    FieldEntry.times_decodes h.instanceFields hfields
  obtain ⟨directs, hdirects, hreadDirects⟩ :=
    MethodEntry.times_decodes h.directMethods hmethods hdirect
  obtain ⟨virtuals, hvirtuals, hreadVirtuals⟩ :=
    MethodEntry.times_decodes h.virtualMethods hmethods hvirtual
  refine ⟨⟨m.counts, statics, instances, directs, virtuals⟩,
    ⟨hstatics, hinstances, hdirects, hvirtuals⟩, ?_⟩
  have hleastStatics := two_mul_length_le_encodeFields m.staticFields
  have hleastInstances := two_mul_length_le_encodeFields m.instanceFields
  have hleastDirects := three_mul_length_le_encodeMethods m.directMethods directOffsets
    (by simpa using hdirect.length_eq)
  have hleastVirtuals := three_mul_length_le_encodeMethods m.virtualMethods virtualOffsets
    (by simpa using hvirtual.length_eq)
  have hroom := hbytes.le_size
  simp only [encodeMembers, List.flatMap_cons, List.flatMap_nil, List.append_nil,
    List.append_assoc] at hbytes
  simp only [encodeMembers, List.flatMap_cons, List.flatMap_nil, List.append_nil,
    List.length_append] at hroom
  unfold ClassData.read MemberCounts.read
  simp only [bind_assoc, pure_bind]
  refine .bind .position ?_
  refine .field hbytes (Leb128.stored_decodes (by omega)) fun hbytes => ?_
  refine .field hbytes (Leb128.stored_decodes (by omega)) fun hbytes => ?_
  refine .field hbytes (Leb128.stored_decodes (by omega)) fun hbytes => ?_
  refine .field hbytes (Leb128.stored_decodes (by omega)) fun hbytes => ?_
  refine .bind .position (.bind .bufferSize (.bind (.require ?_) ?_))
  · refine decide_eq_true ?_
    simp only [MemberCounts.leastSize, Int.toNat_natCast]
    omega
  unfold readMembers
  simp only [Int.toNat_natCast]
  refine .field hbytes hreadStatics fun hbytes => .field hbytes hreadInstances fun hbytes => ?_
  refine .field hbytes hreadDirects fun hbytes => ?_
  exact .bind (hreadVirtuals _ hbytes) (.pure _)

end Classes

end ApkFormats.Dex
