import ApkFormats.Dex.Tables
import ApkFormats.Proofs.Dex.Placement

/-!
# Headers and tables are read back

`Tables.read_yields` is the main result: when the bytes of a draft stand at the
start of a buffer, its header and its tables are read, and every row shows what
the draft has at the same place (`Tables.Shows`).

A row is found through the stride of its table (`readTable_exists`), and what it
refers to in the data through the offset that was placed with it.
-/

namespace ApkFormats.Dex

variable {buffer : Bytes}

section Headers

/-! ## Headers -/

/-- The mark of a supported version takes four bytes and is recognised. -/
theorem versionOf_versionBytes {version : String} (h : version ∈ supportedVersions) :
    (versionBytes version).length = 4 ∧ versionOf? (versionBytes version) = some version := by
  simp only [supportedVersions, List.mem_cons, List.not_mem_nil, or_false] at h
  rcases h with rfl | rfl | rfl | rfl | rfl | rfl | rfl <;> decide

theorem TableRef.read_decodes {t : TableRef} (h : ∀ n ∈ t.words, n < 0x100000000) :
    TableRef.read.Decodes buffer t (wordBytes t.words) := by
  obtain ⟨size, offset⟩ := t
  have hsize : size < 0x100000000 := h size (by simp [TableRef.words])
  have hoffset : offset < 0x100000000 := h offset (by simp [TableRef.words])
  simp only [TableRef.words, wordBytes_cons, wordBytes_nil, List.append_nil]
  exact (Decoder.Decodes.u32 hsize).bind ((Decoder.Decodes.u32 hoffset).last rfl)

namespace Header

/-- The numbers of a header behind its signature. -/
def words (h : Header) : List Nat :=
  [h.fileSize, h.headerSize, h.byteOrder] ++ h.link.words ++ [h.mapOffset] ++ h.strings.words ++
    h.types.words ++ h.protos.words ++ h.fields.words ++ h.methods.words ++ h.classes.words ++
    h.data.words

/-- The bytes of a header. -/
def encode (h : Header) : List UInt8 :=
  h.magic ++ (wordBytes [h.checksum] ++ (h.signature ++ wordBytes h.words))

/-- A header that can be read: its fixed fields are as they have to be, and its numbers fit. -/
structure Fits (h : Header) : Prop where
  version : h.version ∈ supportedVersions
  magic : h.magic = Dex.magic ++ versionBytes h.version
  checksum : h.checksum < 0x100000000
  signature : h.signature.length = 20
  headerSize : h.headerSize = dexHeaderSize
  byteOrder : h.byteOrder = byteOrderTag
  words : ∀ n ∈ h.words, n < 0x100000000

variable {h : Header}

theorem length_encode (hfits : h.Fits) : h.encode.length = dexHeaderSize := by
  have hversion := (versionOf_versionBytes hfits.version).1
  simp [encode, hfits.magic, Dex.magic, hversion, hfits.signature, words, TableRef.words,
    dexHeaderSize]

/-- A header is read back. -/
theorem read_yields {start : Nat} (hfits : h.Fits) (hbytes : Holds buffer start h.encode) :
    Header.read.Yields buffer start h := by
  obtain ⟨hlength, hversion⟩ := versionOf_versionBytes hfits.version
  have hmagic : h.magic.length = 8 := by
    rw [hfits.magic, List.length_append, hlength]
    rfl
  have htake : h.magic.take 4 = Dex.magic := by
    rw [hfits.magic]
    rfl
  have hdrop : h.magic.drop 4 = versionBytes h.version := by
    rw [hfits.magic]
    rfl
  have hwords := hfits.words
  simp only [words, List.mem_append, or_imp, forall_and] at hwords
  obtain ⟨⟨⟨⟨⟨⟨⟨⟨⟨hfirst, hlink⟩, hmap⟩, hstrings⟩, htypes⟩, hprotos⟩, hfields⟩, hmethods⟩,
    hclasses⟩, hdata⟩ := hwords
  have hfileSize : h.fileSize < 0x100000000 := hfirst _ (by simp)
  have hmapOffset : h.mapOffset < 0x100000000 := hmap _ (by simp)
  have htake8 : (Decoder.take 8).Decodes buffer h.magic h.magic := by
    rw [← hmagic]
    exact .take h.magic
  have htake20 : (Decoder.take 20).Decodes buffer h.signature h.signature := by
    rw [← hfits.signature]
    exact .take h.signature
  simp only [encode, words, wordBytes_append, wordBytes_cons, wordBytes_nil, List.append_assoc,
    List.append_nil] at hbytes
  rw [hfits.headerSize, hfits.byteOrder] at hbytes
  unfold Header.read
  refine .field hbytes htake8 fun hbytes => ?_
  rw [htake, hdrop, hversion]
  refine .bind (.require (beq_self_eq_true _)) (.u32 hbytes hfits.checksum fun hbytes => ?_)
  refine .field hbytes htake20 fun hbytes => .u32 hbytes hfileSize fun hbytes => ?_
  refine .u32 hbytes (by decide) fun hbytes => .bind (.require (by decide)) ?_
  refine .u32 hbytes (by decide) fun hbytes => .bind (.require (by decide)) ?_
  refine .field hbytes (TableRef.read_decodes hlink) fun hbytes => ?_
  refine .u32 hbytes hmapOffset fun hbytes => ?_
  refine .field hbytes (TableRef.read_decodes hstrings) fun hbytes => ?_
  refine .field hbytes (TableRef.read_decodes htypes) fun hbytes => ?_
  refine .field hbytes (TableRef.read_decodes hprotos) fun hbytes => ?_
  refine .field hbytes (TableRef.read_decodes hfields) fun hbytes => ?_
  refine .field hbytes (TableRef.read_decodes hmethods) fun hbytes => ?_
  refine .field hbytes (TableRef.read_decodes hclasses) fun hbytes => ?_
  refine .bind (TableRef.read_decodes hdata _ hbytes) ?_
  rw [← hfits.headerSize, ← hfits.byteOrder]
  exact .pure h

end Header

end Headers

section Rows

/-! ## Rows -/

/-- A table is found when each of its rows is. -/
theorem readTable_exists {α ε : Type} (layout : RowLayout) (row : Decoder ε) {items : List α}
    {encode : α → List UInt8} {R : α → ε → Prop} {start : Nat}
    (h : Holds buffer start (items.flatMap encode))
    (hstride : ∀ item ∈ items, (encode item).length = layout.stride)
    (hrow : ∀ item ∈ items, ∃ r, R item r ∧
      ∀ position, Holds buffer position (encode item) → row.Yields buffer position r) :
    ∃ rows, List.Forall₂ R items rows ∧
      (readTable layout row (tableRef items.length start)).Finds buffer rows := by
  obtain ⟨rows, hrows⟩ := exists_forall₂ hrow
  have hcount := hrows.length_eq
  refine ⟨rows, hrows.imp fun _ _ hr => hr.1, ?_⟩
  unfold readTable tableRef
  dsimp only
  by_cases hempty : items.length = 0
  · have hnone : rows = [] := List.length_eq_zero_iff.mp (hcount ▸ hempty)
    rw [if_pos hempty, hnone]
    exact .pure []
  · have hroom := h.le_size
    have hlength := length_flatMap_of_stride hstride
    rw [Nat.mul_comm] at hlength
    rw [if_neg hempty, if_neg hempty]
    intro cursor
    refine .bind .bufferSize (.bind (.require (decide_eq_true (by omega))) ?_)
    rw [readRows, hcount]
    refine Decoder.Finds.rows (fun i hi => ?_) cursor
    have hi' : i < items.length := hcount ▸ hi
    exact .goTo (((List.forall₂_iff_get.mp hrows).2 i hi' hi).2 _ (h.row hstride i hi'))

/-- A row of the table of strings is read with its string. -/
theorem StringId.read_exists {item : String × Nat} (h : StringAt buffer item.1 item.2) :
    ∃ r : StringId, r.data.text = item.1 ∧ ∀ position,
      Holds buffer position (toLittleEndian 4 item.2) → StringId.read.Yields buffer position r := by
  obtain ⟨hoffset, data, htext, hdata⟩ := h
  refine ⟨⟨item.2, data⟩, htext, fun position hbytes => ?_⟩
  refine .bind (Decoder.Decodes.u32 hoffset _ hbytes) (.bind (.goTo _) ?_)
  exact .bind hdata.reads (.pure _)

/-- The table of strings is found. -/
theorem StringId.table_exists {strings : List String} {offsets : List Nat} {start : Nat}
    (h : Holds buffer start (wordBytes offsets))
    (hat : List.Forall₂ (StringAt buffer) strings offsets) :
    ∃ rows, List.Forall₂ (fun s (row : StringId) => row.data.text = s) strings rows ∧
      (readTable layout read (tableRef strings.length start)).Finds buffer rows := by
  have hlength := hat.length_eq
  have hrows : Holds buffer start
      ((strings.zip offsets).flatMap fun item => toLittleEndian 4 item.2) := by
    have hsecond : (strings.zip offsets).map Prod.snd = offsets :=
      List.map_snd_zip (Nat.le_of_eq hlength.symm)
    rwa [← hsecond, wordBytes, List.flatMap_map] at h
  have hcount : (strings.zip offsets).length = strings.length := by simp [hlength]
  obtain ⟨rows, hshown, hread⟩ := readTable_exists layout read hrows
    (fun item _ => length_toLittleEndian 4 item.2)
    (fun item hitem => read_exists ((List.forall₂_iff_zip.mp hat).2 hitem))
  rw [hcount] at hread
  exact ⟨rows, forall₂_of_zip hlength hshown, hread⟩

/-- The table of types is found. -/
theorem TypeId.table_exists {types : List Nat} {start : Nat}
    (h : Holds buffer start (wordBytes types)) (hsmall : ∀ t ∈ types, t < 0x100000000) :
    ∃ rows, List.Forall₂ (fun t (row : TypeId) => row.descriptor = t) types rows ∧
      (readTable layout read (tableRef types.length start)).Finds buffer rows := by
  refine readTable_exists layout read h (fun t _ => length_toLittleEndian 4 t) fun t ht => ?_
  refine ⟨⟨t⟩, rfl, fun position hbytes => ?_⟩
  exact ((Decoder.Decodes.u32 (hsmall t ht)).last rfl _ hbytes).result

/-- A row of the table of prototypes shows a prototype. -/
def ProtoSource.ReadAs (p : ProtoSource) (row : ProtoId) : Prop :=
  row.shorty = p.shorty ∧ row.returnType = p.returnType ∧ row.parameters.getD [] = p.parameters

/-- The bytes of a row of the table of prototypes. -/
def protoBytes (item : ProtoSource × Nat) : List UInt8 :=
  wordBytes [item.1.shorty, item.1.returnType, item.2]

@[simp] theorem length_protoBytes (item : ProtoSource × Nat) : (protoBytes item).length = 12 := by
  simp [protoBytes]

theorem ProtoId.read_exists {item : ProtoSource × Nat} (hshorty : item.1.shorty < 0x100000000)
    (hreturn : item.1.returnType < 0x100000000) (h : TypesAt buffer item.1.parameters item.2) :
    ∃ r, item.1.ReadAs r ∧ ∀ position,
      Holds buffer position (protoBytes item) → ProtoId.read.Yields buffer position r := by
  obtain ⟨hoffset, found, hfound, hread⟩ := h
  refine ⟨⟨item.1.shorty, item.1.returnType, item.2, found⟩, ⟨rfl, rfl, hfound⟩,
    fun position hbytes => ?_⟩
  simp only [protoBytes, wordBytes_cons] at hbytes
  refine .u32 hbytes hshorty fun hbytes => .u32 hbytes hreturn fun hbytes => ?_
  exact .u32 hbytes hoffset fun _ => .bind_finds hread fun _ => .pure _

/-- The table of prototypes is found. -/
theorem ProtoId.table_exists {protos : List ProtoSource} {offsets : List Nat} {start : Nat}
    (h : Holds buffer start ((protos.zip offsets).flatMap protoBytes))
    (hsmall : ∀ p ∈ protos, p.shorty < 0x100000000 ∧ p.returnType < 0x100000000)
    (hat : List.Forall₂ (TypesAt buffer) (protos.map (·.parameters)) offsets) :
    ∃ rows, List.Forall₂ ProtoSource.ReadAs protos rows ∧
      (readTable layout read (tableRef protos.length start)).Finds buffer rows := by
  rw [List.forall₂_map_left_iff] at hat
  have hlength := hat.length_eq
  have hcount : (protos.zip offsets).length = protos.length := by simp [hlength]
  obtain ⟨rows, hshown, hread⟩ := readTable_exists layout read h
    (fun item _ => length_protoBytes item)
    (fun item hitem => by
      obtain ⟨hshorty, hreturn⟩ := hsmall item.1 (List.of_mem_zip hitem).1
      exact read_exists hshorty hreturn ((List.forall₂_iff_zip.mp hat).2 hitem))
  rw [hcount] at hread
  exact ⟨rows, forall₂_of_zip hlength hshown, hread⟩

/-- The bytes of a row of the table of fields. -/
def fieldBytes (f : FieldId) : List UInt8 :=
  halfWordBytes [f.owner, f.type] ++ wordBytes [f.name]

@[simp] theorem length_fieldBytes (f : FieldId) : (fieldBytes f).length = 8 := by
  simp [fieldBytes]

theorem FieldId.read_decodes {f : FieldId} (howner : f.owner < 0x10000) (htype : f.type < 0x10000)
    (hname : f.name < 0x100000000) : FieldId.read.Decodes buffer f (fieldBytes f) := by
  simp only [fieldBytes, halfWordBytes_cons, halfWordBytes_nil, wordBytes_cons, wordBytes_nil,
    List.append_nil, List.append_assoc]
  exact (Decoder.Decodes.u16 howner).bind ((Decoder.Decodes.u16 htype).bind
    ((Decoder.Decodes.u32 hname).last rfl))

/-- The table of fields is found. -/
theorem FieldId.table_exists {fields : List FieldId} {start : Nat}
    (h : Holds buffer start (fields.flatMap fieldBytes))
    (hsmall : ∀ f ∈ fields, (f.owner < 0x10000 ∧ f.type < 0x10000) ∧ f.name < 0x100000000) :
    (readTable layout read (tableRef fields.length start)).Finds buffer fields := by
  obtain ⟨rows, hsame, hread⟩ := readTable_exists layout read (R := Eq) h
    (fun f _ => length_fieldBytes f) (fun f hf => by
      obtain ⟨⟨howner, htype⟩, hname⟩ := hsmall f hf
      exact ⟨f, rfl, fun position hbytes => (read_decodes howner htype hname _ hbytes).result⟩)
  rw [List.forall₂_eq_eq_eq] at hsame
  rwa [← hsame] at hread

/-- The bytes of a row of the table of methods. -/
def methodBytes (m : MethodId) : List UInt8 :=
  halfWordBytes [m.owner, m.proto] ++ wordBytes [m.name]

@[simp] theorem length_methodBytes (m : MethodId) : (methodBytes m).length = 8 := by
  simp [methodBytes]

theorem MethodId.read_decodes {m : MethodId} (howner : m.owner < 0x10000)
    (hproto : m.proto < 0x10000) (hname : m.name < 0x100000000) :
    MethodId.read.Decodes buffer m (methodBytes m) := by
  simp only [methodBytes, halfWordBytes_cons, halfWordBytes_nil, wordBytes_cons, wordBytes_nil,
    List.append_nil, List.append_assoc]
  exact (Decoder.Decodes.u16 howner).bind ((Decoder.Decodes.u16 hproto).bind
    ((Decoder.Decodes.u32 hname).last rfl))

/-- The table of methods is found. -/
theorem MethodId.table_exists {methods : List MethodId} {start : Nat}
    (h : Holds buffer start (methods.flatMap methodBytes))
    (hsmall : ∀ m ∈ methods, (m.owner < 0x10000 ∧ m.proto < 0x10000) ∧ m.name < 0x100000000) :
    (readTable layout read (tableRef methods.length start)).Finds buffer methods := by
  obtain ⟨rows, hsame, hread⟩ := readTable_exists layout read (R := Eq) h
    (fun m _ => length_methodBytes m) (fun m hm => by
      obtain ⟨⟨howner, hproto⟩, hname⟩ := hsmall m hm
      exact ⟨m, rfl, fun position hbytes => (read_decodes howner hproto hname _ hbytes).result⟩)
  rw [List.forall₂_eq_eq_eq] at hsame
  rwa [← hsame] at hread

/-- A row of the table of classes shows a class. -/
structure ClassSource.ReadAs (c : ClassSource) (row : ClassDef) : Prop where
  type : row.type = c.type
  flags : row.flags = c.flags
  superclass : row.superclass = c.superclass.getD noIndex
  interfaces : row.interfaces.getD [] = c.interfaces
  sourceFile : row.sourceFile = c.sourceFile.getD noIndex
  members : c.written.ReadAs row.data

/-- The bytes of a row of the table of classes. -/
def classBytes (item : ClassSource × Nat × Nat) : List UInt8 :=
  wordBytes (Draft.classWords item.1 item.2.1 item.2.2)

@[simp] theorem length_classBytes (item : ClassSource × Nat × Nat) :
    (classBytes item).length = 32 := by
  simp [classBytes, Draft.classWords]

theorem ClassDef.read_exists {item : ClassSource × Nat × Nat} (htype : item.1.type < 0x100000000)
    (hflags : item.1.flags < 0x100000000)
    (hsuperclass : item.1.superclass.getD noIndex < 0x100000000)
    (hsource : item.1.sourceFile.getD noIndex < 0x100000000)
    (hinterfaces : TypesAt buffer item.1.interfaces item.2.1)
    (hmembers : MembersAt buffer item.1 item.2.2) :
    ∃ r, item.1.ReadAs r ∧ ∀ position,
      Holds buffer position (classBytes item) → ClassDef.read.Yields buffer position r := by
  obtain ⟨c, interfacesOffset, membersOffset⟩ := item
  obtain ⟨hinterfacesOffset, types, htypes, hreadTypes⟩ := hinterfaces
  obtain ⟨hmembersOffset, data, hdata, hreadData⟩ := hmembers
  refine ⟨⟨c.type, c.flags, c.superclass.getD noIndex, interfacesOffset,
    c.sourceFile.getD noIndex, 0, membersOffset, 0, types, data⟩,
    ⟨rfl, rfl, rfl, htypes, rfl, hdata⟩, fun position hbytes => ?_⟩
  simp only [classBytes, Draft.classWords, wordBytes_cons] at hbytes
  refine .u32 hbytes htype fun hbytes => .u32 hbytes hflags fun hbytes => ?_
  refine .u32 hbytes hsuperclass fun hbytes => .u32 hbytes hinterfacesOffset fun hbytes => ?_
  refine .u32 hbytes hsource fun hbytes => .u32 hbytes (by decide) fun hbytes => ?_
  refine .u32 hbytes hmembersOffset fun hbytes => .u32 hbytes (by decide) fun _ => ?_
  exact .bind_finds hreadTypes fun _ => .bind_finds hreadData fun _ => .pure _

/-- The numbers of a class fit into the words of its row. -/
def ClassSource.RowFits (c : ClassSource) : Prop :=
  c.type < 0x100000000 ∧ c.flags < 0x100000000 ∧ c.superclass.getD noIndex < 0x100000000 ∧
    c.sourceFile.getD noIndex < 0x100000000

/-- The table of classes is found. -/
theorem ClassDef.table_exists {classes : List ClassSource} {interfaces members : List Nat}
    {start : Nat}
    (h : Holds buffer start ((classes.zip (interfaces.zip members)).flatMap classBytes))
    (hsmall : ∀ c ∈ classes, c.RowFits)
    (hinterfaces : List.Forall₂ (TypesAt buffer) (classes.map (·.interfaces)) interfaces)
    (hmembers : List.Forall₂ (MembersAt buffer) classes members) :
    ∃ rows, List.Forall₂ ClassSource.ReadAs classes rows ∧
      (readTable layout read (tableRef classes.length start)).Finds buffer rows := by
  rw [List.forall₂_map_left_iff] at hinterfaces
  have hat := forall₂_zip hinterfaces hmembers
  have hlength := hat.length_eq
  have hcount : (classes.zip (interfaces.zip members)).length = classes.length := by
    rw [List.length_zip, ← hlength, Nat.min_self]
  obtain ⟨rows, hshown, hread⟩ := readTable_exists layout read h
    (fun item _ => length_classBytes item)
    (fun item hitem => by
      obtain ⟨htype, hflags, hsuperclass, hsource⟩ := hsmall item.1 (List.of_mem_zip hitem).1
      obtain ⟨htypes, hdata⟩ := (List.forall₂_iff_zip.mp hat).2 hitem
      exact read_exists htype hflags hsuperclass hsource htypes hdata)
  rw [hcount] at hread
  exact ⟨rows, forall₂_of_zip hlength hshown, hread⟩

end Rows

section Maps

/-! ## Maps -/

/-- The bytes of an entry of a map. -/
def mapItemBytes (item : MapItem) : List UInt8 :=
  halfWordBytes [item.type, item.unused] ++ wordBytes [item.size, item.offset]

/-- The numbers of an entry of a map fit into their fields. -/
def MapItem.Fits (item : MapItem) : Prop :=
  item.type < 0x10000 ∧ item.unused < 0x10000 ∧ item.size < 0x100000000 ∧
    item.offset < 0x100000000

/-- A map is read back. -/
theorem MapItem.readAll_yields {items : List MapItem} {start : Nat}
    (h : Holds buffer start (encodeMap items)) (hfits : ∀ item ∈ items, item.Fits)
    (hsize : buffer.size < 0x100000000) : MapItem.readAll.Yields buffer start items := by
  have hstride : ∀ item ∈ items, (mapItemBytes item).length = MapItem.stride := by
    intro item _
    simp [mapItemBytes, MapItem.stride]
  have hlength := length_flatMap_of_stride hstride
  rw [Nat.mul_comm] at hlength
  have hread : (Decoder.times MapItem.read items.length).Decodes buffer items
      (items.flatMap mapItemBytes) := by
    refine .times ?_
    rw [List.forall₂_same]
    intro item hitem
    obtain ⟨htype, hunused, hcount, hoffset⟩ := hfits item hitem
    simp only [mapItemBytes, halfWordBytes_cons, halfWordBytes_nil, wordBytes_cons, wordBytes_nil,
      List.append_nil, List.append_assoc]
    exact (Decoder.Decodes.u16 htype).bind ((Decoder.Decodes.u16 hunused).bind
      ((Decoder.Decodes.u32 hcount).bind ((Decoder.Decodes.u32 hoffset).last rfl)))
  have hbytes : Holds buffer start
      (toLittleEndian 4 items.length ++ items.flatMap mapItemBytes) := by
    rw [encodeMap, wordBytes_cons, wordBytes_nil, List.append_nil] at h
    exact h
  have hroom := hbytes.le_size
  rw [List.length_append, length_toLittleEndian, hlength] at hroom
  have hcount : items.length < 0x100000000 := by
    simp only [MapItem.stride] at hroom
    omega
  unfold MapItem.readAll
  refine .u32 hbytes hcount fun hbytes => .bind .position (.bind .bufferSize ?_)
  exact .bind (.require (decide_eq_true (by omega))) (hread _ hbytes).result

end Maps

section Drafts

/-! ## Drafts -/

/-- A supported version, a checksum of four bytes and a signature of twenty. -/
@[mk_iff]
structure Stamp.Fits (s : Stamp) : Prop where
  version : s.version ∈ supportedVersions
  checksum : s.checksum < 0x100000000
  signature : s.signature.length = 20

instance (s : Stamp) : Decidable s.Fits :=
  decidable_of_iff _ (Stamp.fits_iff s).symm

/-- A draft whose numbers fit into their fields, apart from the indices that a draft makes
itself. -/
@[mk_iff]
structure Draft.Fits (d : Draft) : Prop where
  strings : ∀ s ∈ d.strings, '\x00' ∉ s.toList
  parameters : ∀ p ∈ d.protos, ∀ t ∈ p.parameters, t < 0x10000
  fields : ∀ f ∈ d.fields, f.owner < 0x10000 ∧ f.type < 0x10000
  methods : ∀ m ∈ d.methods, m.owner < 0x10000 ∧ m.proto < 0x10000
  flags : ∀ c ∈ d.classes, c.flags < 0x100000000
  interfaces : ∀ c ∈ d.classes, ∀ t ∈ c.interfaces, t < 0x10000
  members : ∀ c ∈ d.classes, c.members.Fits d.fields.length d.methods.length d.strings.length

instance (d : Draft) : Decidable d.Fits :=
  decidable_of_iff _ (Draft.fits_iff d).symm

/-- A draft all of whose references to strings and types lead somewhere. -/
structure Draft.Closed (d : Draft) : Prop where
  types : ∀ t ∈ d.types, t < d.strings.length
  protos : ∀ p ∈ d.protos, p.shorty < d.strings.length ∧ p.returnType < d.types.length
  fields : ∀ f ∈ d.fields, f.name < d.strings.length
  methods : ∀ m ∈ d.methods, m.name < d.strings.length
  classes : ∀ c ∈ d.classes, c.type < d.types.length
  superclasses : ∀ c ∈ d.classes, ∀ t ∈ c.superclass.toList, t < d.types.length
  sourceFiles : ∀ c ∈ d.classes, ∀ s ∈ c.sourceFile.toList, s < d.strings.length

/-- The rows of all tables show what a draft has at the same places. -/
structure Tables.Shows (t : Tables) (d : Draft) : Prop where
  strings : List.Forall₂ (fun s row => row.data.text = s) d.strings t.stringIds.toList
  types : List.Forall₂ (fun s row => row.descriptor = s) d.types t.typeIds.toList
  protos : List.Forall₂ ProtoSource.ReadAs d.protos t.protoIds.toList
  fields : t.fieldIds.toList = d.fields
  methods : t.methodIds.toList = d.methods
  classes : List.Forall₂ ClassSource.ReadAs d.classes t.classDefs.toList

namespace Draft

variable {d : Draft} {stamp : Stamp}

@[simp] theorem length_placeAll {α : Type} (place : Nat → α → List UInt8 × Nat) (start : Nat)
    (items : List α) : (placeAll place start items).2.length = items.length := by
  induction items generalizing start with
  | nil => rfl
  | cons item rest ih => simp [placeAll, ih]

theorem length_placeData (d : Draft) :
    d.placeData.strings.length = d.strings.length ∧
      d.placeData.parameters.length = d.protos.length ∧
      d.placeData.interfaces.length = d.classes.length ∧
      d.placeData.members.length = d.classes.length := by
  simp [placeData]

/-- The data come behind the header and the rows of all tables. -/
theorem dataStart_eq (d : Draft) :
    d.dataStart = 0x70 + 4 * d.strings.length + 4 * d.types.length + 12 * d.protos.length +
      8 * d.fields.length + 8 * d.methods.length + 32 * d.classes.length :=
  rfl

/-- No table has more rows than the file has bytes. -/
theorem lengths_le (d : Draft) :
    d.strings.length ≤ d.dataStart ∧ d.types.length ≤ d.dataStart ∧
      d.protos.length ≤ d.dataStart ∧ d.fields.length ≤ d.dataStart ∧
      d.methods.length ≤ d.dataStart := by
  have hdata := d.dataStart_eq
  omega

/-- The data of a draft are found at the offsets that its tables have for them. -/
theorem placeData_at (hfits : d.Fits) (hsize : buffer.size < 0x100000000)
    (hfields : d.fields.length < 2 ^ 35) (hmethods : d.methods.length < 2 ^ 35)
    (hstrings : d.strings.length < 2 ^ 35)
    (h : Holds buffer d.dataStart d.placeData.bytes) :
    List.Forall₂ (StringAt buffer) d.strings d.placeData.strings ∧
      List.Forall₂ (TypesAt buffer) (d.protos.map (·.parameters)) d.placeData.parameters ∧
      List.Forall₂ (TypesAt buffer) (d.classes.map (·.interfaces)) d.placeData.interfaces ∧
      List.Forall₂ (MembersAt buffer) d.classes d.placeData.members := by
  have hstart : 0 < d.dataStart := by
    have hdata := d.dataStart_eq
    omega
  simp only [placeData] at h ⊢
  have hinterfaces := h.left.right
  have hmembers := h.right
  simp only [List.length_append, ← Nat.add_assoc] at hinterfaces hmembers
  refine ⟨placeAll_forall₂ hstart h.left.left.left ?_,
    placeAll_forall₂ (by omega) h.left.left.right ?_, placeAll_forall₂ (by omega) hinterfaces ?_,
    placeAll_forall₂ (by omega) hmembers ?_⟩
  · exact fun s hs at' _ hbytes => placeString_at hsize (hfits.strings s hs) hbytes
  · intro types htypes at' hat hbytes
    obtain ⟨p, hp, rfl⟩ := List.mem_map.mp htypes
    exact placeTypeList_at hsize (hfits.parameters p hp) hat hbytes
  · intro types htypes at' hat hbytes
    obtain ⟨c, hc, rfl⟩ := List.mem_map.mp htypes
    exact placeTypeList_at hsize (hfits.interfaces c hc) hat hbytes
  · exact fun c hc at' hat hbytes =>
      placeClass_at hsize hfields hmethods hstrings (hfits.members c hc) hat hbytes

/-- The bytes behind the tables: the data, padding and the map. -/
def content (d : Draft) : List UInt8 :=
  let data := d.placeData
  let pad := padding (d.dataStart + data.bytes.length)
  data.bytes ++ pad ++ encodeMap (d.mapItems (d.dataStart + data.bytes.length + pad.length))

/-- Offset of the map. -/
def mapOffset (d : Draft) : Nat :=
  d.dataStart + d.placeData.bytes.length +
    (padding (d.dataStart + d.placeData.bytes.length)).length

/-- The header of a draft. -/
def header (d : Draft) (stamp : Stamp) : Header where
  magic := magic ++ versionBytes stamp.version
  version := stamp.version
  checksum := stamp.checksum
  signature := stamp.signature
  fileSize := d.dataStart + d.content.length
  headerSize := dexHeaderSize
  byteOrder := byteOrderTag
  link := ⟨0, 0⟩
  mapOffset := d.mapOffset
  strings := tableRef d.strings.length stringIdsStart
  types := tableRef d.types.length d.typeIdsStart
  protos := tableRef d.protos.length d.protoIdsStart
  fields := tableRef d.fields.length d.fieldIdsStart
  methods := tableRef d.methods.length d.methodIdsStart
  classes := tableRef d.classes.length d.classDefsStart
  data := ⟨d.content.length, d.dataStart⟩

theorem encode_eq (d : Draft) (stamp : Stamp) :
    d.encode stamp = (d.header stamp).encode ++ d.encodeTables d.placeData ++ d.content := by
  simp only [encode, header, Header.encode, Header.words, Stamp.encode, content, mapOffset,
    tableRefs, TableRef.words, List.flatMap_cons, List.flatMap_nil, List.append_assoc,
    List.cons_append, List.nil_append]

/-- The numbers of bytes that the tables take. -/
theorem length_rows (d : Draft) :
    (wordBytes d.placeData.strings).length = 4 * d.strings.length ∧
      (wordBytes d.types).length = 4 * d.types.length ∧
      ((d.protos.zip d.placeData.parameters).flatMap protoBytes).length = 12 * d.protos.length ∧
      (d.fields.flatMap fieldBytes).length = 8 * d.fields.length ∧
      (d.methods.flatMap methodBytes).length = 8 * d.methods.length ∧
      ((d.classes.zip (d.placeData.interfaces.zip d.placeData.members)).flatMap
        classBytes).length = 32 * d.classes.length := by
  obtain ⟨hstrings, hparameters, hinterfaces, hmembers⟩ := d.length_placeData
  have hprotos : (d.protos.zip d.placeData.parameters).length = d.protos.length := by
    rw [List.length_zip, hparameters, Nat.min_self]
  have hclasses : (d.classes.zip (d.placeData.interfaces.zip d.placeData.members)).length =
      d.classes.length := by
    rw [List.length_zip, List.length_zip, hinterfaces, hmembers, Nat.min_self, Nat.min_self]
  refine ⟨?_, length_wordBytes _, ?_, length_flatMap_of_stride fun f _ => length_fieldBytes f,
    length_flatMap_of_stride fun m _ => length_methodBytes m, ?_⟩
  · rw [length_wordBytes, hstrings]
  · rw [length_flatMap_of_stride fun item _ => length_protoBytes item, hprotos]
  · rw [length_flatMap_of_stride fun item _ => length_classBytes item, hclasses]

theorem encodeTables_eq (d : Draft) :
    d.encodeTables d.placeData = wordBytes d.placeData.strings ++ wordBytes d.types ++
      (d.protos.zip d.placeData.parameters).flatMap protoBytes ++ d.fields.flatMap fieldBytes ++
      d.methods.flatMap methodBytes ++
      (d.classes.zip (d.placeData.interfaces.zip d.placeData.members)).flatMap classBytes :=
  rfl

/-- The tables lie between the header and the data. -/
theorem length_encodeTables (d : Draft) :
    dexHeaderSize + (d.encodeTables d.placeData).length = d.dataStart := by
  obtain ⟨hstrings, htypes, hprotos, hfields, hmethods, hclasses⟩ := d.length_rows
  have hdata := d.dataStart_eq
  simp only [encodeTables_eq, List.length_append, hstrings, htypes, hprotos, hfields, hmethods,
    hclasses, dexHeaderSize]
  omega

/-- The rows of every table stand where the header says. -/
theorem tables_at (h : Holds buffer stringIdsStart (d.encodeTables d.placeData)) :
    Holds buffer stringIdsStart (wordBytes d.placeData.strings) ∧
      Holds buffer d.typeIdsStart (wordBytes d.types) ∧
      Holds buffer d.protoIdsStart
        ((d.protos.zip d.placeData.parameters).flatMap protoBytes) ∧
      Holds buffer d.fieldIdsStart (d.fields.flatMap fieldBytes) ∧
      Holds buffer d.methodIdsStart (d.methods.flatMap methodBytes) ∧
      Holds buffer d.classDefsStart
        ((d.classes.zip (d.placeData.interfaces.zip d.placeData.members)).flatMap
          classBytes) := by
  obtain ⟨hstrings, htypes, hprotos, hfields, hmethods, -⟩ := d.length_rows
  rw [encodeTables_eq] at h
  have htypesAt := h.left.left.left.left.right
  have hprotosAt := h.left.left.left.right
  have hfieldsAt := h.left.left.right
  have hmethodsAt := h.left.right
  have hclassesAt := h.right
  simp only [List.length_append, hstrings, htypes, hprotos, hfields, hmethods, ← Nat.add_assoc]
    at htypesAt hprotosAt hfieldsAt hmethodsAt hclassesAt
  exact ⟨h.left.left.left.left.left, htypesAt, hprotosAt, hfieldsAt, hmethodsAt, hclassesAt⟩

theorem tableRef_size (size start : Nat) : (tableRef size start).size = size :=
  rfl

theorem tableRef_offset_le (size start : Nat) : (tableRef size start).offset ≤ start := by
  unfold tableRef
  dsimp only
  split
  · exact Nat.zero_le start
  · exact Nat.le_refl start

theorem mapOffset_le (d : Draft) : d.mapOffset ≤ d.dataStart + d.content.length := by
  simp only [mapOffset, content, List.length_append]
  omega

/-- The header of a draft can be read. -/
theorem header_fits (hstamp : stamp.Fits)
    (hsize : d.dataStart + d.content.length < 0x100000000) : (d.header stamp).Fits := by
  refine ⟨hstamp.version, rfl, hstamp.checksum, hstamp.signature, rfl, rfl, ?_⟩
  have hmap := d.mapOffset_le
  have hstrings := tableRef_offset_le d.strings.length stringIdsStart
  have htypes := tableRef_offset_le d.types.length d.typeIdsStart
  have hprotos := tableRef_offset_le d.protos.length d.protoIdsStart
  have hfields := tableRef_offset_le d.fields.length d.fieldIdsStart
  have hmethods := tableRef_offset_le d.methods.length d.methodIdsStart
  have hclasses := tableRef_offset_le d.classes.length d.classDefsStart
  simp only [dataStart, classDefsStart, methodIdsStart, fieldIdsStart, protoIdsStart,
    typeIdsStart, stringIdsStart, dexHeaderSize]
    at hmap hsize hstrings htypes hprotos hfields hmethods hclasses
  simp only [header, Header.words, TableRef.words, List.cons_append, List.nil_append,
    List.forall_mem_cons, tableRef_size, dexHeaderSize, byteOrderTag, dataStart, classDefsStart,
    methodIdsStart, fieldIdsStart, protoIdsStart, typeIdsStart, stringIdsStart]
  refine ⟨by omega, by decide, by decide, by decide, by decide, by omega, by omega, by omega,
    by omega, by omega, by omega, by omega, by omega, by omega, by omega, by omega, by omega,
    by omega, by omega, by omega, fun n hn => by cases hn⟩

/-- The map of a draft is found. -/
theorem readMap_finds (h : Holds buffer d.dataStart d.content)
    (hsize : buffer.size < 0x100000000) :
    (Decoder.atOffset d.mapOffset MapItem.readAll).Finds buffer
      (some (d.mapItems d.mapOffset)) := by
  have hmap := h.right
  rw [List.length_append, ← Nat.add_assoc] at hmap
  have hroom := hmap.le_size
  have hoffset : d.mapOffset < 0x100000000 := by
    simp only [mapOffset]
    omega
  have hdata := d.dataStart_eq
  have hstart : d.dataStart ≤ d.mapOffset := by
    simp only [mapOffset]
    omega
  refine atOffset_finds (by omega) (MapItem.readAll_yields hmap ?_ hsize)
  simp only [mapItems, List.forall_mem_cons, MapItem.Fits, typeIdsStart, stringIdsStart,
    dexHeaderSize]
  refine ⟨by decide, by omega, by omega, by omega, fun item hitem => by cases hitem⟩

/-- The references of a class fit into the words of its row. -/
theorem Closed.rowFits (hclosed : d.Closed) (hfits : d.Fits) (hsize : d.dataStart < 0x100000000) :
    ∀ c ∈ d.classes, c.RowFits := by
  obtain ⟨hstrings, htypes, -⟩ := d.lengths_le
  intro c hc
  have htype := hclosed.classes c hc
  refine ⟨by omega, hfits.flags c hc, ?_, ?_⟩
  · cases hsuperclass : c.superclass with
    | none => exact (by decide : noIndex < 0x100000000)
    | some t =>
        have hlt := hclosed.superclasses c hc t (by simp [hsuperclass])
        rw [Option.getD_some]
        omega
  · cases hsource : c.sourceFile with
    | none => exact (by decide : noIndex < 0x100000000)
    | some s =>
        have hlt := hclosed.sourceFiles c hc s (by simp [hsource])
        rw [Option.getD_some]
        omega

/-- A draft is as long as its header says. -/
theorem length_encode (d : Draft) (hstamp : stamp.Fits) :
    (d.encode stamp).length = d.dataStart + d.content.length := by
  have hversion := (versionOf_versionBytes hstamp.version).1
  have hheader : (d.header stamp).encode.length = dexHeaderSize := by
    simp [header, Header.encode, Header.words, TableRef.words, magic, hversion, hstamp.signature,
      dexHeaderSize]
  have htables := d.length_encodeTables
  rw [encode_eq, List.length_append, List.length_append, hheader, htables]

end Draft

/-- The tables of a draft are read back. -/
theorem Tables.read_yields {d : Draft} {stamp : Stamp} (hfits : d.Fits) (hclosed : d.Closed)
    (hstamp : stamp.Fits) (hsize : (d.encode stamp).length < 0x100000000) :
    ∃ t : Tables, t.Shows d ∧ Tables.read.Yields (d.encode stamp).toArray 0 t := by
  have hlength := d.length_encode hstamp
  obtain ⟨hmanyStrings, hmanyTypes, hmanyProtos, hmanyFields, hmanyMethods⟩ := d.lengths_le
  have hheader := Draft.header_fits hstamp (hlength ▸ hsize)
  have hall := Holds.all (d.encode stamp)
  generalize hbuffer : (d.encode stamp).toArray = buffer at hall ⊢
  have hbufferSize : buffer.size = (d.encode stamp).length := by
    rw [← hbuffer, List.size_toArray]
  rw [d.encode_eq stamp] at hall
  have htables := hall.left.right
  have hcontent := hall.right
  rw [List.length_append, Header.length_encode hheader, Nat.zero_add] at hcontent
  rw [Header.length_encode hheader, Nat.zero_add] at htables
  rw [d.length_encodeTables] at hcontent
  obtain ⟨hstringRows, htypeRows, hprotoRows, hfieldRows, hmethodRows, hclassRows⟩ :=
    Draft.tables_at htables
  obtain ⟨hstrings, hparameters, hinterfaces, hmembers⟩ := Draft.placeData_at hfits (by omega)
    (by omega) (by omega) (by omega) hcontent.left.left
  obtain ⟨hstringCount, hparameterCount, hinterfaceCount, hmemberCount⟩ := d.length_placeData
  obtain ⟨strings, hstringsShown, hreadStrings⟩ := StringId.table_exists hstringRows hstrings
  obtain ⟨types, htypesShown, hreadTypes⟩ := TypeId.table_exists htypeRows fun t ht => by
    have hlt := hclosed.types t ht
    omega
  obtain ⟨protos, hprotosShown, hreadProtos⟩ := ProtoId.table_exists hprotoRows
    (fun p hp => by
      have hlt := hclosed.protos p hp
      omega) hparameters
  have hreadFields := FieldId.table_exists hfieldRows fun f hf => by
    have hlt := hclosed.fields f hf
    exact ⟨hfits.fields f hf, by omega⟩
  have hreadMethods := MethodId.table_exists hmethodRows fun m hm => by
    have hlt := hclosed.methods m hm
    exact ⟨hfits.methods m hm, by omega⟩
  obtain ⟨classes, hclassesShown, hreadClasses⟩ := ClassDef.table_exists hclassRows
    (fun c hc => hclosed.rowFits hfits (by omega) c hc) hinterfaces hmembers
  have hmap : (Decoder.atOffset d.mapOffset MapItem.readAll).Finds buffer
      (some (d.mapItems d.mapOffset)) :=
    Draft.readMap_finds hcontent (by omega)
  refine ⟨⟨d.header stamp, some (d.mapItems d.mapOffset), strings.toArray, types.toArray,
    protos.toArray, d.fields.toArray, d.methods.toArray, classes.toArray⟩,
    ⟨hstringsShown, htypesShown, hprotosShown, rfl, rfl, hclassesShown⟩, ?_⟩
  unfold Tables.read
  refine .bind (Header.read_yields hheader hall.left.left).reads (.bind .bufferSize ?_)
  refine .bind (.require (decide_eq_true ?_)) ?_
  · rw [hbufferSize, hlength]
    exact Nat.le_refl _
  refine .bind_finds hmap fun _ => .bind_finds hreadStrings fun _ => ?_
  refine .bind_finds hreadTypes fun _ => .bind_finds hreadProtos fun _ => ?_
  refine .bind_finds hreadFields fun _ => .bind_finds hreadMethods fun _ => ?_
  exact .bind_finds hreadClasses fun _ => .pure _

end Drafts

end ApkFormats.Dex
