import ApkFormats.Proofs.Xml.Records

/-!
# Written documents are read back

`Document.decode_encode_manuscript` is the main result: a manuscript within the limits of
the format is read as the tree that it was written from.

The records of an element are followed by induction over the tree.  Whatever
elements are open around it, they leave the builder as it is when that element
has ended inside the innermost one (`Builder.ended`); the records of its
children add their elements one after the other.
-/

namespace ApkFormats.Xml

namespace Builder

/-- A builder after an element has ended inside it. -/
def ended (b : Builder) (e : Element) : Builder :=
  match b.opened with
  | [] => ⟨[], some e⟩
  | parent :: outer => ⟨addChild parent e :: outer, b.finished⟩

/-- An element can start: it lies inside another one or no root has ended. -/
def Ready (b : Builder) : Prop :=
  b.opened = [] → b.finished = none

variable {b : Builder} {e : Element} {record : Nat}

theorem apply_start (h : b.Ready) (name : String) (uri : Option String)
    (attributes : List Attribute) :
    b.apply record (.start name uri attributes) =
      .ok ⟨⟨name, uri, attributes, none, []⟩ :: b.opened, b.finished⟩ := by
  obtain ⟨opened, finished⟩ := b
  cases opened with
  | nil =>
      have hfinished : finished = none := h rfl
      subst hfinished
      rfl
  | cons parent outer => rfl

theorem apply_finish (b : Builder) (e : Element) :
    apply ⟨e :: b.opened, b.finished⟩ record .finish = .ok (b.ended e) := by
  obtain ⟨opened, finished⟩ := b
  cases opened <;> rfl

end Builder

namespace Source

mutual

/-- A source and everything below it in document order. -/
def all : Source → List Source
  | ⟨name, uri, attributes, text, children⟩ =>
      ⟨name, uri, attributes, text, children⟩ :: allBelow children

/-- Some sources and everything below them in document order. -/
def allBelow : List Source → List Source
  | [] => []
  | s :: rest => s.all ++ allBelow rest

end

/-- The attributes of an element can be counted and their values fit into their fields. -/
def Fits (s : Source) : Prop :=
  s.attributes.length ≤ 0xFFFF ∧ ∀ a ∈ s.attributes, a.value.Fits

instance (s : Source) : Decidable s.Fits :=
  inferInstanceAs (Decidable (_ ∧ _))

/-- The namespaces of attributes in document order, as often as they are used. -/
def uris (s : Source) : List String :=
  s.all.flatMap fun e => e.attributes.filterMap SourceAttribute.uri

end Source

section Trees

/-! ## Trees -/

variable {pool : StringPool} {strings : List String} {fileSize : Nat} {buffer : Bytes}

/-- The record of a text gives the innermost open element that text. -/
theorem readRecords_text (hpool : Pools pool strings) (hsize : fileSize < 0x100000000)
    {text : Option String} {name : String} {uri : Option String} {attributes : List Attribute}
    {outer : List Element} {finished : Option Element} {r : Builder} {record : Nat}
    (h : Holds buffer record (text.toList.flatMap (encodeText strings)))
    (hfile : record + (text.toList.flatMap (encodeText strings)).length ≤ fileSize)
    (htext : ∀ t ∈ text.toList, t ∈ strings)
    (hnext : (readRecords pool fileSize true ⟨⟨name, uri, attributes, text, []⟩ :: outer, finished⟩
      (record + (text.toList.flatMap (encodeText strings)).length)).Finds buffer r) :
    (readRecords pool fileSize true ⟨⟨name, uri, attributes, none, []⟩ :: outer, finished⟩
      record).Finds buffer r := by
  cases text with
  | none => exact hnext
  | some t =>
      simp only [Option.toList_some, List.flatMap_cons, List.flatMap_nil, List.append_nil]
        at h hfile hnext
      have ht : t ∈ strings := htext t (by simp)
      refine readRecords_record h (by decide) (by simp [leastRecordSize, textTag, elementStartTag,
        elementEndTag]) hfile hsize (.inl rfl) (readText_finds hpool h ht) rfl ?_
      rw [if_neg (by simp)]
      exact hnext

mutual

/-- The records of an element end it inside what is open around it. -/
theorem readRecords_source (hpool : Pools pool strings) (hsize : fileSize < 0x100000000)
    (s : Source) {started : Bool} {b r : Builder} {record : Nat}
    (h : Holds buffer record (s.encode strings))
    (hfile : record + (s.encode strings).length ≤ fileSize)
    (hfits : ∀ e ∈ s.all, e.Fits) (hstrings : ∀ t ∈ s.strings, t ∈ strings) (hready : b.Ready)
    (hnext : (readRecords pool fileSize true (b.ended s.toElement)
      (record + (s.encode strings).length)).Finds buffer r) :
    (readRecords pool fileSize started b record).Finds buffer r := by
  obtain ⟨name, uri, attributes, text, children⟩ := s
  rw [Source.all] at hfits
  simp only [Source.strings, List.mem_append, List.mem_flatMap, List.mem_singleton] at hstrings
  simp only [Source.encode, List.length_append] at h hfile hnext
  obtain ⟨hcount, hvalues⟩ := hfits _ List.mem_cons_self
  have hname : name ∈ strings := hstrings name (.inl (.inl (.inr rfl)))
  have huri : ∀ t ∈ uri.toList, t ∈ strings := fun t ht =>
    hstrings t (.inl (.inl (.inl (.inr ht))))
  have hend : (readRecords pool fileSize true
      ⟨⟨name, uri, attributes.map SourceAttribute.toAttribute, text,
        [] ++ Source.toElements children⟩ :: b.opened, b.finished⟩
      (record + (encodeStart strings uri name attributes).length +
        (text.toList.flatMap (encodeText strings)).length +
        (Source.encodeAll strings children).length)).Finds buffer r := by
    have hright := h.right
    simp only [List.length_append, ← Nat.add_assoc] at hright
    refine readRecords_record hright (by decide) (by simp [leastRecordSize, elementStartTag,
      elementEndTag]) (by rw [encodeEnd] at hfile; omega) hsize (.inl rfl) (readEnd_finds _)
      (b.apply_finish _) ?_
    rw [if_neg (by decide), ← encodeEnd]
    simp only [Nat.add_assoc] at hnext ⊢
    exact hnext
  have hchildren := h.left.right
  simp only [List.length_append, ← Nat.add_assoc] at hchildren
  have hbelow := readRecords_sources hpool hsize children
    ⟨name, uri, attributes.map SourceAttribute.toAttribute, text, []⟩ hchildren (by omega)
    (fun e he => hfits e (List.mem_cons_of_mem _ he)) (fun t ht => hstrings t (.inr ht)) hend
  have htext := readRecords_text hpool hsize h.left.left.right (by omega)
    (fun t ht => hstrings t (.inl (.inr ht))) hbelow
  have hstart := h.left.left.left
  refine readRecords_record hstart (by decide) ?_ (by rw [encodeStart] at hfile; omega) hsize
    (.inr rfl)
    (readStart_finds hpool hstart hcount hvalues
      (fun a ha t ht => hstrings t (.inl (.inl (.inl (.inl ⟨a, ha, ht⟩))))) huri hname)
    (Builder.apply_start hready _ _ _) ?_
  · simp only [leastRecordSize, if_true, List.length_append, length_wordBytes,
      length_halfWordBytes, List.length_cons, List.length_nil]
    omega
  · rw [if_neg (by simp)]
    exact htext

/-- The records of some elements add them to the children of the innermost open element. -/
theorem readRecords_sources (hpool : Pools pool strings) (hsize : fileSize < 0x100000000)
    (children : List Source) (parent : Element) {outer : List Element}
    {finished : Option Element} {r : Builder} {record : Nat}
    (h : Holds buffer record (Source.encodeAll strings children))
    (hfile : record + (Source.encodeAll strings children).length ≤ fileSize)
    (hfits : ∀ e ∈ Source.allBelow children, e.Fits)
    (hstrings : ∀ t ∈ Source.allStrings children, t ∈ strings)
    (hnext : (readRecords pool fileSize true
      ⟨{ parent with children := parent.children ++ Source.toElements children } :: outer, finished⟩
      (record + (Source.encodeAll strings children).length)).Finds buffer r) :
    (readRecords pool fileSize true ⟨parent :: outer, finished⟩ record).Finds buffer r := by
  cases children with
  | nil =>
      obtain ⟨name, uri, attributes, text, before⟩ := parent
      simpa [Source.encodeAll, Source.toElements] using hnext
  | cons s rest =>
      rw [Source.encodeAll] at h hfile hnext
      rw [List.length_append] at hfile hnext
      rw [Source.allBelow] at hfits
      rw [Source.allStrings] at hstrings
      have hrest : (readRecords pool fileSize true
          ⟨Builder.addChild parent s.toElement :: outer, finished⟩
          (record + (s.encode strings).length)).Finds buffer r := by
        refine readRecords_sources hpool hsize rest _ h.right (by omega)
          (fun e he => hfits e (List.mem_append_right _ he))
          (fun t ht => hstrings t (List.mem_append_right _ ht)) ?_
        rw [Source.toElements] at hnext
        simpa [Builder.addChild, Nat.add_assoc] using hnext
      exact readRecords_source hpool hsize s h.left (by omega)
        (fun e he => hfits e (List.mem_append_left _ he))
        (fun t ht => hstrings t (List.mem_append_left _ ht)) (fun hopened => by cases hopened) hrest

end

end Trees

section Openings

/-! ## Around the root -/

variable {pool : StringPool} {strings : List String} {fileSize : Nat} {buffer : Bytes}

/-- A record before the root starts with its tag and its size, and starts no element. -/
theorem Opening.encode_fields (strings : List String) (opening : Opening) :
    ∃ tag size rest, opening.encode strings = wordBytes [tag, size] ++ rest ∧
      (opening.encode strings).length = size ∧ tag < 0x100000000 ∧ tag ≠ elementStartTag ∧
      chunkHeaderSize ≤ size ∧ leastRecordSize tag = chunkHeaderSize := by
  cases opening with
  | resourceIds ids =>
      refine ⟨resourceIdsTag, chunkHeaderSize + 4 * ids.length, wordBytes ids, ?_, ?_, by decide,
        by decide, Nat.le_add_right _ _, by decide⟩
      · simp [Opening.encode]
      · simp only [Opening.encode, length_wordBytes, List.length_cons, chunkHeaderSize]
        omega
  | namespaceStart d =>
      have hbody : (wordBytes [strings.idxOf d.short, strings.idxOf d.uri]).length = 8 := by simp
      refine ⟨documentStartTag, nodeHeaderSize + 8,
        wordBytes [1, noIndex, strings.idxOf d.short, strings.idxOf d.uri], ?_, ?_, by decide,
        by decide, by decide, by decide⟩
      · simp [Opening.encode, NamespaceDeclaration.encode, encodeRecord]
      · rw [Opening.encode, NamespaceDeclaration.encode, length_encodeRecord, hbody]

/-- The records before the root leave the builder alone. -/
theorem readRecords_openings (hsize : fileSize < 0x100000000) {openings : List Opening}
    {b r : Builder} {record : Nat}
    (h : Holds buffer record (openings.flatMap (Opening.encode strings)))
    (hfile : record + (openings.flatMap (Opening.encode strings)).length ≤ fileSize)
    (hnext : (readRecords pool fileSize false b
      (record + (openings.flatMap (Opening.encode strings)).length)).Finds buffer r) :
    (readRecords pool fileSize false b record).Finds buffer r := by
  induction openings generalizing record with
  | nil => exact hnext
  | cons opening rest ih =>
      rw [List.flatMap_cons] at h hfile hnext
      rw [List.length_append] at hfile hnext
      have hrest : (readRecords pool fileSize false b
          (record + (opening.encode strings).length)).Finds buffer r := by
        refine ih h.right (by omega) ?_
        rwa [Nat.add_assoc]
      obtain ⟨tag, size, fields, hfields, hlength, htag, hstart, hleast, htagSize⟩ :=
        opening.encode_fields strings
      have hrecord := h.left
      rw [hlength] at hfile hrest
      rw [hfields] at hrecord
      exact readRecords_skip hrecord htag (by omega) ⟨hleast, by omega⟩ (by omega) hstart hrest

/-- After the root the document ends, with or without a record that says so. -/
theorem readRecords_closings (hsize : fileSize < 0x100000000)
    {closings : List NamespaceDeclaration} {b : Builder} {record : Nat}
    (h : Holds buffer record
      (closings.flatMap (NamespaceDeclaration.encode strings documentEndTag)))
    (hfile : record +
      (closings.flatMap (NamespaceDeclaration.encode strings documentEndTag)).length =
        fileSize) :
    (readRecords pool fileSize true b record).Finds buffer b := by
  cases closings with
  | nil =>
      have hend : record = fileSize := hfile
      rw [hend]
      exact readRecords_stop true b
  | cons d rest =>
      rw [List.flatMap_cons] at h hfile
      rw [List.length_append] at hfile
      refine readRecords_record h.left (by decide) ?_ ?_ hsize (.inl rfl)
        (readDocumentEnd_finds _) rfl ?_
      · have hleast : leastRecordSize documentEndTag = chunkHeaderSize := by decide
        rw [hleast, nodeHeaderSize, chunkHeaderSize]
        omega
      · rw [NamespaceDeclaration.encode] at hfile
        omega
      · rw [if_pos rfl]

end Openings

namespace Manuscript

/-- A manuscript within the limits of the format. -/
structure Fits (utf8 : Bool) (m : Manuscript) : Prop where
  strings : ∀ s ∈ m.pool, StringPool.Fits utf8 s
  elements : ∀ s ∈ m.root.all, s.Fits
  size : (m.encode utf8).length < 0x100000000

/-- The strings of the root are in the pool. -/
theorem mem_pool_of_mem_root {m : Manuscript} {s : String} (h : s ∈ m.root.strings) :
    s ∈ m.pool := by
  rw [pool, List.mem_eraseDups]
  simp [h]

/-- The pool is found by the indices of a written document. -/
theorem pools {utf8 : Bool} {m : Manuscript} (h : m.Fits utf8) (start : Nat) :
    Pools (.written utf8 m.pool start) m.pool := by
  refine ⟨rfl, ?_⟩
  have hsize := h.size
  have hmany := StringPool.length_le_encode utf8 m.pool
  simp only [encode, List.length_append] at hsize
  simp only [noIndex]
  omega

end Manuscript

section Documents

/-! ## Documents -/

/-- The records of a manuscript build its tree. -/
theorem readRecords_manuscript {utf8 : Bool} {m : Manuscript} (h : m.Fits utf8) {start : Nat}
    {buffer : Bytes} (hrecords : Holds buffer start m.records)
    (hfile : start + m.records.length = (m.encode utf8).length) :
    (readRecords (.written utf8 m.pool 8) (m.encode utf8).length false .empty start).Finds buffer
      (Builder.ended .empty m.root.toElement) := by
  have hpool := Manuscript.pools h 8
  simp only [Manuscript.records, List.length_append] at hrecords hfile
  have hroot := hrecords.left.right
  have hclosings := hrecords.right
  rw [List.length_append, ← Nat.add_assoc] at hclosings
  refine readRecords_openings h.size hrecords.left.left (by omega) ?_
  refine readRecords_source hpool h.size m.root hroot (by omega) h.elements
    (fun t ht => Manuscript.mem_pool_of_mem_root ht) (fun _ => rfl) ?_
  exact readRecords_closings h.size hclosings (by omega)

/-- A document starts with fixed bytes and its length. -/
theorem Manuscript.encode_fields (utf8 : Bool) (m : Manuscript) :
    m.encode utf8 = magic ++ (toLittleEndian 4 (m.encode utf8).length ++
      (StringPool.encode utf8 m.pool ++ m.records)) := by
  have hlength : (m.encode utf8).length =
      chunkHeaderSize + (StringPool.encode utf8 m.pool ++ m.records).length := by
    simp only [encode, List.length_append, length_wordBytes, List.length_cons, List.length_nil,
      magic, chunkHeaderSize]
  rw [hlength]
  simp only [encode, wordBytes_cons, wordBytes_nil, List.append_assoc, List.nil_append]

/-- A written document is read as its tree. -/
theorem Document.read_encode {utf8 : Bool} {m : Manuscript} (h : m.Fits utf8) :
    Document.read.Yields (m.encode utf8).toArray 0
      ⟨(m.encode utf8).length, .written utf8 m.pool 8, m.root.toElement⟩ := by
  have hsize := h.size
  have hfields := m.encode_fields utf8
  have hlength := congrArg List.length hfields
  simp only [List.length_append, length_toLittleEndian, magic, List.length_cons,
    List.length_nil] at hlength
  have hall := Holds.all (m.encode utf8)
  generalize hbuffer : (m.encode utf8).toArray = buffer at hall ⊢
  have hbufferSize : buffer.size = (m.encode utf8).length := by
    rw [← hbuffer, List.size_toArray]
  rw [hfields] at hall
  have hpool := StringPool.read_reads hall.right.right.left (by omega) h.strings
  have hrecords := readRecords_manuscript h hall.right.right.right (by
    simp only [length_toLittleEndian, magic, List.length_cons, List.length_nil]
    omega)
  simp only [length_toLittleEndian, magic, List.length_cons, List.length_nil, Nat.zero_add]
    at hpool hrecords
  unfold Document.read
  refine .field hall (.fixed magic) fun hall => .u32 hall hsize fun hbody => ?_
  refine .bind .bufferSize (.bind (.require (by rw [hbufferSize]; simp)) (.bind hpool ?_))
  rw [StringPool.written_stop]
  exact .bind_finds hrecords fun cursor => .pure _

end Documents

section Meaning

/-! ## What a written tree shows -/

/-- A segment is the part of a namespace after its last slash, or all of one without a slash. -/
def IsLastSegment (uri segment : String) : Prop :=
  '/' ∉ segment.toList ∧ (uri = segment ∨ ∃ front, uri = front ++ "/" ++ segment)

theorem isLastSegment_lastSegment (uri : String) : IsLastSegment uri (lastSegment uri) := by
  have hsplit := List.takeWhile_append_dropWhile (p := (· ≠ '/')) (l := uri.toList.reverse)
  have hnone : ∀ c ∈ uri.toList.reverse.takeWhile (· ≠ '/'), c ≠ '/' := fun c hc => by
    simpa using List.all_eq_true.mp List.all_takeWhile c hc
  refine ⟨fun hslash => ?_, ?_⟩
  · simp only [lastSegment, String.toList_ofList, List.mem_reverse] at hslash
    exact hnone _ hslash rfl
  · cases hrest : uri.toList.reverse.dropWhile (· ≠ '/') with
    | nil =>
        refine .inl ?_
        rw [hrest, List.append_nil] at hsplit
        rw [lastSegment, hsplit, List.reverse_reverse, String.ofList_toList]
    | cons c front =>
        have hslash : c = '/' := by
          have hhead := List.head?_dropWhile_not (· ≠ '/') uri.toList.reverse
          rw [hrest] at hhead
          simpa using hhead
        refine .inr ⟨String.ofList front.reverse, ?_⟩
        rw [hrest, hslash] at hsplit
        have hall := congrArg List.reverse hsplit
        rw [List.reverse_reverse] at hall
        apply String.toList_injective
        rw [← hall]
        simp [lastSegment]

/-- A key is the name of an attribute, behind the last segment of its namespace. -/
def SourceAttribute.IsKey (a : SourceAttribute) (key : String) : Prop :=
  match a.uri with
  | none => key = a.name
  | some uri => ∃ segment, IsLastSegment uri segment ∧ key = segment ++ ":" ++ a.name

/-- What a written value means, by its type byte. -/
inductive SourceValue.Means : SourceValue → Value → Prop
  | text (s : String) : Means (.text s) (.text s)
  | null (data : Nat) : Means (.number 0x00 data) .null
  | reference (data : Nat) : Means (.number 0x01 data) (.reference data)
  | decimal (data : Nat) : Means (.number 0x10 data) (.decimal data)
  | hexadecimal (data : Nat) : Means (.number 0x11 data) (.hexadecimal data)
  | boolean (data : Nat) :
      Means (.number 0x12 data) (.boolean (decide (data = 1 ∨ data = 0xFFFFFFFF)))
  | raw (type data : Nat) (h : type ∉ [0x00, 0x01, 0x10, 0x11, 0x12]) :
      Means (.number type data) (.raw data (typeFlags type))

/-- An element shows a source: its name, namespace and text, and its attributes in order. -/
structure Source.ShownBy (s : Source) (e : Element) : Prop where
  name : e.name = s.name
  uri : e.uri = s.uri
  text : e.text = s.text
  attributes :
    List.Forall₂ (fun a b => a.IsKey b.key ∧ a.value.Means b.value) s.attributes e.attributes

theorem SourceAttribute.isKey_toAttribute (a : SourceAttribute) : a.IsKey a.toAttribute.key := by
  obtain ⟨uri, name, value⟩ := a
  cases uri with
  | none => rfl
  | some uri => exact ⟨lastSegment uri, isLastSegment_lastSegment uri, rfl⟩

theorem SourceValue.means_toValue (v : SourceValue) : v.Means v.toValue := by
  cases v with
  | text s => exact .text s
  | number type data =>
      by_cases hknown : type ∈ [0x00, 0x01, 0x10, 0x11, 0x12]
      · simp only [List.mem_cons, List.not_mem_nil, or_false] at hknown
        rcases hknown with rfl | rfl | rfl | rfl | rfl
        · exact .null data
        · exact .reference data
        · exact .decimal data
        · exact .hexadecimal data
        · have htrue : Value.isTrue data = decide (data = 1 ∨ data = 0xFFFFFFFF) := by
            rw [Bool.eq_iff_iff]
            simp only [Value.isTrue, Bool.or_eq_true, beq_iff_eq, decide_eq_true_eq]
            omega
          have hmeans := Means.boolean data
          rwa [← htrue] at hmeans
      · have hmeans := Means.raw type data hknown
        simp only [List.mem_cons, List.not_mem_nil, or_false, not_or] at hknown
        rw [SourceValue.toValue, Value.ofNumber, if_neg (by omega), if_neg (by omega),
          if_neg (by omega), if_neg (by omega), if_neg (by omega)]
        exact hmeans

theorem Source.shownBy_toElement (s : Source) : s.ShownBy s.toElement := by
  obtain ⟨name, uri, attributes, text, children⟩ := s
  rw [Source.toElement]
  refine ⟨rfl, rfl, rfl, ?_⟩
  rw [List.forall₂_map_right_iff, List.forall₂_same]
  exact fun a _ => ⟨a.isKey_toAttribute, a.value.means_toValue⟩

mutual

/-- Walking over a written tree meets what was written, in the same order. -/
theorem walk_toElement (depth : Nat) (s : Source) :
    (s.toElement.walk depth).map Prod.snd = s.all.map Source.toElement := by
  obtain ⟨name, uri, attributes, text, children⟩ := s
  have hbelow := walkAll_toElements (depth + 1) children
  simp only [Source.toElement, Element.walk, Source.all, List.map_cons, hbelow]

/-- Walking over written trees meets what was written, in the same order. -/
theorem walkAll_toElements (depth : Nat) (children : List Source) :
    (Element.walkAll depth (Source.toElements children)).map Prod.snd =
      (Source.allBelow children).map Source.toElement := by
  cases children with
  | nil => rfl
  | cons s rest =>
      have hfirst := walk_toElement depth s
      have hrest := walkAll_toElements depth rest
      simp only [Source.toElements, Element.walkAll, Source.allBelow, List.map_append, hfirst,
        hrest]

end

/-- The namespaces that a written tree uses are those of its sources. -/
theorem uris_toElement (s : Source) :
    s.toElement.elements.flatMap (fun e => e.attributes.filterMap Attribute.uri) = s.uris := by
  have huris (e : Source) :
      e.toElement.attributes.filterMap Attribute.uri =
        e.attributes.filterMap SourceAttribute.uri := by
    obtain ⟨name, uri, attributes, text, children⟩ := e
    simp [Source.toElement, List.filterMap_map, Function.comp_def, SourceAttribute.toAttribute]
  rw [Element.elements, walk_toElement, List.flatMap_map, Source.uris]
  simp only [huris]

end Meaning

/-- A written document is decoded to the tree that it was written from.

Every element shows its source, with the keys and the meanings of its attributes in order, and
the namespaces of attributes are listed in the order of their first use, each with its last
segment. -/
theorem Document.decode_encode_manuscript (utf8 : Bool) (m : Manuscript) (h : m.Fits utf8) :
    ∃ d, Document.decode (m.encode utf8).toArray = .ok d ∧ d.root = m.root.toElement ∧
      List.Forall₂ Source.ShownBy m.root.all d.root.elements ∧
      d.namespaces.map Prod.fst = m.root.uris.eraseDups ∧
      ∀ entry ∈ d.namespaces, IsLastSegment entry.1 entry.2 := by
  have hread : (Document.read (m.encode utf8).toArray 0).result = .ok _ := Document.read_encode h
  refine ⟨_, by rw [Document.decode, hread]; rfl, rfl, ?_, ?_, ?_⟩
  · rw [Element.elements, walk_toElement, List.forall₂_map_right_iff, List.forall₂_same]
    exact fun s _ => s.shownBy_toElement
  · simp [Document.namespaces, uris_toElement, Function.comp_def]
  · intro entry hentry
    simp only [Document.namespaces, List.mem_map] at hentry
    obtain ⟨uri, _, rfl⟩ := hentry
    exact isLastSegment_lastSegment uri

/-- A small document: an element with attributes of both kinds, a text and a child. -/
def Manuscript.small : Manuscript where
  reserved := ["label"]
  openings := [.resourceIds [0x01010001], .namespaceStart ⟨"a", "urn:x/res"⟩]
  root := ⟨"app", none, [⟨some "urn:x/res", "label", .text "é"⟩, ⟨none, "on", .number 0x12 1⟩],
    some "hi", [⟨"item", some "urn:x/res", [], none, []⟩]⟩
  closings := [⟨"a", "urn:x/res"⟩]

/-- The small document keeps to the limits and is read back in UTF-8. -/
theorem Document.decode_encode_manuscript_small :
    Manuscript.small.Fits true ∧
      ∃ d, Document.decode (Manuscript.small.encode true).toArray = .ok d ∧
        d.root = Manuscript.small.root.toElement := by
  have hfits : Manuscript.small.Fits true :=
    ⟨by decide +kernel, by decide +kernel, by decide +kernel⟩
  obtain ⟨d, hdecode, hroot, -⟩ := Document.decode_encode_manuscript true Manuscript.small hfits
  exact ⟨hfits, d, hdecode, hroot⟩

end ApkFormats.Xml
