import ApkFormats.Proofs.StringPool
import ApkFormats.Xml.Source

/-!
# Written records are read back

Each record that a manuscript is made of is read as its event:

* `readStart_finds`: the start of an element, with its attributes;
* `readText_finds` and `readEnd_finds`: a text and the end of an element;
* `readDocumentEnd_finds`: the end of a namespace.

`readRecords_record` and `readRecords_skip` say what one record does to the
building of the tree, and `readRecords_stop` where the building stops.
-/

namespace ApkFormats.Xml

/-- A pool holds the strings of a list, few enough for their indices to be index words. -/
structure Pools (pool : StringPool) (strings : List String) : Prop where
  strings_eq : pool.strings = strings.toArray
  length_le : strings.length ≤ noIndex

section Lookup

/-! ## Strings by index -/

variable {pool : StringPool} {strings : List String} {record : Nat} {s : String}

/-- The index of a string is below the word that stands for none. -/
theorem Pools.idxOf_lt (hpool : Pools pool strings) (h : s ∈ strings) :
    strings.idxOf s < noIndex :=
  Nat.lt_of_lt_of_le (List.idxOf_lt_length_iff.mpr h) hpool.length_le

/-- An optional index fits into a word. -/
theorem Pools.optionalIndex_lt (hpool : Pools pool strings) {u : Option String}
    (h : ∀ s ∈ u.toList, s ∈ strings) : optionalIndex strings u < 0x100000000 := by
  cases u with
  | none => exact (by decide : noIndex < 0x100000000)
  | some s =>
      have hindex := hpool.idxOf_lt (h s (by simp))
      simp only [optionalIndex, noIndex] at hindex ⊢
      omega

/-- The string at the index of a string is that string. -/
theorem Pools.stringAt_idxOf (hpool : Pools pool strings) (h : s ∈ strings) :
    pool.stringAt (strings.idxOf s : Nat) = .ok s := by
  have hlt := hpool.idxOf_lt h
  have hindex : strings.idxOf s < strings.length := List.idxOf_lt_length_iff.mpr h
  have hget : pool.strings[strings.idxOf s]? = some s := by
    rw [hpool.strings_eq]
    simp [List.getElem?_eq_getElem hindex]
  exact StringPool.stringAt_eq hget hlt

theorem lookup_reads {buffer : Bytes} {cursor : Nat} (hpool : Pools pool strings)
    (h : s ∈ strings) :
    (lookup pool record (strings.idxOf s)).Reads buffer cursor s cursor := by
  rw [lookup, hpool.stringAt_idxOf h]
  exact .pure s

theorem lookupOptional_reads {buffer : Bytes} {cursor : Nat} {u : Option String}
    (hpool : Pools pool strings) (h : ∀ s ∈ u.toList, s ∈ strings) :
    (lookupOptional pool record (optionalIndex strings u)).Reads buffer cursor u cursor := by
  cases u with
  | none =>
      rw [lookupOptional, optionalIndex, if_pos rfl]
      exact .pure none
  | some s =>
      have hs : s ∈ strings := h s (by simp)
      have hindex : strings.idxOf s ≠ noIndex := Nat.ne_of_lt (hpool.idxOf_lt hs)
      rw [lookupOptional, optionalIndex, if_neg hindex]
      exact .bind (lookup_reads hpool hs) (.pure (some s))

end Lookup

/-- The type and the number of a value fit into their fields. -/
def SourceValue.Fits : SourceValue → Prop
  | .text _ => True
  | .number type data => type < 0x100 ∧ data < 0x100000000

instance (v : SourceValue) : Decidable v.Fits :=
  match v with
  | .text _ => inferInstanceAs (Decidable True)
  | .number type data => inferInstanceAs (Decidable (type < 0x100 ∧ data < 0x100000000))

section Attributes

/-! ## Attributes -/

variable {pool : StringPool} {strings : List String} {record : Nat}
variable {buffer : Bytes} {start : Nat}

/-- A value is written as three words, from which the value is made again. -/
theorem SourceValue.encode_words (hpool : Pools pool strings) {v : SourceValue} (hfits : v.Fits)
    (h : ∀ s ∈ v.strings, s ∈ strings) :
    ∃ raw flags data : Nat, v.encode strings = wordBytes [raw, flags, data] ∧
      (raw < 0x100000000 ∧ flags < 0x100000000 ∧ data < 0x100000000) ∧
      Value.ofAttribute raw flags data pool = .ok v.toValue := by
  cases v with
  | text s =>
      have hs : s ∈ strings := h s (by simp [SourceValue.strings])
      have hindex := hpool.idxOf_lt hs
      have hraw : ¬((strings.idxOf s : Int) = noIndex) := by omega
      refine ⟨strings.idxOf s, typeFlags 0x03, strings.idxOf s, rfl, ?_, ?_⟩
      · simp only [noIndex, typeFlags] at hindex ⊢
        omega
      · rw [Value.ofAttribute, if_neg hraw, hpool.stringAt_idxOf hs]
        rfl
  | number type data =>
      obtain ⟨htype, hdata⟩ := hfits
      have hbyte : ((typeFlags type : Nat) : Int) / 0x1000000 = type := by
        simp only [typeFlags]
        omega
      refine ⟨noIndex, typeFlags type, data, rfl, ?_, ?_⟩
      · simp only [noIndex, typeFlags]
        omega
      · rw [Value.ofAttribute, if_pos rfl, hbyte]
        rfl

@[simp] theorem SourceAttribute.length_encode (a : SourceAttribute) :
    (a.encode strings).length = attributeSize := by
  obtain ⟨uri, name, value⟩ := a
  cases value <;> simp [SourceAttribute.encode, SourceValue.encode, attributeSize]

/-- A written attribute is read back. -/
theorem Attribute.read_reads (hpool : Pools pool strings) {a : SourceAttribute}
    (h : Holds buffer start (a.encode strings)) (hfits : a.value.Fits)
    (hstrings : ∀ s ∈ a.strings, s ∈ strings) :
    (Attribute.read pool record).Reads buffer start a.toAttribute (start + attributeSize) := by
  obtain ⟨uri, name, value⟩ := a
  simp only [SourceAttribute.strings, List.mem_append, List.mem_singleton] at hstrings
  have huri : ∀ s ∈ uri.toList, s ∈ strings := fun s hs => hstrings s (.inl (.inr hs))
  have hname : name ∈ strings := hstrings name (.inr rfl)
  have hnameIndex := hpool.idxOf_lt hname
  obtain ⟨raw, flags, data, hwords, ⟨hraw, hflags, hdata⟩, hvalue⟩ :=
    SourceValue.encode_words hpool hfits fun s hs => hstrings s (.inl (.inl hs))
  simp only [SourceAttribute.encode, hwords, wordBytes_cons, wordBytes_nil, List.append_assoc,
    List.nil_append] at h
  simp only [noIndex] at hnameIndex
  unfold Attribute.read
  refine .u32 h (hpool.optionalIndex_lt huri) fun h => .u32 h (by omega) fun h => ?_
  refine .u32 h hraw fun h => .u32 h hflags fun h => .u32 h hdata fun _ => ?_
  refine .bind (lookup_reads hpool hname) (.bind (lookupOptional_reads hpool huri) ?_)
  rw [hvalue]
  exact .pure _

end Attributes

section Events

/-! ## Records as events -/

variable {pool : StringPool} {strings : List String} {record tag : Nat} {body : List UInt8}
variable {buffer : Bytes} {uri : Option String} {name s : String}
variable {attributes : List SourceAttribute}

theorem length_encodeRecord (tag : Nat) (body : List UInt8) :
    (encodeRecord tag body).length = nodeHeaderSize + body.length := by
  simp only [encodeRecord, List.length_append, length_wordBytes, List.length_cons, List.length_nil,
    nodeHeaderSize]

theorem holds_recordBody (h : Holds buffer record (encodeRecord tag body)) :
    Holds buffer (record + nodeHeaderSize) body := by
  have hright := h.right
  simp only [length_wordBytes, List.length_cons, List.length_nil] at hright
  exact hright

/-- The record of the start of an element is read as that start. -/
theorem readStart_finds (hpool : Pools pool strings)
    (h : Holds buffer record (encodeStart strings uri name attributes))
    (hcount : attributes.length ≤ 0xFFFF) (hfits : ∀ a ∈ attributes, a.value.Fits)
    (hattributes : ∀ a ∈ attributes, ∀ s ∈ a.strings, s ∈ strings)
    (huri : ∀ s ∈ uri.toList, s ∈ strings) (hname : name ∈ strings) :
    (Event.read pool record elementStartTag
      (encodeStart strings uri name attributes).length).Finds buffer
      (.start name uri (attributes.map SourceAttribute.toAttribute)) := by
  have hnameIndex := hpool.idxOf_lt hname
  have hrows : (attributes.flatMap (SourceAttribute.encode strings)).length =
      attributeSize * attributes.length :=
    length_flatMap_of_stride fun a _ => SourceAttribute.length_encode a
  have hlength : (encodeStart strings uri name attributes).length =
      nodeHeaderSize + startSize + attributeSize * attributes.length := by
    simp only [encodeStart, length_encodeRecord, List.length_append, length_wordBytes,
      length_halfWordBytes, List.length_cons, List.length_nil, hrows, startSize]
    omega
  have hfields := holds_recordBody h
  simp only [wordBytes_cons, wordBytes_nil, halfWordBytes_cons, halfWordBytes_nil,
    List.append_assoc, List.nil_append] at hfields
  simp only [noIndex] at hnameIndex
  unfold Event.read Event.readStart
  rw [if_pos rfl]
  refine .goTo (.u32 hfields (hpool.optionalIndex_lt huri) fun hfields => ?_)
  refine .u32 hfields (by omega) fun hfields => .u16 hfields (by decide) fun hfields => ?_
  refine .u16 hfields (by decide) fun hfields => .u16 hfields (by omega) fun hfields => ?_
  refine .u16 hfields (by decide) fun hfields => .u16 hfields (by decide) fun hfields => ?_
  refine .u16 hfields (by decide) fun hitems => .bind (a := ()) (.require ?_) ?_
  · have hroom : record + nodeHeaderSize + startSize + attributes.length * attributeSize ≤
        record + (nodeHeaderSize + startSize + attributeSize * attributes.length) := by
      rw [Nat.mul_comm]
      omega
    simp [hlength, hroom]
  refine .bind (lookupOptional_reads hpool huri) (.bind (lookup_reads hpool hname) ?_)
  have hcount : attributes.length = (attributes.map SourceAttribute.toAttribute).length := by simp
  rw [hcount]
  refine .bind_finds (.rows fun i hi => ?_) fun cursor => .pure _
  have hi' : i < attributes.length := by simpa using hi
  have hmem : attributes[i] ∈ attributes := List.getElem_mem hi'
  rw [List.getElem_map]
  exact .goTo (Attribute.read_reads hpool
    (hitems.row (fun a _ => SourceAttribute.length_encode a) i hi') (hfits _ hmem)
    (hattributes _ hmem)).result

/-- The record of a text is read as that text. -/
theorem readText_finds (hpool : Pools pool strings)
    (h : Holds buffer record (encodeText strings s)) (hs : s ∈ strings) :
    (Event.read pool record textTag (encodeText strings s).length).Finds buffer (.text s) := by
  have hindex := hpool.idxOf_lt hs
  have hfields := holds_recordBody h
  simp only [wordBytes_cons, wordBytes_nil, List.append_assoc, List.nil_append] at hfields
  simp only [noIndex] at hindex
  unfold Event.read
  rw [if_neg (by decide), if_neg (by decide), if_neg (by decide), if_pos rfl]
  exact .goTo (.u32 hfields (by omega) fun _ => .bind (lookup_reads hpool hs) (.pure _))

/-- The record of the end of an element is read as an end. -/
theorem readEnd_finds (size : Nat) :
    (Event.read pool record elementEndTag size).Finds buffer .finish := by
  unfold Event.read
  rw [if_neg (by decide), if_pos rfl]
  exact .goTo (.pure _)

/-- The record of the end of a namespace is read as the end of the document. -/
theorem readDocumentEnd_finds (size : Nat) :
    (Event.read pool record documentEndTag size).Finds buffer .documentEnd := by
  unfold Event.read
  rw [if_neg (by decide), if_neg (by decide), if_pos rfl]
  exact .goTo (.pure _)

end Events

section Steps

/-! ## One record at a time -/

variable {pool : StringPool} {fileSize record tag size : Nat} {started : Bool}
variable {b b' r : Builder} {event : Event} {buffer : Bytes} {body rest : List UInt8}

/-- The building stops at the end of the document. -/
theorem readRecords_stop (started : Bool) (b : Builder) :
    (readRecords pool fileSize started b fileSize).Finds buffer b := by
  rw [readRecords, dif_neg (Nat.lt_irrefl _)]
  exact .pure b

/-- A record before the first element is passed over. -/
theorem readRecords_skip (h : Holds buffer record (wordBytes [tag, size] ++ rest))
    (htag : tag < 0x100000000) (hsize : size < 0x100000000)
    (hleast : chunkHeaderSize ≤ size ∧ leastRecordSize tag ≤ size)
    (hfile : record + size ≤ fileSize) (hstart : tag ≠ elementStartTag)
    (hnext : (readRecords pool fileSize false b (record + size)).Finds buffer r) :
    (readRecords pool fileSize false b record).Finds buffer r := by
  have hinside : record < fileSize := by
    have hpositive := hleast.1
    simp only [chunkHeaderSize] at hpositive
    omega
  simp only [wordBytes_cons, wordBytes_nil, List.append_assoc, List.nil_append] at h
  rw [readRecords, dif_pos hinside]
  refine .goTo (.u32 h htag fun h => .u32 h hsize fun _ => ?_)
  rw [dif_pos ⟨hleast.1, hfile, hleast.2⟩, if_pos (by simpa using hstart)]
  exact .bind (.note _) (hnext _)

/-- A record has the effect of its event, and the building goes on behind it. -/
theorem readRecords_record (h : Holds buffer record (encodeRecord tag body))
    (htag : tag < 0x100000000) (hleast : leastRecordSize tag ≤ nodeHeaderSize + body.length)
    (hfile : record + (encodeRecord tag body).length ≤ fileSize)
    (hsize : fileSize < 0x100000000) (hstart : started = true ∨ tag = elementStartTag)
    (hevent : (Event.read pool record tag (encodeRecord tag body).length).Finds buffer event)
    (happly : b.apply record event = .ok b')
    (hnext : if event = .documentEnd then r = b'
      else (readRecords pool fileSize true b'
        (record + (encodeRecord tag body).length)).Finds buffer r) :
    (readRecords pool fileSize started b record).Finds buffer r := by
  rw [length_encodeRecord] at hfile hevent hnext
  have hinside : record < fileSize := by
    simp only [nodeHeaderSize] at hfile
    omega
  have hfields := h
  simp only [encodeRecord, wordBytes_cons, List.append_assoc] at hfields
  rw [readRecords, dif_pos hinside]
  refine .goTo (.u32 hfields htag fun hfields => .u32 hfields (by omega) fun _ => ?_)
  have hleastSize : chunkHeaderSize ≤ nodeHeaderSize + body.length := by
    simp only [chunkHeaderSize, nodeHeaderSize]
    omega
  have hread : ¬(!started && tag != elementStartTag) = true := by
    rcases hstart with rfl | rfl <;> simp
  rw [dif_pos ⟨hleastSize, hfile, hleast⟩, if_neg hread]
  refine .bind_finds hevent fun cursor => ?_
  rw [happly]
  dsimp only
  by_cases hend : event = .documentEnd
  · rw [if_pos hend] at hnext ⊢
    subst hnext
    exact .pure _
  · rw [if_neg hend] at hnext ⊢
    exact hnext _

end Steps

end ApkFormats.Xml
