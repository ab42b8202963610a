import ApkFormats.Proofs.Success
import ApkFormats.Xml.Document

/-!
# The records of an accepted document

The body of a document is a row of records: each starts with its tag and its
size, and the next one stands where it ends.  `recordsFrom` lists them straight
from the bytes, and `Document.records` picks those that make the tree: from the
first start of an element up to the end of the document.  `Record.event` is what
a record means, every field taken from its offset in the record.

* `readRecords_cases`: all that one round of reading can do;
* `readRecords_run`: the records that are read all have a meaning, the tree is
  built by applying their events in the order of the file, and nothing but an
  end of the document keeps them from reaching the end of the file;
* `Document.runs_of_decode`: the same for an accepted document as a whole.
-/

namespace ApkFormats.Xml

/-- A record of a document. -/
structure Record where
  position : Nat
  tag : Nat
  size : Nat
  deriving DecidableEq, Repr

/-- The records from a position on, as long as they start before an end and have a size. -/
def recordsFrom (buffer : Bytes) (stop position : Nat) : List Record :=
  if _ : position < stop ∧ chunkHeaderSize ≤ numberAt 4 buffer (position + 4) then
    ⟨position, numberAt 4 buffer position, numberAt 4 buffer (position + 4)⟩ ::
      recordsFrom buffer stop (position + numberAt 4 buffer (position + 4))
  else []
termination_by stop - position
decreasing_by
  simp only [chunkHeaderSize] at *
  omega

/-- The bytes that some records take. -/
def totalSize : List Record → Nat
  | [] => 0
  | r :: rest => r.size + totalSize rest

/-- The records from the first start of an element on, or all when one has started before. -/
def fromFirstStart (started : Bool) (records : List Record) : List Record :=
  if started then records else records.dropWhile fun r => r.tag != elementStartTag

/-- The records that make a tree: from the first start of an element up to the end of the
document. -/
def treeRecords (started : Bool) (records : List Record) : List Record :=
  (fromFirstStart started records).takeWhile fun r => r.tag != documentEndTag

/-- Records from a position on that are enough for a tree: an end of the document follows those
that make it, or they reach the end of the file. -/
def Sufficient (started : Bool) (records : List Record) (position fileSize : Nat) : Prop :=
  treeRecords started records ≠ fromFirstStart started records ∨
    fileSize ≤ position + totalSize records

/-- The records that make the tree of a document. -/
def Document.records (d : Document) (buffer : Bytes) : List Record :=
  treeRecords false (recordsFrom buffer d.fileSize d.pool.header.stop)

/-- The string of an index word, unless the word stands for none. -/
def optionalAt (pool : StringPool) (index : Nat) : Except IndexFault (Option String) :=
  if index = noIndex then .ok none else (pool.stringAt index).map some

/-- The attribute at an offset: namespace, name, raw string, type flags and number. -/
def attributeAt (buffer : Bytes) (pool : StringPool) (offset : Nat) :
    Except IndexFault Attribute := do
  let uri ← optionalAt pool (numberAt 4 buffer offset)
  let name ← pool.stringAt (numberAt 4 buffer (offset + 4))
  let value ← Value.ofAttribute (numberAt 4 buffer (offset + 8)) (numberAt 4 buffer (offset + 12))
    (numberAt 4 buffer (offset + 16)) pool
  .ok ⟨uri, name, value⟩

/-- What the record of an element's start means: its attributes stand in a row, with an offset,
a distance and a number that the record gives. -/
def startAt (buffer : Bytes) (pool : StringPool) (body : Nat) : Except IndexFault Event := do
  let uri ← optionalAt pool (numberAt 4 buffer body)
  let name ← pool.stringAt (numberAt 4 buffer (body + 4))
  let first := body + numberAt 2 buffer (body + 8)
  let stride := numberAt 2 buffer (body + 10)
  let attributes ← (List.range (numberAt 2 buffer (body + 12))).mapM fun i =>
    attributeAt buffer pool (first + i * stride)
  .ok (.start name uri attributes)

/-- What a record means for the tree. -/
def Record.event (buffer : Bytes) (pool : StringPool) (r : Record) : Except IndexFault Event :=
  if r.tag = elementStartTag then startAt buffer pool (r.position + nodeHeaderSize)
  else if r.tag = elementEndTag then .ok .finish
  else if r.tag = textTag then
    (pool.stringAt (numberAt 4 buffer (r.position + nodeHeaderSize))).map .text
  else .ok .ignored

/-- A tree under construction goes from one state to another by some events. -/
inductive Builder.Runs : Builder → List Event → Builder → Prop
  | nil (b : Builder) : Runs b [] b
  | cons {b b' r : Builder} {record : Nat} {event : Event} {rest : List Event}
      (step : b.apply record event = .ok b') (run : Runs b' rest r) : Runs b (event :: rest) r

section Meaning

/-! ## Records are read as what they mean -/

variable {pool : StringPool} {buffer : Bytes} {record tag size start stop : Nat}

@[simp] theorem reads_lookup_iff {index : Nat} {s : String} :
    (lookup pool record index).Reads buffer start s stop ↔
      pool.stringAt index = .ok s ∧ start = stop := by
  unfold lookup
  cases pool.stringAt index <;> simp

@[simp] theorem reads_lookupOptional_iff {index : Nat} {uri : Option String} :
    (lookupOptional pool record index).Reads buffer start uri stop ↔
      optionalAt pool index = .ok uri ∧ start = stop := by
  unfold lookupOptional optionalAt
  by_cases hnone : index = noIndex
  · simp [hnone]
  · simp only [if_neg hnone, Decoder.reads_bind_iff, reads_lookup_iff, Decoder.reads_pure_iff]
    cases pool.stringAt index with
    | error fault => simp [Except.map]
    | ok s => simp [Except.map]

theorem attributeAt_of_reads {a : Attribute}
    (h : (Attribute.read pool record).Reads buffer start a stop) :
    attributeAt buffer pool start = .ok a := by
  unfold Attribute.read at h
  simp only [Decoder.reads_u32_bind_iff, Nat.add_assoc, Nat.reduceAdd] at h
  obtain ⟨-, -, -, -, -, h⟩ := h
  obtain ⟨name, _, hname, h⟩ := Decoder.reads_bind_iff.mp h
  obtain ⟨uri, _, huri, h⟩ := Decoder.reads_bind_iff.mp h
  rw [reads_lookup_iff] at hname
  rw [reads_lookupOptional_iff] at huri
  split at h
  · rename_i value hvalue
    rw [Decoder.reads_pure_iff] at h
    rw [attributeAt, huri.1, hname.1, ← h.1]
    simp only [bind, Except.bind, hvalue]
  · exact absurd h Decoder.not_reads_fail

theorem startAt_of_reads {event : Event}
    (h : (Event.readStart pool record size).Reads buffer (record + nodeHeaderSize) event stop) :
    startAt buffer pool (record + nodeHeaderSize) = .ok event ∧ event ≠ .documentEnd := by
  unfold Event.readStart at h
  simp only [Decoder.reads_u32_bind_iff, Decoder.reads_u16_bind_iff,
    Decoder.reads_require_bind_iff, Nat.add_assoc, Nat.reduceAdd] at h
  obtain ⟨-, -, -, -, -, -, -, -, -, h⟩ := h
  obtain ⟨uri, _, huri, h⟩ := Decoder.reads_bind_iff.mp h
  obtain ⟨name, _, hname, h⟩ := Decoder.reads_bind_iff.mp h
  obtain ⟨attributes, _, hattributes, h⟩ := Decoder.reads_bind_iff.mp h
  rw [reads_lookupOptional_iff] at huri
  rw [reads_lookup_iff] at hname
  rw [Decoder.reads_pure_iff] at h
  have hrows := mapM_ok ((Decoder.forall₂_of_reads_each hattributes).imp fun i a hread => by
    obtain ⟨from', to', hread⟩ := hread
    exact attributeAt_of_reads (Decoder.reads_goTo_bind_iff.mp hread))
  rw [← h.1, startAt, huri.1]
  simp only [bind, Except.bind, Nat.add_assoc, hname.1, hrows]
  exact ⟨trivial, by simp⟩

/-- A record is read as what it means, and as the end of the document when it is that. -/
theorem event_of_reads {event : Event}
    (h : (Event.read pool record tag size).Reads buffer start event stop) :
    if tag = documentEndTag then event = .documentEnd
    else event ≠ .documentEnd ∧ Record.event buffer pool ⟨record, tag, size⟩ = .ok event := by
  unfold Event.read at h
  rw [Decoder.reads_goTo_bind_iff] at h
  rcases Decoder.reads_ite_iff.mp h with ⟨rfl, h⟩ | ⟨hstart, h⟩
  · rw [if_neg (by decide), Record.event, if_pos rfl]
    exact (startAt_of_reads h).symm
  rcases Decoder.reads_ite_iff.mp h with ⟨rfl, h⟩ | ⟨hfinish, h⟩
  · rw [if_neg (by decide), ← (Decoder.reads_pure_iff.mp h).1]
    exact ⟨by simp, rfl⟩
  rcases Decoder.reads_ite_iff.mp h with ⟨rfl, h⟩ | ⟨hend, h⟩
  · rw [if_pos rfl]
    exact (Decoder.reads_pure_iff.mp h).1.symm
  rw [if_neg hend, Record.event, if_neg hstart, if_neg hfinish]
  rcases Decoder.reads_ite_iff.mp h with ⟨rfl, h⟩ | ⟨htext, h⟩
  · obtain ⟨-, h⟩ := Decoder.reads_u32_bind_iff.mp h
    obtain ⟨content, _, hcontent, h⟩ := Decoder.reads_bind_iff.mp h
    rw [if_pos rfl, (reads_lookup_iff.mp hcontent).1, ← (Decoder.reads_pure_iff.mp h).1]
    exact ⟨by simp, rfl⟩
  rcases Decoder.reads_ite_iff.mp h with ⟨-, h⟩ | ⟨-, h⟩
  · rw [Decoder.reads_note_bind_iff] at h
    rw [if_neg htext, ← (Decoder.reads_pure_iff.mp h).1]
    exact ⟨by simp, rfl⟩
  · exact absurd h Decoder.not_reads_fail

end Meaning

section Runs

/-! ## From records to the tree -/

variable {pool : StringPool} {buffer : Bytes} {fileSize record start stop : Nat}
variable {started : Bool} {b r : Builder}

/-- One round of reading finds the end of the records, passes a record over before the first
element, or applies the event of a record. -/
theorem readRecords_cases
    (h : (readRecords pool fileSize started b record).Reads buffer start r stop) :
    (fileSize ≤ record ∧ b = r) ∨
      ∃ tag size, numberAt 4 buffer record = tag ∧ numberAt 4 buffer (record + 4) = size ∧
        record < fileSize ∧ chunkHeaderSize ≤ size ∧ record + size ≤ fileSize ∧
        leastRecordSize tag ≤ size ∧
        ((started = false ∧ tag ≠ elementStartTag ∧ ∃ cursor,
            (readRecords pool fileSize false b (record + size)).Reads buffer cursor r stop) ∨
          ((started = true ∨ tag = elementStartTag) ∧ ∃ event b' from' cursor,
            (Event.read pool record tag size).Reads buffer from' event cursor ∧
            b.apply record event = .ok b' ∧
            if event = .documentEnd then b' = r
            else
              (readRecords pool fileSize true b' (record + size)).Reads buffer cursor r stop)) := by
  rw [readRecords] at h
  split at h
  · rename_i hinside
    simp only [Decoder.reads_goTo_bind_iff, Decoder.reads_u32_bind_iff] at h
    obtain ⟨-, -, h⟩ := h
    generalize htag : numberAt 4 buffer record = tag at h ⊢
    generalize hsize : numberAt 4 buffer (record + 4) = size at h ⊢
    split at h
    · rename_i hroom
      refine .inr ⟨tag, size, rfl, rfl, hinside, hroom.1, hroom.2.1, hroom.2.2, ?_⟩
      split at h
      · rename_i hskip
        simp only [Bool.and_eq_true, Bool.not_eq_true', bne_iff_ne] at hskip
        rw [Decoder.reads_note_bind_iff] at h
        exact .inl ⟨hskip.1, hskip.2, _, h⟩
      · rename_i hread
        have hstarted : started = true ∨ tag = elementStartTag := by
          cases started <;> simp_all
        obtain ⟨event, cursor, hevent, h⟩ := Decoder.reads_bind_iff.mp h
        cases happly : b.apply record event with
        | error fault =>
            rw [happly] at h
            exact absurd h Decoder.not_reads_fail
        | ok b' =>
            rw [happly] at h
            refine .inr ⟨hstarted, event, b', _, cursor, hevent, happly, ?_⟩
            by_cases hend : event = .documentEnd
            · simp only [if_pos hend, Decoder.reads_pure_iff] at h ⊢
              exact h.1
            · simpa only [if_neg hend] using h
    · exact absurd h Decoder.not_reads_fail
  · rename_i houtside
    rw [Decoder.reads_pure_iff] at h
    exact .inl ⟨Nat.le_of_not_lt houtside, h.1⟩

section Kept

/-! ### The tree's records when one record more stands in front -/

variable {first : Record} {records : List Record}

theorem fromFirstStart_skip (h : first.tag ≠ elementStartTag) :
    fromFirstStart false (first :: records) = fromFirstStart false records := by
  simp [fromFirstStart, h]

theorem fromFirstStart_start (h : started = true ∨ first.tag = elementStartTag) :
    fromFirstStart started (first :: records) = first :: fromFirstStart true records := by
  rcases h with rfl | h
  · rfl
  · cases started <;> simp [fromFirstStart, h]

theorem treeRecords_skip (h : first.tag ≠ elementStartTag) :
    treeRecords false (first :: records) = treeRecords false records := by
  rw [treeRecords, fromFirstStart_skip h, treeRecords]

theorem treeRecords_end (hstarted : started = true ∨ first.tag = elementStartTag)
    (hend : first.tag = documentEndTag) : treeRecords started (first :: records) = [] := by
  rw [treeRecords, fromFirstStart_start hstarted]
  exact List.takeWhile_cons_of_neg (by simp [hend])

theorem treeRecords_cons (hstarted : started = true ∨ first.tag = elementStartTag)
    (hend : first.tag ≠ documentEndTag) :
    treeRecords started (first :: records) = first :: treeRecords true records := by
  rw [treeRecords, fromFirstStart_start hstarted, treeRecords]
  exact List.takeWhile_cons_of_pos (by simp [hend])

theorem sufficient_skip {fileSize position : Nat} (h : first.tag ≠ elementStartTag)
    (hrest : Sufficient false records (position + first.size) fileSize) :
    Sufficient false (first :: records) position fileSize := by
  rw [Sufficient, treeRecords_skip h, fromFirstStart_skip h]
  refine hrest.imp_right fun hall => ?_
  rw [totalSize]
  omega

theorem sufficient_cons {fileSize position : Nat}
    (hstarted : started = true ∨ first.tag = elementStartTag) (hend : first.tag ≠ documentEndTag)
    (hrest : Sufficient true records (position + first.size) fileSize) :
    Sufficient started (first :: records) position fileSize := by
  rw [Sufficient, treeRecords_cons hstarted hend, fromFirstStart_start hstarted]
  refine hrest.imp (fun hcut hsame => hcut (List.cons.inj hsame).2) fun hall => ?_
  rw [totalSize]
  omega

end Kept

/-- The records that are read all have a meaning, and their events lead from the tree before them
to the tree after them.

The induction is on the bytes that are left of the document. -/
theorem readRecords_run
    (h : (readRecords pool fileSize started b record).Reads buffer start r stop) :
    Sufficient started (recordsFrom buffer fileSize record) record fileSize ∧
      ∃ events, (treeRecords started (recordsFrom buffer fileSize record)).mapM
        (Record.event buffer pool) = .ok events ∧ b.Runs events r := by
  induction hleft : fileSize - record using Nat.strongRecOn
    generalizing started b record start with
  | ind left ih =>
      rcases readRecords_cases h with ⟨hend, rfl⟩ |
        ⟨tag, size, htag, hsize, hinside, hleast, -, -, hcase⟩
      · have hnone : recordsFrom buffer fileSize record = [] := by
          rw [recordsFrom, dif_neg (by omega)]
        have htree : treeRecords started [] = [] := by
          cases started <;> rfl
        rw [hnone, htree]
        exact ⟨.inr (by omega), [], rfl, .nil b⟩
      have hfirst : recordsFrom buffer fileSize record =
          ⟨record, tag, size⟩ :: recordsFrom buffer fileSize (record + size) := by
        rw [recordsFrom, dif_pos ⟨hinside, hsize ▸ hleast⟩, htag, hsize]
      have hshorter : fileSize - (record + size) < left := by
        simp only [chunkHeaderSize] at hleast
        omega
      rw [hfirst]
      rcases hcase with ⟨rfl, hskip, cursor, hrest⟩ |
        ⟨hstarted, event, b', from', cursor, hevent, happly, hrest⟩
      · obtain ⟨henough, events, hevents, hruns⟩ := ih _ hshorter hrest rfl
        rw [treeRecords_skip hskip]
        exact ⟨sufficient_skip hskip henough, events, hevents, hruns⟩
      have hmeaning := event_of_reads hevent
      by_cases hend : tag = documentEndTag
      · rw [if_pos hend] at hmeaning
        subst hmeaning
        rw [if_pos rfl] at hrest
        have hsame : b = b' := Except.ok.inj happly
        rw [Sufficient, treeRecords_end hstarted hend, fromFirstStart_start hstarted, ← hrest,
          hsame]
        exact ⟨.inl (by simp), [], rfl, .nil b'⟩
      · rw [if_neg hend] at hmeaning
        rw [if_neg hmeaning.1] at hrest
        obtain ⟨henough, events, hevents, hruns⟩ := ih _ hshorter hrest rfl
        refine ⟨sufficient_cons hstarted hend henough, event :: events, ?_, .cons happly hruns⟩
        rw [treeRecords_cons hstarted hend, List.mapM_cons, hmeaning.2, hevents]
        rfl

/-- A document is accepted exactly when its fixed bytes and its size stand in front, its pool can be
read behind them, and its records build a tree. -/
theorem Document.decode_eq_ok_iff {d : Document} :
    Document.decode buffer = .ok d ↔
      8 ≤ buffer.size ∧ (buffer.extract 0 4).toList = magic ∧ d.fileSize = numberAt 4 buffer 4 ∧
        d.fileSize ≤ buffer.size ∧ ∃ cursor b last, StringPool.read.Reads buffer 8 d.pool cursor ∧
          (readRecords d.pool d.fileSize false .empty d.pool.header.stop).Reads buffer cursor b
            last ∧ b.root? = some d.root := by
  have hreads : Document.decode buffer = .ok d ↔ ∃ last, read.Reads buffer 0 d last := by
    rw [Document.decode, mapError_eq_ok_iff]
    exact ⟨fun h => ⟨_, h, rfl⟩, fun ⟨_, h⟩ => h.result⟩
  rw [hreads]
  unfold read
  simp only [Decoder.fixed, bind_assoc, Decoder.reads_take_bind_iff,
    Decoder.reads_require_bind_iff, Decoder.reads_u32_bind_iff, Decoder.reads_bufferSize_bind_iff,
    beq_iff_eq, decide_eq_true_eq]
  have hlength : magic.length = 4 := rfl
  simp only [hlength, Nat.zero_add, Nat.reduceAdd]
  constructor
  · rintro ⟨last, -, hmagic, hroom, hsize, h⟩
    obtain ⟨pool, cursor, hpool, h⟩ := Decoder.reads_bind_iff.mp h
    obtain ⟨b, cursor', hrecords, hroot⟩ := Decoder.reads_bind_iff.mp h
    split at hroot
    · rename_i root hsome
      obtain ⟨rfl, -⟩ := Decoder.reads_pure_iff.mp hroot
      exact ⟨hroom, hmagic, rfl, hsize, cursor, b, cursor', hpool, hrecords, hsome⟩
    · exact absurd hroot Decoder.not_reads_fail
  · obtain ⟨fileSize, pool, root⟩ := d
    rintro ⟨hroom, hmagic, rfl, hsize, cursor, b, last, hpool, hrecords, hroot⟩
    refine ⟨last, by omega, hmagic, hroom, hsize, hpool.bind (hrecords.bind ?_)⟩
    rw [hroot]
    exact .pure _

/-- What an accepted document is decoded from: its declared size, the pool behind it and the tree
that the events of its records build. -/
theorem Document.runs_of_decode {d : Document} (h : Document.decode buffer = .ok d) :
    d.fileSize = numberAt 4 buffer 4 ∧ StringPool.read.Yields buffer 8 d.pool ∧
      Sufficient false (recordsFrom buffer d.fileSize d.pool.header.stop) d.pool.header.stop
        d.fileSize ∧
      ∃ b events, (d.records buffer).mapM (Record.event buffer d.pool) = .ok events ∧
        Builder.empty.Runs events b ∧ b.root? = some d.root := by
  obtain ⟨-, -, hsize, -, cursor, b, last, hpool, hrecords, hroot⟩ :=
    Document.decode_eq_ok_iff.mp h
  obtain ⟨henough, events, hevents, hruns⟩ := readRecords_run hrecords
  exact ⟨hsize, hpool.result, henough, b, events, hevents, hruns, hroot⟩

end Runs

end ApkFormats.Xml
