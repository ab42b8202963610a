import ApkFormats.Proofs.Xml.Outline

/-!
# Elements that a document leaves open

The end of an element is refused where no element is open.  The opposite is not:
nothing asks, when the records come to their end, whether all elements have been
closed, neither at the end of the file nor at a record that ends the document.

* `Builder.runs_finishes`: as many ends as elements are open close them all and
  leave the root as it was;
* `Document.completed_of_decode`: an accepted document may lack ends, but has
  none too many, and its tree is the one that it has with these ends supplied;
* `Document.decode_unclosed`: documents that stop inside their root are accepted.
-/

namespace ApkFormats.Xml

namespace Builder

variable {b b' r : Builder} {events later : List Event}

theorem Runs.append (h : b.Runs events b') (hlater : b'.Runs later r) :
    b.Runs (events ++ later) r := by
  induction h with
  | nil b => exact hlater
  | cons hstep _ ih => exact .cons hstep (ih hlater)

/-- The first of some events lead somewhere too. -/
theorem Runs.take (h : b.Runs events r) (k : Nat) : ∃ mid, b.Runs (events.take k) mid := by
  induction h generalizing k with
  | nil b =>
      rw [List.take_nil]
      exact ⟨b, .nil b⟩
  | cons hstep _ ih =>
      cases k with
      | zero => exact ⟨_, .nil _⟩
      | succ k =>
          obtain ⟨mid, hmid⟩ := ih k
          exact ⟨mid, .cons hstep hmid⟩

/-- The end of the innermost open element closes it and leaves the root as it was. -/
theorem exists_apply_finish {e : Element} {outer : List Element} (h : b.opened = e :: outer) :
    ∃ b', b.apply 0 .finish = .ok b' ∧ b'.opened.length = outer.length ∧ b'.root? = b.root? := by
  obtain ⟨opened, finished⟩ := b
  cases h
  cases outer with
  | nil => exact ⟨_, rfl, rfl, rfl⟩
  | cons parent outer => exact ⟨_, rfl, rfl, rfl⟩

/-- As many ends as elements are open close them all and leave the root as it was. -/
theorem runs_finishes (b : Builder) :
    b.Runs (List.replicate b.opened.length .finish) ⟨[], b.root?⟩ := by
  -- Each end closes one element, so the induction is on how many are open.
  induction hlength : b.opened.length generalizing b with
  | zero =>
      obtain ⟨opened, finished⟩ := b
      cases List.length_eq_zero_iff.mp hlength
      exact .nil _
  | succ n ih =>
      obtain ⟨e, outer, hopened⟩ := List.exists_cons_of_length_eq_add_one hlength
      obtain ⟨b', happly, hleft, hroot⟩ := exists_apply_finish hopened
      rw [hopened, List.length_cons] at hlength
      rw [List.replicate_succ, ← hroot]
      exact .cons happly (ih b' (by omega))

end Builder

/-- The elements that have started are those that have ended and those that are open. -/
theorem depth_of_runs {events : List Event} {b : Builder} (h : Builder.empty.Runs events b) :
    starts events = finishes events + b.opened.length := by
  have hdepth := (sketches_of_runs .empty h).depth
  rw [List.nil_append] at hdepth
  omega

section Records

variable {buffer : Bytes} {pool : StringPool} {records : List Record} {events : List Event}

/-- The records of elements' ends are those that stand for the events that end elements. -/
theorem isFinish_of_event {r : Record} {e : Event} (h : r.event buffer pool = .ok e) :
    e.isFinish = (r.tag == elementEndTag) := by
  by_cases hstart : r.tag = elementStartTag
  · have hisStart : e.isStart = true := by rw [isStart_of_event h, hstart, beq_self_eq_true]
    rw [Event.not_isFinish hisStart, hstart]
    rfl
  · rw [Record.event, if_neg hstart] at h
    by_cases hfinish : r.tag = elementEndTag
    · rw [if_pos hfinish] at h
      cases h
      rw [hfinish, beq_self_eq_true]
      rfl
    · rw [if_neg hfinish] at h
      rw [beq_eq_false_iff_ne.mpr hfinish]
      split at h
      · obtain ⟨content, -, rfl⟩ := map_eq_ok_iff.mp h
        rfl
      · cases h
        rfl

theorem finishes_of_records (h : records.mapM (Record.event buffer pool) = .ok events) :
    finishes events = records.countP fun r => r.tag == elementEndTag :=
  countP_of_records (fun _ _ => isFinish_of_event) h

/-- The first of some records stand for the first of their events. -/
theorem mapM_take (h : records.mapM (Record.event buffer pool) = .ok events) (k : Nat) :
    (records.take k).mapM (Record.event buffer pool) = .ok (events.take k) :=
  mapM_ok (List.forall₂_take k (forall₂_of_mapM h))

end Records

namespace Document

/-- An accepted document may lack ends of elements, but at no place has it one too many, and its
tree is the one that its records build when the missing ends are supplied behind them. -/
theorem completed_of_decode {buffer : Bytes} {d : Document} (h : decode buffer = .ok d) :
    (∀ k, ((d.records buffer).take k).countP (fun r => r.tag == elementEndTag) ≤
      ((d.records buffer).take k).countP (fun r => r.tag == elementStartTag)) ∧
    ∃ events missing, (d.records buffer).mapM (Record.event buffer d.pool) = .ok events ∧
      (d.records buffer).countP (fun r => r.tag == elementStartTag) =
        (d.records buffer).countP (fun r => r.tag == elementEndTag) + missing ∧
      Builder.empty.Runs (events ++ List.replicate missing .finish) ⟨[], some d.root⟩ := by
  obtain ⟨-, -, -, b, events, hevents, hruns, hroot⟩ := runs_of_decode h
  constructor
  · intro k
    obtain ⟨mid, hmid⟩ := hruns.take k
    have hfirst := mapM_take hevents k
    rw [← finishes_of_records hfirst, ← starts_of_records hfirst, depth_of_runs hmid]
    exact Nat.le_add_right _ _
  · refine ⟨events, b.opened.length, hevents, ?_, ?_⟩
    · rw [← starts_of_records hevents, ← finishes_of_records hevents, depth_of_runs hruns]
    · rw [← hroot]
      exact hruns.append b.runs_finishes

/-- A document whose root starts, with some records behind that. -/
def rootAnd (rest : List UInt8) : Bytes :=
  let pool := ["manifest"]
  let body := StringPool.encode true pool ++ encodeStart pool none "manifest" [] ++ rest
  (magic ++ wordBytes [chunkHeaderSize + body.length] ++ body).toArray

/-- A document whose records stop behind the start of its root. -/
def cutOff : Bytes :=
  rootAnd []

/-- A document that is ended by a record before its root is. -/
def endedEarly : Bytes :=
  rootAnd (encodeRecord documentEndTag [] ++ encodeEnd ["manifest"] none "manifest")

theorem decode_cutOff :
    ∃ d, decode cutOff = .ok d ∧
      (d.records cutOff).countP (fun r => r.tag == elementStartTag) = 1 ∧
      (d.records cutOff).countP (fun r => r.tag == elementEndTag) = 0 := by
  have haccepted : (decode cutOff).toOption.any (fun d =>
      (d.records cutOff).countP (fun r => r.tag == elementStartTag) = 1 ∧
        (d.records cutOff).countP (fun r => r.tag == elementEndTag) = 0) = true := by
    decide +kernel
  obtain ⟨d, hdecode, hcounts⟩ := exists_ok_of_any haccepted
  exact ⟨d, hdecode, of_decide_eq_true hcounts⟩

/-- The tree of a document that is cut off is the one that it has with one end behind it. -/
theorem completed_of_decode_cutOff :
    ∃ d, decode cutOff = .ok d ∧ ∃ events,
      (d.records cutOff).mapM (Record.event cutOff d.pool) = .ok events ∧
        Builder.empty.Runs (events ++ [.finish]) ⟨[], some d.root⟩ := by
  obtain ⟨d, hdecode, hstarts, hends⟩ := decode_cutOff
  obtain ⟨-, events, missing, hevents, hmissing, hruns⟩ := completed_of_decode hdecode
  have hone : missing = 1 := by omega
  subst hone
  exact ⟨d, hdecode, events, hevents, hruns⟩

/-- A document that stops inside its root is accepted, where its records stop at the end of the
file and where they stop at a record that ends the document: one element has started and none has
ended. -/
theorem decode_unclosed :
    (∃ d, decode cutOff = .ok d ∧
      (d.records cutOff).countP (fun r => r.tag == elementStartTag) = 1 ∧
      (d.records cutOff).countP (fun r => r.tag == elementEndTag) = 0) ∧
    ∃ d, decode endedEarly = .ok d ∧
      (d.records endedEarly).countP (fun r => r.tag == elementStartTag) = 1 ∧
      (d.records endedEarly).countP (fun r => r.tag == elementEndTag) = 0 := by
  have hearly : (decode endedEarly).toOption.any (fun d =>
      (d.records endedEarly).countP (fun r => r.tag == elementStartTag) = 1 ∧
        (d.records endedEarly).countP (fun r => r.tag == elementEndTag) = 0) = true := by
    decide +kernel
  obtain ⟨d, hdecode, hcounts⟩ := exists_ok_of_any hearly
  exact ⟨decode_cutOff, d, hdecode, of_decide_eq_true hcounts⟩

end Document

end ApkFormats.Xml
