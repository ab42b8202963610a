import ApkFormats.Proofs.Xml.Nesting
import ApkFormats.Proofs.Xml.Numbering
import ApkFormats.Proofs.Xml.Stream
import ApkFormats.Xml.Source

/-!
# A document's tree is its stream of records

`outline` says what tree some events describe, without building one: a node for
every event that starts an element, in their order.  Its depth is the number of
starts before it less the number of ends, its parent is the innermost element
that is open there, and its text is the last one that is given while it is the
innermost open element itself.

* `Sketches.step`: the invariant of building a tree, for one event;
* `sketches_of_runs`: the invariant after any number of events;
* `Document.outline_of_decode`: the tree of an accepted document is the outline
  of the events that its records stand for.
-/

namespace ApkFormats.Xml

/-- The text that an event gives to the element that starts at a place. -/
def textFor (events : List Event) (place m : Nat) : Option String :=
  match events[m]? with
  | some (.text content) => if innermost? events m = some place then some content else none
  | _ => none

/-- The last text that is given to the element that starts at a place. -/
def lastText? (events : List Event) (place : Nat) : Option String :=
  ((List.range events.length).filterMap (textFor events place)).getLast?

/-- Number of the innermost element that is open before a place. -/
def parentAt? (events : List Event) (place : Nat) : Option Nat :=
  (innermost? events place).map fun p => starts (events.take p)

/-- The node of the element that starts at a place. -/
def nodeAt? (events : List Event) (place : Nat) : Option Node :=
  match events[place]? with
  | some (.start name uri attributes) =>
      some ⟨starts (events.take place) - finishes (events.take place),
        parentAt? events place, name, uri, attributes, lastText? events place⟩
  | _ => none

/-- The nodes that some events describe. -/
def outline (events : List Event) : List Node :=
  (List.range events.length).filterMap (nodeAt? events)

/-- A node with another text. -/
def Node.withText (content : Option String) (n : Node) : Node :=
  { n with text := content }

section Growth

/-! ## One event more -/

variable {events : List Event} {e : Event} {place : Nat}

theorem parentAt?_of_append (more : List Event) (hplace : place ≤ events.length) :
    parentAt? (events ++ more) place = parentAt? events place := by
  rw [parentAt?, parentAt?, innermost?_of_append more hplace]
  refine Option.map_congr fun p hp => ?_
  have hp : p < place := lt_of_innermost? hp
  rw [List.take_append_of_le_length (by omega)]

theorem textFor_append (more : List Event) {m : Nat} (hm : m < events.length) :
    textFor (events ++ more) place m = textFor events place m := by
  rw [textFor, textFor, List.getElem?_append_left hm, innermost?_of_append more (Nat.le_of_lt hm)]

theorem lastText?_append :
    lastText? (events ++ [e]) place =
      (textFor (events ++ [e]) place events.length).or (lastText? events place) := by
  have hsame : (List.range events.length).filterMap (textFor (events ++ [e]) place) =
      (List.range events.length).filterMap (textFor events place) :=
    List.filterMap_congr fun m hm => textFor_append [e] (List.mem_range.mp hm)
  rw [lastText?, List.length_append, List.length_singleton, List.range_succ, List.filterMap_append,
    hsame, lastText?]
  cases htext : textFor (events ++ [e]) place events.length <;> simp [htext]

/-- Only a text changes the text of an element, and only that of the innermost open one. -/
theorem textFor_last :
    textFor (events ++ [e]) place events.length =
      match e with
      | .text content =>
          if innermost? events events.length = some place then some content else none
      | _ => none := by
  rw [textFor, List.getElem?_concat_length, innermost?_of_append [e] (Nat.le_refl _)]
  cases e with
  | text content => rfl
  | _ => rfl

/-- An element has no text when nothing comes after its start. -/
theorem lastText?_of_last (hlast : events.length ≤ place + 1) : lastText? events place = none := by
  have hnone : (List.range events.length).filterMap (textFor events place) = [] := by
    rw [List.filterMap_eq_nil_iff]
    intro m hm
    have hm : m < events.length := List.mem_range.mp hm
    rw [textFor]
    split
    · refine if_neg fun hinner => ?_
      have := lt_of_innermost? hinner
      omega
    · rfl
  rw [lastText?, hnone]
  rfl

/-- A node differs from the one before the event only in its text. -/
theorem nodeAt?_append (hplace : place < events.length) :
    nodeAt? (events ++ [e]) place =
      (nodeAt? events place).map (Node.withText (lastText? (events ++ [e]) place)) := by
  rw [nodeAt?, nodeAt?, List.getElem?_append_left hplace]
  split
  · rw [parentAt?_of_append [e] (Nat.le_of_lt hplace),
      List.take_append_of_le_length (Nat.le_of_lt hplace)]
    rfl
  · rfl

theorem nodeAt?_keep (hplace : place < events.length)
    (hkeep : textFor (events ++ [e]) place events.length = none) :
    nodeAt? (events ++ [e]) place = nodeAt? events place := by
  rw [nodeAt?_append hplace, lastText?_append, hkeep, Option.none_or]
  unfold nodeAt?
  split
  · rfl
  · rfl

theorem nodeAt?_text {content : String} (hplace : place < events.length)
    (hinner : innermost? events events.length = some place) :
    nodeAt? (events ++ [.text content]) place =
      (nodeAt? events place).map (Node.withText (some content)) := by
  rw [nodeAt?_append hplace, lastText?_append, textFor_last]
  simp only [if_pos hinner, Option.some_or]

theorem isSome_nodeAt? : (nodeAt? events place).isSome = (events[place]?).any Event.isStart := by
  rw [nodeAt?]
  cases events[place]? with
  | none => rfl
  | some e => cases e <;> rfl

/-- Every event that starts an element has one node. -/
theorem length_nodes_before (m : Nat) :
    ((List.range m).filterMap (nodeAt? events)).length = starts (events.take m) := by
  induction m with
  | zero => rfl
  | succ m ih =>
      have hsome : (nodeAt? events m).isSome = (events[m]?).any Event.isStart := isSome_nodeAt?
      rw [List.range_succ, List.filterMap_append, List.length_append, ih, List.take_add_one,
        starts_append, List.filterMap_cons, List.filterMap_nil]
      congr 1
      cases hnode : nodeAt? events m with
      | none =>
          rw [hnode] at hsome
          cases he : events[m]? with
          | none => rfl
          | some e =>
              rw [he, Option.any_some] at hsome
              simp [← hsome]
      | some n =>
          rw [hnode] at hsome
          cases he : events[m]? with
          | none => simp [he] at hsome
          | some e =>
              rw [he, Option.any_some] at hsome
              simp [← hsome]

theorem length_outline (events : List Event) : (outline events).length = starts events := by
  rw [outline, length_nodes_before, List.take_length]

/-- An event that gives no text to an open element leaves the nodes as they are and adds the one
that it starts. -/
theorem outline_append
    (hkeep : ∀ place < events.length, textFor (events ++ [e]) place events.length = none) :
    outline (events ++ [e]) =
      outline events ++ (nodeAt? (events ++ [e]) events.length).toList := by
  have hsame : (List.range events.length).filterMap (nodeAt? (events ++ [e])) = outline events :=
    List.filterMap_congr fun place hplace =>
      have hplace := List.mem_range.mp hplace
      nodeAt?_keep hplace (hkeep place hplace)
  rw [outline, List.length_append, List.length_singleton, List.range_succ, List.filterMap_append,
    hsame]
  cases hnode : nodeAt? (events ++ [e]) events.length <;> simp [hnode]

/-- A text becomes that of the innermost open element and of no other. -/
theorem outline_text (content : String)
    (hinner : innermost? events events.length = some place) :
    ∃ front n back, outline events = front ++ n :: back ∧
      front.length = starts (events.take place) ∧
      outline (events ++ [.text content]) = front ++ n.withText (some content) :: back := by
  have hplace : place < events.length := lt_of_innermost? hinner
  obtain ⟨name, uri, attributes, hstart⟩ :=
    exists_start_of_mem_openPlaces (List.mem_of_head? hinner)
  obtain ⟨n, hn⟩ : ∃ n, nodeAt? events place = some n := by
    rw [nodeAt?, hstart]
    exact ⟨_, rfl⟩
  obtain ⟨more, hmore⟩ := Nat.exists_eq_add_of_lt hplace
  have hsplit : List.range events.length =
      List.range place ++ place :: (List.range more).map (place + 1 + ·) := by
    rw [hmore, Nat.add_right_comm, List.range_add, List.range_succ, List.append_assoc]
    rfl
  have hkeep : ∀ m < events.length, m ≠ place →
      nodeAt? (events ++ [.text content]) m = nodeAt? events m := by
    intro m hm hother
    refine nodeAt?_keep hm ?_
    rw [textFor_last]
    simp only [hinner, Option.some.injEq, if_neg (Ne.symm hother)]
  have hlast : nodeAt? (events ++ [.text content]) events.length = none := by
    rw [nodeAt?, List.getElem?_concat_length]
  refine ⟨(List.range place).filterMap (nodeAt? events), n,
    ((List.range more).map (place + 1 + ·)).filterMap (nodeAt? events), ?_,
    length_nodes_before place, ?_⟩
  · rw [outline, hsplit, List.filterMap_append, List.filterMap_cons_some hn]
  · have hfront : (List.range place).filterMap (nodeAt? (events ++ [.text content])) =
        (List.range place).filterMap (nodeAt? events) := by
      refine List.filterMap_congr fun m hm => hkeep m ?_ ?_
      all_goals
        have := List.mem_range.mp hm
        omega
    have hback : ((List.range more).map (place + 1 + ·)).filterMap
          (nodeAt? (events ++ [.text content])) =
        ((List.range more).map (place + 1 + ·)).filterMap (nodeAt? events) := by
      refine List.filterMap_congr fun m hm => ?_
      obtain ⟨k, hk, rfl⟩ := List.mem_map.mp hm
      have := List.mem_range.mp hk
      exact hkeep _ (by omega) (by omega)
    have hnode : nodeAt? (events ++ [.text content]) place = some (n.withText (some content)) := by
      rw [nodeAt?_text hplace hinner, hn, Option.map_some]
    rw [outline, List.length_append, List.length_singleton, List.range_succ, hsplit,
      List.filterMap_append, List.filterMap_append, hfront, List.filterMap_cons_some hnode, hback,
      List.filterMap_cons_none hlast, List.filterMap_nil, List.append_nil]

end Growth

namespace Builder

section Steps

/-! ## What an event does to the nodes of a tree under construction -/

variable {b b' : Builder} {record : Nat}

theorem nodes_of_apply_start {name : String} {uri : Option String} {attributes : List Attribute}
    (h : b.apply record (.start name uri attributes) = .ok b') :
    b'.nodes = b.nodes ++ [⟨b.opened.length, (spineNumbers b.opened).head?, name, uri, attributes,
        none⟩] ∧
      spineNumbers b'.opened = b.nodes.length :: spineNumbers b.opened ∧
      b'.opened.length = b.opened.length + 1 := by
  -- Where nothing is open there is no root yet, or the event would have been refused.
  have hcases : b'.opened = ⟨name, uri, attributes, none, []⟩ :: b.opened ∧
      b.nodes = spineNodes b.opened := by
    obtain ⟨opened, finished⟩ := b
    cases opened with
    | nil =>
        cases finished with
        | none =>
            cases h
            exact ⟨rfl, rfl⟩
        | some root => cases h
    | cons e outer =>
        cases h
        exact ⟨rfl, nodes_of_opened rfl⟩
  obtain ⟨hopened, hnodes⟩ := hcases
  rw [nodes_of_opened hopened, hopened, hnodes]
  exact ⟨rfl, rfl, rfl⟩

theorem nodes_of_apply_finish (h : b.apply record .finish = .ok b') :
    b'.nodes = b.nodes ∧ spineNumbers b'.opened = (spineNumbers b.opened).tail ∧
      b.opened.length = b'.opened.length + 1 := by
  obtain ⟨opened, finished⟩ := b
  match opened with
  | [] => cases h
  | [e] =>
      cases h
      exact ⟨rfl, rfl, rfl⟩
  | e :: parent :: outer =>
      cases h
      refine ⟨?_, rfl, rfl⟩
      rw [nodes_of_opened rfl, nodes_of_opened rfl, spineNodes_addChild]

theorem nodes_of_apply_text {content : String} (h : b.apply record (.text content) = .ok b') :
    (b.opened = [] ∧ b' = b) ∨
      ∃ front n back, b.nodes = front ++ n :: back ∧
        (spineNumbers b.opened).head? = some front.length ∧
        b'.nodes = front ++ n.withText (some content) :: back ∧
        spineNumbers b'.opened = spineNumbers b.opened ∧
        b'.opened.length = b.opened.length := by
  obtain ⟨opened, finished⟩ := b
  cases opened with
  | nil =>
      cases h
      exact .inl ⟨rfl, rfl⟩
  | cons e outer =>
      cases h
      refine .inr ⟨spineNodes outer, e.node outer.length (spineNumbers outer).head?,
        Element.nodesBelow (outer.length + 1) (spineNodes outer).length
          ((spineNodes outer).length + 1) e.children, ?_, rfl, ?_, rfl, rfl⟩
      · rw [nodes_of_opened rfl, spineNodes, Element.nodesFrom_eq]
      · rw [nodes_of_opened rfl, spineNodes, Element.nodesFrom_eq]
        rfl

end Steps

end Builder

/-- A tree under construction has the nodes that the events before describe, and its open elements
are those of the events. -/
structure Sketches (events : List Event) (b : Builder) : Prop where
  nodes : b.nodes = outline events
  numbers : Builder.spineNumbers b.opened =
    (openPlaces events events.length).map fun p => starts (events.take p)
  depth : (b.opened.length : Int) = starts events - finishes events

namespace Sketches

variable {events : List Event} {e : Event} {b b' : Builder} {record : Nat}

theorem empty : Sketches [] Builder.empty :=
  ⟨rfl, rfl, rfl⟩

/-- The number of the innermost open element. -/
theorem head_numbers (h : Sketches events b) :
    (Builder.spineNumbers b.opened).head? = parentAt? events events.length := by
  rw [h.numbers, List.head?_map]
  rfl

/-- The numbers of open elements do not depend on what comes later. -/
theorem numbers_append (h : Sketches events b) :
    (openPlaces events events.length).map (fun p => starts ((events ++ [e]).take p)) =
      Builder.spineNumbers b.opened := by
  rw [h.numbers]
  refine List.map_congr_left fun p hp => ?_
  rw [List.take_append_of_le_length (Nat.le_of_lt (lt_of_mem_openPlaces hp))]

/-- An event that neither starts nor ends an element leaves the open elements as they are. -/
theorem of_same_open (h : Sketches events b) (hstart : e.isStart = false)
    (hfinish : e.isFinish = false) (hnodes : b'.nodes = outline (events ++ [e]))
    (hnumbers : Builder.spineNumbers b'.opened = Builder.spineNumbers b.opened)
    (hlength : b'.opened.length = b.opened.length) : Sketches (events ++ [e]) b' := by
  constructor
  · exact hnodes
  · rw [List.length_append, List.length_singleton, openPlaces_append, hstart, hfinish, hnumbers]
    exact h.numbers_append.symm
  · have hdepth := h.depth
    rw [starts_append, finishes_append, starts_singleton, finishes_singleton, hstart, hfinish]
    simp only [Bool.false_eq_true, if_false, Nat.add_zero]
    omega

theorem start {name : String} {uri : Option String} {attributes : List Attribute}
    (h : Sketches events b) (hstep : b.apply record (.start name uri attributes) = .ok b') :
    Sketches (events ++ [.start name uri attributes]) b' := by
  obtain ⟨hnodes, hnumbers, hlength⟩ := Builder.nodes_of_apply_start hstep
  have hdepth := h.depth
  constructor
  · have htext : lastText? (events ++ [.start name uri attributes]) events.length = none :=
      lastText?_of_last (by simp)
    rw [hnodes, h.nodes, outline_append fun place _ => textFor_last, nodeAt?,
      List.getElem?_concat_length, parentAt?_of_append _ (Nat.le_refl _), hdepth, h.head_numbers]
    simp only [List.take_left, htext]
    rfl
  · rw [List.length_append, List.length_singleton, openPlaces_append, hnumbers, h.nodes,
      length_outline]
    simp only [Event.isStart, if_true, List.map_cons, List.take_left, h.numbers_append]
  · simp only [starts_append, finishes_append, starts_singleton, finishes_singleton,
      Event.isStart, Event.isFinish, if_true, Bool.false_eq_true, if_false, hlength]
    omega

theorem finish (h : Sketches events b) (hstep : b.apply record .finish = .ok b') :
    Sketches (events ++ [.finish]) b' := by
  obtain ⟨hnodes, hnumbers, hlength⟩ := Builder.nodes_of_apply_finish hstep
  have hdepth := h.depth
  constructor
  · rw [hnodes, h.nodes, outline_append fun place _ => textFor_last, nodeAt?,
      List.getElem?_concat_length]
    exact (List.append_nil _).symm
  · rw [List.length_append, List.length_singleton, openPlaces_append, hnumbers,
      ← h.numbers_append (e := .finish)]
    exact List.map_tail.symm
  · simp only [starts_append, finishes_append, starts_singleton, finishes_singleton,
      Event.isStart, Event.isFinish, if_true, Bool.false_eq_true, if_false]
    omega

theorem text {content : String} (h : Sketches events b)
    (hstep : b.apply record (.text content) = .ok b') :
    Sketches (events ++ [.text content]) b' := by
  rcases Builder.nodes_of_apply_text hstep with
    ⟨hnone, rfl⟩ | ⟨front, n, back, hnodes, hinner, htext, hnumbers, hlength⟩
  · have hinner : innermost? events events.length = none := by
      have hhead := h.head_numbers
      rw [hnone] at hhead
      exact Option.map_eq_none_iff.mp hhead.symm
    refine h.of_same_open rfl rfl ?_ rfl rfl
    rw [h.nodes, outline_append fun place _ => by rw [textFor_last, hinner]; rfl, nodeAt?,
      List.getElem?_concat_length]
    exact (List.append_nil _).symm
  · rw [h.head_numbers, parentAt?, Option.map_eq_some_iff] at hinner
    obtain ⟨place, hplace, hfront⟩ := hinner
    obtain ⟨front', n', back', hold, hfront', hnew⟩ := outline_text content hplace
    -- Both sides give the text to the node with the same number, hence to the same node.
    rw [h.nodes, hold] at hnodes
    obtain ⟨rfl, hrest⟩ := List.append_inj hnodes (by rw [hfront', hfront])
    obtain ⟨rfl, rfl⟩ := List.cons.inj hrest
    exact h.of_same_open rfl rfl (by rw [htext, hnew]) hnumbers hlength

theorem other (h : Sketches events b) (he : e = .documentEnd ∨ e = .ignored)
    (hstep : b.apply record e = .ok b') : Sketches (events ++ [e]) b' := by
  have houtline : outline (events ++ [e]) = outline events := by
    rw [outline_append fun place _ => by rw [textFor_last]; rcases he with rfl | rfl <;> rfl,
      nodeAt?, List.getElem?_concat_length]
    rcases he with rfl | rfl
    · exact List.append_nil _
    · exact List.append_nil _
  have hsame : b = b' := by
    rcases he with rfl | rfl
    · exact Except.ok.inj hstep
    · exact Except.ok.inj hstep
  subst hsame
  rcases he with rfl | rfl
  · exact h.of_same_open rfl rfl (by rw [houtline, h.nodes]) rfl rfl
  · exact h.of_same_open rfl rfl (by rw [houtline, h.nodes]) rfl rfl

/-- The invariant of building a tree, for one event. -/
theorem step (h : Sketches events b) (hstep : b.apply record e = .ok b') :
    Sketches (events ++ [e]) b' := by
  cases e with
  | start name uri attributes => exact h.start hstep
  | finish => exact h.finish hstep
  | text content => exact h.text hstep
  | documentEnd => exact h.other (.inl rfl) hstep
  | ignored => exact h.other (.inr rfl) hstep

end Sketches

/-- The invariant of building a tree, for any number of events. -/
theorem sketches_of_runs {before events : List Event} {b b' : Builder} (h : Sketches before b)
    (hruns : b.Runs events b') : Sketches (before ++ events) b' := by
  induction hruns generalizing before with
  | nil b => rwa [List.append_nil]
  | cons hstep _ ih =>
      have hlater := ih (h.step hstep)
      rwa [List.append_assoc, List.singleton_append] at hlater

/-- The records of elements' starts are those that stand for the events that start elements. -/
theorem isStart_of_event {buffer : Bytes} {pool : StringPool} {r : Record} {e : Event}
    (h : r.event buffer pool = .ok e) : e.isStart = (r.tag == elementStartTag) := by
  rw [Record.event] at h
  by_cases hstart : r.tag = elementStartTag
  · rw [if_pos hstart, startAt] at h
    obtain ⟨uri, -, h⟩ := bind_eq_ok_iff.mp h
    obtain ⟨name, -, h⟩ := bind_eq_ok_iff.mp h
    obtain ⟨attributes, -, h⟩ := bind_eq_ok_iff.mp h
    cases h
    rw [hstart, beq_self_eq_true]
    rfl
  · rw [if_neg hstart] at h
    rw [beq_eq_false_iff_ne.mpr hstart]
    split at h
    · cases h
      rfl
    · split at h
      · obtain ⟨content, -, rfl⟩ := map_eq_ok_iff.mp h
        rfl
      · cases h
        rfl

/-- Events of a kind are as many as the records that stand for them. -/
theorem countP_of_records {buffer : Bytes} {pool : StringPool} {records : List Record}
    {events : List Event} {ofEvent : Event → Bool} {ofRecord : Record → Bool}
    (hkind : ∀ r e, r.event buffer pool = .ok e → ofEvent e = ofRecord r)
    (h : records.mapM (Record.event buffer pool) = .ok events) :
    events.countP ofEvent = records.countP ofRecord := by
  have hrows := forall₂_of_mapM h
  induction hrows with
  | nil => rfl
  | cons hfirst hrest ih =>
      rw [List.countP_cons, List.countP_cons, hkind _ _ hfirst, ih (mapM_ok hrest)]

/-- As many elements start as there are records of starts. -/
theorem starts_of_records {buffer : Bytes} {pool : StringPool} {records : List Record}
    {events : List Event} (h : records.mapM (Record.event buffer pool) = .ok events) :
    starts events = records.countP fun r => r.tag == elementStartTag :=
  countP_of_records (fun _ _ => isStart_of_event) h

/-- The tree of an accepted document is the outline of the events that its records stand for. -/
theorem Document.outline_of_decode {buffer : Bytes} {d : Document}
    (h : Document.decode buffer = .ok d) :
    d.fileSize = numberAt 4 buffer 4 ∧ StringPool.read.Yields buffer 8 d.pool ∧
      Sufficient false (recordsFrom buffer d.fileSize d.pool.header.stop) d.pool.header.stop
        d.fileSize ∧
      d.root.elements.length = (d.records buffer).countP (fun r => r.tag == elementStartTag) ∧
      ∃ events, (d.records buffer).mapM (Record.event buffer d.pool) = .ok events ∧
        d.root.nodes = outline events ∧
        List.Forall₂ (fun shown n => n = shown.2.node shown.1 n.parent) (d.root.walk 0)
          (outline events) ∧
        ∀ k p n, (outline events)[k]? = some n → n.parent = some p →
          Element.ChildAt (d.root.walk 0) p k := by
  obtain ⟨hsize, hpool, henough, b, events, hevents, hruns, hroot⟩ := Document.runs_of_decode h
  have hnodes : d.root.nodes = outline events := by
    have hsketch := (sketches_of_runs .empty hruns).nodes
    rw [List.nil_append, Builder.nodes, hroot] at hsketch
    exact hsketch
  refine ⟨hsize, hpool, henough, ?_, events, hevents, hnodes, ?_, ?_⟩
  · rw [← starts_of_records hevents, ← length_outline, ← hnodes, ← d.root.walk_nodes.length_eq,
      Element.elements, List.length_map]
  · rw [← hnodes]
    exact d.root.walk_nodes
  · intro k p n hn hp
    rw [← hnodes] at hn
    exact Element.childAt_of_nodes hn hp

/-- A document with texts before, inside and behind an inner element, whose outer element does not
end. -/
def interleaved : List UInt8 :=
  let pool := ["outer", "inner", "x", "y", "z"]
  let body := StringPool.encode true pool ++ encodeText pool "z" ++
    encodeStart pool none "outer" [⟨none, "x", .text "y"⟩, ⟨none, "x", .text "z"⟩] ++
    encodeText pool "x" ++ encodeStart pool none "inner" [] ++ encodeText pool "y" ++
    encodeEnd pool none "inner" ++ encodeText pool "z"
  magic ++ wordBytes [chunkHeaderSize + body.length] ++ body

/-- The later text of the outer element takes the place of the earlier one, and both of its
attributes stay. -/
theorem Document.outline_of_decode_interleaved :
    ∃ d, Document.decode interleaved.toArray = .ok d ∧
      d.root.nodes =
        [⟨0, none, "outer", none, [⟨none, "x", .text "y"⟩, ⟨none, "x", .text "z"⟩], some "z"⟩,
          ⟨1, some 0, "inner", none, [], some "y"⟩] ∧
      ∃ events, (d.records interleaved.toArray).mapM
          (Record.event interleaved.toArray d.pool) = .ok events ∧
        d.root.nodes = outline events := by
  have haccepted : (Document.decode interleaved.toArray).toOption.any (fun d => d.root.nodes =
      [⟨0, none, "outer", none, [⟨none, "x", .text "y"⟩, ⟨none, "x", .text "z"⟩], some "z"⟩,
        ⟨1, some 0, "inner", none, [], some "y"⟩]) = true := by decide +kernel
  obtain ⟨d, hdecode, hnodes⟩ := exists_ok_of_any haccepted
  obtain ⟨-, -, -, -, events, hevents, houtline, -⟩ := Document.outline_of_decode hdecode
  exact ⟨d, hdecode, of_decide_eq_true hnodes, events, hevents, houtline⟩

end ApkFormats.Xml
