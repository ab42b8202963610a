import ApkFormats.Proofs.CommandLine.Settled
import ApkFormats.Proofs.Log.ReadBack

/-!
# JSON output is one object per line

Records that are written as JSON can be told apart and read back, whatever texts
they hold.

* `Framed`: a text has one line for each of some values, which is read as the value;
* `framed_join`: objects that are each written with a line end are framed;
* `Shows`: an object gives a message;
* `framed_emissions`: records with any messages and attributes are framed;
* `framed_strings`: what a run writes for a table when nothing is looked up;
* `json_output_framed`: both together.
-/

namespace ApkFormats

namespace Log

section Lines

/-! ## Lines -/

/-- A text has a line for each of some values, which is read as the value, and nothing behind the
last line end. -/
def Framed (text : String) (values : List Json) : Prop :=
  ∃ lines : List String, text.toList.splitOn '\n' = lines.map String.toList ++ [[]] ∧
    lines.map Json.parse? = values.map some

theorem toList_join_lines (lines : List String) :
    (String.join (lines.map (· ++ "\n"))).toList =
      ['\n'].intercalate (lines.map String.toList ++ [[]]) := by
  induction lines with
  | nil => rfl
  | cons line lines ih =>
      rw [List.map_cons, String.join_cons, String.toList_append, ih, List.map_cons,
        List.cons_append, List.intercalate_cons_of_ne_nil (by simp), String.toList_append]
      rfl

theorem framed_join (objects : List Members) :
    Framed (String.join (objects.map (·.json ++ "\n"))) (objects.map Members.toJson) := by
  refine ⟨objects.map Members.json, ?_, ?_⟩
  · have hlines := toList_join_lines (objects.map Members.json)
    rw [List.map_map] at hlines
    refine (congrArg _ hlines).trans (List.splitOn_intercalate '\n' (fun line hline hend => ?_)
      (List.append_ne_nil_of_right_ne_nil _ (List.cons_ne_nil [] [])))
    rw [List.map_map, List.mem_append, List.mem_map, List.mem_singleton] at hline
    rcases hline with ⟨members, -, rfl⟩ | rfl
    · exact absurd (printable_json members '\n' hend).1 (by decide)
    · cases hend
  · rw [List.map_map, List.map_map]
    exact List.map_congr_left fun members _ => parse?_json members

end Lines

section Objects

/-! ## The object of a record -/

variable {members : Members} {key key' : String} {value value' : JsonValue}
variable {r : Record} {e : Emission} {s : String} {wanted : List (String × String)}
variable {items : List Emission}

/-- The keys of an object. -/
def Members.keys (members : Members) : List String :=
  members.map Prod.fst

theorem mem_put_of_ne (hkey : key' ≠ key) (hmem : (key', value') ∈ members) :
    (key', value') ∈ members.put key value := by
  induction members with
  | nil => cases hmem
  | cons m members ih =>
      obtain ⟨k, v⟩ := m
      rw [Members.put]
      rcases List.mem_cons.mp hmem with heq | hmem
      · obtain ⟨rfl, rfl⟩ := Prod.mk.inj heq
        rw [if_neg hkey]
        exact List.mem_cons_self
      · split
        · exact List.mem_cons_of_mem _ hmem
        · exact List.mem_cons_of_mem _ (ih hmem)

theorem mem_keys_put (hmem : key' ∈ (members.put key value).keys) :
    key' = key ∨ key' ∈ members.keys := by
  induction members with
  | nil => exact .inl (List.mem_singleton.mp hmem)
  | cons m members ih =>
      obtain ⟨k, v⟩ := m
      rw [Members.put] at hmem
      split at hmem
      · exact .inr hmem
      · rcases List.mem_cons.mp hmem with rfl | hmem
        · exact .inr List.mem_cons_self
        · exact (ih hmem).imp_right (List.mem_cons_of_mem _)

theorem nodup_keys_put (h : members.keys.Nodup) (key : String) (value : JsonValue) :
    (members.put key value).keys.Nodup := by
  induction members with
  | nil => exact List.nodup_singleton key
  | cons m members ih =>
      obtain ⟨k, v⟩ := m
      obtain ⟨hk, hmembers⟩ := List.nodup_cons.mp h
      rw [Members.put]
      split
      · exact h
      · rename_i hkey
        refine List.nodup_cons.mpr ⟨fun hmem => ?_, ih hmembers⟩
        rcases mem_keys_put hmem with heq | hmem
        · exact hkey heq
        · exact hk hmem

/-- An object has no key twice, and its message is some text. -/
structure Gives (s : String) (members : Members) : Prop where
  nodup : members.keys.Nodup
  message : ("message", .scalar (.text s)) ∈ members

theorem Gives.put (h : Gives s members) (hkey : "message" ≠ key) (value : JsonValue) :
    Gives s (members.put key value) :=
  ⟨nodup_keys_put h.nodup key value, mem_put_of_ne hkey h.message⟩

theorem Gives.putText (h : Gives s members) (hkey : "message" ≠ key) (t : String) :
    Gives s (Record.putText members key t) := by
  unfold Record.putText
  split
  · exact h
  · exact h.put hkey _

theorem Gives.putKind (h : Gives s members) (r : Record) : Gives s (r.putKind members) := by
  have htype : "message" ≠ "type" := by decide
  have href : "message" ≠ "ref" := by decide
  unfold Record.putKind
  split
  · dsimp only
    split
    · exact h.put htype _
    · exact (h.put htype _).put href _
  · exact h.put htype _

/-- The attributes that are wanted of a record, as members of its object. -/
def Emission.wantedMembers (e : Emission) (wanted : List (String × String)) : Members :=
  wanted.map fun w => (w.1, (e.attribute? w.2).getD (.scalar .absent))

/-- The object that a record is written as. -/
def Emission.shownMembers (e : Emission) (wanted : List (String × String)) : Members :=
  e.record.putKind (Record.putText (Record.putText (e.wantedMembers wanted) "exc_info"
    e.record.exceptionText) "stack_info" e.record.stackText)

theorem attributes_of_known (hknown : ∀ w ∈ wanted, (e.attribute? w.2).isSome = true) :
    e.attributes wanted = .ok (e.wantedMembers wanted) := by
  induction wanted with
  | nil => rfl
  | cons w wanted ih =>
      obtain ⟨hw, hwanted⟩ := List.forall_mem_cons.mp hknown
      obtain ⟨value, hvalue⟩ := Option.isSome_iff_exists.mp hw
      obtain ⟨key, name⟩ := w
      rw [Emission.attributes, hvalue, ih hwanted]
      simp [Emission.wantedMembers, Except.map, hvalue]

theorem members_of_known (hknown : ∀ w ∈ wanted, (e.attribute? w.2).isSome = true) :
    e.members wanted = .ok (e.shownMembers wanted) := by
  rw [Emission.members, attributes_of_known hknown]
  rfl

theorem gives_shownMembers (hnodup : (wanted.map Prod.fst).Nodup)
    (hwanted : ("message", "message") ∈ wanted) (e : Emission) :
    Gives e.message (e.shownMembers wanted) := by
  have hkeys : (e.wantedMembers wanted).keys = wanted.map Prod.fst := by
    rw [Members.keys, Emission.wantedMembers, List.map_map]
    rfl
  have hattributes : Gives e.message (e.wantedMembers wanted) :=
    ⟨hkeys ▸ hnodup, List.mem_map.mpr ⟨_, hwanted, rfl⟩⟩
  have hexception : "message" ≠ "exc_info" := by decide
  have hstack : "message" ≠ "stack_info" := by decide
  exact ((hattributes.putText hexception _).putText hstack _).putKind e.record

/-- A value shows a message: it is an object that has no key twice and the message under its
name. -/
def Shows (s : String) (v : Json) : Prop :=
  ∃ members, v = .object members ∧ (members.map Prod.fst).Nodup ∧ ("message", .text s) ∈ members

theorem shows_of_gives {members : Members} (h : Gives s members) : Shows s members.toJson := by
  refine ⟨_, rfl, ?_, List.mem_map.mpr ⟨_, h.message, rfl⟩⟩
  rw [List.map_map]
  exact h.nodup

/-- Records that have the attributes that are wanted are written as objects that show their
messages, one per line. -/
theorem framed_emissions (hnodup : (wanted.map Prod.fst).Nodup)
    (hwanted : ("message", "message") ∈ wanted)
    (hknown : ∀ e ∈ items, ∀ w ∈ wanted, (e.attribute? w.2).isSome = true) :
    ∃ lines values, items.mapM (Emission.renderJson wanted) = .ok lines ∧
      Framed (String.join (lines.map (· ++ "\n"))) values ∧
      List.Forall₂ Shows (items.map Emission.message) values := by
  let objects := items.map (Emission.shownMembers · wanted)
  refine ⟨objects.map Members.json, objects.map Members.toJson, mapM_ok ?_, ?_, ?_⟩
  · rw [List.map_map, List.forall₂_map_right_iff, List.forall₂_same]
    intro e he
    rw [Emission.renderJson, members_of_known (hknown e he)]
    rfl
  · rw [List.map_map]
    exact framed_join objects
  · rw [List.map_map, List.forall₂_map_left_iff, List.forall₂_map_right_iff, List.forall₂_same]
    exact fun e _ => shows_of_gives (gives_shownMembers hnodup hwanted e)

/-- A record whose arguments fit its marks is written with the message that they make. -/
theorem render_of_message (hmessage : r.message = .ok s) (wanted : List (String × String))
    (terminal : Bool) :
    r.render (.json wanted) terminal =
      (Emission.renderJson wanted ⟨r, s, []⟩).map (· ++ "\n") := by
  rw [Record.render, Record.renderJson, hmessage]
  rfl

theorem mapM_render_of_messages {lines : List String}
    (hlines : items.mapM (Emission.renderJson wanted) = .ok lines)
    (hplain : ∀ e ∈ items, e.others = [] ∧ e.record.message = .ok e.message) (terminal : Bool) :
    (items.map Emission.record).mapM (Record.render (.json wanted) terminal) =
      .ok (lines.map (· ++ "\n")) := by
  refine mapM_ok (List.forall₂_map_left_iff.mpr (List.forall₂_map_right_iff.mpr ?_))
  refine (List.forall₂_and_left _ _ |>.mpr ⟨hplain, forall₂_of_mapM hlines⟩).imp ?_
  rintro ⟨r, s, others⟩ line ⟨⟨rfl, hmessage⟩, hline⟩
  rw [render_of_message hmessage, hline]
  rfl

end Objects

end Log

namespace CommandLine

open Log

section Tables

variable {o : Options} {content : Bytes} {t : Resource.Table}

/-! ## The strings of a table -/

/-- The value that the line of a string is read as. -/
def stringValue (i : Nat) (s : String) : Json :=
  .object [("message", .text s), ("type", .text "string"), ("ref", .text (toString i))]

theorem written_result (hjson : o.json = true) (s kind reference : String) (terminal : Bool) :
    written (layoutOf o) terminal (resultRecord s kind reference) =
      Members.json [("message", .scalar (.text s)), ("type", .scalar (.text kind)),
        ("ref", .scalar (.text reference))] ++ "\n" := by
  rw [layoutOf, if_pos hjson]
  rfl

theorem framed_strings (hjson : o.json = true) (strings : List String) (terminal : Bool) :
    Framed (String.join ((stringRecords strings).map (written (layoutOf o) terminal)))
      (strings.mapIdx stringValue) := by
  let object (item : Nat × String) : Members :=
    [("message", .scalar (.text item.2)), ("type", .scalar (.text "string")),
      ("ref", .scalar (.text (toString item.1)))]
  have hframed := framed_join (((List.range strings.length).zip strings).map object)
  rw [List.map_map, List.map_map] at hframed
  have hvalues : ((List.range strings.length).zip strings).map (Members.toJson ∘ object) =
      strings.mapIdx stringValue := by
    refine List.ext_getElem (by simp) fun i _ _ => ?_
    simp
    rfl
  rw [stringRecords, List.map_map, ← hvalues]
  convert hframed using 3
  exact funext fun item => written_result hjson item.2 "string" (toString item.1) terminal

/-- Unless the options are verbose a run shows no remark that is no warning. -/
theorem debugLevel_lt_threshold (hverbose : o.verbose = false) (logger : String) :
    debugLevel < threshold o logger := by
  simp only [threshold, hverbose]
  split
  · cases ‹false = true›
  · split
    · decide
    · decide

/-- Only the results of a run are logged when all else is meant for verbose runs. -/
theorem logged_success {before results : List Record} (hverbose : o.verbose = false)
    (hbefore : ∀ r ∈ before, r.level = debugLevel)
    (hresults : ∀ r ∈ results, r.logger = mainLogger ∧ r.level = infoLevel) :
    (Report.success before results).logged o = results := by
  have hhidden : before.filter (fun r => threshold o r.logger ≤ r.level) = [] := by
    refine List.filter_eq_nil_iff.mpr fun r hr hshown => ?_
    have hlevel := of_decide_eq_true hshown
    rw [hbefore r hr] at hlevel
    exact absurd hlevel (Int.not_le.mpr (debugLevel_lt_threshold hverbose r.logger))
  have hkept : results.filter (fun r => threshold o r.logger ≤ r.level) = results := by
    refine List.filter_eq_self.mpr fun r hr => decide_eq_true ?_
    obtain ⟨hlogger, hlevel⟩ := hresults r hr
    rw [hlogger, hlevel, threshold, hverbose]
    decide
  rw [Report.logged, Report.success, List.filter_append, hhidden, hkept, List.nil_append]

theorem level_noteRecord {n : Note} (hn : ∀ position, n ≠ .secondPool position) :
    (noteRecord n).level = debugLevel := by
  cases n with
  | secondPool position => exact absurd rfl (hn position)
  | _ => rfl

theorem not_xml_of_resources (h : FileKind.resources.matches content = true) :
    FileKind.xml.matches content = false := by
  have hstart : (content.extract 0 4).toList = [0x02, 0x00, 0x0C, 0x00] := eq_of_beq h
  change ((content.extract 0 4).toList == [0x03, 0x00, 0x08, 0x00]) = false
  rw [hstart]
  rfl

theorem dump_resources (hkind : FileKind.resources.matches content = true)
    (hdecode : Resource.Table.decode content = .ok t) (hquestion : o.question = none)
    (file : String) :
    dump o file content = .ok (.success
      ((Resource.Table.run content).notes.map noteRecord ++ t.packages.map packageRecord)
      (stringRecords t.strings)) := by
  rw [Resource.Table.decode] at hdecode
  simp only [dump, not_xml_of_resources hkind, hkind, if_true, hdecode, dumpTable, hquestion]
  rfl

/-- A run for a table writes its strings, one line for each. -/
theorem framed_table (hjson : o.json = true) (hverbose : o.verbose = false)
    (hquestion : o.question = none) (hkind : FileKind.resources.matches content = true)
    (hdecode : Resource.Table.decode content = .ok t)
    (hnotes : ∀ position, Note.secondPool position ∉ (Resource.Table.run content).notes)
    (file : String) (terminal : Bool) :
    ∃ report, dump o file content = .ok report ∧ report.exitCode = 0 ∧
      Framed (report.text o terminal) (t.strings.mapIdx stringValue) := by
  have hbefore : ∀ r ∈ (Resource.Table.run content).notes.map noteRecord ++
      t.packages.map packageRecord, r.level = debugLevel := by
    intro r hr
    rcases List.mem_append.mp hr with hr | hr
    · obtain ⟨n, hn, rfl⟩ := List.mem_map.mp hr
      exact level_noteRecord fun position heq => hnotes position (heq ▸ hn)
    · obtain ⟨p, -, rfl⟩ := List.mem_map.mp hr
      rfl
  have hresults : ∀ r ∈ stringRecords t.strings, r.logger = mainLogger ∧ r.level = infoLevel := by
    intro r hr
    obtain ⟨item, -, rfl⟩ := List.mem_map.mp hr
    exact ⟨rfl, rfl⟩
  have hlogged := logged_success hverbose hbefore hresults
  rw [Report.logged] at hlogged
  refine ⟨_, dump_resources hkind hdecode hquestion file, rfl, ?_⟩
  rw [Report.text, hlogged]
  exact framed_strings hjson t.strings terminal

/-- A run with JSON output that nothing is looked up by writes a line for each string of a table,
which is read as an object with the string, its kind and its index.  Any other records are written
the same way, whatever their messages are: one line for each, which is read as an object with the
message.  Where the message of each record is made of its arguments, this is what is rendered. -/
theorem json_output_framed :
    (∀ (o : Options) (file : String) (content : Bytes) (t : Resource.Table) (terminal : Bool),
      o.json = true → o.verbose = false → o.question = none →
      FileKind.resources.matches content = true → Resource.Table.decode content = .ok t →
      (∀ position, Note.secondPool position ∉ (Resource.Table.run content).notes) →
      ∃ report, dump o file content = .ok report ∧ report.exitCode = 0 ∧
        Framed (report.text o terminal) (t.strings.mapIdx fun i s => Json.object
          [("message", .text s), ("type", .text "string"), ("ref", .text (toString i))])) ∧
    (∀ (wanted : List (String × String)) (items : List Emission),
      (wanted.map Prod.fst).Nodup → ("message", "message") ∈ wanted →
      (∀ e ∈ items, ∀ w ∈ wanted, (e.attribute? w.2).isSome = true) →
      ∃ lines values, items.mapM (Emission.renderJson wanted) = .ok lines ∧
        Framed (String.join (lines.map (· ++ "\n"))) values ∧
        List.Forall₂ Shows (items.map Emission.message) values ∧
        ∀ terminal, (∀ e ∈ items, e.others = [] ∧ e.record.message = .ok e.message) →
          (items.map Emission.record).mapM (Record.render (.json wanted) terminal) =
            .ok (lines.map (· ++ "\n"))) := by
  refine ⟨fun _ file _ _ terminal hjson hverbose hquestion hkind hdecode hnotes =>
    framed_table hjson hverbose hquestion hkind hdecode hnotes file terminal,
    fun wanted items hnodup hwanted hknown => ?_⟩
  obtain ⟨lines, values, hlines, hframed, hshows⟩ := framed_emissions hnodup hwanted hknown
  exact ⟨lines, values, hlines, hframed, hshows,
    fun terminal hplain => mapM_render_of_messages hlines hplain terminal⟩

/-- A table of three texts: one of two lines, one with marks of messages and of JSON, and one with
a control character and a character of two units. -/
def awkwardTable : Bytes :=
  (Resource.TableSource.encode ⟨["a\nb", "\"\\%s", "\x07😀"], []⟩).toArray

/-- A remark of two lines with marks of several kinds. -/
def awkwardRemark : Record :=
  { Record.ofText mainLogger infoLevel "100%%\n%r at %#06x, %5d" with
    arguments := some [.text "\"x\"", .number 31, .number (-4)] }

/-- Texts with line ends, quotes and percent signs stay on lines of their own, and so do the
messages of records that have a file and a message from elsewhere. -/
theorem json_output_framed_awkward :
    (∃ o t report, parse ["-j", "input.bin"] = .run o ∧
      Resource.Table.decode awkwardTable = .ok t ∧
      t.strings = ["a\nb", "\"\\%s", "\x07😀"] ∧
      dump o "input.bin" awkwardTable = .ok report ∧
      Framed (report.text o false) (t.strings.mapIdx fun i s => Json.object
        [("message", .text s), ("type", .text "string"), ("ref", .text (toString i))])) ∧
    (∃ lines values, [awkwardRemark, errorRecord "\r\n"].mapM
        (Record.render (.json [("level", "levelname"), ("message", "message")]) true) =
          .ok lines ∧
      Framed (String.join lines) values ∧
      List.Forall₂ Shows ["100%\n'\"x\"' at 0x001f,    -4", "\r\n"] values) ∧
    ∃ lines values, [(⟨errorRecord "%s", "1.5\n", [("filename", .scalar (.text "a.txt"))]⟩ :
        Emission)].mapM (Emission.renderJson [("file", "filename"), ("message", "message")]) =
          .ok lines ∧
      Framed (String.join (lines.map (· ++ "\n"))) values ∧
      List.Forall₂ Shows ["1.5\n"] values := by
  refine ⟨?_, ?_, ?_⟩
  · have hparse : parse ["-j", "input.bin"] =
        .run ⟨false, true, none, none, none, some "input.bin"⟩ := by
      decide +kernel
    have haccepted : (Resource.Table.decode awkwardTable).toOption.any (fun t =>
        t.strings = ["a\nb", "\"\\%s", "\x07😀"] ∧
          FileKind.resources.matches awkwardTable = true ∧
          ∀ n ∈ (Resource.Table.run awkwardTable).notes, n.isWarning = false) = true := by
      decide +kernel
    obtain ⟨t, hdecode, htest⟩ := exists_ok_of_any haccepted
    obtain ⟨hstrings, hkind, hwarnings⟩ := of_decide_eq_true htest
    obtain ⟨report, hdump, -, hframed⟩ := json_output_framed.1
      ⟨false, true, none, none, none, some "input.bin"⟩ "input.bin" awkwardTable t false rfl rfl rfl
      hkind hdecode fun position hmem => nomatch hwarnings _ hmem
    exact ⟨_, t, report, hparse, hdecode, hstrings, hdump, hframed⟩
  · obtain ⟨lines, values, -, hframed, hshows, hrendered⟩ := json_output_framed.2
      [("level", "levelname"), ("message", "message")]
      [⟨awkwardRemark, "100%\n'\"x\"' at 0x001f,    -4", []⟩, ⟨errorRecord "\r\n", "\r\n", []⟩]
      (by decide) (by decide) (by decide)
    refine ⟨_, values, hrendered true ?_, hframed, hshows⟩
    exact List.forall_mem_cons.mpr
      ⟨⟨rfl, by decide +kernel⟩, List.forall_mem_singleton.mpr ⟨rfl, rfl⟩⟩
  · obtain ⟨lines, values, hlines, hframed, hshows, -⟩ := json_output_framed.2
      [("file", "filename"), ("message", "message")]
      [⟨errorRecord "%s", "1.5\n", [("filename", .scalar (.text "a.txt"))]⟩]
      (by decide) (by decide) (by decide)
    exact ⟨lines, values, hlines, hframed, hshows⟩

end Tables

end CommandLine

end ApkFormats
