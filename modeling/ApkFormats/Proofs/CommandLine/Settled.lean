import ApkFormats.CommandLine.Dump
import ApkFormats.Proofs.Resource.Naming
import ApkFormats.Xml.Source

/-!
# A run shows its results or one error

A run that ends logs its results and no error, or one error and no result: by
the time that the first result is logged nothing can fail any more.  Two things
make a run break off instead.

* `Report.Shaped`: remarks come first, and then the results or one error;
* `Report.Settled`: what this means for the records that pass their loggers;
* `Breakdown.Strikes`: what a run breaks off at;
* `dump_settles`: every other run ends and is settled;
* `dump_breaks_off`: both breakdowns are met with arguments that are in order
  and files that can be decoded.
-/

namespace ApkFormats.CommandLine

open Log

section Records

/-- A record that is no error and can be written. -/
structure Harmless (r : Record) : Prop where
  level : r.level < errorLevel
  arguments : r.arguments = none

/-- A remark is harmless and no result. -/
structure IsRemark (r : Record) : Prop extends Harmless r where
  isResult : r.isResult = false

theorem isRemark_ofText (logger : String) {level : Int} (h : level < errorLevel) (s : String) :
    IsRemark (.ofText logger level s) :=
  ⟨⟨h, rfl⟩, rfl⟩

theorem isRemark_noteRecord (n : Note) : IsRemark (noteRecord n) := by
  refine isRemark_ofText _ ?_ _
  split
  · decide
  · decide

theorem isRemark_of_mem_notes {notes : List Note} {r : Record} (h : r ∈ notes.map noteRecord) :
    IsRemark r := by
  obtain ⟨n, -, rfl⟩ := List.mem_map.mp h
  exact isRemark_noteRecord n

theorem isRemark_packageRecord (p : Resource.Package) : IsRemark (packageRecord p) :=
  isRemark_ofText _ (by decide) _

theorem harmless_resultRecord (s kind reference : String) :
    Harmless (resultRecord s kind reference) := by
  have hlevel : infoLevel < errorLevel := by decide
  exact ⟨hlevel, rfl⟩

theorem harmless_of_mem_class {c : Dex.ClassView} {r : Record} (h : r ∈ classRecords c) :
    Harmless r := by
  rw [classRecords, List.mem_append, List.mem_cons, List.mem_map, List.mem_map] at h
  rcases h with (rfl | ⟨f, -, rfl⟩) | ⟨m, -, rfl⟩
  all_goals exact harmless_resultRecord _ _ _

theorem harmless_of_mem_found {id : String} {found : Resource.Found} {r : Record}
    (h : r ∈ foundRecords id found) : Harmless r := by
  cases found with
  | nothing =>
      rw [List.mem_singleton.mp h]
      exact harmless_resultRecord _ _ _
  | text s =>
      rw [List.mem_singleton.mp h]
      exact harmless_resultRecord _ _ _
  | texts all =>
      obtain ⟨s, -, rfl⟩ := List.mem_map.mp h
      exact harmless_resultRecord _ _ _

theorem harmless_of_mem_strings {strings : List String} {r : Record}
    (h : r ∈ stringRecords strings) : Harmless r := by
  obtain ⟨item, -, rfl⟩ := List.mem_map.mp h
  exact harmless_resultRecord _ _ _

theorem message_of_arguments {r : Record} (h : r.arguments = none) :
    r.message = .ok r.content.shown := by
  rw [Record.message, h]
  rfl

theorem exists_render {r : Record} (h : r.arguments = none) (o : Options) (terminal : Bool) :
    ∃ s, r.render (layoutOf o) terminal = .ok s := by
  unfold Record.render layoutOf
  cases o.json with
  | true =>
      simp only [if_true, Record.renderJson, message_of_arguments h]
      exact ⟨_, rfl⟩
  | false =>
      have hplain : ∃ s, r.renderPlain terminal = .ok s := by
        unfold Record.renderPlain
        split
        · exact ⟨_, message_of_arguments h⟩
        · rw [h]
          exact ⟨_, rfl⟩
      obtain ⟨s, hs⟩ := hplain
      simp only [Bool.false_eq_true, if_false, hs]
      exact ⟨_, rfl⟩

end Records

section Reports

variable {report : Report} {before results : List Record}

/-- Some remarks, and then the results or one error. -/
inductive Report.Shaped : Report → Prop
  | success {before results : List Record} (hbefore : ∀ r ∈ before, IsRemark r)
      (hresults : ∀ r ∈ results, Harmless r) : Shaped (.success before results)
  | failure {before : List Record} (hbefore : ∀ r ∈ before, IsRemark r) (s : String) :
      Shaped (.failure before s)

/-- The records that a run logs: those that their loggers let pass. -/
def Report.logged (report : Report) (o : Options) : List Record :=
  report.records.filter fun r => threshold o r.logger ≤ r.level

/-- A run ends well and has logged no error, or it has logged one error and no result. -/
def Report.Settled (report : Report) (o : Options) : Prop :=
  (report.exitCode = 0 ∧ ∀ r ∈ report.logged o, r.level ≠ errorLevel) ∨
    (report.exitCode = 1 ∧ (report.logged o).countP (fun r => r.level == errorLevel) = 1 ∧
      ∀ r ∈ report.logged o, r.isResult = false)

/-- The error that ends a run is logged, whatever the options are. -/
theorem errorRecord_passes (o : Options) (s : String) :
    threshold o (errorRecord s).logger ≤ (errorRecord s).level := by
  change threshold o mainLogger ≤ errorLevel
  unfold threshold
  split
  · decide
  · decide

theorem Report.Shaped.settled (h : report.Shaped) (o : Options) : report.Settled o := by
  cases h with
  | success hbefore hresults =>
      refine .inl ⟨rfl, fun r hr => Int.ne_of_lt ?_⟩
      rcases List.mem_append.mp (List.mem_of_mem_filter hr) with hr | hr
      · exact (hbefore r hr).level
      · exact (hresults r hr).level
  | @failure before hbefore s =>
      have hnone : (before.filter fun r => threshold o r.logger ≤ r.level).countP
          (fun r => r.level == errorLevel) = 0 := by
        rw [List.countP_eq_zero]
        intro r hr heq
        exact Int.ne_of_lt (hbefore r (List.mem_of_mem_filter hr)).level (beq_iff_eq.mp heq)
      refine .inr ⟨rfl, ?_, fun r hr => ?_⟩
      · rw [logged, Report.failure, List.filter_append, List.countP_append, hnone,
          List.filter_singleton, decide_eq_true (errorRecord_passes o s)]
        rfl
      · rcases List.mem_append.mp (List.mem_of_mem_filter hr) with hr | hr
        · exact (hbefore r hr).isResult
        · rw [List.mem_singleton.mp hr]
          rfl

theorem Report.Shaped.exists_render (h : report.Shaped) {r : Record} (hr : r ∈ report.records)
    (o : Options) (terminal : Bool) : ∃ s, r.render (layoutOf o) terminal = .ok s := by
  refine CommandLine.exists_render ?_ o terminal
  cases h with
  | success hbefore hresults =>
      rcases List.mem_append.mp hr with hr | hr
      · exact (hbefore r hr).arguments
      · exact (hresults r hr).arguments
  | failure hbefore s =>
      rcases List.mem_append.mp hr with hr | hr
      · exact (hbefore r hr).arguments
      · rw [List.mem_singleton.mp hr]
        rfl

/-! ## The three kinds of files -/

variable (hbefore : ∀ r ∈ before, IsRemark r)
include hbefore

theorem shaped_dumpDocument {file : String} {d : Xml.Document}
    (h : dumpDocument before file d = .ok report) : report.Shaped := by
  unfold dumpDocument at h
  split at h
  · cases h
    refine .success hbefore fun r hr => ?_
    rw [List.mem_singleton.mp hr]
    exact harmless_resultRecord _ _ _
  · cases h

theorem shaped_dumpDex (o : Options) (f : Dex.File) : (dumpDex before o f).Shaped := by
  unfold dumpDex
  split
  · split
    · exact .success hbefore fun r hr => harmless_of_mem_class hr
    · exact .failure hbefore _
  · refine .success hbefore fun r hr => ?_
    obtain ⟨c, -, hr⟩ := List.mem_flatMap.mp hr
    exact harmless_of_mem_class hr

theorem shaped_dumpTable {o : Options} {t : Resource.Table}
    (h : dumpTable before o t = .ok report) : report.Shaped := by
  unfold dumpTable at h
  split at h
  · split at h
    · cases h
    · split at h
      · cases h
        exact .success hbefore fun r hr => harmless_of_mem_found hr
      · cases h
        exact .failure hbefore _
  · cases h
    refine .success (fun r hr => ?_) fun r hr => harmless_of_mem_strings hr
    rcases List.mem_append.mp hr with hr | hr
    · exact hbefore r hr
    · obtain ⟨p, -, rfl⟩ := List.mem_map.mp hr
      exact isRemark_packageRecord p

end Reports

section Breakdowns

open Resource

variable {o : Options} {file : String} {content : Bytes}

/-- What a run breaks off at.  In a resource table it is a string that is looked up by a language
that is given as a lone separator, or by such a region when the language has no bucket. -/
inductive Breakdown.Strikes (o : Options) (content : Bytes) : Breakdown → Prop
  | emptySelector {t : Table} {p : Package} {id : String} {n : Nat}
      (hxml : FileKind.xml.matches content = false)
      (hkind : FileKind.resources.matches content = true)
      (hdecode : Table.decode content = .ok t) (hfirst : t.firstPackage = .ok p)
      (hid : o.question = some id) (hnumber : p.numberOf id = .ok n)
      (hname : p.typeName? (typeOf n) = some stringTypeName)
      (hreaches : p.reaches (typeOf n) (entryOf n) = true)
      (hselector : o.language = some .emptyList ∨
        p.localized.ofLanguage? o.languageCode = none ∧ o.region = some .emptyList) :
      Strikes o content .emptySelector
  | openBrace {d : Xml.Document} {name : String} (hkind : FileKind.xml.matches content = true)
      (hdecode : Xml.Document.decode content = .ok d) (hname : name ∈ d.toMarkup.names)
      (hopen : Xml.isWritableName name = false) : Strikes o content .openBrace

theorem isWritable_eq_false_iff {d : Xml.Document} :
    d.isWritable = false ↔ ∃ name ∈ d.toMarkup.names, Xml.isWritableName name = false := by
  rw [Xml.Document.isWritable, List.all_eq_false]
  simp only [Bool.not_eq_true]

theorem asksForString_iff {p : Package} {id : String} :
    p.asksForString id = true ↔ ∃ n, p.numberOf id = .ok n ∧
      p.typeName? (typeOf n) = some stringTypeName ∧ p.reaches (typeOf n) (entryOf n) = true := by
  unfold Package.asksForString
  cases p.numberOf id with
  | error e => simp
  | ok n => simp

theorem meetsEmptySelector_iff {l : Localized} :
    o.meetsEmptySelector l = true ↔ o.language = some .emptyList ∨
      l.ofLanguage? o.languageCode = none ∧ o.region = some .emptyList := by
  simp [Options.meetsEmptySelector]

theorem breaksOn_iff {t : Table} {id : String} :
    breaksOn o t id = true ↔ ∃ p, t.firstPackage = .ok p ∧ p.asksForString id = true ∧
      o.meetsEmptySelector p.localized = true := by
  unfold breaksOn
  cases t.firstPackage with
  | error e => simp
  | ok p => simp

theorem dumpTable_eq_error_iff {before : List Record} {t : Table} {b : Breakdown} :
    dumpTable before o t = .error b ↔
      b = .emptySelector ∧ ∃ id, o.question = some id ∧ breaksOn o t id = true := by
  unfold dumpTable
  cases o.question with
  | none => simp
  | some id =>
      constructor
      · intro h
        dsimp only at h
        split at h
        · rename_i hbreaks
          cases h
          exact ⟨rfl, id, rfl, hbreaks⟩
        · split at h
          · cases h
          · cases h
      · rintro ⟨rfl, _, hid, hbreaks⟩
        cases hid
        dsimp only
        rw [if_pos hbreaks]

theorem dumpDocument_eq_error_iff {before : List Record} {d : Xml.Document} {b : Breakdown} :
    dumpDocument before file d = .error b ↔
      b = .openBrace ∧ ∃ name ∈ d.toMarkup.names, Xml.isWritableName name = false := by
  unfold dumpDocument
  rw [← isWritable_eq_false_iff]
  cases d.isWritable with
  | true => simp
  | false => simp [eq_comm]

/-- A run breaks off exactly at what strikes it. -/
theorem dump_eq_error_iff {b : Breakdown} :
    dump o file content = .error b ↔ b.Strikes o content := by
  constructor
  · intro h
    unfold dump at h
    split at h
    · rename_i hkind
      dsimp only at h
      split at h
      · rename_i d hdecode
        obtain ⟨rfl, name, hname, hopen⟩ := dumpDocument_eq_error_iff.mp h
        exact .openBrace hkind hdecode hname hopen
      · cases h
    rename_i hxml
    split at h
    · rename_i hkind
      dsimp only at h
      split at h
      · rename_i t hdecode
        obtain ⟨rfl, id, hid, hbreaks⟩ := dumpTable_eq_error_iff.mp h
        obtain ⟨p, hfirst, hasks, hmeets⟩ := breaksOn_iff.mp hbreaks
        obtain ⟨n, hnumber, hname, hreaches⟩ := asksForString_iff.mp hasks
        exact .emptySelector (Bool.eq_false_iff.mpr hxml) hkind hdecode hfirst hid hnumber
          hname hreaches (meetsEmptySelector_iff.mp hmeets)
      · cases h
    split at h
    · dsimp only at h
      split at h
      · cases h
      · cases h
    split at h
    · cases h
    · cases h
  · intro h
    unfold dump
    cases h with
    | openBrace hkind hdecode hname hopen =>
        rw [Xml.Document.decode] at hdecode
        rw [if_pos hkind]
        dsimp only
        rw [hdecode]
        exact dumpDocument_eq_error_iff.mpr ⟨rfl, _, hname, hopen⟩
    | emptySelector hxml hkind hdecode hfirst hid hnumber hname hreaches hselector =>
        have hasks := asksForString_iff.mpr ⟨_, hnumber, hname, hreaches⟩
        have hbreaks := breaksOn_iff.mpr ⟨_, hfirst, hasks, meetsEmptySelector_iff.mpr hselector⟩
        rw [Resource.Table.decode] at hdecode
        rw [if_neg (Bool.eq_false_iff.mp hxml), if_pos hkind]
        dsimp only
        rw [hdecode]
        exact dumpTable_eq_error_iff.mpr ⟨rfl, _, hid, hbreaks⟩

/-- A run that ends has one of the two shapes. -/
theorem shaped_of_dump {report : Report} (h : dump o file content = .ok report) :
    report.Shaped := by
  have hnone : ∀ r ∈ ([] : List Record), IsRemark r := fun _ hr => nomatch hr
  unfold dump at h
  split at h
  · dsimp only at h
    split at h
    · exact shaped_dumpDocument (fun _ => isRemark_of_mem_notes) h
    · cases h
      exact .failure (fun _ => isRemark_of_mem_notes) _
  split at h
  · dsimp only at h
    split at h
    · exact shaped_dumpTable (fun _ => isRemark_of_mem_notes) h
    · cases h
      exact .failure (fun _ => isRemark_of_mem_notes) _
  split at h
  · dsimp only at h
    split at h
    · cases h
      exact shaped_dumpDex (fun _ => isRemark_of_mem_notes) o _
    · cases h
      exact .failure (fun _ => isRemark_of_mem_notes) _
  split at h
  · cases h
    exact .failure hnone _
  · cases h
    exact .failure hnone _

/-- A document of one element. -/
def documentOf (name : String) : Bytes :=
  (Xml.Manuscript.encode true ⟨[], [], ⟨name, none, [], none, []⟩, []⟩).toArray

/-- A run breaks off exactly at what strikes it.  Every other run ends, logs its results and no
error or one error and no result, and has only records that can be written. -/
theorem dump_settles (o : Options) (file : String) (content : Bytes) :
    (∀ b, dump o file content = .error b ↔ b.Strikes o content) ∧
    ((∀ b : Breakdown, ¬b.Strikes o content) → ∃ report, dump o file content = .ok report ∧
      report.Settled o ∧ ∀ r ∈ report.logged o, ∀ terminal,
        ∃ s, r.render (layoutOf o) terminal = .ok s) := by
  refine ⟨fun b => dump_eq_error_iff, fun hstrikes => ?_⟩
  cases hdump : dump o file content with
  | error b => exact absurd (dump_eq_error_iff.mp hdump) (hstrikes b)
  | ok report =>
      have hshaped := shaped_of_dump hdump
      refine ⟨report, rfl, hshaped.settled o, fun r hr terminal => ?_⟩
      exact hshaped.exists_render (List.mem_of_mem_filter hr) o terminal

/-- Nothing strikes the run for a document whose name is a letter. -/
theorem dump_settles_letter :
    ∃ o, parse ["input.bin"] = .run o ∧ (∀ b : Breakdown, ¬b.Strikes o (documentOf "m")) ∧
      ∃ report, dump o "input.bin" (documentOf "m") = .ok report ∧ report.exitCode = 0 ∧
        report.Settled o := by
  have hparse : parse ["input.bin"] = .run ⟨false, false, none, none, none, some "input.bin"⟩ := by
    decide +kernel
  refine ⟨_, hparse, ?_⟩
  generalize hoptions : Options.mk false false none none none (some "input.bin") = o
  have hended : (dump o "input.bin" (documentOf "m")).toOption.any (fun report =>
      report.exitCode = 0) = true := by
    rw [← hoptions]
    decide +kernel
  obtain ⟨report, hdump, hexit⟩ := exists_ok_of_any hended
  obtain ⟨hstrikes, hsettles⟩ := dump_settles o "input.bin" (documentOf "m")
  have hnone : ∀ b : Breakdown, ¬b.Strikes o (documentOf "m") := by
    intro b hb
    cases hdump.symm.trans ((hstrikes b).mpr hb)
  obtain ⟨_, hsame, hsettled, -⟩ := hsettles hnone
  cases hdump.symm.trans hsame
  exact ⟨hnone, report, hdump, of_decide_eq_true hexit, hsettled⟩

/-- A table with one string. -/
def stringTable : Bytes :=
  (TableSource.encode ⟨["Hello"], [⟨0x7f, "p", ["string"], ["greeting"],
    [.entries 1 ⟨.none, .none, 0⟩ [.simple 0 3 0]]⟩]⟩).toArray

/-- A run with arguments that are in order and a file that can be decoded may break off: at a name
that opens a brace, and at a string in a language that is given as a lone separator. -/
theorem dump_breaks_off :
    (∃ o, parse ["input.bin"] = .run o ∧
      (∃ d, Xml.Document.decode (documentOf "\x7b") = .ok d) ∧
      dump o "input.bin" (documentOf "\x7b") = .error .openBrace) ∧
    ∃ o, parse ["--find=@string/greeting", "--lang=--", "input.bin"] = .run o ∧
      (∃ t, Table.decode stringTable = .ok t) ∧
      dump o "input.bin" stringTable = .error .emptySelector := by
  constructor
  · have hparse : parse ["input.bin"] =
        .run ⟨false, false, none, none, none, some "input.bin"⟩ := by
      decide +kernel
    have haccepted : (Xml.Document.decode (documentOf "\x7b")).toOption.any (fun d =>
        FileKind.xml.matches (documentOf "\x7b") = true ∧ "\x7b" ∈ d.toMarkup.names ∧
          Xml.isWritableName "\x7b" = false) = true := by
      decide +kernel
    obtain ⟨d, hdecode, htest⟩ := exists_ok_of_any haccepted
    obtain ⟨hkind, hname, hopen⟩ := of_decide_eq_true htest
    exact ⟨_, hparse, ⟨d, hdecode⟩, dump_eq_error_iff.mpr (.openBrace hkind hdecode hname hopen)⟩
  · have hparse : parse ["--find=@string/greeting", "--lang=--", "input.bin"] =
        .run ⟨false, false, some "@string/greeting", some .emptyList, none, some "input.bin"⟩ := by
      decide +kernel
    obtain ⟨t, p, hdecode, hfirst, htest⟩ := Table.exists_first_of_test stringTable
      (fun _ p => FileKind.xml.matches stringTable = false ∧
        FileKind.resources.matches stringTable = true ∧
        p.numberOf "@string/greeting" = .ok 0x7f010000 ∧
        p.typeName? (typeOf 0x7f010000) = some stringTypeName ∧
        p.reaches (typeOf 0x7f010000) (entryOf 0x7f010000) = true)
      (by decide +kernel)
    obtain ⟨hxml, hkind, hnumber, hname, hreaches⟩ := of_decide_eq_true htest
    have hasked : Options.question
        ⟨false, false, some "@string/greeting", some .emptyList, none, some "input.bin"⟩ =
        some "@string/greeting" := by
      decide +kernel
    exact ⟨_, hparse, ⟨t, hdecode⟩, dump_eq_error_iff.mpr
      (.emptySelector hxml hkind hdecode hfirst hasked hnumber hname hreaches (.inl rfl))⟩

end Breakdowns

end ApkFormats.CommandLine
