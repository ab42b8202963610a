import ApkFormats.Proofs.Lists
import ApkFormats.Resource.Localized

/-!
# Gathered strings are found by search

The strings of a package are gathered into buckets before anyone asks for one.
`shownAt?` is the text that one chunk of entries has at an index, and
`chunksFor` picks the chunks that a language and a region select; a search
through these chunks in the order of the file needs no buckets.

* `Gathers.add`: the invariant of gathering, for one chunk;
* `gathers_of_ofChunks`: the invariant after all chunks;
* `text?_select`: the selected bucket has at each index what the search finds.
-/

namespace ApkFormats.Resource

/-- The text of the value at an index of a chunk, when there is one. -/
def shownAt? (strings : Option StringPool) (index : Nat) (chunk : TypeEntries) : Option String :=
  (chunk.entry? index).bind fun e =>
    match e.resolve strings with
    | .ok value => value.map Value.shown
    | .error _ => none

/-- The chunks without language and region. -/
def plainChunks (chunks : List TypeEntries) : List TypeEntries :=
  chunks.filter fun c => c.config.language == none && c.config.region == none

/-- The chunks for a language, or for a region, of some name. -/
def chunksNamed (part : Config → Option String) (name : String) (chunks : List TypeEntries) :
    List TypeEntries :=
  chunks.filter fun c => part c.config == some name

/-- The chunks for the language, or the region, that is asked for; none when none is. -/
def chunksAsked (part : Config → Option String) (name : Option String)
    (chunks : List TypeEntries) : List TypeEntries :=
  match name with
  | some name => chunksNamed part name chunks
  | none => []

/-- The chunks that a language and a region select: those of the language when there are any, else
those of the region when there are any, else those with neither. -/
def chunksFor (language region : Option String) (chunks : List TypeEntries) : List TypeEntries :=
  if chunksAsked Config.language language chunks ≠ [] then
    chunksAsked Config.language language chunks
  else if chunksAsked Config.region region chunks ≠ [] then
    chunksAsked Config.region region chunks
  else plainChunks chunks

section Buckets

variable {bucket other : Bucket} {index : Nat} {name : String}

theorem Bucket.text?_fillFrom :
    (bucket.fillFrom other).text? index = (bucket.text? index).or (other.text? index) := by
  induction bucket generalizing other index with
  | nil =>
      rw [fillFrom]
      rfl
  | cons a rest ih =>
      cases other with
      | nil =>
          rw [fillFrom]
          · exact (Option.or_none).symm
          · simp
      | cons b more =>
          rw [fillFrom]
          cases index with
          | zero => cases a <;> rfl
          | succ index => exact ih

theorem lookup_fillNamed {buckets : List (String × Bucket)} {more : Bucket} {asked : String} :
    (fillNamed name more buckets).lookup asked =
      if asked = name then some (((buckets.lookup name).getD []).fillFrom more)
      else buckets.lookup asked := by
  induction buckets with
  | nil =>
      rw [fillNamed, lookup_cons_eq]
      rfl
  | cons first rest ih =>
      obtain ⟨known, bucket⟩ := first
      rw [fillNamed]
      by_cases hknown : known = name
      · rw [if_pos hknown, lookup_cons_eq, lookup_cons_eq, lookup_cons_eq, if_pos hknown.symm,
          hknown, Option.getD_some]
        by_cases h : asked = name
        · rw [if_pos h, if_pos h]
        · rw [if_neg h, if_neg h, if_neg h]
      · rw [if_neg hknown, lookup_cons_eq, ih, lookup_cons_eq, lookup_cons_eq,
          if_neg (Ne.symm hknown)]
        by_cases h : asked = known
        · rw [if_pos h, if_pos h, if_neg (h ▸ hknown)]
        · rw [if_neg h, if_neg h]

/-- The texts of a chunk are those of its entries. -/
theorem text?_of_textsOf {strings : Option StringPool} {chunk : TypeEntries} {texts : Bucket}
    (h : Localized.textsOf strings chunk = .ok texts) :
    texts.text? index = shownAt? strings index chunk := by
  have hrows := forall₂_of_mapM h
  have hentry : chunk.entry? index = (chunk.entries.toList[index]?).join := by
    rw [TypeEntries.entry?, if_neg (by omega), Int.toNat_natCast, Array.getElem?_toList]
  rw [Bucket.text?, shownAt?, hentry]
  cases hslot : chunk.entries.toList[index]? with
  | none =>
      have houtside : texts[index]? = none := by
        rw [List.getElem?_eq_none_iff] at hslot ⊢
        rw [← hrows.length_eq]
        exact hslot
      rw [houtside]
      rfl
  | some slot =>
      obtain ⟨text, htext, hshown⟩ := getElem?_of_forall₂ hrows hslot
      rw [htext]
      cases slot with
      | none =>
          cases hshown
          rfl
      | some e =>
          obtain ⟨value, hvalue, rfl⟩ := map_eq_ok_iff.mp hshown
          simp only [Option.join_some, Option.bind_some, hvalue]

end Buckets

section Gathers

variable {strings : Option StringPool} {chunks : List TypeEntries} {c : TypeEntries}
variable {l l' : Localized}

/-- A bucket that there is when there are chunks for it, with the texts that a search through them
finds. -/
def Collects (strings : Option StringPool) (bucket : Option Bucket) (chunks : List TypeEntries) :
    Prop :=
  (bucket = none ↔ chunks = []) ∧
    ∀ texts ∈ bucket, ∀ index, texts.text? index = chunks.findSome? (shownAt? strings index)

/-- Buckets that hold what searches through some chunks find. -/
structure Gathers (strings : Option StringPool) (l : Localized) (chunks : List TypeEntries) :
    Prop where
  plain : ∀ index, l.plain.text? index = (plainChunks chunks).findSome? (shownAt? strings index)
  byLanguage : ∀ name,
    Collects strings (l.byLanguage.lookup name) (chunksNamed Config.language name chunks)
  byRegion : ∀ name,
    Collects strings (l.byRegion.lookup name) (chunksNamed Config.region name chunks)

theorem Collects.fill {bucket : Option Bucket} {texts : Bucket}
    (h : Collects strings bucket chunks)
    (htexts : ∀ index, texts.text? index = shownAt? strings index c) :
    Collects strings (some ((bucket.getD []).fillFrom texts)) (chunks ++ [c]) := by
  constructor
  · simp
  · intro filled hfilled index
    cases hfilled
    rw [Bucket.text?_fillFrom, htexts, List.findSome?_append]
    have hold : (bucket.getD []).text? index = chunks.findSome? (shownAt? strings index) := by
      cases bucket with
      | none =>
          rw [h.1.mp rfl]
          rfl
      | some old => exact h.2 old rfl index
    rw [hold]
    cases hc : shownAt? strings index c <;> simp [hc]

theorem Collects.fillNamed {part : Config → Option String} {buckets : List (String × Bucket)}
    {texts : Bucket}
    (h : ∀ name, Collects strings (buckets.lookup name) (chunksNamed part name chunks))
    (htexts : ∀ index, texts.text? index = shownAt? strings index c) (name : String) :
    Collects strings
      ((match part c.config with
        | some known => Resource.fillNamed known texts buckets
        | none => buckets).lookup name)
      (chunksNamed part name (chunks ++ [c])) := by
  rw [chunksNamed, List.filter_append]
  cases hpart : part c.config with
  | none =>
      have hother : [c].filter (fun c => part c.config == some name) = [] := by simp [hpart]
      rw [hother, List.append_nil]
      exact h name
  | some known =>
      simp only [lookup_fillNamed]
      by_cases hname : name = known
      · have hsame : [c].filter (fun c => part c.config == some name) = [c] := by
          simp [hpart, hname]
        rw [if_pos hname, hsame, hname]
        exact (h known).fill htexts
      · have hother : [c].filter (fun c => part c.config == some name) = [] := by
          simp [hpart, Ne.symm hname]
        rw [if_neg hname, hother, List.append_nil]
        exact h name

theorem byLanguage_add {config : Config} {texts : Bucket} :
    (l.add config texts).byLanguage =
      match config.language with
      | some known => fillNamed known texts l.byLanguage
      | none => l.byLanguage := by
  unfold Localized.add
  cases config.language with
  | none => cases config.region <;> rfl
  | some known => cases config.region <;> rfl

theorem byRegion_add {config : Config} {texts : Bucket} :
    (l.add config texts).byRegion =
      match config.region with
      | some known => fillNamed known texts l.byRegion
      | none => l.byRegion := by
  unfold Localized.add
  cases config.region with
  | none => cases config.language <;> rfl
  | some known => cases config.language <;> rfl

theorem plain_add {config : Config} {texts : Bucket} :
    (l.add config texts).plain =
      if config.language == none && config.region == none then l.plain.fillFrom texts
      else l.plain := by
  unfold Localized.add
  cases config.language with
  | none => cases config.region <;> rfl
  | some known => cases config.region <;> rfl

/-- The invariant of gathering, for one chunk. -/
theorem Gathers.add {texts : Bucket} (h : Gathers strings l chunks)
    (htexts : ∀ index, texts.text? index = shownAt? strings index c) :
    Gathers strings (l.add c.config texts) (chunks ++ [c]) := by
  constructor
  · intro index
    rw [plain_add, plainChunks, List.filter_append, List.findSome?_append]
    have hold := h.plain index
    rw [plainChunks] at hold
    cases hplain : c.config.language == none && c.config.region == none with
    | false =>
        rw [if_neg (by simp), hold, List.filter_singleton, hplain]
        exact (Option.or_none).symm
    | true =>
        rw [if_pos rfl, Bucket.text?_fillFrom, hold, htexts, List.filter_singleton, hplain]
        simp
  · rw [byLanguage_add]
    exact Collects.fillNamed h.byLanguage htexts
  · rw [byRegion_add]
    exact Collects.fillNamed h.byRegion htexts

/-- The invariant of gathering, for all chunks. -/
theorem gathers_of_foldlM {before : List TypeEntries} (h : Gathers strings l before)
    (hfold : chunks.foldlM (fun l chunk =>
      (Localized.textsOf strings chunk).map (l.add chunk.config)) l = .ok l') :
    Gathers strings l' (before ++ chunks) := by
  induction chunks generalizing l before with
  | nil =>
      cases hfold
      rwa [List.append_nil]
  | cons c rest ih =>
      rw [List.foldlM_cons, bind_eq_ok_iff] at hfold
      obtain ⟨next, hnext, hfold⟩ := hfold
      obtain ⟨texts, htexts, rfl⟩ := map_eq_ok_iff.mp hnext
      have hlater := ih (h.add fun index => text?_of_textsOf htexts) hfold
      rwa [List.append_assoc, List.singleton_append] at hlater

theorem gathers_empty : Gathers strings .empty [] := by
  constructor
  · intro index
    rfl
  · intro name
    exact ⟨by simp [chunksNamed, Localized.empty], fun texts h => by cases h⟩
  · intro name
    exact ⟨by simp [chunksNamed, Localized.empty], fun texts h => by cases h⟩

theorem gathers_of_ofChunks (h : Localized.ofChunks strings chunks = .ok l) :
    Gathers strings l chunks :=
  gathers_of_foldlM gathers_empty h

theorem Collects.asked {part : Config → Option String} {buckets : List (String × Bucket)}
    (h : ∀ name, Collects strings (buckets.lookup name) (chunksNamed part name chunks))
    (name : Option String) :
    Collects strings (name.bind fun name => buckets.lookup name)
      (chunksAsked part name chunks) := by
  cases name with
  | none => exact ⟨by simp [chunksAsked], fun texts h => by cases h⟩
  | some name => exact h name

/-- The selected bucket has at each index what a search through the selected chunks finds. -/
theorem Gathers.text?_select (h : Gathers strings l chunks) (language region : Option String)
    (index : Nat) :
    (l.select language region).text? index =
      (chunksFor language region chunks).findSome? (shownAt? strings index) := by
  obtain ⟨hnoLanguage, hlanguage⟩ := Collects.asked h.byLanguage language
  obtain ⟨hnoRegion, hregion⟩ := Collects.asked h.byRegion region
  rw [Localized.select, Localized.ofLanguage?, chunksFor]
  cases hbucket : language.bind fun name => l.byLanguage.lookup name with
  | some bucket =>
      have hsome : chunksAsked Config.language language chunks ≠ [] := by
        intro hnone
        rw [hnoLanguage.mpr hnone] at hbucket
        cases hbucket
      rw [if_pos hsome]
      exact hlanguage bucket hbucket index
  | none =>
      rw [if_neg (not_not_intro (hnoLanguage.mp hbucket))]
      cases hbucket : region.bind fun name => l.byRegion.lookup name with
      | some bucket =>
          have hsome : chunksAsked Config.region region chunks ≠ [] := by
            intro hnone
            rw [hnoRegion.mpr hnone] at hbucket
            cases hbucket
          rw [if_pos hsome]
          exact hregion bucket hbucket index
      | none =>
          rw [if_neg (not_not_intro (hnoRegion.mp hbucket))]
          exact h.plain index

end Gathers

end ApkFormats.Resource
