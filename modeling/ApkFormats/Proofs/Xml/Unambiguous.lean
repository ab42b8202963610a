import ApkFormats.Proofs.Lists
import ApkFormats.Xml.Markup
import ApkFormats.Xml.Source

/-!
# Which documents are written alike

Texts and attribute values are escaped, so each of them ends where it is written
to end.  Names are not: a tag ends at a blank or a closing bracket, and a key at
an equals sign, whether they stand in the name or behind it.  Where no name has
such a character in it, a text of XML belongs to one tree only.

* `append_cons_inj`: equal texts have equal parts in front of their first stops;
* `escapeText_inj` and `escapeValue_inj`: escaped texts can be told apart;
* `Markup.render_inj`: trees of plain names can be told apart, whatever follows;
* `Document.toXml_eq_iff`: documents of plain names are written alike when their
  trees are the same, an empty text being the same as none;
* `Document.toXml_disguised`: a name may be written like an attribute.
-/

namespace ApkFormats.Xml

section Fronts

/-! ## Parts of a text -/

variable {front front' rest rest' : List Char} {c c' : Char}

theorem takeWhile_append_cons {inside : Char → Bool} (hfront : ∀ x ∈ front, inside x = true)
    (hc : inside c = false) : (front ++ c :: rest).takeWhile inside = front := by
  have hstop : ¬inside c = true := by
    rw [hc]
    exact Bool.false_ne_true
  rw [List.takeWhile_append_of_pos hfront, List.takeWhile_cons_of_neg hstop, List.append_nil]

/-- Equal texts have equal parts in front of their first stops, and behind them. -/
theorem append_cons_inj (inside : Char → Bool) (hfront : ∀ x ∈ front, inside x = true)
    (hfront' : ∀ x ∈ front', inside x = true) (hc : inside c = false) (hc' : inside c' = false)
    (h : front ++ c :: rest = front' ++ c' :: rest') :
    front = front' ∧ c = c' ∧ rest = rest' := by
  have hsame : front = front' := by
    rw [← takeWhile_append_cons hfront hc, h, takeWhile_append_cons hfront' hc']
  rw [hsame] at h
  obtain ⟨hstop, hrest⟩ := List.cons.inj (List.append_cancel_left h)
  exact ⟨hsame, hstop, hrest⟩

end Fronts

section Escapes

/-! ## Escaped texts -/

/-- The character at the front of an escaped text, and what stands behind it. -/
def readEscaped? : List Char → Option (Char × List Char)
  | '&' :: 'a' :: 'm' :: 'p' :: ';' :: rest => some ('&', rest)
  | '&' :: 'l' :: 't' :: ';' :: rest => some ('<', rest)
  | '&' :: 'g' :: 't' :: ';' :: rest => some ('>', rest)
  | '&' :: 'q' :: 'u' :: 'o' :: 't' :: ';' :: rest => some ('"', rest)
  | '&' :: '#' :: '1' :: '3' :: ';' :: rest => some ('\r', rest)
  | '&' :: '#' :: '1' :: '0' :: ';' :: rest => some ('\n', rest)
  | '&' :: '#' :: '0' :: '9' :: ';' :: rest => some ('\t', rest)
  | c :: rest => some (c, rest)
  | [] => none

theorem readEscaped?_cons {c : Char} (hc : c ≠ '&') (rest : List Char) :
    readEscaped? (c :: rest) = some (c, rest) := by
  unfold readEscaped?
  split <;> simp_all

theorem readEscaped?_escapeTextChar (c : Char) (rest : List Char) :
    readEscaped? ((escapeTextChar c).toList ++ rest) = some (c, rest) := by
  unfold escapeTextChar
  split_ifs with hamp hless hgreater
  · subst hamp
    rfl
  · subst hless
    rfl
  · subst hgreater
    rfl
  · rw [Char.toString, String.toList_singleton]
    exact readEscaped?_cons hamp rest

theorem readEscaped?_escapeValueChar (c : Char) (rest : List Char) :
    readEscaped? ((escapeValueChar c).toList ++ rest) = some (c, rest) := by
  unfold escapeValueChar
  split_ifs with hquote hreturn hline htab
  · subst hquote
    rfl
  · subst hreturn
    rfl
  · subst hline
    rfl
  · subst htab
    rfl
  · exact readEscaped?_escapeTextChar c rest

section Codes

variable {escape : Char → String}

/-- Texts can be told apart when the escape of each character is read as that character. -/
theorem join_escape_inj
    (hread : ∀ c rest, readEscaped? ((escape c).toList ++ rest) = some (c, rest)) {s s' : String}
    (h : String.join (s.toList.map escape) = String.join (s'.toList.map escape)) : s = s' := by
  apply String.toList_inj.mp
  generalize s.toList = cs at h ⊢
  generalize s'.toList = cs' at h ⊢
  have hnil : ∀ c cs, String.join ((c :: cs).map escape) ≠ "" := by
    intro c cs hempty
    have hnone := hread c (String.join (cs.map escape)).toList
    rw [← String.toList_append, ← String.join_cons, ← List.map_cons, hempty] at hnone
    cases hnone
  induction cs generalizing cs' with
  | nil =>
      cases cs' with
      | nil => rfl
      | cons c' cs' => exact absurd h.symm (hnil c' cs')
  | cons c cs ih =>
      cases cs' with
      | nil => exact absurd h (hnil c cs)
      | cons c' cs' =>
          have hfirst := hread c (String.join (cs.map escape)).toList
          have hfirst' := hread c' (String.join (cs'.map escape)).toList
          rw [← String.toList_append, ← String.join_cons, ← List.map_cons] at hfirst hfirst'
          rw [h, hfirst', Option.some.injEq, Prod.mk.injEq, String.toList_inj] at hfirst
          rw [hfirst.1, ih cs' hfirst.2.symm]

/-- A character that is in no escape is in no escaped text. -/
theorem ne_of_mem_join_escape {stop : Char} (hescape : ∀ c, stop ∉ (escape c).toList) {s : String}
    {c : Char} (hc : c ∈ (String.join (s.toList.map escape)).toList) : (c != stop) = true := by
  rw [String.toList_join, List.mem_flatMap] at hc
  obtain ⟨word, hword, hc⟩ := hc
  obtain ⟨source, -, rfl⟩ := List.mem_map.mp hword
  rw [bne_iff_ne]
  rintro rfl
  exact hescape source hc

end Codes

variable {s s' : String}

theorem escapeText_inj (h : escapeText s = escapeText s') : s = s' :=
  join_escape_inj readEscaped?_escapeTextChar h

theorem escapeValue_inj (h : escapeValue s = escapeValue s') : s = s' :=
  join_escape_inj readEscaped?_escapeValueChar h

/-- No tag starts in an escaped text. -/
theorem ne_of_mem_escapeText {c : Char} (hc : c ∈ (escapeText s).toList) : (c != '<') = true := by
  refine ne_of_mem_join_escape (fun c => ?_) hc
  unfold escapeTextChar
  split_ifs with hamp hless
  · decide
  · decide
  · decide
  · rw [Char.toString, String.toList_singleton, List.mem_singleton]
    exact Ne.symm hless

/-- No quote ends an escaped value early. -/
theorem ne_of_mem_escapeValue {c : Char} (hc : c ∈ (escapeValue s).toList) : (c != '"') = true := by
  refine ne_of_mem_join_escape (fun c => ?_) hc
  unfold escapeValueChar escapeTextChar
  split_ifs with hquote
  · decide
  · decide
  · decide
  · decide
  · decide
  · decide
  · decide
  · rw [Char.toString, String.toList_singleton, List.mem_singleton]
    exact Ne.symm hquote

end Escapes

section Tags

/-! ## Opening tags -/

/-- A character that ends no name. -/
def isNameChar (c : Char) : Bool :=
  c != ' ' && c != '=' && c != '>'

/-- Whether a name is written so that it ends where it ends: no character in it ends a name, and it
does not start like a closing tag or with a namespace in braces. -/
def isPlainName (name : String) : Bool :=
  name.toList.all isNameChar && name.toList.head? != some '/' && name.toList.head? != some '\x7b'

variable {name : String}

theorem isNameChar_of_mem (h : isPlainName name = true) :
    ∀ c ∈ name.toList, isNameChar c = true := by
  rw [isPlainName, Bool.and_eq_true, Bool.and_eq_true, List.all_eq_true] at h
  exact h.1.1

theorem head?_ne_of_isPlainName (h : isPlainName name = true) : name.toList.head? ≠ some '/' := by
  rw [isPlainName, Bool.and_eq_true, Bool.and_eq_true, bne_iff_ne] at h
  exact h.1.2

/-- What stands behind the attributes of an opening tag. -/
def IsTagEnd (behind : List Char) : Prop :=
  ∃ rest, behind = ' ' :: '/' :: '>' :: rest ∨ behind = '>' :: rest

/-- Some attributes as they are written. -/
def attributesText (attributes : List (String × String)) : List Char :=
  attributes.flatMap fun pair => (renderAttribute pair).toList

theorem attributesText_cons (key value : String) (attributes : List (String × String)) :
    attributesText ((key, value) :: attributes) = ' ' :: (key.toList ++ '=' :: '"' ::
      ((escapeValue value).toList ++ '"' :: attributesText attributes)) := by
  simp [attributesText, renderAttribute]

theorem toList_renderTag (tag : String) (attributes : List (String × String)) :
    (renderTag tag attributes).toList = tag.toList ++ attributesText attributes := by
  rw [renderTag, String.toList_append, String.toList_join, List.flatMap_map, attributesText]

variable {attributes attributes' : List (String × String)} {behind behind' : List Char}

/-- A tag is followed by a character that ends a name. -/
theorem exists_attributesText (attributes : List (String × String)) (hend : IsTagEnd behind) :
    ∃ c rest, attributesText attributes ++ behind = c :: rest ∧ isNameChar c = false := by
  cases attributes with
  | nil =>
      obtain ⟨rest, rfl | rfl⟩ := hend
      · exact ⟨' ', _, rfl, rfl⟩
      · exact ⟨'>', rest, rfl, rfl⟩
  | cons pair attributes =>
      rw [attributesText_cons]
      exact ⟨' ', _, rfl, rfl⟩

/-- An attribute does not start like the end of a tag. -/
theorem attributesText_cons_ne {key value : String} (hkey : isPlainName key = true)
    (hend : IsTagEnd behind) (rest : List Char) :
    attributesText ((key, value) :: attributes) ++ rest ≠ behind := by
  rw [attributesText_cons]
  obtain ⟨behind, rfl | rfl⟩ := hend
  · intro h
    rw [List.cons_append, List.append_assoc] at h
    have hkeys : key.toList ++ '=' :: _ = ['/'] ++ '>' :: behind := (List.cons.inj h).2
    have hslash : ∀ c ∈ ['/'], isNameChar c = true := by
      intro c hc
      rw [List.mem_singleton.mp hc]
      rfl
    obtain ⟨-, hstop, -⟩ := append_cons_inj isNameChar (isNameChar_of_mem hkey) hslash rfl rfl hkeys
    exact absurd hstop (by decide)
  · intro h
    exact absurd (List.cons.inj h).1 (by decide)

/-- The attributes of an opening tag can be told apart. -/
theorem attributesText_inj (hplain : ∀ pair ∈ attributes, isPlainName pair.1 = true)
    (hplain' : ∀ pair ∈ attributes', isPlainName pair.1 = true) (hend : IsTagEnd behind)
    (hend' : IsTagEnd behind')
    (h : attributesText attributes ++ behind = attributesText attributes' ++ behind') :
    attributes = attributes' ∧ behind = behind' := by
  induction attributes generalizing attributes' with
  | nil =>
      cases attributes' with
      | nil => exact ⟨rfl, h⟩
      | cons pair' rest' =>
          have hkey' := hplain' pair' List.mem_cons_self
          exact absurd h.symm (attributesText_cons_ne hkey' hend behind')
  | cons pair rest ih =>
      obtain ⟨key, value⟩ := pair
      obtain ⟨hkey, hrest⟩ := List.forall_mem_cons.mp hplain
      cases attributes' with
      | nil => exact absurd h (attributesText_cons_ne hkey hend' behind)
      | cons pair' rest' =>
          obtain ⟨key', value'⟩ := pair'
          obtain ⟨hkey', hrest'⟩ := List.forall_mem_cons.mp hplain'
          simp only [attributesText_cons, List.cons_append, List.append_assoc] at h
          obtain ⟨hkeys, -, h⟩ := append_cons_inj isNameChar (isNameChar_of_mem hkey)
            (isNameChar_of_mem hkey') rfl rfl (List.cons.inj h).2
          obtain ⟨hvalues, -, h⟩ := append_cons_inj (· != '"') (fun _ => ne_of_mem_escapeValue)
            (fun _ => ne_of_mem_escapeValue) rfl rfl (List.cons.inj h).2
          obtain ⟨hattributes, hbehind⟩ := ih hrest hrest' h
          have hkey : key = key' := String.toList_inj.mp hkeys
          have hvalue : value = value' := escapeValue_inj (String.toList_inj.mp hvalues)
          rw [hkey, hvalue, hattributes]
          exact ⟨rfl, hbehind⟩

/-- What an opening tag holds can be told apart. -/
theorem tagText_inj {tag tag' : String} (htag : isPlainName tag = true)
    (htag' : isPlainName tag' = true) (hplain : ∀ pair ∈ attributes, isPlainName pair.1 = true)
    (hplain' : ∀ pair ∈ attributes', isPlainName pair.1 = true) (hend : IsTagEnd behind)
    (hend' : IsTagEnd behind')
    (h : tag.toList ++ (attributesText attributes ++ behind) =
      tag'.toList ++ (attributesText attributes' ++ behind')) :
    tag = tag' ∧ attributes = attributes' ∧ behind = behind' := by
  obtain ⟨c, rest, hrest, hc⟩ := exists_attributesText attributes hend
  obtain ⟨c', rest', hrest', hc'⟩ := exists_attributesText attributes' hend'
  have hstops : tag.toList ++ c :: rest = tag'.toList ++ c' :: rest' := by
    rw [← hrest, ← hrest', h]
  obtain ⟨hsame, hstop, hbehind⟩ := append_cons_inj isNameChar (isNameChar_of_mem htag)
    (isNameChar_of_mem htag') hc hc' hstops
  have htext : attributesText attributes ++ behind = attributesText attributes' ++ behind' := by
    rw [hrest, hrest', hstop, hbehind]
  exact ⟨String.toList_inj.mp hsame, attributesText_inj hplain hplain' hend hend' htext⟩

end Tags

namespace Markup

/-! ## Trees -/

mutual

/-- A tree with the empty text where there is none. -/
def filled : Markup → Markup
  | ⟨tag, attributes, text, children⟩ => ⟨tag, attributes, some (text.getD ""), filledAll children⟩

/-- Some trees with the empty text where there is none. -/
def filledAll : List Markup → List Markup
  | [] => []
  | m :: rest => m.filled :: filledAll rest

end

section Tail

variable {tag : String} {attributes attributes' : List (String × String)}
variable {text text' : Option String} {children children' : List Markup}

/-- What is written of a tree behind the attributes of its opening tag, and what follows it. -/
def tail : Markup → List Char → List Char
  | ⟨tag, _, text, children⟩, rest =>
      if (text.getD "").isEmpty && children.isEmpty then ' ' :: '/' :: '>' :: rest
      else '>' :: ((escapeText (text.getD "")).toList ++
        ((renderAll children).toList ++ '<' :: '/' :: (tag.toList ++ '>' :: rest)))

theorem toList_render (m : Markup) (rest : List Char) :
    m.render.toList ++ rest =
      '<' :: (m.tag.toList ++ (attributesText m.attributes ++ m.tail rest)) := by
  obtain ⟨tag, attributes, text, children⟩ := m
  rw [render, tail]
  split <;> simp [toList_renderTag]

theorem isTagEnd_tail (m : Markup) (rest : List Char) : IsTagEnd (m.tail rest) := by
  obtain ⟨tag, attributes, text, children⟩ := m
  rw [tail]
  split
  · exact ⟨rest, .inl rfl⟩
  · exact ⟨_, .inr rfl⟩

/-- Behind a text there is a tag, be it the one of a child or the closing one. -/
theorem exists_renderAll (ms : List Markup) (rest : List Char) :
    ∃ behind, (renderAll ms).toList ++ '<' :: rest = '<' :: behind := by
  cases ms with
  | nil => exact ⟨rest, by simp [renderAll]⟩
  | cons m ms =>
      rw [renderAll, String.toList_append, List.append_assoc, toList_render]
      exact ⟨_, rfl⟩

/-- Trees with the same tag that are written alike have the same text, and what is written of
their children agrees up to the closing tags. -/
theorem tail_inj {rest rest' : List Char}
    (h : tail ⟨tag, attributes, text, children⟩ rest =
      tail ⟨tag, attributes', text', children'⟩ rest') :
    text.getD "" = text'.getD "" ∧
      (renderAll children).toList ++ '<' :: '/' :: (tag.toList ++ '>' :: rest) =
        (renderAll children').toList ++ '<' :: '/' :: (tag.toList ++ '>' :: rest') := by
  rw [tail, tail] at h
  -- a tag that closes itself ends in another way than one that opens
  split_ifs at h with hbare hbare' hbare'
  · simp only [Bool.and_eq_true, String.isEmpty_iff, List.isEmpty_iff] at hbare hbare'
    simp only [List.cons.injEq, true_and] at h
    rw [hbare.1, hbare.2, hbare'.1, hbare'.2, h]
    exact ⟨rfl, rfl⟩
  · exact absurd (List.cons.inj h).1 (by decide)
  · exact absurd (List.cons.inj h).1 (by decide)
  · obtain ⟨behind, hbehind⟩ :=
      exists_renderAll children ('/' :: (tag.toList ++ '>' :: rest))
    obtain ⟨behind', hbehind'⟩ :=
      exists_renderAll children' ('/' :: (tag.toList ++ '>' :: rest'))
    rw [hbehind, hbehind'] at h
    obtain ⟨htext, -, hchildren⟩ := append_cons_inj (· != '<') (fun _ => ne_of_mem_escapeText)
      (fun _ => ne_of_mem_escapeText) rfl rfl (List.cons.inj h).2
    rw [hbehind, hbehind', hchildren]
    exact ⟨escapeText_inj (String.toList_inj.mp htext), rfl⟩

end Tail

/-- Whether all names of a tree are plain. -/
def isPlain (m : Markup) : Bool :=
  m.names.all isPlainName

/-- Whether all names of some trees are plain. -/
def allPlain (ms : List Markup) : Bool :=
  (namesOfAll ms).all isPlainName

theorem isPlain_mk {tag : String} {attributes : List (String × String)} {text : Option String}
    {children : List Markup} (h : isPlain ⟨tag, attributes, text, children⟩ = true) :
    isPlainName tag = true ∧ (∀ pair ∈ attributes, isPlainName pair.1 = true) ∧
      allPlain children = true := by
  simpa [isPlain, names, allPlain] using h

theorem allPlain_cons {m : Markup} {rest : List Markup} (h : allPlain (m :: rest) = true) :
    m.isPlain = true ∧ allPlain rest = true := by
  simpa [allPlain, namesOfAll, isPlain, List.all_append] using h

/-- A tree does not start like a closing tag. -/
theorem render_ne {m : Markup} (h : m.isPlain = true) (rest behind : List Char) :
    m.render.toList ++ rest ≠ '<' :: '/' :: behind := by
  obtain ⟨tag, attributes, text, children⟩ := m
  have hfirst := head?_ne_of_isPlainName (isPlain_mk h).1
  have hend := isTagEnd_tail ⟨tag, attributes, text, children⟩ rest
  obtain ⟨c, rest', hrest, hc⟩ := exists_attributesText attributes hend
  rw [toList_render, hrest]
  intro heq
  -- an empty name is followed by a blank or a bracket, another one starts with no slash
  have hname : tag.toList ++ c :: rest' = '/' :: behind := (List.cons.inj heq).2
  cases hcs : tag.toList with
  | nil =>
      rw [hcs] at hname
      rw [(List.cons.inj hname).1] at hc
      exact absurd hc (by decide)
  | cons first cs =>
      rw [hcs] at hname hfirst
      exact hfirst (congrArg some (List.cons.inj hname).1)

mutual

/-- Trees of plain names can be told apart, whatever follows them. -/
theorem render_inj {rest rest' : List Char} :
    ∀ m m' : Markup, m.isPlain = true → m'.isPlain = true →
      m.render.toList ++ rest = m'.render.toList ++ rest' → m.filled = m'.filled ∧ rest = rest'
  | ⟨tag, attributes, text, children⟩, ⟨tag', attributes', text', children'⟩, hplain, hplain',
      h => by
      obtain ⟨htag, hattributes, hchildren⟩ := isPlain_mk hplain
      obtain ⟨htag', hattributes', hchildren'⟩ := isPlain_mk hplain'
      rw [toList_render, toList_render] at h
      obtain ⟨rfl, rfl, htail⟩ := tagText_inj htag htag' hattributes hattributes'
        (isTagEnd_tail _ _) (isTagEnd_tail _ _) (List.cons.inj h).2
      -- the tags agree, so the closing tags do, and what lies between is told apart by the children
      obtain ⟨htext, hclosing⟩ := tail_inj htail
      obtain ⟨hfilled, hrest⟩ := renderAll_inj children children' hchildren hchildren' hclosing
      rw [filled, filled, htext, hfilled]
      exact ⟨rfl, (List.cons.inj (List.append_cancel_left hrest)).2⟩

/-- Some trees of plain names can be told apart up to the closing tag behind them. -/
theorem renderAll_inj {rest rest' : List Char} :
    ∀ ms ms' : List Markup, allPlain ms = true → allPlain ms' = true →
      (renderAll ms).toList ++ '<' :: '/' :: rest = (renderAll ms').toList ++ '<' :: '/' :: rest' →
      filledAll ms = filledAll ms' ∧ rest = rest'
  | [], [], _, _, h => by
      simpa [renderAll, filledAll] using h
  | [], m' :: ms', _, hplain', h => by
      rw [renderAll, renderAll, String.toList_append, List.append_assoc] at h
      exact absurd h.symm (render_ne (allPlain_cons hplain').1 _ _)
  | m :: ms, [], hplain, _, h => by
      rw [renderAll, renderAll, String.toList_append, List.append_assoc] at h
      exact absurd h (render_ne (allPlain_cons hplain).1 _ _)
  | m :: ms, m' :: ms', hplain, hplain', h => by
      obtain ⟨hm, hms⟩ := allPlain_cons hplain
      obtain ⟨hm', hms'⟩ := allPlain_cons hplain'
      simp only [renderAll, String.toList_append, List.append_assoc] at h
      obtain ⟨hfirst, h⟩ := render_inj m m' hm hm' h
      obtain ⟨hall, hrest⟩ := renderAll_inj ms ms' hms hms' h
      rw [filledAll, filledAll, hfirst, hall]
      exact ⟨rfl, hrest⟩

end

mutual

/-- An empty text is written like none. -/
theorem render_filled : ∀ m : Markup, m.filled.render = m.render
  | ⟨tag, attributes, text, children⟩ => by
      have hempty : (filledAll children).isEmpty = children.isEmpty := by
        cases children <;> rfl
      rw [filled, render, render, renderAll_filledAll children, hempty, Option.getD_some]

theorem renderAll_filledAll : ∀ ms : List Markup, renderAll (filledAll ms) = renderAll ms
  | [] => rfl
  | m :: ms => by
      rw [filledAll, renderAll, renderAll, render_filled m, renderAll_filledAll ms]

end

end Markup

namespace Document

variable {d d' : Document}

/-- Documents of plain names are written alike when their trees are the same, an empty text being
the same as none: no value and no text makes a document look like another one. -/
theorem toXml_eq_iff (h : d.toMarkup.isPlain = true) (h' : d'.toMarkup.isPlain = true) :
    d.toXml = d'.toXml ↔ d.toMarkup.filled = d'.toMarkup.filled := by
  constructor
  · intro heq
    have hlists : d.toMarkup.render.toList ++ [] = d'.toMarkup.render.toList ++ [] := by
      rw [← toXml, ← toXml, heq]
    exact (Markup.render_inj d.toMarkup d'.toMarkup h h' hlists).1
  · intro heq
    rw [toXml, toXml, ← Markup.render_filled d.toMarkup, heq, Markup.render_filled]

/-- A document whose root has a name and attributes with texts for values. -/
def oneElement (name : String) (attributes : List (String × String)) : Bytes :=
  let root : Source := ⟨name, none, attributes.map fun a => ⟨none, a.1, .text a.2⟩, none, []⟩
  (Manuscript.encode true ⟨[], [], root, []⟩).toArray

/-- A value that has a quote in it does not look like two attributes. -/
theorem toXml_eq_iff_quoted :
    ∃ d d', decode (oneElement "a" [("b", "c\" d=\"e")]) = .ok d ∧
      decode (oneElement "a" [("b", "c"), ("d", "e")]) = .ok d' ∧
      d.toMarkup.isPlain = true ∧ d'.toMarkup.isPlain = true ∧ d.toXml ≠ d'.toXml := by
  have haccepted : (decode (oneElement "a" [("b", "c\" d=\"e")])).toOption.any (fun d =>
      d.toMarkup.isPlain = true ∧ d.toMarkup.filled.attributes = [("b", "c\" d=\"e")]) = true := by
    decide +kernel
  have haccepted' : (decode (oneElement "a" [("b", "c"), ("d", "e")])).toOption.any (fun d =>
      d.toMarkup.isPlain = true ∧ d.toMarkup.filled.attributes = [("b", "c"), ("d", "e")]) =
      true := by
    decide +kernel
  obtain ⟨d, hdecode, htest⟩ := exists_ok_of_any haccepted
  obtain ⟨d', hdecode', htest'⟩ := exists_ok_of_any haccepted'
  obtain ⟨hplain, hone⟩ := of_decide_eq_true htest
  obtain ⟨hplain', htwo⟩ := of_decide_eq_true htest'
  refine ⟨d, d', hdecode, hdecode', hplain, hplain', fun heq => ?_⟩
  have hfilled := (toXml_eq_iff hplain hplain').mp heq
  rw [hfilled, htwo] at hone
  exact absurd hone (by decide)

/-- A name may be written like an attribute: two documents with different trees are written
alike. -/
theorem toXml_disguised :
    ∃ d d', decode (oneElement "a b=\"c\"" []) = .ok d ∧
      decode (oneElement "a" [("b", "c")]) = .ok d' ∧
      d.toMarkup.filled ≠ d'.toMarkup.filled ∧ d.toXml = d'.toXml ∧
      d.toXml = "<a b=\"c\" />" := by
  have haccepted : (decode (oneElement "a b=\"c\"" [])).toOption.any (fun d =>
      d.toMarkup.filled.attributes = [] ∧ d.toXml = "<a b=\"c\" />") = true := by
    decide +kernel
  have haccepted' : (decode (oneElement "a" [("b", "c")])).toOption.any (fun d =>
      d.toMarkup.filled.attributes = [("b", "c")] ∧ d.toXml = "<a b=\"c\" />") = true := by
    decide +kernel
  obtain ⟨d, hdecode, htest⟩ := exists_ok_of_any haccepted
  obtain ⟨d', hdecode', htest'⟩ := exists_ok_of_any haccepted'
  obtain ⟨hnone, hwritten⟩ := of_decide_eq_true htest
  obtain ⟨hone, hwritten'⟩ := of_decide_eq_true htest'
  refine ⟨d, d', hdecode, hdecode', fun heq => ?_, hwritten.trans hwritten'.symm, hwritten⟩
  rw [heq, hone] at hnone
  exact absurd hnone (by decide)

end Document

end ApkFormats.Xml
