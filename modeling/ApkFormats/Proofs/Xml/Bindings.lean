import ApkFormats.Proofs.Xml.Rendered
import Mathlib.Data.List.Nodup
import Mathlib.Data.List.TakeWhile

/-!
# Namespaces on the written root

The root of a written tree binds the short form of every namespace, and the keys
of attributes begin with these short forms.  A short form is the last segment of
its namespace, so two namespaces may share one; the later binding then takes the
place of the earlier one, and of an attribute of the root that has its key.

* `Document.boundTo?_toMarkup`: what each short form is bound to;
* `Document.bound_iff`: all bindings are there when no short form is shared;
* `Document.recovered_iff`: then, too, the namespace of every attribute can be
  read off the written tree;
* `Document.namespaces_merged`: an accepted document may lose a namespace, an
  attribute with it, and one that has the key of a binding.
-/

namespace ApkFormats.Xml

/-- The namespace that a written tree binds to a short form. -/
def Markup.boundTo? (m : Markup) (short : String) : Option String :=
  m.attributes.lookup ("xmlns:" ++ short)

/-- The part of a key in front of its last colon, where there is one. -/
def shortOf? (key : String) : Option String :=
  match key.toList.reverse.dropWhile (· ≠ ':') with
  | [] => none
  | _ :: front => some (String.ofList front.reverse)

/-- The namespace of a key, as it is read off a written tree. -/
def Markup.uriOf? (m : Markup) (key : String) : Option String :=
  (shortOf? key).bind m.boundTo?

section Keys

variable {uri : Option String} {name : String}

theorem toList_keyOf_some (u : String) :
    (keyOf (some u) name).toList = (lastSegment u).toList ++ ':' :: name.toList := by
  simp [keyOf]

/-- The short form is read off the key of a name without colons. -/
theorem shortOf?_keyOf (hname : ':' ∉ name.toList) :
    shortOf? (keyOf uri name) = uri.map lastSegment := by
  have hfront : ∀ c ∈ name.toList.reverse, decide (c ≠ ':') = true := by
    intro c hc
    rw [decide_eq_true_eq]
    rintro rfl
    exact hname (List.mem_reverse.mp hc)
  rw [shortOf?]
  cases uri with
  | none =>
      have hnone : (keyOf none name).toList.reverse.dropWhile (· ≠ ':') = [] := by
        rw [List.dropWhile_eq_nil_iff]
        exact hfront
      rw [hnone]
      rfl
  | some u =>
      have hdrop : (keyOf (some u) name).toList.reverse.dropWhile (· ≠ ':') =
          ':' :: (lastSegment u).toList.reverse := by
        rw [toList_keyOf_some, List.reverse_append, List.reverse_cons, List.append_assoc,
          List.dropWhile_append_of_pos hfront]
        rfl
      rw [hdrop, Option.map_some]
      simp only [List.reverse_reverse, String.ofList_toList]

/-- A short form makes a key longer than the name. -/
theorem keyOf_some_ne (u : String) : keyOf (some u) name ≠ keyOf none name := by
  intro h
  have hchars := congrArg String.toList h
  rw [toList_keyOf_some, keyOf] at hchars
  have hlength := congrArg List.length hchars
  rw [List.length_append, List.length_cons] at hlength
  omega

/-- Attributes of one name have one key when their namespaces have one short form. -/
theorem key_eq_iff {a b : Attribute} (hname : a.name = b.name) :
    a.key = b.key ↔ a.uri.map lastSegment = b.uri.map lastSegment := by
  rw [Attribute.key, Attribute.key, hname]
  match a.uri, b.uri with
  | none, none => exact iff_of_true rfl rfl
  | none, some v => exact iff_of_false (keyOf_some_ne v).symm (Option.some_ne_none _).symm
  | some u, none => exact iff_of_false (keyOf_some_ne u) (Option.some_ne_none _)
  | some u, some v =>
      rw [← String.toList_inj, toList_keyOf_some, toList_keyOf_some, List.append_cancel_right_eq,
        String.toList_inj, Option.map_some, Option.map_some, Option.some.injEq]

end Keys

namespace Document

variable {d : Document}

/-- The attributes of all elements. -/
def attributes (d : Document) : List Attribute :=
  d.root.elements.flatMap Element.attributes

/-- The last namespace that has a short form. -/
def lastUri? (d : Document) (short : String) : Option String :=
  (d.namespaces.reverse.find? fun n => n.2 == short).map Prod.fst

theorem namespaces_eq (d : Document) :
    d.namespaces = (d.attributes.filterMap Attribute.uri).eraseDups.map
      fun uri => (uri, lastSegment uri) := by
  rw [namespaces, attributes, List.filterMap_flatMap]

theorem mem_namespaces {n : String × String} :
    n ∈ d.namespaces ↔ n.2 = lastSegment n.1 ∧ ∃ a ∈ d.attributes, a.uri = some n.1 := by
  rw [namespaces_eq, List.mem_map]
  simp only [List.mem_eraseDups, List.mem_filterMap]
  constructor
  · rintro ⟨uri, ha, rfl⟩
    exact ⟨rfl, ha⟩
  · rintro ⟨hshort, ha⟩
    exact ⟨n.1, ha, Prod.ext rfl hshort.symm⟩

theorem nodup_namespaces (d : Document) : d.namespaces.Nodup := by
  rw [namespaces_eq]
  refine (nodup_eraseDups _).map fun u v h => ?_
  exact (Prod.mk.inj h).1

theorem lookup_bindings (d : Document) (short : String) :
    d.bindings.reverse.lookup ("xmlns:" ++ short) = d.lastUri? short := by
  rw [bindings, lastUri?, ← List.map_reverse]
  induction d.namespaces.reverse with
  | nil => rfl
  | cons n rest ih =>
      have hkey : "xmlns:" ++ short = "xmlns:" ++ n.2 ↔ n.2 = short := by
        rw [← String.toList_inj, String.toList_append, String.toList_append,
          List.append_cancel_left_eq, String.toList_inj, eq_comm]
      rw [List.map_cons, lookup_cons_eq, ih, List.find?_cons]
      by_cases hshort : n.2 = short
      · rw [if_pos (hkey.mpr hshort), beq_iff_eq.mpr hshort]
        rfl
      · rw [if_neg (mt hkey.mp hshort), beq_eq_false_iff_ne.mpr hshort]

/-- A short form is bound to the last namespace that has it. -/
theorem boundTo?_toMarkup (d : Document) (short : String) :
    d.toMarkup.boundTo? short = (d.lastUri? short).or (d.root.toMarkup.boundTo? short) := by
  rw [Markup.boundTo?, attributes_toMarkup, lookup_putAll, lookup_bindings]
  rfl

/-- The short form of a namespace is bound to a namespace that has it. -/
theorem exists_lastUri? {n : String × String} (hn : n ∈ d.namespaces) :
    ∃ m ∈ d.namespaces, m.2 = n.2 ∧ d.lastUri? n.2 = some m.1 := by
  have hsome : (d.namespaces.reverse.find? fun m => m.2 == n.2).isSome := by
    rw [List.find?_isSome]
    exact ⟨n, List.mem_reverse.mpr hn, beq_self_eq_true _⟩
  obtain ⟨m, hm⟩ := Option.isSome_iff_exists.mp hsome
  refine ⟨m, List.mem_reverse.mp (List.mem_of_find?_eq_some hm), ?_, ?_⟩
  · exact eq_of_beq (List.find?_some hm :)
  · rw [lastUri?, hm, Option.map_some]

/-- All namespaces are bound when no two of them have one short form. -/
theorem bound_iff (d : Document) :
    (∀ n ∈ d.namespaces, d.toMarkup.boundTo? n.2 = some n.1) ↔
      (d.namespaces.map Prod.snd).Nodup := by
  constructor
  · intro h
    refine (nodup_namespaces d).map_on fun n hn m hm hshort => ?_
    have huri := h n hn
    rw [hshort, h m hm, Option.some.injEq] at huri
    exact Prod.ext huri.symm hshort
  · intro h n hn
    obtain ⟨m, hm, hshort, huri⟩ := exists_lastUri? hn
    rw [boundTo?_toMarkup, huri, Option.some_or, List.inj_on_of_nodup_map h hm hn hshort]

/-- An attribute of the root keeps its text, unless it has the key of a binding and a text other
than the namespace that is bound. -/
theorem kept_iff (d : Document) :
    (∀ key, (d.root.toMarkup.attributes.lookup key).isSome →
        d.toMarkup.attributes.lookup key = d.root.toMarkup.attributes.lookup key) ↔
      ∀ short uri text, d.lastUri? short = some uri →
        d.root.toMarkup.boundTo? short = some text → text = uri := by
  constructor
  · intro h short uri text huri htext
    have hkept : d.toMarkup.boundTo? short = d.root.toMarkup.boundTo? short :=
      h _ (Option.isSome_iff_exists.mpr ⟨text, htext⟩)
    rw [boundTo?_toMarkup, huri, Option.some_or, htext, Option.some.injEq] at hkept
    exact hkept.symm
  · intro h key hkey
    by_cases hbinding : key ∈ d.bindings.map Prod.fst
    · rw [bindings, List.map_map, List.mem_map] at hbinding
      obtain ⟨n, hn, rfl⟩ := hbinding
      obtain ⟨m, -, -, huri⟩ := exists_lastUri? hn
      obtain ⟨text, htext⟩ := Option.isSome_iff_exists.mp hkey
      have hbound := boundTo?_toMarkup d n.2
      rw [huri, Option.some_or, ← h _ _ _ huri htext, ← htext] at hbound
      exact hbound
    · exact lookup_of_notMem_bindings hbinding

/-- The namespace of every attribute can be read off the written tree when no two namespaces have
one short form, and only then, in a document whose names have no colons. -/
theorem recovered_iff (hnames : ∀ a ∈ d.attributes, ':' ∉ a.name.toList) :
    (∀ a ∈ d.attributes, d.toMarkup.uriOf? a.key = a.uri) ↔
      (d.namespaces.map Prod.snd).Nodup := by
  have hread : ∀ a ∈ d.attributes,
      d.toMarkup.uriOf? a.key = (a.uri.map lastSegment).bind d.toMarkup.boundTo? := by
    intro a ha
    rw [Markup.uriOf?, Attribute.key, shortOf?_keyOf (hnames a ha)]
  rw [← bound_iff]
  constructor
  · intro h n hn
    obtain ⟨hshort, a, ha, huri⟩ := mem_namespaces.mp hn
    have hbound := h a ha
    rw [hread a ha, huri, Option.map_some, Option.bind_some, ← hshort] at hbound
    exact hbound
  · intro h a ha
    rw [hread a ha]
    cases huri : a.uri with
    | none => rfl
    | some u => exact h (u, lastSegment u) (mem_namespaces.mpr ⟨rfl, a, ha, huri⟩)

/-- Where no two namespaces have one short form, attributes with one short form have one
namespace. -/
theorem uri_eq_of_short {a b : Attribute} (hshorts : (d.namespaces.map Prod.snd).Nodup)
    (ha : a ∈ d.attributes) (hb : b ∈ d.attributes)
    (hsame : a.uri.map lastSegment = b.uri.map lastSegment) : a.uri = b.uri := by
  have hlisted : ∀ {c : Attribute} {u : String}, c ∈ d.attributes → c.uri = some u →
      (u, lastSegment u) ∈ d.namespaces :=
    fun hc hu => mem_namespaces.mpr ⟨rfl, _, hc, hu⟩
  cases hu : a.uri with
  | none =>
      rw [hu, Option.map_none, eq_comm, Option.map_eq_none_iff] at hsame
      exact hsame.symm
  | some u =>
      rw [hu, Option.map_some, eq_comm, Option.map_eq_some_iff] at hsame
      obtain ⟨v, hv, hshort⟩ := hsame
      have hpair := List.inj_on_of_nodup_map hshorts (hlisted hb hv) (hlisted ha hu) hshort
      rw [hv, (Prod.mk.inj hpair).1]

/-- What a written tree keeps of the namespaces of its document.  A short form is bound to the last
namespace that has it; so every namespace is bound when no two of them have one short form, and only
then.  The attributes of the root keep their texts unless one has the key of a binding and another
text.  Attributes of one name have different keys when their namespaces have different short forms,
and where no short form is shared and no name has a colon, the namespace of every attribute can be
read off the written tree. -/
theorem namespaces_of_toMarkup (d : Document) :
    (∀ short, d.toMarkup.boundTo? short =
      (d.lastUri? short).or (d.root.toMarkup.boundTo? short)) ∧
    ((∀ n ∈ d.namespaces, d.toMarkup.boundTo? n.2 = some n.1) ↔
      (d.namespaces.map Prod.snd).Nodup) ∧
    ((∀ key, (d.root.toMarkup.attributes.lookup key).isSome →
        d.toMarkup.attributes.lookup key = d.root.toMarkup.attributes.lookup key) ↔
      ∀ short uri text, d.lastUri? short = some uri →
        d.root.toMarkup.boundTo? short = some text → text = uri) ∧
    (∀ a ∈ d.attributes, ∀ b ∈ d.attributes, a.name = b.name →
      (a.key = b.key ↔ a.uri.map lastSegment = b.uri.map lastSegment) ∧
        ((d.namespaces.map Prod.snd).Nodup → a.key = b.key → a.uri = b.uri)) ∧
    ((∀ a ∈ d.attributes, ':' ∉ a.name.toList) →
      ((∀ a ∈ d.attributes, d.toMarkup.uriOf? a.key = a.uri) ↔
        (d.namespaces.map Prod.snd).Nodup)) := by
  refine ⟨boundTo?_toMarkup d, bound_iff d, kept_iff d, fun a ha b hb hname => ?_, recovered_iff⟩
  refine ⟨key_eq_iff hname, fun hshorts hkey => ?_⟩
  exact uri_eq_of_short hshorts ha hb ((key_eq_iff hname).mp hkey)

/-- A document with attributes of one name in two namespaces, and in one of them below the root. -/
def twoNamespaces : Bytes :=
  let root : Source := ⟨"app", none,
    [⟨some "urn:x/a", "k", .text "1"⟩, ⟨some "urn:y/b", "k", .text "2"⟩], none,
    [⟨"item", none, [⟨some "urn:y/b", "on", .number 0x12 1⟩, ⟨none, "id", .number 0x10 7⟩],
      none, []⟩]⟩
  (Manuscript.encode true ⟨[], [], root, []⟩).toArray

/-- Both namespaces are bound, and all four attributes lead back to theirs. -/
theorem namespaces_of_toMarkup_twoNamespaces : ∃ d, decode twoNamespaces = .ok d ∧
    d.attributes.map Attribute.key = ["a:k", "b:k", "b:on", "id"] ∧
    (∀ a ∈ d.attributes, ':' ∉ a.name.toList) ∧ (d.namespaces.map Prod.snd).Nodup ∧
    (∀ n ∈ d.namespaces, d.toMarkup.boundTo? n.2 = some n.1) ∧
    ∀ a ∈ d.attributes, d.toMarkup.uriOf? a.key = a.uri := by
  have haccepted : (decode twoNamespaces).toOption.any (fun d =>
      d.attributes.map Attribute.key = ["a:k", "b:k", "b:on", "id"] ∧
      (∀ a ∈ d.attributes, ':' ∉ a.name.toList) ∧ (d.namespaces.map Prod.snd).Nodup) = true := by
    decide +kernel
  obtain ⟨d, hdecode, htest⟩ := exists_ok_of_any haccepted
  obtain ⟨hkeys, hnames, hshorts⟩ := of_decide_eq_true htest
  obtain ⟨-, hbound, -, -, hrecovered⟩ := namespaces_of_toMarkup d
  exact ⟨d, hdecode, hkeys, hnames, hshorts, hbound.mpr hshorts, (hrecovered hnames).mpr hshorts⟩

/-- A document with attributes of one name in two namespaces of one short form, and with an
attribute that has the key of their binding. -/
def merged : Bytes :=
  let root : Source := ⟨"app", none,
    [⟨some "urn:x/a", "k", .text "1"⟩, ⟨some "urn:y/a", "k", .text "2"⟩,
      ⟨none, "xmlns:a", .text "mine"⟩], none, []⟩
  (Manuscript.encode true ⟨[], [], root, []⟩).toArray

/-- A written tree may lose a namespace, an attribute in it, and one with the key of a binding. -/
theorem namespaces_merged : ∃ d, decode merged = .ok d ∧
    d.namespaces = [("urn:x/a", "a"), ("urn:y/a", "a")] ∧
    d.root.attributes.map (fun a => (a.key, a.value)) =
      [("a:k", .text "1"), ("a:k", .text "2"), ("xmlns:a", .text "mine")] ∧
    d.toMarkup.attributes = [("a:k", "2"), ("xmlns:a", "urn:y/a")] := by
  have haccepted : (decode merged).toOption.any (fun d =>
      d.namespaces = [("urn:x/a", "a"), ("urn:y/a", "a")] ∧
      d.root.attributes.map (fun a => (a.key, a.value)) =
        [("a:k", .text "1"), ("a:k", .text "2"), ("xmlns:a", .text "mine")] ∧
      d.toMarkup.attributes = [("a:k", "2"), ("xmlns:a", "urn:y/a")]) = true := by
    decide +kernel
  obtain ⟨d, hdecode, htest⟩ := exists_ok_of_any haccepted
  exact ⟨d, hdecode, of_decide_eq_true htest⟩

end Document

end ApkFormats.Xml
