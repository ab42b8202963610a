import ApkFormats.Proofs.Lists
import ApkFormats.Xml.Markup
import ApkFormats.Xml.Source

/-!
# What the written tree shows of a document

For writing, the attributes of an element become pairs in which no key repeats.
A document is asked for the first attribute with a key, while a repeated key is
written with its last value, so the two may differ.

* `lookup_putAll`: of several values for a key the last one stays;
* `Element.below?_toMarkup`: each element is written in its own place;
* `Document.shown_of_toMarkup`: what is written of the element in each place;
* `Document.get_of_repeated`: a document may be asked for one value of a key and
  write another one.
-/

namespace ApkFormats.Xml

section Pairs

/-! ## Putting values under keys -/

variable {pairs more : List (String × String)} {key value k : String}

theorem lookup_put :
    (put pairs key value).lookup k = if k = key then some value else pairs.lookup k := by
  induction pairs with
  | nil => exact lookup_cons_eq
  | cons pair rest ih =>
      obtain ⟨first, old⟩ := pair
      rw [put, lookup_cons_eq]
      by_cases hfirst : first = key
      · rw [if_pos hfirst, lookup_cons_eq, hfirst]
        split <;> rfl
      · rw [if_neg hfirst, lookup_cons_eq, ih]
        by_cases hk : k = first
        · rw [if_pos hk, if_pos hk, if_neg (hk ▸ hfirst)]
        · rw [if_neg hk, if_neg hk]

/-- Of several values for a key the last one stays. -/
theorem lookup_putAll :
    (putAll pairs more).lookup k = (more.reverse.lookup k).or (pairs.lookup k) := by
  induction more generalizing pairs with
  | nil => rfl
  | cons pair rest ih =>
      have hput : putAll pairs (pair :: rest) = putAll (put pairs pair.1 pair.2) rest := rfl
      rw [hput, ih, lookup_put, List.reverse_cons, List.lookup_append, Option.or_assoc,
        lookup_cons_eq]
      by_cases hk : k = pair.1
      · rw [if_pos hk, if_pos hk, Option.some_or]
      · rw [if_neg hk, if_neg hk, List.lookup_nil, Option.none_or]

end Pairs

namespace Element

/-! ## Elements and their places -/

/-- The element that is reached by a path of numbers of children. -/
def below? : List Nat → Element → Option Element
  | [], e => some e
  | i :: path, e => e.children[i]?.bind (below? path)

/-- The value of the last attribute with a key. -/
def last? (e : Element) (key : String) : Option Value :=
  (e.attributes.reverse.find? fun a => a.key == key).map Attribute.value

variable {e : Element} {key : String}

/-- A key that occurs once has its first value as its last one. -/
theorem last?_eq_get? (h : e.attributes.countP (fun a => a.key == key) ≤ 1) :
    e.last? key = e.get? key := by
  rw [List.countP_eq_length_filter] at h
  rw [last?, get?, ← List.head?_filter, ← List.head?_filter, List.filter_reverse]
  generalize e.attributes.filter (fun a => a.key == key) = kept at h ⊢
  match kept with
  | [] => rfl
  | [a] => rfl
  | a :: b :: rest => simp at h

end Element

/-- The written element that is reached by a path of numbers of children. -/
def Markup.below? : List Nat → Markup → Option Markup
  | [], m => some m
  | i :: path, m => m.children[i]?.bind (below? path)

section Written

variable {e : Element} {key : String}

theorem lookup_shown {attributes : List Attribute} :
    (attributes.map fun a => (a.key, a.value.shown)).lookup key =
      ((attributes.find? fun a => a.key == key).map Attribute.value).map Value.shown := by
  induction attributes with
  | nil => rfl
  | cons a rest ih =>
      rw [List.map_cons, List.lookup_cons, List.find?_cons, ih, BEq.comm]
      cases a.key == key <;> rfl

/-- An element is written with the last value of each key. -/
theorem lookup_toMarkup : e.toMarkup.attributes.lookup key = (e.last? key).map Value.shown := by
  obtain ⟨name, uri, attributes, text, children⟩ := e
  rw [Element.toMarkup, lookup_putAll, ← List.map_reverse, lookup_shown]
  exact Option.or_none

theorem tag_toMarkup (e : Element) : e.toMarkup.tag = e.name := by
  obtain ⟨name, uri, attributes, text, children⟩ := e
  rfl

theorem text_toMarkup (e : Element) : e.toMarkup.text = e.text := by
  obtain ⟨name, uri, attributes, text, children⟩ := e
  rfl

theorem toMarkups_eq_map (children : List Element) :
    Element.toMarkups children = children.map Element.toMarkup := by
  induction children with
  | nil => rfl
  | cons child rest ih => rw [Element.toMarkups, ih, List.map_cons]

theorem children_toMarkup (e : Element) :
    e.toMarkup.children = e.children.map Element.toMarkup := by
  obtain ⟨name, uri, attributes, text, children⟩ := e
  exact toMarkups_eq_map children

/-- Each element is written in its own place. -/
theorem Element.below?_toMarkup (path : List Nat) (e : Element) :
    e.toMarkup.below? path = (e.below? path).map Element.toMarkup := by
  induction path generalizing e with
  | nil => rfl
  | cons i path ih =>
      rw [Markup.below?, below?, children_toMarkup, List.getElem?_map, Option.bind_map,
        Option.map_bind]
      exact congrArg _ (funext ih)

end Written

namespace Document

variable {d : Document}

/-- The keys under which the short forms of namespaces are bound on the root, each with its
namespace. -/
def bindings (d : Document) : List (String × String) :=
  d.namespaces.map fun n => ("xmlns:" ++ n.2, n.1)

theorem attributes_toMarkup (d : Document) :
    d.toMarkup.attributes = putAll d.root.toMarkup.attributes d.bindings :=
  rfl

/-- A key that is no binding has on the root the value that the root gives it. -/
theorem lookup_of_notMem_bindings {key : String} (h : key ∉ d.bindings.map Prod.fst) :
    d.toMarkup.attributes.lookup key = d.root.toMarkup.attributes.lookup key := by
  have hnone : d.bindings.reverse.lookup key = none := by
    rw [List.lookup_eq_none_iff]
    intro pair hpair
    rw [bne_iff_ne]
    rintro rfl
    exact h (List.mem_map_of_mem (List.mem_reverse.mp hpair))
  rw [attributes_toMarkup, lookup_putAll, hnone, Option.none_or]

/-- There is something written in the places of elements only. -/
theorem below?_toMarkup_eq_none_iff (d : Document) (path : List Nat) :
    d.toMarkup.below? path = none ↔ d.root.below? path = none := by
  cases path with
  | nil => exact iff_of_false (Option.some_ne_none _) (Option.some_ne_none _)
  | cons i path =>
      have hplace : d.toMarkup.below? (i :: path) = d.root.toMarkup.below? (i :: path) := rfl
      rw [hplace, Element.below?_toMarkup, Option.map_eq_none_iff]

/-- What is written in a place is the element there, apart from the bindings on the root. -/
theorem written_of_below? {path : List Nat} {e : Element} {m : Markup}
    (he : d.root.below? path = some e) (hm : d.toMarkup.below? path = some m) :
    m.tag = e.toMarkup.tag ∧ m.text = e.toMarkup.text ∧ m.children = e.toMarkup.children ∧
      ∀ key, (path = [] → key ∉ d.bindings.map Prod.fst) →
        m.attributes.lookup key = e.toMarkup.attributes.lookup key := by
  cases path with
  | nil =>
      cases he
      cases hm
      exact ⟨rfl, rfl, rfl, fun key hkey => lookup_of_notMem_bindings (hkey rfl)⟩
  | cons i path =>
      have hplace : d.root.toMarkup.below? (i :: path) = some m := hm
      rw [Element.below?_toMarkup, he, Option.map_some, Option.some.injEq] at hplace
      rw [hplace]
      exact ⟨rfl, rfl, rfl, fun key _ => rfl⟩

/-- What is written of the element in each place: its name, its text, as many children as it has,
and under each key the text of its last attribute with that key, the bindings of namespaces on the
root apart.  A key that occurs once is therefore written with the value that is found under it. -/
theorem shown_of_toMarkup (d : Document) (path : List Nat) :
    (d.toMarkup.below? path = none ↔ d.root.below? path = none) ∧
    ∀ e m, d.root.below? path = some e → d.toMarkup.below? path = some m →
      m.tag = e.name ∧ m.text = e.text ∧ m.children.length = e.children.length ∧
      ∀ key, (path = [] → key ∉ d.bindings.map Prod.fst) →
        m.attributes.lookup key = (e.last? key).map Value.shown ∧
        (e.attributes.countP (fun a => a.key == key) ≤ 1 →
          m.attributes.lookup key = (e.get? key).map Value.shown) := by
  refine ⟨below?_toMarkup_eq_none_iff d path, fun e m he hm => ?_⟩
  obtain ⟨htag, htext, hchildren, hlookup⟩ := written_of_below? he hm
  rw [tag_toMarkup] at htag
  rw [text_toMarkup] at htext
  rw [children_toMarkup] at hchildren
  refine ⟨htag, htext, by rw [hchildren, List.length_map], fun key hkey => ?_⟩
  have hlast : m.attributes.lookup key = (e.last? key).map Value.shown := by
    rw [hlookup key hkey, lookup_toMarkup]
  refine ⟨hlast, fun honce => ?_⟩
  rw [hlast, Element.last?_eq_get? honce]

/-- A document whose root has one key twice and another one once. -/
def repeated : Bytes :=
  let root : Source := ⟨"app", none,
    [⟨none, "k", .text "a"⟩, ⟨none, "on", .number 0x12 1⟩, ⟨none, "k", .text "b"⟩], none, []⟩
  (Manuscript.encode true ⟨[], [], root, []⟩).toArray

theorem decode_repeated : ∃ d, decode repeated = .ok d ∧ d.bindings = [] ∧
    d.root.attributes.countP (fun a => a.key == "on") ≤ 1 ∧
    d.root.get? "k" = some (.text "a") ∧ d.root.last? "k" = some (.text "b") ∧
    d.root.get? "on" = some (.boolean true) ∧ d.toMarkup.attributes.lookup "k" = some "b" := by
  have haccepted : (decode repeated).toOption.any (fun d => d.bindings = [] ∧
      d.root.attributes.countP (fun a => a.key == "on") ≤ 1 ∧
      d.root.get? "k" = some (.text "a") ∧ d.root.last? "k" = some (.text "b") ∧
      d.root.get? "on" = some (.boolean true) ∧
      d.toMarkup.attributes.lookup "k" = some "b") = true := by
    decide +kernel
  obtain ⟨d, hdecode, htest⟩ := exists_ok_of_any haccepted
  exact ⟨d, hdecode, of_decide_eq_true htest⟩

/-- The key that occurs twice is written with its last value, the other one with its only one. -/
theorem shown_of_toMarkup_repeated : ∃ d, decode repeated = .ok d ∧
    d.root.below? [] = some d.root ∧ d.toMarkup.below? [] = some d.toMarkup ∧
    (∀ key, key ∉ d.bindings.map Prod.fst) ∧
    d.root.attributes.countP (fun a => a.key == "on") ≤ 1 ∧
    d.toMarkup.attributes.lookup "k" = some "b" ∧
    d.toMarkup.attributes.lookup "on" = some "true" := by
  obtain ⟨d, hdecode, hbindings, honce, -, hlast, hon, -⟩ := decode_repeated
  have hfree : ∀ key, key ∉ d.bindings.map Prod.fst := by
    rw [hbindings]
    exact fun key => List.not_mem_nil
  obtain ⟨-, -, -, hkeys⟩ := (shown_of_toMarkup d []).2 d.root d.toMarkup rfl rfl
  refine ⟨d, hdecode, rfl, rfl, hfree, honce, ?_, ?_⟩
  · rw [(hkeys "k" fun _ => hfree "k").1, hlast]
    rfl
  · rw [(hkeys "on" fun _ => hfree "on").2 honce, hon]
    rfl

/-- A document may be asked for one value of a key and write another one. -/
theorem get_of_repeated : ∃ d, decode repeated = .ok d ∧ d.bindings = [] ∧
    d.root.get? "k" = some (.text "a") ∧ d.toMarkup.attributes.lookup "k" = some "b" := by
  obtain ⟨d, hdecode, hbindings, -, hfirst, -, -, hwritten⟩ := decode_repeated
  exact ⟨d, hdecode, hbindings, hfirst, hwritten⟩

end Document

end ApkFormats.Xml
