import ApkFormats.Proofs.Lists
import ApkFormats.Xml.Builder

/-!
# The elements of a tree by number

An element is a node of its tree: it has a number, its place in document order,
a depth and a parent, which is named by its number.  `Element.nodes` lists the
nodes of a tree, and `Builder.nodes` those of a tree under construction.

* `walk_nodes`: the nodes are the elements that `Element.walk` gives, in its order;
* `childAt_of_nodes`: the parent of a node has the node's element as a child;
* `spineNodes_addChild`: it makes no difference for the nodes whether an
  element has ended.
-/

namespace ApkFormats.Xml

/-- An element in its tree. -/
structure Node where
  depth : Int
  parent : Option Nat
  name : String
  uri : Option String
  attributes : List Attribute
  text : Option String
  deriving DecidableEq, Repr

namespace Element

/-- An element without what is below it, at a depth and below a parent. -/
def node (e : Element) (depth : Int) (parent : Option Nat) : Node :=
  ⟨depth, parent, e.name, e.uri, e.attributes, e.text⟩

mutual

/-- The nodes of an element and everything below it, the first of which gets a given number. -/
def nodesFrom (depth : Nat) (parent : Option Nat) (number : Nat) : Element → List Node
  | ⟨name, uri, attributes, text, children⟩ =>
      ⟨depth, parent, name, uri, attributes, text⟩ ::
        nodesBelow (depth + 1) number (number + 1) children

/-- The nodes of some children and everything below them, the first of which gets a given number. -/
def nodesBelow (depth parent number : Nat) : List Element → List Node
  | [] => []
  | e :: rest =>
      let nodes := nodesFrom depth (some parent) number e
      nodes ++ nodesBelow depth parent (number + nodes.length) rest

end

/-- The nodes of a tree in document order. -/
def nodes (e : Element) : List Node :=
  e.nodesFrom 0 none 0

theorem nodesFrom_eq (depth : Nat) (parent : Option Nat) (number : Nat) (e : Element) :
    e.nodesFrom depth parent number =
      e.node depth parent :: nodesBelow (depth + 1) number (number + 1) e.children := by
  cases e with
  | mk name uri attributes text children =>
      rw [nodesFrom]
      rfl

mutual

theorem walk_nodesFrom (depth : Nat) (parent : Option Nat) (number : Nat) :
    ∀ e : Element, List.Forall₂ (fun shown n => n = shown.2.node shown.1 n.parent) (e.walk depth)
      (e.nodesFrom depth parent number)
  | ⟨name, uri, attributes, text, children⟩ => by
      rw [walk, nodesFrom]
      exact .cons rfl (walkAll_nodesBelow (depth + 1) number (number + 1) children)

theorem walkAll_nodesBelow (depth parent number : Nat) :
    ∀ es : List Element, List.Forall₂ (fun shown n => n = shown.2.node shown.1 n.parent)
      (walkAll depth es) (nodesBelow depth parent number es)
  | [] => .nil
  | e :: rest => by
      rw [walkAll, nodesBelow]
      exact List.rel_append (walk_nodesFrom depth (some parent) number e)
        (walkAll_nodesBelow depth parent _ rest)

end

/-- The nodes of a tree are its elements in document order, each with its depth. -/
theorem walk_nodes (e : Element) :
    List.Forall₂ (fun shown n => n = shown.2.node shown.1 n.parent) (e.walk 0) e.nodes :=
  walk_nodesFrom 0 none 0 e

section Parents

/-! ## Parents have children -/

/-- In a row of elements the one at a place is a child of the one at another. -/
def ChildAt (row : List (Nat × Element)) (place child : Nat) : Prop :=
  ∃ outer inner, row[place]? = some outer ∧ row[child]? = some inner ∧
    inner.2 ∈ outer.2.children

theorem ChildAt.append_left {row : List (Nat × Element)} {place child : Nat}
    (h : ChildAt row place child) (front : List (Nat × Element)) :
    ChildAt (front ++ row) (front.length + place) (front.length + child) := by
  obtain ⟨outer, inner, houter, hinner, hchild⟩ := h
  refine ⟨outer, inner, ?_, ?_, hchild⟩
  · rw [List.getElem?_append_right (by omega), Nat.add_sub_cancel_left, houter]
  · rw [List.getElem?_append_right (by omega), Nat.add_sub_cancel_left, hinner]

theorem ChildAt.append_right {row : List (Nat × Element)} {place child : Nat}
    (h : ChildAt row place child) (back : List (Nat × Element)) :
    ChildAt (row ++ back) place child := by
  obtain ⟨outer, inner, houter, hinner, hchild⟩ := h
  refine ⟨outer, inner, ?_, ?_, hchild⟩
  · rw [List.getElem?_append_left (List.getElem?_eq_some_iff.mp houter).1, houter]
  · rw [List.getElem?_append_left (List.getElem?_eq_some_iff.mp hinner).1, hinner]

mutual

theorem parents_nodesFrom (depth : Nat) (parent : Option Nat) (number : Nat) :
    ∀ (e : Element) (k : Nat) (n : Node), (e.nodesFrom depth parent number)[k]? = some n →
      k = 0 ∧ n.parent = parent ∨
        ∃ p, n.parent = some (number + p) ∧ ChildAt (e.walk depth) p k
  | ⟨name, uri, attributes, text, children⟩, 0, n, h => by
      rw [nodesFrom] at h
      cases h
      exact .inl ⟨rfl, rfl⟩
  | ⟨name, uri, attributes, text, children⟩, k + 1, n, h => by
      rw [nodesFrom, List.getElem?_cons_succ] at h
      rw [walk]
      rcases parents_nodesBelow (depth + 1) number (number + 1) children k n h with
        ⟨hparent, inner, hinner, hchild⟩ | ⟨p, hparent, hchild⟩
      · exact .inr ⟨0, hparent, _, inner, rfl, hinner, hchild⟩
      · refine .inr ⟨1 + p, by rw [hparent, Nat.add_assoc], ?_⟩
        rw [Nat.add_comm k 1]
        exact hchild.append_left [_]

theorem parents_nodesBelow (depth parent number : Nat) :
    ∀ (es : List Element) (k : Nat) (n : Node), (nodesBelow depth parent number es)[k]? = some n →
      (n.parent = some parent ∧ ∃ inner, (walkAll depth es)[k]? = some inner ∧ inner.2 ∈ es) ∨
        ∃ p, n.parent = some (number + p) ∧ ChildAt (walkAll depth es) p k
  | [], k, n, h => by
      rw [nodesBelow] at h
      cases h
  | e :: rest, k, n, h => by
      have hlength : (e.walk depth).length = (e.nodesFrom depth (some parent) number).length :=
        (walk_nodesFrom depth (some parent) number e).length_eq
      rw [nodesBelow] at h
      rw [walkAll]
      by_cases hk : k < (e.nodesFrom depth (some parent) number).length
      · rw [List.getElem?_append_left hk] at h
        rcases parents_nodesFrom depth (some parent) number e k n h with
          ⟨rfl, hparent⟩ | ⟨p, hparent, hchild⟩
        · refine .inl ⟨hparent, (depth, e), ?_, List.mem_cons_self⟩
          cases e
          rw [walk]
          rfl
        · exact .inr ⟨p, hparent, hchild.append_right _⟩
      · obtain ⟨m, rfl⟩ := Nat.exists_eq_add_of_le (Nat.le_of_not_lt hk)
        rw [List.getElem?_append_right (by omega), Nat.add_sub_cancel_left] at h
        rw [← hlength] at h ⊢
        rcases parents_nodesBelow depth parent _ rest m n h with
          ⟨hparent, inner, hinner, hchild⟩ | ⟨p, hparent, hchild⟩
        · refine .inl ⟨hparent, inner, ?_, List.mem_cons_of_mem _ hchild⟩
          rw [List.getElem?_append_right (by omega), Nat.add_sub_cancel_left, hinner]
        · exact .inr ⟨_, by rw [hparent, Nat.add_assoc], hchild.append_left _⟩

end

/-- The parent of a node is the element that has the node's element as a child. -/
theorem childAt_of_nodes {e : Element} {k p : Nat} {n : Node} (hn : e.nodes[k]? = some n)
    (hp : n.parent = some p) : ChildAt (e.walk 0) p k := by
  rcases parents_nodesFrom 0 none 0 e k n hn with ⟨-, hroot⟩ | ⟨p', hparent, hchild⟩
  · rw [hp] at hroot
    cases hroot
  · rw [hp, Nat.zero_add, Option.some.injEq] at hparent
    rw [hparent]
    exact hchild

end Parents

section AddChild

/-! ## One child more -/

variable (depth number : Nat) (parent : Option Nat) (e : Element)

theorem nodesBelow_append (depth parent : Nat) (es : List Element) (number : Nat) :
    nodesBelow depth parent number (es ++ [e]) =
      nodesBelow depth parent number es ++
        e.nodesFrom depth (some parent) (number + (nodesBelow depth parent number es).length) := by
  induction es generalizing number with
  | nil => simp [nodesBelow]
  | cons first rest ih =>
      rw [List.cons_append, nodesBelow, nodesBelow, ih, List.append_assoc, List.length_append,
        Nat.add_assoc]

/-- The nodes of a last child come after all that were there before. -/
theorem nodesFrom_addChild (outer : Element) :
    (Builder.addChild outer e).nodesFrom depth parent number =
      outer.nodesFrom depth parent number ++
        e.nodesFrom (depth + 1) (some number)
          (number + (outer.nodesFrom depth parent number).length) := by
  rw [nodesFrom_eq, nodesFrom_eq, Builder.addChild, nodesBelow_append, List.cons_append,
    List.length_cons, Nat.add_assoc, Nat.add_comm 1]
  rfl

end AddChild

end Element

namespace Builder

mutual

/-- The nodes of a stack of open elements, the innermost first, with all that is below them. -/
def spineNodes : List Element → List Node
  | [] => []
  | e :: outer =>
      spineNodes outer ++
        e.nodesFrom outer.length (spineNumbers outer).head? (spineNodes outer).length

/-- The numbers of open elements, the innermost first. -/
def spineNumbers : List Element → List Nat
  | [] => []
  | _ :: outer => (spineNodes outer).length :: spineNumbers outer

end

/-- The nodes of a tree under construction. -/
def nodes (b : Builder) : List Node :=
  match b.root? with
  | some root => root.nodes
  | none => []

/-- The nodes are the same whether the innermost element is open or has ended. -/
theorem spineNodes_addChild (parent e : Element) (outer : List Element) :
    spineNodes (addChild parent e :: outer) = spineNodes (e :: parent :: outer) := by
  simp only [spineNodes, spineNumbers, Element.nodesFrom_addChild, List.length_cons,
    List.head?_cons, List.length_append, List.append_assoc]

theorem nodes_closeAll (e : Element) (outer : List Element) :
    (closeAll e outer).nodes = spineNodes (e :: outer) := by
  induction outer generalizing e with
  | nil => rfl
  | cons parent outer ih => rw [closeAll, ih, spineNodes_addChild]

theorem nodes_of_opened {b : Builder} {e : Element} {outer : List Element}
    (h : b.opened = e :: outer) : b.nodes = spineNodes b.opened := by
  rw [nodes, root?, h]
  exact nodes_closeAll e outer

end Builder

end ApkFormats.Xml
