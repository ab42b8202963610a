import ApkFormats.Dex.Draft
import ApkFormats.Proofs.Lists
import Mathlib.Data.List.Induction

/-!
# What a draft holds

A draft only ever grows (`Draft.Extends`): an index that has been given for a
string, a type or a prototype keeps its meaning.  From this follows what a draft
made of some entries holds, entry by entry (`Draft.enters_ofEntries`): its rows of
fields, methods and classes are the declared ones, in the same order, with every
index leading to the name that was given.
-/

namespace ApkFormats.Dex

/-- A field as it is declared, by names. -/
structure FieldDecl where
  /-- Descriptor of the class. -/
  owner : String
  /-- Descriptor of the type. -/
  type : String
  name : String

/-- A method as it is declared, by names. -/
structure MethodDecl where
  /-- Descriptor of the class. -/
  owner : String
  /-- Descriptor of the type of the result. -/
  result : String
  /-- Descriptors of the parameters' types. -/
  parameters : List String
  name : String

/-- A class as it is declared, by names. -/
structure ClassDecl where
  name : String
  /-- Descriptor of the superclass, when there is one. -/
  superclass : Option String
  flags : Nat
  /-- Descriptors of the interfaces. -/
  interfaces : List String
  sourceFile : Option String
  members : MemberSource
  /-- Whether the members are written. -/
  hasMembers : Bool

/-- The field that an entry declares. -/
def DraftEntry.fieldDecl? : DraftEntry → Option FieldDecl
  | .field owner kind name => some ⟨owner, kind, name⟩
  | _ => none

/-- The method that an entry declares. -/
def DraftEntry.methodDecl? : DraftEntry → Option MethodDecl
  | .method owner result parameters name => some ⟨owner, result, parameters, name⟩
  | _ => none

/-- The class that an entry declares. -/
def DraftEntry.classDecl? : DraftEntry → Option ClassDecl
  | .classDef name superclass flags interfaces sourceFile members hasMembers =>
      some ⟨name, superclass, flags, interfaces, sourceFile, members, hasMembers⟩
  | _ => none

/-- An item that is entered is found at its index, and the items before it stay where they
are. -/
theorem enter_spec {α : Type} [BEq α] [LawfulBEq α] (items : List α) (a : α) :
    items <+: (enter items a).1 ∧ (enter items a).1[(enter items a).2]? = some a := by
  unfold enter
  by_cases hmem : a ∈ items
  · have hindex : items.idxOf a < items.length := List.idxOf_lt_length_iff.mpr hmem
    rw [if_pos (List.contains_iff_mem.mpr hmem)]
    refine ⟨List.prefix_rfl, ?_⟩
    simp [List.getElem?_eq_getElem hindex]
  · rw [if_neg (fun h => hmem (List.contains_iff_mem.mp h))]
    exact ⟨List.prefix_append items [a], by simp⟩

theorem mem_of_mem_enter {α : Type} [BEq α] {items : List α} {a b : α}
    (h : b ∈ (enter items a).1) : b ∈ items ∨ b = a := by
  unfold enter at h
  split at h
  · exact .inl h
  · simpa using h

/-- What stands in a list at an index stands there in every longer list. -/
theorem getElem?_of_longer {α : Type} {items more : List α} {i : Nat} {a : α}
    (hstays : items <+: more) (h : items[i]? = some a) : more[i]? = some a := by
  obtain ⟨rest, rfl⟩ := hstays
  have hi : i < items.length := (List.getElem?_eq_some_iff.mp h).1
  rwa [List.getElem?_append_left hi]

namespace Draft

section Meaning

/-! ## What indices mean -/

variable (d : Draft)

/-- The string at an index. -/
def HasString (i : Nat) (s : String) : Prop :=
  d.strings[i]? = some s

/-- The descriptor of the type at an index. -/
def HasType (i : Nat) (descriptor : String) : Prop :=
  ∃ s, d.types[i]? = some s ∧ d.HasString s descriptor

/-- The descriptors of the result and the parameters of the prototype at an index. -/
def HasProto (i : Nat) (result : String) (parameters : List String) : Prop :=
  ∃ p, d.protos[i]? = some p ∧ d.HasType p.returnType result ∧
    List.Forall₂ d.HasType p.parameters parameters

/-- A row of fields has the names of a declaration. -/
def IsField (row : FieldId) (decl : FieldDecl) : Prop :=
  d.HasType row.owner decl.owner ∧ d.HasType row.type decl.type ∧ d.HasString row.name decl.name

/-- A row of methods has the names of a declaration. -/
def IsMethod (row : MethodId) (decl : MethodDecl) : Prop :=
  d.HasType row.owner decl.owner ∧ d.HasProto row.proto decl.result decl.parameters ∧
    d.HasString row.name decl.name

/-- A class has the names of a declaration, and its flags and members. -/
structure IsClass (c : ClassSource) (decl : ClassDecl) : Prop where
  type : d.HasType c.type decl.name
  superclass : Option.Rel d.HasType c.superclass decl.superclass
  flags : c.flags = decl.flags
  interfaces : List.Forall₂ d.HasType c.interfaces decl.interfaces
  sourceFile : Option.Rel d.HasString c.sourceFile decl.sourceFile
  members : c.members = decl.members
  hasMembers : c.hasMembers = decl.hasMembers

/-- The indices in the tables of types and prototypes lead to strings and types. -/
structure Sound : Prop where
  types : ∀ t ∈ d.types, t < d.strings.length
  shorties : ∀ p ∈ d.protos, p.shorty < d.strings.length
  results : ∀ p ∈ d.protos, p.returnType < d.types.length

end Meaning

section Growth

/-! ## Growth -/

variable {d d' d'' : Draft}

/-- A draft has grown: its strings, types and prototypes stay where they are. -/
structure Grows (d d' : Draft) : Prop where
  strings : d.strings <+: d'.strings
  types : d.types <+: d'.types
  protos : d.protos <+: d'.protos
  sound : d.Sound → d'.Sound

namespace Grows

theorem trans (h : d.Grows d') (h' : d'.Grows d'') : d.Grows d'' :=
  ⟨h.strings.trans h'.strings, h.types.trans h'.types, h.protos.trans h'.protos,
    fun hsound => h'.sound (h.sound hsound)⟩

variable (h : d.Grows d')
include h

theorem hasString {i : Nat} {s : String} (hs : d.HasString i s) : d'.HasString i s :=
  getElem?_of_longer h.strings hs

theorem hasType {i : Nat} {descriptor : String} (ht : d.HasType i descriptor) :
    d'.HasType i descriptor := by
  obtain ⟨s, hrow, hs⟩ := ht
  exact ⟨s, getElem?_of_longer h.types hrow, h.hasString hs⟩

theorem hasProto {i : Nat} {result : String} {parameters : List String}
    (hp : d.HasProto i result parameters) : d'.HasProto i result parameters := by
  obtain ⟨p, hrow, hresult, hparameters⟩ := hp
  exact ⟨p, getElem?_of_longer h.protos hrow, h.hasType hresult,
    hparameters.imp fun _ _ ht => h.hasType ht⟩

theorem isField {row : FieldId} {decl : FieldDecl} (hf : d.IsField row decl) :
    d'.IsField row decl :=
  ⟨h.hasType hf.1, h.hasType hf.2.1, h.hasString hf.2.2⟩

theorem isMethod {row : MethodId} {decl : MethodDecl} (hm : d.IsMethod row decl) :
    d'.IsMethod row decl :=
  ⟨h.hasType hm.1, h.hasProto hm.2.1, h.hasString hm.2.2⟩

theorem isClass {c : ClassSource} {decl : ClassDecl} (hc : d.IsClass c decl) :
    d'.IsClass c decl where
  type := h.hasType hc.type
  superclass := optionRel_imp (fun _ _ => h.hasType) hc.superclass
  flags := hc.flags
  interfaces := hc.interfaces.imp fun _ _ ht => h.hasType ht
  sourceFile := optionRel_imp (fun _ _ => h.hasString) hc.sourceFile
  members := hc.members
  hasMembers := hc.hasMembers

end Grows

/-- Rows of fields, methods and classes are no matter of growth. -/
theorem Grows.ofRows (d : Draft) (fields : List FieldId) (methods : List MethodId)
    (classes : List ClassSource) : d.Grows { d with fields, methods, classes } :=
  ⟨List.prefix_rfl, List.prefix_rfl, List.prefix_rfl,
    fun h => ⟨h.types, h.shorties, h.results⟩⟩

/-- A draft has grown by strings, types and prototypes alone. -/
structure Extends (d d' : Draft) : Prop extends d.Grows d' where
  fields : d'.fields = d.fields
  methods : d'.methods = d.methods
  classes : d'.classes = d.classes

namespace Extends

theorem refl (d : Draft) : d.Extends d :=
  ⟨⟨List.prefix_rfl, List.prefix_rfl, List.prefix_rfl, id⟩, rfl, rfl, rfl⟩

theorem trans (h : d.Extends d') (h' : d'.Extends d'') : d.Extends d'' :=
  ⟨h.toGrows.trans h'.toGrows, h'.fields.trans h.fields, h'.methods.trans h.methods,
    h'.classes.trans h.classes⟩

/-- Strings are added. -/
theorem ofStrings {strings : List String} (h : d.strings <+: strings) :
    d.Extends { d with strings } := by
  refine ⟨⟨h, List.prefix_rfl, List.prefix_rfl, fun hsound => ?_⟩, rfl, rfl, rfl⟩
  exact ⟨fun t ht => Nat.lt_of_lt_of_le (hsound.types t ht) h.length_le,
    fun p hp => Nat.lt_of_lt_of_le (hsound.shorties p hp) h.length_le, hsound.results⟩

/-- A type is entered whose descriptor is a string of the draft. -/
theorem ofType {s : Nat} {descriptor : String} (h : d.HasString s descriptor) :
    d.Extends { d with types := (enter d.types s).1 } := by
  have hstays := (enter_spec d.types s).1
  refine ⟨⟨List.prefix_rfl, hstays, List.prefix_rfl, fun hsound => ?_⟩, rfl, rfl, rfl⟩
  refine ⟨fun t ht => ?_, hsound.shorties,
    fun p hp => Nat.lt_of_lt_of_le (hsound.results p hp) hstays.length_le⟩
  rcases mem_of_mem_enter ht with hold | rfl
  · exact hsound.types t hold
  · exact (List.getElem?_eq_some_iff.mp h).1

/-- A prototype is entered whose short descriptor and result are in the draft. -/
theorem ofProto {p : ProtoSource} {shorty result : String} (hshorty : d.HasString p.shorty shorty)
    (hresult : d.HasType p.returnType result) :
    d.Extends { d with protos := (enter d.protos p).1 } := by
  refine ⟨⟨List.prefix_rfl, List.prefix_rfl, (enter_spec d.protos p).1, fun hsound => ?_⟩,
    rfl, rfl, rfl⟩
  refine ⟨hsound.types, fun q hq => ?_, fun q hq => ?_⟩
  · rcases mem_of_mem_enter hq with hold | rfl
    · exact hsound.shorties q hold
    · exact (List.getElem?_eq_some_iff.mp hshorty).1
  · rcases mem_of_mem_enter hq with hold | rfl
    · exact hsound.results q hold
    · obtain ⟨s, hrow, -⟩ := hresult
      exact (List.getElem?_eq_some_iff.mp hrow).1

end Extends

end Growth

section Entering

/-! ## Entering strings, types and prototypes -/

variable (d : Draft)

/-- An entered string has the meaning of its index. -/
theorem addString_spec (s : String) :
    d.Extends (d.addString s).1 ∧ (d.addString s).1.HasString (d.addString s).2 s := by
  obtain ⟨hstays, hat⟩ := enter_spec d.strings s
  exact ⟨.ofStrings hstays, hat⟩

/-- An entered type has the meaning of its index. -/
theorem addType_spec (descriptor : String) :
    d.Extends (d.addType descriptor).1 ∧
      (d.addType descriptor).1.HasType (d.addType descriptor).2 descriptor := by
  obtain ⟨hstring, hmeans⟩ := d.addString_spec descriptor
  exact ⟨hstring.trans (.ofType hmeans), _, (enter_spec _ _).2, hmeans⟩

theorem addTypes_spec (descriptors : List String) :
    d.Extends (d.addTypes descriptors).1 ∧
      List.Forall₂ (d.addTypes descriptors).1.HasType (d.addTypes descriptors).2 descriptors := by
  induction descriptors generalizing d with
  | nil => exact ⟨.refl d, .nil⟩
  | cons descriptor rest ih =>
      obtain ⟨hfirst, hmeans⟩ := d.addType_spec descriptor
      obtain ⟨hrest, hall⟩ := ih (d.addType descriptor).1
      exact ⟨hfirst.trans hrest, .cons (hrest.toGrows.hasType hmeans) hall⟩

theorem addOptional_spec {add : Draft → String → Draft × Nat} {Has : Draft → Nat → String → Prop}
    (hadd : ∀ s, d.Extends (add d s).1 ∧ Has (add d s).1 (add d s).2 s) (o : Option String) :
    d.Extends (addOptional add d o).1 ∧
      Option.Rel (Has (addOptional add d o).1) (addOptional add d o).2 o := by
  cases o with
  | none => exact ⟨.refl d, .none⟩
  | some s => exact ⟨(hadd s).1, .some (hadd s).2⟩

/-- An entered prototype has the meaning of its index. -/
theorem addProto_spec (result : String) (parameters : List String) :
    d.Extends (d.addProto result parameters).1 ∧
      (d.addProto result parameters).1.HasProto (d.addProto result parameters).2 result
        parameters := by
  obtain ⟨hshorty, hshortyAt⟩ := d.addString_spec (shortDescriptor result parameters)
  generalize hfirst : d.addString (shortDescriptor result parameters) = first
    at hshorty hshortyAt
  obtain ⟨hresult, hresultAt⟩ := first.1.addType_spec result
  generalize hsecond : first.1.addType result = second at hresult hresultAt
  obtain ⟨hparameters, hparametersAt⟩ := second.1.addTypes_spec parameters
  generalize hthird : second.1.addTypes parameters = third at hparameters hparametersAt
  have hshort := (hresult.trans hparameters).toGrows.hasString hshortyAt
  have hreturn := hparameters.toGrows.hasType hresultAt
  have hproto := Extends.ofProto (p := ⟨first.2, second.2, third.2⟩) hshort hreturn
  simp only [addProto, hfirst, hsecond, hthird]
  exact ⟨((hshorty.trans hresult).trans hparameters).trans hproto, _, (enter_spec _ _).2,
    hproto.toGrows.hasType hreturn, hparametersAt.imp fun _ _ => hproto.toGrows.hasType⟩

end Entering

section Entries

/-! ## Entries in turn -/

variable {d d' : Draft} {entries : List DraftEntry}

/-- A draft holds what some entries declare, in the same order and by the same names. -/
structure Enters (entries : List DraftEntry) (d : Draft) : Prop where
  sound : d.Sound
  fields : List.Forall₂ d.IsField d.fields (entries.filterMap DraftEntry.fieldDecl?)
  methods : List.Forall₂ d.IsMethod d.methods (entries.filterMap DraftEntry.methodDecl?)
  classes : List.Forall₂ d.IsClass d.classes (entries.filterMap DraftEntry.classDecl?)

/-- A draft that grows and then gets the rows that an entry declares holds them as well. -/
theorem Enters.add (h : Enters entries d) (e : DraftEntry) (fields : List FieldId)
    (methods : List MethodId) (classes : List ClassSource) (hextends : d.Extends d')
    (hfields : List.Forall₂ d'.IsField fields e.fieldDecl?.toList)
    (hmethods : List.Forall₂ d'.IsMethod methods e.methodDecl?.toList)
    (hclasses : List.Forall₂ d'.IsClass classes e.classDecl?.toList) :
    Enters (entries ++ [e]) { d' with
      fields := d'.fields ++ fields
      methods := d'.methods ++ methods
      classes := d'.classes ++ classes } := by
  have hdeclared {δ : Type} (decl? : DraftEntry → Option δ) :
      (entries ++ [e]).filterMap decl? = entries.filterMap decl? ++ (decl? e).toList := by
    rw [List.filterMap_append, List.filterMap_cons]
    cases decl? e <;> rfl
  have hrows := Grows.ofRows d' (d'.fields ++ fields) (d'.methods ++ methods)
    (d'.classes ++ classes)
  have hgrows := hextends.toGrows.trans hrows
  obtain ⟨hsound, holdFields, holdMethods, holdClasses⟩ := h
  rw [← hextends.fields] at holdFields
  rw [← hextends.methods] at holdMethods
  rw [← hextends.classes] at holdClasses
  refine ⟨hgrows.sound hsound, ?_, ?_, ?_⟩
  · rw [hdeclared]
    exact List.rel_append (holdFields.imp fun _ _ => hgrows.isField)
      (hfields.imp fun _ _ => hrows.isField)
  · rw [hdeclared]
    exact List.rel_append (holdMethods.imp fun _ _ => hgrows.isMethod)
      (hmethods.imp fun _ _ => hrows.isMethod)
  · rw [hdeclared]
    exact List.rel_append (holdClasses.imp fun _ _ => hgrows.isClass)
      (hclasses.imp fun _ _ => hrows.isClass)

/-- An entry without rows of its own leaves the rows as they are. -/
theorem Enters.extend {e : DraftEntry} (h : Enters entries d) (hextends : d.Extends d')
    (hfield : e.fieldDecl? = none) (hmethod : e.methodDecl? = none)
    (hclass : e.classDecl? = none) : Enters (entries ++ [e]) d' := by
  have hadd := h.add e [] [] [] hextends
    (hfield ▸ .nil) (hmethod ▸ .nil) (hclass ▸ .nil)
  simpa only [List.append_nil] using hadd

theorem enters_addField (h : Enters entries d) (owner kind name : String) :
    Enters (entries ++ [.field owner kind name]) (d.addField owner kind name) := by
  obtain ⟨howner, hownerAt⟩ := d.addType_spec owner
  generalize hfirst : d.addType owner = first at howner hownerAt
  obtain ⟨hkind, hkindAt⟩ := first.1.addType_spec kind
  generalize hsecond : first.1.addType kind = second at hkind hkindAt
  obtain ⟨hname, hnameAt⟩ := second.1.addString_spec name
  generalize hthird : second.1.addString name = third at hname hnameAt
  have hrow : third.1.IsField ⟨first.2, second.2, third.2⟩ ⟨owner, kind, name⟩ :=
    ⟨(hkind.trans hname).toGrows.hasType hownerAt, hname.toGrows.hasType hkindAt, hnameAt⟩
  have hadd := h.add (.field owner kind name) [⟨first.2, second.2, third.2⟩] [] []
    ((howner.trans hkind).trans hname) (.cons hrow .nil) .nil .nil
  simpa only [addField, hfirst, hsecond, hthird, List.append_nil] using hadd

theorem enters_addMethod (h : Enters entries d) (owner result : String) (parameters : List String)
    (name : String) :
    Enters (entries ++ [.method owner result parameters name])
      (d.addMethod owner result parameters name) := by
  obtain ⟨howner, hownerAt⟩ := d.addType_spec owner
  generalize hfirst : d.addType owner = first at howner hownerAt
  obtain ⟨hproto, hprotoAt⟩ := first.1.addProto_spec result parameters
  generalize hsecond : first.1.addProto result parameters = second at hproto hprotoAt
  obtain ⟨hname, hnameAt⟩ := second.1.addString_spec name
  generalize hthird : second.1.addString name = third at hname hnameAt
  have hrow : third.1.IsMethod ⟨first.2, second.2, third.2⟩ ⟨owner, result, parameters, name⟩ :=
    ⟨(hproto.trans hname).toGrows.hasType hownerAt, hname.toGrows.hasProto hprotoAt, hnameAt⟩
  have hadd := h.add (.method owner result parameters name) [] [⟨first.2, second.2, third.2⟩] []
    ((howner.trans hproto).trans hname) .nil (.cons hrow .nil) .nil
  simpa only [addMethod, hfirst, hsecond, hthird, List.append_nil] using hadd

theorem enters_addClass (h : Enters entries d) (name : String) (superclass : Option String)
    (flags : Nat) (interfaces : List String) (sourceFile : Option String) (members : MemberSource)
    (hasMembers : Bool) :
    Enters (entries ++ [.classDef name superclass flags interfaces sourceFile members hasMembers])
      (d.apply (.classDef name superclass flags interfaces sourceFile members hasMembers)) := by
  obtain ⟨htype, htypeAt⟩ := d.addType_spec name
  generalize hfirst : d.addType name = first at htype htypeAt
  obtain ⟨hsuper, hsuperAt⟩ := first.1.addOptional_spec first.1.addType_spec superclass
  generalize hsecond : addOptional addType first.1 superclass = second at hsuper hsuperAt
  obtain ⟨hinterfaces, hinterfacesAt⟩ := second.1.addTypes_spec interfaces
  generalize hthird : second.1.addTypes interfaces = third at hinterfaces hinterfacesAt
  obtain ⟨hsource, hsourceAt⟩ := third.1.addOptional_spec third.1.addString_spec sourceFile
  generalize hfourth : addOptional addString third.1 sourceFile = fourth at hsource hsourceAt
  have hrow : fourth.1.IsClass
      ⟨first.2, flags, second.2, third.2, fourth.2, members, hasMembers⟩
      ⟨name, superclass, flags, interfaces, sourceFile, members, hasMembers⟩ :=
    { type := ((hsuper.trans hinterfaces).trans hsource).toGrows.hasType htypeAt
      superclass := optionRel_imp (fun _ _ => (hinterfaces.trans hsource).toGrows.hasType) hsuperAt
      flags := rfl
      interfaces := hinterfacesAt.imp fun _ _ => hsource.toGrows.hasType
      sourceFile := hsourceAt
      members := rfl
      hasMembers := rfl }
  have hadd := h.add
    (.classDef name superclass flags interfaces sourceFile members hasMembers) [] []
    [⟨first.2, flags, second.2, third.2, fourth.2, members, hasMembers⟩]
    (((htype.trans hsuper).trans hinterfaces).trans hsource) .nil .nil (.cons hrow .nil)
  simpa only [apply, hfirst, hsecond, hthird, hfourth, List.append_nil] using hadd

/-- An entry adds what it declares. -/
theorem enters_apply (h : Enters entries d) (e : DraftEntry) :
    Enters (entries ++ [e]) (d.apply e) := by
  cases e with
  | string s => exact h.extend (d.addString_spec s).1 rfl rfl rfl
  | type descriptor => exact h.extend (d.addType_spec descriptor).1 rfl rfl rfl
  | proto result parameters => exact h.extend (d.addProto_spec result parameters).1 rfl rfl rfl
  | field owner kind name => exact enters_addField h owner kind name
  | method owner result parameters name => exact enters_addMethod h owner result parameters name
  | classDef name superclass flags interfaces sourceFile members hasMembers =>
      exact enters_addClass h name superclass flags interfaces sourceFile members hasMembers

/-- A draft of some entries holds what they declare. -/
theorem enters_ofEntries (entries : List DraftEntry) : Enters entries (ofEntries entries) := by
  induction entries using List.reverseRecOn with
  | nil =>
      refine ⟨⟨fun t ht => ?_, fun p hp => ?_, fun p hp => ?_⟩, .nil, .nil, .nil⟩
      · cases ht
      · cases hp
      · cases hp
  | append_singleton entries e ih =>
      rw [ofEntries, List.foldl_append]
      exact enters_apply ih e

end Entries

end Draft

end ApkFormats.Dex
