import ApkFormats.Dex.AccessFlags
import ApkFormats.Dex.Tables

/-!
# Classes as they are read by people

`ClassView` is a class with all its indices resolved: names of types, strings
and members.  Member lists store differences of indices, so the index of a
member is the sum of the differences up to it within its own list.

`ClassView.resolve` gives the view of a row of the table of classes, or the
first index that dangles.
-/

namespace ApkFormats.Dex

/-- The numbers that result from adding some differences in turn, from `start` on. -/
def runningSums (start : Nat) : List Nat → List Nat
  | [] => []
  | d :: rest => (start + d) :: runningSums (start + d) rest

/-- The items of a list with their indices, when `diff` gives the difference of each. -/
def withIndices {α : Type} (diff : α → Nat) (items : List α) : List (Nat × α) :=
  (runningSums 0 (items.map diff)).zip items

structure FieldView where
  /-- Index in the table of fields. -/
  index : Nat
  flags : AccessFlags
  name : String
  type : String
  deriving DecidableEq, Repr

namespace FieldView

/-- The view of a stored field with its index. -/
def resolve (t : Tables) (item : Nat × FieldEntry) : Except IndexFault FieldView := do
  let row ← t.fieldIdAt item.1
  let name ← t.stringAt row.name
  let type ← t.typeName row.type
  .ok ⟨item.1, ⟨.ofClass, item.2.flags⟩, name, type⟩

def definition (f : FieldView) : String :=
  f.flags.text ++ " " ++ f.type ++ " " ++ f.name

def summary (f : FieldView) : String :=
  "<FieldInfo " ++ f.definition ++ ">"

end FieldView

structure MethodView where
  /-- Index in the table of methods. -/
  index : Nat
  flags : AccessFlags
  name : String
  returnType : String
  parameters : List String
  /-- Names of the parameters, none for an unnamed one. -/
  parameterNames : List (Option String)
  code : Option Code
  deriving DecidableEq, Repr

namespace MethodView

/-- Name of a parameter, which a negative index leaves unnamed. -/
def parameterName (t : Tables) (index : Int) : Except IndexFault (Option String) :=
  if index < 0 then .ok none else (t.stringAt index).map some

/-- Indices of the names of the parameters, as far as there is debug information. -/
def nameIndices (code : Option Code) : List Int :=
  match code.bind Code.debug with
  | some debug => debug.parameterNames
  | none => []

/-- The view of a stored method with its index. -/
def resolve (t : Tables) (item : Nat × MethodEntry) : Except IndexFault MethodView := do
  let row ← t.methodIdAt item.1
  let proto ← t.protoIdAt row.proto
  let name ← t.stringAt row.name
  let returnType ← t.typeName proto.returnType
  let parameters ← (proto.parameters.getD []).mapM fun (index : Nat) => t.typeName index
  let parameterNames ← (nameIndices item.2.code).mapM (parameterName t)
  .ok ⟨item.1, ⟨.ofMethod, item.2.flags⟩, name, returnType, parameters, parameterNames,
    item.2.code⟩

def definition (m : MethodView) : String :=
  m.flags.text ++ " " ++ m.returnType ++ " " ++ m.name ++ "(" ++ ", ".intercalate m.parameters ++
    ");"

def summary (m : MethodView) : String :=
  "<MethodInfo " ++ m.definition ++ ">"

end MethodView

structure ClassView where
  name : String
  superclass : Option String
  flags : AccessFlags
  interfaces : List String
  sourceFile : Option String
  staticFields : List FieldView
  instanceFields : List FieldView
  directMethods : List MethodView
  virtualMethods : List MethodView
  deriving DecidableEq, Repr

namespace ClassView

/-- What an index word stands for, unless it is the word for "no index". -/
def resolveOptional (lookup : Int → Except IndexFault String) (index : Nat) :
    Except IndexFault (Option String) :=
  if index = noIndex then .ok none else (lookup index).map some

/-- The view of a row of the table of classes. -/
def resolve (t : Tables) (row : ClassDef) : Except IndexFault ClassView := do
  let name ← t.typeName row.type
  let superclass ← resolveOptional t.typeName row.superclass
  let interfaces ← (row.interfaces.getD []).mapM fun (index : Nat) => t.typeName index
  let sourceFile ← resolveOptional t.stringAt row.sourceFile
  let fieldsOf (list : ClassData → List FieldEntry) : Except IndexFault (List FieldView) :=
    (withIndices FieldEntry.indexDiff ((row.data.map list).getD [])).mapM (FieldView.resolve t)
  let methodsOf (list : ClassData → List MethodEntry) : Except IndexFault (List MethodView) :=
    (withIndices MethodEntry.indexDiff ((row.data.map list).getD [])).mapM (MethodView.resolve t)
  let staticFields ← fieldsOf ClassData.staticFields
  let instanceFields ← fieldsOf ClassData.instanceFields
  let directMethods ← methodsOf ClassData.directMethods
  let virtualMethods ← methodsOf ClassData.virtualMethods
  .ok ⟨name, superclass, ⟨.ofClass, row.flags⟩, interfaces, sourceFile, staticFields,
    instanceFields, directMethods, virtualMethods⟩

/-- All fields, static ones first. -/
def fields (c : ClassView) : List FieldView :=
  c.staticFields ++ c.instanceFields

/-- All methods, direct ones first. -/
def methods (c : ClassView) : List MethodView :=
  c.directMethods ++ c.virtualMethods

def definition (c : ClassView) : String :=
  let declared := c.flags.text ++ " class " ++ c.name
  match c.superclass with
  | some s => declared ++ " extends " ++ s
  | none => declared

def summary (c : ClassView) : String :=
  "<ClassInfo " ++ c.name ++ ">"

end ClassView

end ApkFormats.Dex
