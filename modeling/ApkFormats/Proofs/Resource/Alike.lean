import ApkFormats.Resource.Table
import Mathlib.Data.List.Forall2

/-!
# What lookups depend on

A lookup sees neither where the chunks of a package stand, nor its
specifications, nor how the chunks of different types stand to each other.  Of
the entries it sees those of one type at a time, and of a pool the strings.

* `Package.Alike`: two packages have the same names and strings and, for each
  type, the same entries in the same order;
* `Table.Alike`: two tables have alike packages and the same global strings;
* `Table.Alike.find_eq`, `Table.Alike.wordText_eq`, `Table.Alike.numberText_eq`:
  alike tables give the same answers.
-/

namespace ApkFormats

theorem StringPool.stringAt_congr {a b : StringPool} (h : a.strings = b.strings) :
    a.stringAt = b.stringAt := by
  funext index
  rw [stringAt, stringAt, h]

namespace Resource

/-- Two tables have the same global strings, or both of them have none. -/
def SameStrings (strings strings' : Option StringPool) : Prop :=
  strings.map StringPool.strings = strings'.map StringPool.strings

section Entries

variable {strings strings' : Option StringPool}

theorem SameStrings.ofTyped_eq (h : SameStrings strings strings') (type data flags : Int) :
    Value.ofTyped type data flags strings = Value.ofTyped type data flags strings' := by
  cases strings with
  | none =>
      cases strings' with
      | none => rfl
      | some pool' => cases h
  | some pool =>
      cases strings' with
      | none => cases h
      | some pool' =>
          rw [Value.ofTyped, Value.ofTyped, StringPool.stringAt_congr (Option.some.inj h)]

theorem SameStrings.resolve_eq (h : SameStrings strings strings') :
    Entry.resolve strings = Entry.resolve strings' := by
  funext e
  unfold Entry.resolve
  cases e.value? with
  | none => rfl
  | some v =>
      dsimp only
      rw [h.ofTyped_eq]

theorem SameStrings.textAt_eq (h : SameStrings strings strings') :
    Package.textAt strings = Package.textAt strings' := by
  funext entry chunk
  rw [Package.textAt, Package.textAt, h.resolve_eq]

theorem SameStrings.textsOf_eq (h : SameStrings strings strings') :
    Localized.textsOf strings = Localized.textsOf strings' := by
  funext chunk
  unfold Localized.textsOf
  rw [h.resolve_eq]

theorem SameStrings.ofChunks_eq (h : SameStrings strings strings') :
    Localized.ofChunks strings = Localized.ofChunks strings' := by
  funext chunks
  rw [Localized.ofChunks, Localized.ofChunks, h.textsOf_eq]

/-- A chunk of entries as if it stood at the start. -/
def TypeEntries.atOrigin (chunk : TypeEntries) : TypeEntries :=
  { chunk with header := { chunk.header with offset := 0 } }

end Entries

section Packages

/-- Two packages have the same names and strings, and of each type the same entries in the same
order. -/
structure Package.Alike (p q : Package) : Prop where
  id : p.id = q.id
  name : p.name = q.name
  types : p.typePool.strings = q.typePool.strings
  keys : p.keyPool.strings = q.keyPool.strings
  entries : ∀ type : Int, (p.entryChunksOf type).map TypeEntries.atOrigin =
    (q.entryChunksOf type).map TypeEntries.atOrigin
  localized : p.localized = q.localized

namespace Package.Alike

variable {p q : Package} (h : p.Alike q)
include h

theorem typeName?_eq : p.typeName? = q.typeName? := by
  funext type
  rw [typeName?, typeName?, h.types]

theorem typeNameAt_eq : p.typeNameAt = q.typeNameAt := by
  funext type
  rw [typeNameAt, typeNameAt, h.typeName?_eq, h.types]

theorem typeId_eq : p.typeId = q.typeId := by
  funext name
  rw [typeId, typeId, typeIdIn?, typeIdIn?, h.types]

theorem keyAt_eq : p.keyAt = q.keyAt := by
  funext index
  rw [keyAt, keyAt, StringPool.stringAt_congr h.keys]

/-- What does not see where the chunks of a type stand is the same of both packages. -/
theorem entryChunks_eq {α : Type} {f : List TypeEntries → α}
    (hf : ∀ chunks, f (chunks.map TypeEntries.atOrigin) = f chunks) (type : Int) :
    f (p.entryChunksOf type) = f (q.entryChunksOf type) := by
  rw [← hf, h.entries, hf]

theorem findSome?_eq {α : Type} {f : TypeEntries → Option α} (hf : ∀ c, f c.atOrigin = f c)
    (type : Int) : (p.entryChunksOf type).findSome? f = (q.entryChunksOf type).findSome? f :=
  h.entryChunks_eq (f := fun chunks => chunks.findSome? f) (fun chunks => by
    rw [List.findSome?_map, (funext hf : f ∘ TypeEntries.atOrigin = f)]) type

theorem wordText_eq (n : Int) : p.wordText n = q.wordText n := by
  rw [wordText, wordText, h.findSome?_eq (fun _ => rfl), h.typeNameAt_eq, h.keyAt_eq]

theorem wordTextOf_eq (id : String) : p.wordTextOf id = q.wordTextOf id := by
  unfold wordTextOf
  split
  · exact h.wordText_eq _
  · rfl

theorem numberText_eq (id : String) : p.numberText id = q.numberText id := by
  unfold numberText
  cases wordId? id with
  | none => rfl
  | some words =>
      dsimp only
      rw [h.typeId_eq]
      refine congrArg _ (funext fun type => ?_)
      rw [h.findSome?_eq (fun _ => rfl), h.id]

theorem numberOf_eq (id : String) : p.numberOf id = q.numberOf id := by
  rw [numberOf, numberOf, h.numberText_eq]

theorem reaches_eq (type entry : Nat) : p.reaches type entry = q.reaches type entry :=
  h.entryChunks_eq (f := fun chunks => chunks.any fun c => entry < c.entryCount)
    (fun _ => List.any_map) type

theorem findString_eq (type entry : Nat) (language region : Option String) :
    p.findString type entry language region = q.findString type entry language region := by
  rw [findString, findString, h.reaches_eq, h.localized]

variable {strings strings' : Option StringPool} (hstrings : SameStrings strings strings')
include hstrings

theorem texts_eq (type : Int) (entry : Nat) :
    (p.entryChunksOf type).mapM (textAt strings entry) =
      (q.entryChunksOf type).mapM (textAt strings' entry) := by
  rw [hstrings.textAt_eq]
  exact h.entryChunks_eq (f := fun chunks => chunks.mapM (textAt strings' entry))
    (fun _ => List.mapM_map) type

theorem find_eq (id : String) (language region : Option String) :
    p.find strings id language region = q.find strings' id language region := by
  unfold find
  rw [h.numberOf_eq]
  refine congrArg _ (funext fun n => ?_)
  dsimp only
  rw [h.typeName?_eq, h.findString_eq, h.texts_eq hstrings]

end Package.Alike

end Packages

section Tables

/-- Two tables have the same global strings and alike packages. -/
structure Table.Alike (t u : Table) : Prop where
  strings : SameStrings t.pool u.pool
  packages : List.Forall₂ Package.Alike t.packages u.packages

/-- A package takes the same place among alike packages. -/
theorem forall₂_putPackage {p q : Package} {packages packages' : List Package} (h : p.Alike q)
    (hall : List.Forall₂ Package.Alike packages packages') :
    List.Forall₂ Package.Alike (putPackage p packages) (putPackage q packages') := by
  induction hall with
  | nil => exact .cons h .nil
  | cons hfirst hrest ih =>
      rw [putPackage, putPackage, hfirst.name, h.name]
      split
      · exact .cons h hrest
      · exact .cons hfirst ih

namespace Table.Alike

variable {t u : Table} (h : t.Alike u)
include h

/-- A question to the first package has the same answer when alike packages give it. -/
theorem askFirst_eq {α : Type} {ask ask' : Package → Except LookupError α}
    (hsame : ∀ p q, p.Alike q → ask p = ask' q) :
    (t.firstPackage >>= ask) = (u.firstPackage >>= ask') := by
  have hpackages := h.packages
  unfold firstPackage
  cases ht : t.packages with
  | nil =>
      rw [ht, List.forall₂_nil_left_iff] at hpackages
      rw [hpackages]
      rfl
  | cons p rest =>
      rw [ht] at hpackages
      obtain ⟨q, rest', hfirst, -, hu⟩ := List.forall₂_cons_left_iff.mp hpackages
      rw [hu]
      exact hsame p q hfirst

theorem find_eq (id : String) (language region : Option String) :
    t.find id language region = u.find id language region :=
  h.askFirst_eq fun _ _ hfirst => hfirst.find_eq h.strings id language region

theorem wordText_eq (n : Int) : t.wordText n = u.wordText n :=
  h.askFirst_eq fun _ _ hfirst => hfirst.wordText_eq n

theorem wordTextOf_eq (id : String) : t.wordTextOf id = u.wordTextOf id :=
  h.askFirst_eq fun _ _ hfirst => hfirst.wordTextOf_eq id

theorem numberText_eq (id : String) : t.numberText id = u.numberText id :=
  h.askFirst_eq fun _ _ hfirst => hfirst.numberText_eq id

end Table.Alike

end Tables

end Resource

end ApkFormats
