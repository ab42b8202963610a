import ApkFormats.Proofs.Resource.Naming
import Mathlib.Data.List.Induction

/-!
# Which packages a table keeps

A table keeps one package for each name.  A package takes the place of an
earlier one of its name, and the number that the table declares is not compared
with anything.

* `packagesOf`: the packages that are left of some packages in turn;
* `Table.packages_of_decode`: how the packages of an accepted table come from
  its chunks, and when they are all there;
* `Table.packages_miscounted`: tables with more packages than names, and with
  another number than they declare, are accepted.
-/

namespace ApkFormats

/-- The last item of a list has been met before, or is a new one. -/
theorem eraseDups_concat {α : Type} [DecidableEq α] (items : List α) (a : α) :
    (items ++ [a]).eraseDups = if a ∈ items then items.eraseDups else items.eraseDups ++ [a] := by
  rw [List.eraseDups_append, List.removeAll]
  by_cases h : a ∈ items
  · simp [h]
  · simp [h, List.eraseDups_cons]

theorem length_eraseDups_le {α : Type} [DecidableEq α] (items : List α) :
    items.eraseDups.length ≤ items.length := by
  induction items using List.reverseRecOn with
  | nil => exact Nat.le_refl _
  | append_singleton items a ih =>
      rw [eraseDups_concat, List.length_append, List.length_singleton]
      split
      · omega
      · rw [List.length_append, List.length_singleton]
        omega

theorem length_eraseDups_lt {α : Type} [DecidableEq α] {items : List α} (h : ¬items.Nodup) :
    items.eraseDups.length < items.length := by
  induction items using List.reverseRecOn with
  | nil => exact absurd List.nodup_nil h
  | append_singleton items a ih =>
      rw [eraseDups_concat, List.length_append, List.length_singleton]
      split
      · have hle := length_eraseDups_le items
        omega
      · rename_i hnew
        rw [← List.concat_eq_append, List.nodup_concat, not_and] at h
        have hlt := ih (h hnew)
        rw [List.length_append, List.length_singleton]
        omega

namespace Resource

section Packages

variable {p : Package} {packages decoded : List Package}

theorem map_name_putPackage :
    (putPackage p packages).map Package.name =
      if p.name ∈ packages.map Package.name then packages.map Package.name
      else packages.map Package.name ++ [p.name] := by
  induction packages with
  | nil => rfl
  | cons first rest ih =>
      rw [putPackage]
      by_cases h : first.name = p.name
      · rw [if_pos h, List.map_cons, List.map_cons, h, if_pos List.mem_cons_self]
      · rw [if_neg h, List.map_cons, List.map_cons, ih]
        simp only [List.mem_cons, Ne.symm h, false_or]
        split
        · rfl
        · rfl

/-- A package is found under its name, and the others under theirs. -/
theorem find?_putPackage {name : String} :
    (putPackage p packages).find? (fun q => q.name = name) =
      if p.name = name then some p else packages.find? fun q => q.name = name := by
  induction packages with
  | nil => by_cases h : p.name = name <;> simp [putPackage, h]
  | cons first rest ih =>
      rw [putPackage]
      by_cases hsame : first.name = p.name
      · rw [if_pos hsame]
        by_cases h : p.name = name <;> simp [h, hsame]
      · rw [if_neg hsame, List.find?_cons, List.find?_cons, ih]
        by_cases hfirst : first.name = name
        · have hother : p.name ≠ name := fun h => hsame (hfirst.trans h.symm)
          simp [hfirst, hother]
        · simp [hfirst]

/-- The packages that are left when some packages are put into a table in turn. -/
def packagesOf (decoded : List Package) : List Package :=
  decoded.foldl (fun packages p => putPackage p packages) []

theorem packagesOf_concat : packagesOf (decoded ++ [p]) = putPackage p (packagesOf decoded) := by
  rw [packagesOf, List.foldl_append]
  rfl

/-- Every name is kept once, in the place where it was met first. -/
theorem map_name_packagesOf :
    (packagesOf decoded).map Package.name = (decoded.map Package.name).eraseDups := by
  induction decoded using List.reverseRecOn with
  | nil => rfl
  | append_singleton decoded p ih =>
      rw [packagesOf_concat, map_name_putPackage, ih, List.map_append, List.map_singleton,
        eraseDups_concat]
      simp only [List.mem_eraseDups]

/-- Of the packages of one name the last one is kept. -/
theorem find?_packagesOf {name : String} :
    (packagesOf decoded).find? (fun q => q.name = name) =
      decoded.reverse.find? fun q => q.name = name := by
  induction decoded using List.reverseRecOn with
  | nil => rfl
  | append_singleton decoded p ih =>
      rw [packagesOf_concat, find?_putPackage, List.reverse_append, List.reverse_singleton,
        List.singleton_append, List.find?_cons, ih]
      by_cases h : p.name = name <;> simp [h]

theorem nodup_names_packagesOf : ((packagesOf decoded).map Package.name).Nodup := by
  induction decoded using List.reverseRecOn with
  | nil => exact List.nodup_nil
  | append_singleton decoded p ih =>
      rw [packagesOf_concat, map_name_putPackage]
      split
      · exact ih
      · rename_i hnew
        exact List.nodup_append.mpr ⟨ih, List.nodup_singleton _, fun name hname other hother =>
          fun h => hnew (List.mem_singleton.mp hother ▸ h ▸ hname)⟩

theorem find?_of_mem_packagesOf (h : p ∈ packagesOf decoded) :
    decoded.reverse.find? (fun q => q.name = p.name) = some p := by
  rw [← find?_packagesOf]
  obtain ⟨q, hq⟩ := Option.isSome_iff_exists.mp
    (List.find?_isSome.mpr ⟨p, h, decide_eq_true rfl⟩ :
      ((packagesOf decoded).find? fun q => q.name = p.name).isSome)
  have htest := List.find?_some hq
  have hname : q.name = p.name := of_decide_eq_true htest
  have hsame := List.inj_on_of_nodup_map nodup_names_packagesOf (List.mem_of_find?_eq_some hq) h
    hname
  rw [hq, hsame]

theorem packagesOf_eq_self (h : (decoded.map Package.name).Nodup) :
    packagesOf decoded = decoded := by
  induction decoded using List.reverseRecOn with
  | nil => rfl
  | append_singleton decoded p ih =>
      rw [List.map_append, List.nodup_append] at h
      obtain ⟨hnodup, -, hnew⟩ := h
      rw [packagesOf_concat, ih hnodup]
      refine putPackage_of_new fun q hq => ?_
      exact hnew _ (List.mem_map_of_mem hq) _ (List.mem_singleton_self _)

theorem length_packagesOf_lt (h : ¬(decoded.map Package.name).Nodup) :
    (packagesOf decoded).length < decoded.length := by
  have hlt := length_eraseDups_lt h
  rwa [← map_name_packagesOf, List.length_map, List.length_map] at hlt

end Packages

section Tables

variable {buffer : Bytes}

/-- The packages among the chunks at top level. -/
def packageChunks (buffer : Bytes) : List TopChunk :=
  (topChunksFrom buffer 0).filter fun c => c.type == packageType

/-- The number of packages that the last chunk with such a number tells, or a number from before. -/
def declaredCount (buffer : Bytes) (before : Nat) (chunks : List TopChunk) : Nat :=
  ((chunks.filter fun c => c.type == resourceTableType).getLast?.map fun c =>
    numberAt 4 buffer (c.position + chunkHeaderSize)).getD before

/-- A table that declares three packages and holds two, whose names differ in a blank that is not
part of a name. -/
def twins : Bytes :=
  (encodeChunk resourceTableType (wordBytes [3])
    (StringPool.encode true [] ++ PackageSource.encode ⟨1, "p", [], [], []⟩ ++
      PackageSource.encode ⟨2, " p", [], [], []⟩)).toArray

namespace Table

variable {t r : Table}

theorem Loads.packageCount_eq {chunks : List TopChunk} (hloads : t.Loads buffer chunks r) :
    r.packageCount = declaredCount buffer t.packageCount chunks := by
  induction hloads with
  | nil t => rfl
  | cons hstep _ ih =>
      rw [ih]
      cases hstep with
      | pool htype => rw [declaredCount, declaredCount, List.filter_cons, htype]; rfl
      | package htype => rw [declaredCount, declaredCount, List.filter_cons, htype]; rfl
      | count htype =>
          rw [declaredCount, declaredCount, List.filter_cons, if_pos (beq_iff_eq.mpr htype),
            List.getLast?_cons]
          cases (List.filter _ _).getLast? <;> rfl

/-- A table keeps one package for each name that its packages have, in the order in which the names
are met first, and of the packages of one name the last one.  These are all packages in the order of
the file exactly when no name repeats.  The number of packages that is declared is kept as it is. -/
theorem packages_of_decode (hdecode : Table.decode buffer = .ok t) :
    ∃ decoded, List.Forall₂
      (fun c p => ∃ strings, (Package.read strings).Yields buffer c.position p)
      (packageChunks buffer) decoded ∧
    t.packages.map Package.name = (decoded.map Package.name).eraseDups ∧
    (∀ p ∈ t.packages, decoded.reverse.find? (fun q => q.name = p.name) = some p) ∧
    (t.packages = decoded ↔ (decoded.map Package.name).Nodup) ∧
    (t.packages.length = (packageChunks buffer).length ↔ (decoded.map Package.name).Nodup) ∧
    t.packageCount = declaredCount buffer 0 (topChunksFrom buffer 0) := by
  have hloads := loads_of_decode hdecode
  obtain ⟨decoded, hdecoded, hpackages⟩ := hloads.packages_decoded
  have hkept : t.packages = packagesOf decoded := hpackages
  refine ⟨decoded, hdecoded, ?_, ?_, ?_, ?_, hloads.packageCount_eq⟩
  · rw [hkept, map_name_packagesOf]
  · intro p hp
    exact find?_of_mem_packagesOf (hkept ▸ hp)
  · rw [hkept]
    refine ⟨fun h => ?_, packagesOf_eq_self⟩
    rw [← h]
    exact nodup_names_packagesOf
  · rw [hkept, packageChunks, hdecoded.length_eq]
    refine ⟨fun h => ?_, fun h => by rw [packagesOf_eq_self h]⟩
    by_contra hrepeats
    exact absurd h (Nat.ne_of_lt (length_packagesOf_lt hrepeats))

theorem decode_twins : ∃ t, Table.decode twins = .ok t ∧ (packageChunks twins).length = 2 ∧
    t.packageCount = 3 ∧ t.packages.map Package.id = [2] ∧
    t.packages.map Package.name = ["p"] := by
  have haccepted : (Table.decode twins).toOption.any (fun t =>
      (packageChunks twins).length = 2 ∧ t.packageCount = 3 ∧
        t.packages.map Package.id = [2] ∧ t.packages.map Package.name = ["p"]) = true := by
    decide +kernel
  obtain ⟨t, hdecode, htest⟩ := exists_ok_of_any haccepted
  exact ⟨t, hdecode, of_decide_eq_true htest⟩

/-- The second package takes the place of the first one. -/
theorem packages_of_decode_twins : ∃ t decoded, Table.decode twins = .ok t ∧
    List.Forall₂ (fun c p => ∃ strings, (Package.read strings).Yields twins c.position p)
      (packageChunks twins) decoded ∧
    decoded.length = 2 ∧ (decoded.map Package.name).eraseDups = ["p"] ∧
    (∀ p ∈ t.packages, p.id = 2 ∧ decoded.reverse.find? (fun q => q.name = p.name) = some p) ∧
    ¬(decoded.map Package.name).Nodup ∧ declaredCount twins 0 (topChunksFrom twins 0) = 3 := by
  obtain ⟨t, hdecode, hchunks, hcount, hids, hkept⟩ := decode_twins
  obtain ⟨decoded, hdecoded, hnames, hlast, -, hall, hdeclared⟩ := packages_of_decode hdecode
  refine ⟨t, decoded, hdecode, hdecoded, hdecoded.length_eq ▸ hchunks, hnames ▸ hkept,
    fun p hp => ⟨?_, hlast p hp⟩, fun hnodup => ?_, hdeclared ▸ hcount⟩
  · have hid : p.id ∈ [2] := hids ▸ List.mem_map_of_mem hp
    exact List.mem_singleton.mp hid
  · have hlength := hall.mpr hnodup
    rw [hchunks, ← List.length_map Package.id, hids] at hlength
    cases hlength

/-- An accepted table may declare one number of packages, hold another one and keep a third one. -/
theorem packages_miscounted : ∃ t, Table.decode twins = .ok t ∧ t.packageCount = 3 ∧
    (packageChunks twins).length = 2 ∧ t.packages.length = 1 := by
  obtain ⟨t, hdecode, hchunks, hcount, hids, -⟩ := decode_twins
  refine ⟨t, hdecode, hcount, hchunks, ?_⟩
  rw [← List.length_map Package.id, hids]
  rfl

end Table

end Tables

end Resource

end ApkFormats
