import ApkFormats.Proofs.Dex.Members
import ApkFormats.Proofs.Dex.Strings

/-!
# Placed data are found

The data of a draft are pieces that are laid end to end.  `placeAll_forall₂`
says that what holds of every piece at its place holds of all of them, offset by
offset; the other results say what is found at the offset of a string, a list of
types, the code of a method and the members of a class.

No piece is placed at the start of the file, so that the offset of what exists
is never the zero that stands for nothing.
-/

namespace ApkFormats.Dex

variable {buffer : Bytes}

/-- Pieces that are placed one after the other have what each of them has at its place. -/
theorem placeAll_forall₂ {α : Type} {place : Nat → α → List UInt8 × Nat} {P : α → Nat → Prop}
    {items : List α} {start : Nat} (hstart : 0 < start)
    (h : Holds buffer start (placeAll place start items).1)
    (hplace : ∀ item ∈ items, ∀ at' : Nat, 0 < at' → Holds buffer at' (place at' item).1 →
      P item (place at' item).2) :
    List.Forall₂ P items (placeAll place start items).2 := by
  induction items generalizing start with
  | nil => exact .nil
  | cons item rest ih =>
      simp only [placeAll] at h ⊢
      refine .cons (hplace item List.mem_cons_self start hstart h.left) ?_
      exact ih (by omega) h.right fun a ha => hplace a (List.mem_cons_of_mem _ ha)

/-- A string stands at an offset. -/
def StringAt (buffer : Bytes) (s : String) (offset : Nat) : Prop :=
  offset < 0x100000000 ∧
    ∃ data : StringData, data.text = s ∧ StringData.read.Yields buffer offset data

theorem placeString_at {s : String} {start : Nat} (hsize : buffer.size < 0x100000000)
    (hzero : '\x00' ∉ s.toList) (h : Holds buffer start (placeString start s).1) :
    StringAt buffer s (placeString start s).2 := by
  have hroom := h.le_size
  exact ⟨by simp only [placeString] at hroom ⊢; omega, StringData.read_encode h.left hzero hsize⟩

/-- A list of types is found at an offset, or nothing where the list is empty. -/
def TypesAt (buffer : Bytes) (types : List Nat) (offset : Nat) : Prop :=
  offset < 0x100000000 ∧ ∃ found : Option (List Nat), found.getD [] = types ∧
    (Decoder.atOffset offset readTypeList).Finds buffer found

/-- What stands at an offset that is not zero is found there. -/
theorem atOffset_finds {α : Type} {d : Decoder α} {a : α} {offset : Nat} (hoffset : offset ≠ 0)
    (h : d.Yields buffer offset a) : (Decoder.atOffset offset d).Finds buffer (some a) := by
  rw [Decoder.atOffset, if_neg hoffset]
  exact .goTo (.bind h.reads (.pure _))

theorem atOffset_zero {α : Type} (d : Decoder α) : (Decoder.atOffset 0 d).Finds buffer none := by
  rw [Decoder.atOffset, if_pos rfl]
  exact .pure none

theorem placeTypeList_at {types : List Nat} {start : Nat} (hsize : buffer.size < 0x100000000)
    (htypes : ∀ t ∈ types, t < 0x10000) (hstart : 0 < start)
    (h : Holds buffer start (placeTypeList start types).1) :
    TypesAt buffer types (placeTypeList start types).2 := by
  unfold placeTypeList at h ⊢
  by_cases hempty : types.isEmpty
  · rw [if_pos hempty]
    refine ⟨by decide, none, ?_, atOffset_zero _⟩
    rw [List.isEmpty_iff.mp hempty]
    rfl
  · rw [if_neg hempty] at h ⊢
    dsimp only at h ⊢
    rw [List.append_assoc] at h
    have hroom := h.right.le_size
    refine ⟨by omega, some types, rfl, atOffset_finds (by omega) ?_⟩
    exact (readTypeList_decodes types htypes hsize _ h.right).result

/-- The debug information of a method is found at its offset. -/
theorem placeDebug_at {debug : Option DebugSource} {start : Nat} (hstart : 0 < start)
    (h : Holds buffer start (placeDebug start debug).1) :
    DebugAt buffer (placeDebug start debug).2 debug := by
  cases debug with
  | none => rfl
  | some d => exact ⟨Nat.ne_of_gt hstart, h.left⟩

/-- The code of a method is found at its offset. -/
theorem placeCode_at {code : Option CodeSource} {strings start : Nat}
    (hsize : buffer.size < 0x100000000) (hstrings : strings < 2 ^ 35)
    (hfits : ∀ c ∈ code.toList, c.Fits strings) (hstart : 0 < start)
    (h : Holds buffer start (placeCode start code).1) :
    CodeAt buffer code (placeCode start code).2 := by
  cases code with
  | none =>
      refine ⟨(by decide : 0 < 0x100000000), none, rfl, fun cursor => ?_⟩
      rw [placeCode, Code.readAway, if_pos rfl]
      exact .pure none
  | some c =>
      simp only [placeCode] at h ⊢
      have hdebug := placeDebug_at hstart h.left.left
      have hcode := h.right
      rw [List.length_append, ← Nat.add_assoc] at hcode
      have hroom := hcode.le_size
      have hdebugRoom := h.left.left.le_size
      have hoffset : (placeDebug start c.debug).2 < 0x100000000 := by
        cases hsource : c.debug with
        | none => exact (by decide : 0 < 0x100000000)
        | some d =>
            simp only [placeDebug]
            omega
      have hread := Code.read_yields (hfits c (by simp)) hstrings hsize hcode hoffset hdebug
      refine ⟨by omega, some (c.toCode (placeDebug start c.debug).2), ⟨_, rfl⟩, fun cursor => ?_⟩
      rw [Code.readAway, if_neg (by omega)]
      exact .bind .position (.bind (.goTo _) (.bind hread.reads (.bind (.goTo _) (.pure _))))

/-- No members at all. -/
def MemberSource.none : MemberSource := ⟨[], [], [], []⟩

/-- The members of a class that come to stand in a file. -/
def ClassSource.written (c : ClassSource) : MemberSource :=
  if c.hasMembers then c.members else .none

theorem ClassSource.written_fits {c : ClassSource} {fieldBound methodBound strings : Nat}
    (h : c.members.Fits fieldBound methodBound strings) :
    c.written.Fits fieldBound methodBound strings := by
  have hfields : FieldSource.AllFit fieldBound [] :=
    ⟨.nil, List.forall_mem_nil _, List.forall_mem_nil _⟩
  have hmethods : MethodSource.AllFit methodBound strings [] :=
    ⟨.nil, List.forall_mem_nil _, List.forall_mem_nil _, List.forall_mem_nil _⟩
  rw [written]
  split
  · exact h
  · exact ⟨hfields, hfields, hmethods, hmethods⟩

/-- The written members of a class are found at an offset. -/
def MembersAt (buffer : Bytes) (c : ClassSource) (offset : Nat) : Prop :=
  offset < 0x100000000 ∧ ∃ data : Option ClassData, c.written.ReadAs data ∧
    (Decoder.atOffset offset ClassData.read).Finds buffer data

/-- The codes of some methods are found at their offsets. -/
theorem placeCodes_at {methods : List MethodSource} {bound strings start : Nat}
    (hsize : buffer.size < 0x100000000) (hstrings : strings < 2 ^ 35)
    (hfits : MethodSource.AllFit bound strings methods) (hstart : 0 < start)
    (h : Holds buffer start (placeAll placeCode start (methods.map (·.code))).1) :
    List.Forall₂ (CodeAt buffer) (methods.map MethodSource.code)
      (placeAll placeCode start (methods.map (·.code))).2 := by
  refine placeAll_forall₂ hstart h fun code hcode at' hat hbytes => ?_
  obtain ⟨m, hm, rfl⟩ := List.mem_map.mp hcode
  exact placeCode_at hsize hstrings (hfits.code m hm) hat hbytes

/-- The members of a class are found at its offset, unless they are not written. -/
theorem placeClass_at {c : ClassSource} {fieldBound methodBound strings start : Nat}
    (hsize : buffer.size < 0x100000000) (hfields : fieldBound < 2 ^ 35)
    (hmethods : methodBound < 2 ^ 35) (hstrings : strings < 2 ^ 35)
    (hfits : c.members.Fits fieldBound methodBound strings) (hstart : 0 < start)
    (h : Holds buffer start (placeClass start c).1) :
    MembersAt buffer c (placeClass start c).2 := by
  unfold placeClass at h ⊢
  dsimp only at h ⊢
  cases hmembers : c.hasMembers with
  | false =>
      refine ⟨(by decide : 0 < 0x100000000), Option.none, ?_, atOffset_zero _⟩
      rw [ClassSource.written, hmembers]
      exact ⟨.nil, .nil, .nil, .nil⟩
  | true =>
      rw [hmembers] at h
      simp only [if_true] at h ⊢
      have hdirect := placeCodes_at hsize hstrings hfits.directMethods hstart h.left.left
      have hvirtual := placeCodes_at hsize hstrings hfits.virtualMethods (by omega) h.left.right
      obtain ⟨data, hread, hyields⟩ :=
        ClassData.read_yields h.right hfits hfields hmethods hsize hdirect hvirtual
      have hroom := h.right.le_size
      refine ⟨by omega, some data, ?_, atOffset_finds (by omega) hyields⟩
      rw [ClassSource.written, hmembers]
      exact hread

end ApkFormats.Dex
