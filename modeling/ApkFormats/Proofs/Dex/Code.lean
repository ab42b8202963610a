import ApkFormats.Dex.CodeSource
import ApkFormats.Proofs.Leb128
import Mathlib.Tactic.MkIffOfInductiveProp

/-!
# Code of methods is read back

Code whose numbers have room in their fields (`CodeSource.Encodable`) is read
from its bytes, with its ranges, their handlers and the debug information that
stands at an offset of its own:

* `Code.content_of_encode` says what is read and where the cursor is left;
* `Code.read_yields` is the same for the code of a file (`CodeSource.Fits`),
  whose size bounds the lengths of all lists.

Lists of handlers have a signed length.  Handlers of which there are none, with
no handler for everything else either, have no form of their own, which is why
one of both is asked for.
-/

namespace ApkFormats.Dex

variable {buffer : Bytes}

/-- A list of type indices is read back. -/
theorem readTypeList_decodes (types : List Nat) (h : ∀ t ∈ types, t < 0x10000)
    (hsize : buffer.size < 0x100000000) :
    readTypeList.Decodes buffer types (wordBytes [types.length] ++ halfWordBytes types) := by
  refine .of_le_size fun hroom => ?_
  rw [List.length_append, length_halfWordBytes] at hroom
  rw [wordBytes_cons, wordBytes_nil, List.append_nil]
  exact (Decoder.Decodes.u32 (by omega)).bind
    ((Decoder.Decodes.halfWords types).last (halfWords_halfWordBytes types h))

section Ranges

/-! ## Guarded ranges -/

/-- The numbers of a guarded range fit into their fields. -/
def TryRange.Fits (t : TryRange) : Prop :=
  t.start < 0x100000000 ∧ t.count < 0x10000 ∧ t.handlerOffset < 0x10000

instance (t : TryRange) : Decidable t.Fits :=
  inferInstanceAs (Decidable (_ ∧ _ ∧ _))

theorem TryRange.read_decodes {t : TryRange} (h : t.Fits) :
    TryRange.read.Decodes buffer t (CodeSource.encodeRange t) := by
  obtain ⟨hstart, hcount, hoffset⟩ := h
  simp only [CodeSource.encodeRange, wordBytes_cons, wordBytes_nil, halfWordBytes_cons,
    halfWordBytes_nil, List.append_nil]
  exact (Decoder.Decodes.u32 hstart).bind ((Decoder.Decodes.u16 hcount).bind
    ((Decoder.Decodes.u16 hoffset).last rfl))

/-- The two bytes that bring the ranges to a multiple of four are passed over. -/
theorem Code.skipPadding_decodes (unitCount : Nat) :
    (skipPadding unitCount).Decodes buffer () (List.replicate (2 * (unitCount % 2)) 0) := by
  unfold skipPadding
  by_cases hodd : unitCount % 2 = 1
  · rw [if_pos hodd, hodd]
    exact (Decoder.Decodes.u16 (n := 0) (by decide)).last rfl
  · have heven : unitCount % 2 = 0 := by omega
    rw [if_neg hodd, heven]
    exact .pure ()

end Ranges

section Handlers

/-! ## Handlers -/

/-- Handlers of a range: there is a handler at all, and the numbers have room in five groups. -/
@[mk_iff]
structure HandlerSource.Encodable (h : HandlerSource) : Prop where
  some : h.typed ≠ [] ∨ h.catchAll.isSome
  size : -2 ^ 34 ≤ h.size ∧ h.size < 2 ^ 34
  typed : ∀ t ∈ h.typed, t.type < 2 ^ 35 ∧ t.address < 2 ^ 35
  catchAll : ∀ a ∈ h.catchAll.toList, a < 2 ^ 35

instance (h : HandlerSource) : Decidable h.Encodable :=
  decidable_of_iff _ (HandlerSource.encodable_iff h).symm

theorem HandlerSource.natAbs_size (h : HandlerSource) : h.size.natAbs = h.typed.length := by
  obtain ⟨typed, _ | address⟩ := h <;> simp [size]

/-- A handler for everything else is announced by a length that is not positive. -/
theorem HandlerSource.size_nonpos_iff {h : HandlerSource}
    (hsome : h.typed ≠ [] ∨ h.catchAll.isSome) : h.size ≤ 0 ↔ h.catchAll.isSome := by
  obtain ⟨typed, _ | address⟩ := h
  · have hne : typed ≠ [] := by simpa using hsome
    have hlength : 0 < typed.length := List.length_pos_iff.mpr hne
    simp only [size, Option.isSome_none, Bool.false_eq_true, iff_false]
    omega
  · simp only [size, Option.isSome_some, iff_true]
    omega

theorem TypedHandler.read_decodes {t : TypedHandler} (htype : t.type < 2 ^ 35)
    (haddress : t.address < 2 ^ 35) :
    TypedHandler.read.Decodes buffer t
      (Leb128.encodeUnsigned t.type ++ Leb128.encodeUnsigned t.address) :=
  (Leb128.unsigned_decodes htype).bind ((Leb128.unsigned_decodes haddress).last rfl)

/-- The handlers of a range are read back. -/
theorem Handlers.read_decodes {h : HandlerSource} (hfits : h.Encodable) :
    Handlers.read.Decodes buffer h.toHandlers h.encode := by
  have hpairs : (Decoder.times TypedHandler.read h.size.natAbs).Decodes buffer h.typed
      (h.typed.flatMap fun t =>
        Leb128.encodeUnsigned t.type ++ Leb128.encodeUnsigned t.address) := by
    rw [h.natAbs_size]
    refine .times ?_
    rw [List.forall₂_same]
    exact fun t ht => TypedHandler.read_decodes (hfits.typed t ht).1 (hfits.typed t ht).2
  have hsign := HandlerSource.size_nonpos_iff hfits.some
  rw [HandlerSource.encode, List.append_assoc]
  refine (Leb128.signed_decodes hfits.size.1 hfits.size.2).bind (hpairs.bind ?_)
  rw [HandlerSource.toHandlers]
  cases hcatch : h.catchAll with
  | some address =>
      have haddress : address < 2 ^ 35 := hfits.catchAll address (by simp [hcatch])
      refine .ite_true (hsign.mpr (by simp [hcatch])) ?_
      simp only [Option.toList_some, List.flatMap_cons, List.flatMap_nil, List.append_nil]
      exact (Leb128.unsigned_decodes haddress).last rfl
  | none => exact .ite_false (fun hle => by simp [hcatch] at hsign; omega) (.pure _)

/-- The handlers of all ranges are read back. -/
theorem Handlers.readAll_decodes {all : List HandlerSource} (hlength : all.length < 2 ^ 35)
    (hfits : ∀ h ∈ all, h.Encodable) :
    Handlers.readAll.Decodes buffer (all.map HandlerSource.toHandlers)
      (HandlerSource.encodeAll all) := by
  refine (Leb128.unsigned_decodes hlength).bind (.times ?_)
  rw [List.forall₂_map_right_iff, List.forall₂_same]
  exact fun h hh => Handlers.read_decodes (hfits h hh)

end Handlers

section Debug

/-! ## Debug information -/

/-- Debug information whose numbers have room in five groups. -/
@[mk_iff]
structure DebugSource.Encodable (d : DebugSource) : Prop where
  lineStart : d.lineStart < 2 ^ 35
  parameterCount : d.parameterNames.length < 2 ^ 35
  parameterNames : ∀ name ∈ d.parameterNames, ∀ index ∈ name.toList, index + 1 < 2 ^ 35

instance (d : DebugSource) : Decidable d.Encodable :=
  decidable_of_iff _ (DebugSource.encodable_iff d).symm

/-- The index of a parameter's name is read back, or that there is none. -/
theorem nameIndex_decodes {name : Option Nat} (h : ∀ index ∈ name.toList, index + 1 < 2 ^ 35) :
    Leb128.unsignedMinusOne.Decodes buffer (DebugSource.nameIndex name)
      (Leb128.encodeUnsigned (DebugSource.nameIndex name + 1).toNat) := by
  have hnumber : ((DebugSource.nameIndex name + 1).toNat : Int) - 1 =
      DebugSource.nameIndex name := by
    cases name <;> simp only [DebugSource.nameIndex] <;> omega
  have hsmall : (DebugSource.nameIndex name + 1).toNat < 2 ^ 35 := by
    cases name with
    | none => simp [DebugSource.nameIndex]
    | some index =>
        have hindex := h index (by simp)
        simp only [DebugSource.nameIndex]
        omega
  rw [← hnumber]
  simpa only [hnumber] using Leb128.unsignedMinusOne_decodes hsmall

theorem DebugInfo.read_decodes {d : DebugSource} (h : d.Encodable) :
    DebugInfo.read.Decodes buffer d.toDebugInfo d.encode := by
  rw [DebugSource.encode, List.append_assoc]
  refine (Leb128.unsigned_decodes h.lineStart).bind ?_
  refine (Leb128.unsigned_decodes h.parameterCount).bind ?_
  refine (Decoder.Decodes.times ?_).last rfl
  rw [List.forall₂_map_right_iff, List.forall₂_same]
  exact fun name hname => nameIndex_decodes (h.parameterNames name hname)

/-- Debug information stands at an offset; where there is none, the offset is zero. -/
def DebugAt (buffer : Bytes) (offset : Nat) : Option DebugSource → Prop
  | none => offset = 0
  | some d => offset ≠ 0 ∧ Holds buffer offset d.encode

end Debug

section Codes

/-! ## Codes -/

/-- Code whose numbers have room in their fields: two or four bytes, or five groups. -/
@[mk_iff]
structure CodeSource.Encodable (c : CodeSource) : Prop where
  registers : c.registers < 0x10000
  ins : c.ins < 0x10000
  outs : c.outs < 0x10000
  unitCount : c.instructions.length < 0x100000000
  instructions : ∀ unit ∈ c.instructions, unit < 0x10000
  tryCount : c.tries.length < 0x10000
  tries : ∀ t ∈ c.tries, t.Fits
  handlerCount : c.handlers.length < 2 ^ 35
  handlers : ∀ h ∈ c.handlers, h.Encodable
  debug : ∀ d ∈ c.debug.toList, d.Encodable

instance (c : CodeSource) : Decidable c.Encodable :=
  decidable_of_iff _ (CodeSource.encodable_iff c).symm

/-- Where the part of some code ends that is read last: the debug information, or else the handlers
of the ranges, or else the instructions. -/
def CodeSource.stop (c : CodeSource) (start debugOffset : Nat) : Nat :=
  match c.debug with
  | some d => debugOffset + d.encode.length
  | none =>
      if c.tries.isEmpty then start + (16 + 2 * c.instructions.length)
      else start + (c.encode debugOffset).length

namespace Code

variable {c : CodeSource} {start debugOffset : Nat}

/-- The ranges of a method and their handlers are read back. -/
theorem readTries_decodes (h : c.Encodable) :
    (readTries c.tries.length c.instructions.length).Decodes buffer
      (c.tries, if c.tries.isEmpty then none else some (c.handlers.map HandlerSource.toHandlers))
      c.encodeTries := by
  unfold readTries CodeSource.encodeTries
  cases htries : c.tries with
  | nil => exact .pure _
  | cons t rest =>
      have hranges : (Decoder.times TryRange.read (t :: rest).length).Decodes buffer (t :: rest)
          ((t :: rest).flatMap CodeSource.encodeRange) := by
        refine .times ?_
        rw [List.forall₂_same]
        intro range hrange
        exact TryRange.read_decodes (h.tries range (by rwa [htries]))
      simp only [List.isEmpty_cons, Bool.false_eq_true, if_false]
      refine .ite_false (by simp) ?_
      rw [List.append_assoc]
      refine (skipPadding_decodes _).bind (hranges.bind ?_)
      exact (Handlers.readAll_decodes h.handlerCount h.handlers).last rfl

/-- Debug information is read at its offset; where there is none, the cursor stays. -/
theorem debug_reads {debug : Option DebugSource} (hdebug : DebugAt buffer debugOffset debug)
    (h : ∀ d ∈ debug.toList, d.Encodable) :
    (Decoder.atOffset debugOffset DebugInfo.read).Reads buffer start
      (debug.map DebugSource.toDebugInfo)
      (debug.elim start fun d => debugOffset + d.encode.length) := by
  unfold Decoder.atOffset
  cases debug with
  | none =>
      have hoffset : debugOffset = 0 := hdebug
      rw [if_pos hoffset]
      exact .pure none
  | some d =>
      obtain ⟨hoffset, hbytes⟩ := hdebug
      have hread := DebugInfo.read_decodes (h d (by simp)) _ hbytes
      rw [if_neg hoffset]
      exact .bind (.goTo debugOffset) (.bind hread (.pure _))

/-- Code that is written takes sixteen bytes, those of its instructions, and those of its ranges. -/
theorem length_encode (c : CodeSource) (debugOffset : Nat) :
    (c.encode debugOffset).length = 16 + 2 * c.instructions.length + c.encodeTries.length := by
  simp only [CodeSource.encode, List.length_append, length_halfWordBytes, length_wordBytes,
    List.length_cons, List.length_nil]

/-- Reading ends behind the debug information or, without it, behind the code. -/
theorem stop_eq (c : CodeSource) (start debugOffset : Nat) :
    c.stop start debugOffset = c.debug.elim
      (start + (16 + 2 * c.instructions.length + c.encodeTries.length))
      fun d => debugOffset + d.encode.length := by
  rw [CodeSource.stop]
  cases c.debug with
  | some d => rfl
  | none =>
      dsimp only [Option.elim_none]
      split
      · rename_i hempty
        rw [CodeSource.encodeTries, if_pos hempty, List.length_nil, Nat.add_zero]
      · rw [length_encode]

/-- The code of a method is read back. -/
theorem read_reads (h : c.Encodable) (hbytes : Holds buffer start (c.encode debugOffset))
    (hoffset : debugOffset < 0x100000000) (hdebug : DebugAt buffer debugOffset c.debug) :
    Code.read.Reads buffer start (c.toCode debugOffset) (c.stop start debugOffset) := by
  have hlast : start + 2 + 2 + 2 + 2 + 4 + 4 + (halfWordBytes c.instructions).length +
      c.encodeTries.length =
        start + (16 + 2 * c.instructions.length + c.encodeTries.length) := by
    rw [length_halfWordBytes]
    omega
  rw [stop_eq, ← hlast]
  simp only [CodeSource.encode, wordBytes_cons, wordBytes_nil, halfWordBytes_cons,
    halfWordBytes_nil, List.append_assoc, List.nil_append] at hbytes
  unfold Code.read
  refine .u16 hbytes h.registers fun hbytes => .u16 hbytes h.ins fun hbytes => ?_
  refine .u16 hbytes h.outs fun hbytes => .u16 hbytes h.tryCount fun hbytes => ?_
  refine .u32 hbytes hoffset fun hbytes => .u32 hbytes h.unitCount fun hbytes => ?_
  refine .field hbytes (.halfWords c.instructions) fun hbytes => ?_
  refine .bind (readTries_decodes h _ hbytes) ?_
  refine .bind (debug_reads hdebug h.debug) ?_
  rw [halfWords_halfWordBytes c.instructions h.instructions]
  exact .pure _

/-- Written code is read back wherever it stands, and its debug information wherever that stands.
There are handlers exactly when there are ranges, and a handler for everything else exactly where
the stored length is not positive.  The cursor is left behind the part that was read last. -/
theorem content_of_encode (h : c.Encodable) (hbytes : Holds buffer start (c.encode debugOffset))
    (hoffset : debugOffset < 0x100000000) (hdebug : DebugAt buffer debugOffset c.debug) :
    Code.read.Reads buffer start (c.toCode debugOffset) (c.stop start debugOffset) ∧
      ((c.toCode debugOffset).handlers = none ↔ c.tries = []) ∧
      ∀ all, (c.toCode debugOffset).handlers = some all →
        ∀ handlers ∈ all, handlers.catchAll.isSome ↔ handlers.size ≤ 0 := by
  refine ⟨read_reads h hbytes hoffset hdebug, ?_, ?_⟩
  · rw [CodeSource.toCode, ← List.isEmpty_iff]
    simp
  · intro all hall handlers hhandlers
    rw [CodeSource.toCode] at hall
    split at hall
    · cases hall
    · obtain rfl := Option.some.inj hall
      obtain ⟨source, hsource, rfl⟩ := List.mem_map.mp hhandlers
      exact (HandlerSource.size_nonpos_iff (h.handlers source hsource).some).symm

/-- Code with an odd number of instructions, handlers of every form, and numbers at the ends of
their fields. -/
def guarded : CodeSource where
  registers := 0xFFFF
  ins := 1
  outs := 0
  instructions := [0x000E, 0, 0xFFFF]
  tries := [⟨0, 3, 1⟩, ⟨0xFFFFFFFF, 0xFFFF, 0xFFFF⟩]
  handlers := [⟨[⟨2 ^ 35 - 1, 0⟩], none⟩, ⟨[], some 4⟩, ⟨[⟨1, 2⟩, ⟨3, 4⟩], some (2 ^ 35 - 1)⟩]
  debug := some ⟨2 ^ 35 - 1, [some (2 ^ 35 - 2), none]⟩

/-- The code behind its debug information, between other bytes. -/
def guardedBytes : Bytes :=
  ([7] ++ guarded.debug.toList.flatMap DebugSource.encode ++ guarded.encode 1 ++ [0xFF]).toArray

/-- Reading the code ends behind the debug information, which is where the code starts. -/
theorem content_of_encode_guarded :
    (guarded.Encodable ∧ Holds guardedBytes 13 (guarded.encode 1) ∧ 1 < 0x100000000 ∧
      DebugAt guardedBytes 1 guarded.debug) ∧
    Code.read.Reads guardedBytes 13 (guarded.toCode 1) 13 ∧
      (guarded.toCode 1).handlers = some [⟨1, [⟨2 ^ 35 - 1, 0⟩], none⟩, ⟨0, [], some 4⟩,
        ⟨-2, [⟨1, 2⟩, ⟨3, 4⟩], some (2 ^ 35 - 1)⟩] := by
  have hfits : guarded.Encodable := by
    decide +kernel
  have hfront : ([7] ++ guarded.debug.toList.flatMap DebugSource.encode).length = 13 := by
    decide +kernel
  have hbytes : Holds guardedBytes 13 (guarded.encode 1) :=
    hfront ▸ .intro _ (guarded.encode 1) [0xFF]
  have hdebug : DebugAt guardedBytes 1 guarded.debug :=
    ⟨by decide, [7], guarded.encode 1 ++ [0xFF], by decide +kernel, rfl⟩
  have hstop : guarded.stop 13 1 = 13 := by
    decide +kernel
  have hread := (content_of_encode hfits hbytes (by decide) hdebug).1
  rw [hstop] at hread
  exact ⟨⟨hfits, hbytes, by decide, hdebug⟩, hread, rfl⟩

end Code

end Codes

section Files

/-! ## Codes of a file -/

/-- Handlers of a range: the numbers fit into their fields, and there is a handler at all. -/
def HandlerSource.Fits (h : HandlerSource) : Prop :=
  (h.typed ≠ [] ∨ h.catchAll.isSome) ∧
    (∀ t ∈ h.typed, t.type < 2 ^ 35 ∧ t.address < 2 ^ 35) ∧ ∀ a ∈ h.catchAll.toList, a < 2 ^ 35

instance (h : HandlerSource) : Decidable h.Fits :=
  inferInstanceAs (Decidable (_ ∧ _ ∧ _))

/-- Debug information whose numbers fit into their fields, in a file of so many strings. -/
def DebugSource.Fits (strings : Nat) (d : DebugSource) : Prop :=
  d.lineStart < 2 ^ 35 ∧ ∀ name ∈ d.parameterNames, ∀ index ∈ name.toList, index < strings

instance (strings : Nat) (d : DebugSource) : Decidable (d.Fits strings) :=
  inferInstanceAs (Decidable (_ ∧ _))

/-- Code within the limits of the format, in a file of so many strings. -/
@[mk_iff]
structure CodeSource.Fits (strings : Nat) (c : CodeSource) : Prop where
  registers : c.registers < 0x10000
  ins : c.ins < 0x10000
  outs : c.outs < 0x10000
  instructions : ∀ unit ∈ c.instructions, unit < 0x10000
  tryCount : c.tries.length < 0x10000
  tries : ∀ t ∈ c.tries, t.Fits
  handlers : ∀ h ∈ c.handlers, h.Fits
  unguarded : c.tries = [] → c.handlers = []
  debug : ∀ d ∈ c.debug.toList, d.Fits strings

instance (strings : Nat) (c : CodeSource) : Decidable (c.Fits strings) :=
  decidable_of_iff _ (CodeSource.fits_iff strings c).symm

/-- Where handlers are short enough, they have room in their fields. -/
theorem HandlerSource.Fits.encodable {h : HandlerSource} (hfits : h.Fits)
    (hroom : h.encode.length < 0x100000000) : h.Encodable := by
  obtain ⟨hsome, htyped, hcatch⟩ := hfits
  have hleast : 1 * h.typed.length ≤ (h.typed.flatMap fun t =>
      Leb128.encodeUnsigned t.type ++ Leb128.encodeUnsigned t.address).length := by
    refine mul_length_le_length_flatMap fun t _ => ?_
    have hpositive := Leb128.length_encodeUnsigned_pos t.type
    rw [List.length_append]
    omega
  have hsize := h.natAbs_size
  simp only [HandlerSource.encode, List.length_append] at hroom
  exact ⟨hsome, by omega, htyped, hcatch⟩

/-- Handlers take a byte at least. -/
theorem HandlerSource.length_encode_pos (h : HandlerSource) : 1 ≤ h.encode.length := by
  have hpositive : 0 < (Leb128.encodeSigned h.size).length :=
    List.length_pos_iff.mpr (Leb128.terminated_encodeSigned h.size).ne_nil
  simp only [HandlerSource.encode, List.length_append]
  omega

/-- Where debug information is short enough, it has room in its fields. -/
theorem DebugSource.Fits.encodable {strings : Nat} {d : DebugSource} (h : d.Fits strings)
    (hstrings : strings < 2 ^ 35) (hroom : d.encode.length < 0x100000000) : d.Encodable := by
  obtain ⟨hline, hnames⟩ := h
  have hleast : 1 * d.parameterNames.length ≤ (d.parameterNames.flatMap fun name =>
      Leb128.encodeUnsigned (DebugSource.nameIndex name + 1).toNat).length :=
    mul_length_le_length_flatMap fun name _ => Leb128.length_encodeUnsigned_pos _
  simp only [DebugSource.encode, List.length_append] at hroom
  refine ⟨hline, by omega, fun name hname index hindex => ?_⟩
  have hlt := hnames name hname index hindex
  omega

/-- Where code and its debug information are short enough, they have room in their fields. -/
theorem CodeSource.Fits.encodable {strings debugOffset : Nat} {c : CodeSource}
    (h : c.Fits strings) (hstrings : strings < 2 ^ 35)
    (hroom : (c.encode debugOffset).length < 0x100000000)
    (hdebug : ∀ d ∈ c.debug.toList, d.encode.length < 0x100000000) : c.Encodable := by
  rw [Code.length_encode] at hroom
  have hall : (c.handlers.flatMap HandlerSource.encode).length < 0x100000000 := by
    cases htries : c.tries with
    | nil =>
        rw [h.unguarded htries]
        decide
    | cons t rest =>
        rw [CodeSource.encodeTries, htries] at hroom
        simp only [List.isEmpty_cons, Bool.false_eq_true, if_false, List.length_append,
          HandlerSource.encodeAll] at hroom
        omega
  have hcount : 1 * c.handlers.length ≤ (c.handlers.flatMap HandlerSource.encode).length :=
    mul_length_le_length_flatMap fun handlers _ => handlers.length_encode_pos
  refine ⟨h.registers, h.ins, h.outs, by omega, h.instructions, h.tryCount, h.tries, by omega,
    fun handlers hhandlers => ?_, fun d hd => (h.debug d hd).encodable hstrings (hdebug d hd)⟩
  refine (h.handlers handlers hhandlers).encodable ?_
  obtain ⟨before, after, hsplit⟩ := List.append_of_mem hhandlers
  simp only [hsplit, List.flatMap_append, List.flatMap_cons, List.length_append] at hall
  omega

/-- The code of a method is read back from a file. -/
theorem Code.read_yields {c : CodeSource} {strings start debugOffset : Nat} (h : c.Fits strings)
    (hstrings : strings < 2 ^ 35) (hsize : buffer.size < 0x100000000)
    (hbytes : Holds buffer start (c.encode debugOffset)) (hoffset : debugOffset < 0x100000000)
    (hdebug : DebugAt buffer debugOffset c.debug) :
    Code.read.Yields buffer start (c.toCode debugOffset) := by
  have hsize' := hbytes.le_size
  have hroom : (c.encode debugOffset).length < 0x100000000 := by omega
  have hroom' : ∀ d ∈ c.debug.toList, d.encode.length < 0x100000000 := by
    intro d hd
    rw [Option.mem_toList.mp hd] at hdebug
    have := hdebug.2.le_size
    omega
  exact (read_reads (h.encodable hstrings hroom hroom') hbytes hoffset hdebug).result

end Files

end ApkFormats.Dex
