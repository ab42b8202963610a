import ApkFormats.Dex.StringData
import ApkFormats.Proofs.Leb128
import ApkFormats.Proofs.Text

/-!
# Strings of DEX files are read back

A unit stands in a group of one, two or three bytes (`Spells`).  Every group is
read as the unit that it spells, and the bytes that a unit is written as are one
of its groups.

`StringData.text_of_encode` is the main result: a written string is read back
without its zeros, wherever it stands.  Every unit takes a byte at least, so that
the declared number of units is never taken for too large.
-/

namespace ApkFormats.Dex

/-- A byte that continues a group. -/
def IsContinuation (b : UInt8) : Prop :=
  0x80 ≤ b.toNat ∧ b.toNat < 0xC0

instance (b : UInt8) : Decidable (IsContinuation b) :=
  inferInstanceAs (Decidable (_ ∧ _))

/-- Some bytes are a group that spells a unit. -/
inductive Spells : List UInt8 → Nat → Prop
  | one (a : UInt8) (ha : a.toNat < 0x80) : Spells [a] a.toNat
  | two (a b : UInt8) (ha : 0xC0 ≤ a.toNat ∧ a.toNat < 0xE0) (hb : IsContinuation b) :
      Spells [a, b] ((a.toNat - 0xC0) * 0x40 + (b.toNat - 0x80))
  | three (a b c : UInt8) (ha : 0xE0 ≤ a.toNat ∧ a.toNat < 0xF0) (hb : IsContinuation b)
      (hc : IsContinuation c) :
      Spells [a, b, c]
        ((a.toNat - 0xE0) * 0x1000 + (b.toNat - 0x80) * 0x40 + (c.toNat - 0x80))

variable {buffer : Bytes} {u : Nat} {group : List UInt8} {s : String}

namespace Spells

theorem length_pos (h : Spells group u) : 1 ≤ group.length := by
  cases h <;> simp

/-- A group spells a number of two bytes. -/
theorem lt (h : Spells group u) : u < 0x10000 := by
  cases h with
  | one a ha => omega
  | two a b ha hb =>
      have := hb.2
      omega
  | three a b c ha hb hc =>
      have := hb.2
      have := hc.2
      omega

end Spells

section Units

/-! ## Units -/

theorem readContinuation_decodes (start : Nat) {b : UInt8} (h : IsContinuation b) :
    (readContinuation start).Decodes buffer (b.toNat - 0x80) [b] := by
  obtain ⟨hlow, hhigh⟩ := h
  have hread : (readContinuation start).Decodes buffer (b.toNat - 0x80) ([b] ++ []) := by
    refine .bind_position fun position => (Decoder.Decodes.u8_byte b).bind ?_
    refine .ite_true (by omega) ?_
    rw [show b.toNat % 0x40 = b.toNat - 0x80 by omega]
    exact .pure _
  exact hread

/-- A group is read as the unit that it spells. -/
theorem readUnit_decodes (start : Nat) (h : Spells group u) :
    (readUnit start).Decodes buffer u group := by
  cases h with
  | one a ha =>
      have hread : (readUnit start).Decodes buffer a.toNat ([a] ++ []) := by
        refine .bind_position fun position => (Decoder.Decodes.u8_byte a).bind ?_
        exact .ite_true ha (.pure _)
      exact hread
  | two a b ha hb =>
      refine .bind_position fun position => (Decoder.Decodes.u8_byte a).bind ?_
      refine .ite_false (by omega) (.ite_true (by omega) ?_)
      refine (readContinuation_decodes start hb).last ?_
      omega
  | three a b c ha hb hc =>
      refine .bind_position fun position => (Decoder.Decodes.u8_byte a).bind ?_
      refine .ite_false (by omega) (.ite_false (by omega) (.ite_true (by omega) ?_))
      rw [← List.singleton_append]
      refine (readContinuation_decodes start hb).bind ?_
      refine (readContinuation_decodes start hc).last ?_
      omega

namespace StringData

/-- A unit is written as a group that spells it. -/
theorem spells_encodeUnit (h : u < 0x10000) : Spells (encodeUnit u) u := by
  have hcontinuation {k : Nat} (hk : k < 0x40) :
      (UInt8.ofNat (0x80 + k)).toNat = 0x80 + k ∧ IsContinuation (UInt8.ofNat (0x80 + k)) := by
    have hbyte := toNat_byte (n := 0x80 + k) (by omega)
    exact ⟨hbyte, by rw [IsContinuation, hbyte]; omega⟩
  unfold encodeUnit
  by_cases hone : u ≠ 0 ∧ u < 0x80
  · have hlead := toNat_byte (n := u) (by omega)
    have hgroup := Spells.one (UInt8.ofNat u) (by omega)
    rw [if_pos hone]
    rwa [hlead] at hgroup
  · rw [if_neg hone]
    by_cases htwo : u < 0x800
    · have hlead := toNat_byte (n := 0xC0 + u / 0x40) (by omega)
      obtain ⟨hlast, hb⟩ := hcontinuation (Nat.mod_lt u (by decide : 0 < 0x40))
      have hgroup := Spells.two (UInt8.ofNat (0xC0 + u / 0x40)) _ (by omega) hb
      rw [hlead, hlast, show (0xC0 + u / 0x40 - 0xC0) * 0x40 + (0x80 + u % 0x40 - 0x80) = u by
        omega] at hgroup
      rwa [if_pos htwo]
    · have hlead := toNat_byte (n := 0xE0 + u / 0x1000) (by omega)
      obtain ⟨hnext, hb⟩ := hcontinuation (Nat.mod_lt (u / 0x40) (by decide : 0 < 0x40))
      obtain ⟨hlast, hc⟩ := hcontinuation (Nat.mod_lt u (by decide : 0 < 0x40))
      have hgroup := Spells.three (UInt8.ofNat (0xE0 + u / 0x1000)) _ _ (by omega) hb hc
      rw [hlead, hnext, hlast, show (0xE0 + u / 0x1000 - 0xE0) * 0x1000 +
        (0x80 + u / 0x40 % 0x40 - 0x80) * 0x40 + (0x80 + u % 0x40 - 0x80) = u by omega] at hgroup
      rwa [if_neg htwo]

end StringData

end Units

section Texts

/-! ## Texts -/

/-- The units of a text make that text without its zeros. -/
theorem textOfUnits_encode (start : Nat) (s : String) :
    textOfUnits start (Text.Utf16.encode s.toList) =
      .ok (String.ofList (s.toList.filter (· ≠ '\x00'))) := by
  rw [textOfUnits, Text.Utf16.decode_encode]

/-- A text without a zero stays as it is. -/
theorem ofList_filter_of_notMem (h : '\x00' ∉ s.toList) :
    String.ofList (s.toList.filter (· ≠ '\x00')) = s := by
  have hkeep : s.toList.filter (· ≠ '\x00') = s.toList := by
    rw [List.filter_eq_self]
    intro c hc
    have hne : c ≠ '\x00' := fun hzero => h (hzero ▸ hc)
    simpa using hne
  rw [hkeep, String.ofList_toList]

namespace StringData

/-- What is read of a string that is written at an offset: it has lost its zeros. -/
def written (s : String) (start : Nat) : StringData :=
  let count := (Text.Utf16.encode s.toList).length
  ⟨⟨Leb128.encodeUnsigned count, count⟩, start + (Leb128.encodeUnsigned count).length,
    String.ofList (s.toList.filter (· ≠ '\x00'))⟩

/-- A written string is read back without its zeros. -/
theorem read_reads {start : Nat} (h : Holds buffer start (encode s))
    (hlength : (Text.Utf16.encode s.toList).length < 2 ^ 35) :
    StringData.read.Reads buffer start (written s start) (start + (encode s).length) := by
  have hroom := h.right.le_size
  have hspells : ∀ u ∈ Text.Utf16.encode s.toList, Spells (encodeUnit u) u := fun u hu =>
    spells_encodeUnit (Text.Utf16.lt_of_mem_encode hu)
  have hunits : 1 * (Text.Utf16.encode s.toList).length ≤
      ((Text.Utf16.encode s.toList).flatMap encodeUnit).length :=
    mul_length_le_length_flatMap fun u hu => (hspells u hu).length_pos
  have hread : (Decoder.times (readUnit
      (start + (Leb128.encodeUnsigned (Text.Utf16.encode s.toList).length).length))
        (Text.Utf16.encode s.toList).length).Decodes buffer (Text.Utf16.encode s.toList)
      ((Text.Utf16.encode s.toList).flatMap encodeUnit) := by
    refine .times ?_
    rw [List.forall₂_same]
    exact fun u hu => readUnit_decodes _ (hspells u hu)
  unfold StringData.read
  refine .field h (Leb128.stored_decodes hlength) fun hdata => ?_
  refine .bind .position (.bind .bufferSize (.bind (.require ?_) ?_))
  · simp only [Int.toNat_natCast, decide_eq_true_eq]
    omega
  unfold readText
  rw [Int.toNat_natCast]
  refine .bind (hread _ hdata) ?_
  rw [textOfUnits_encode, encode, List.length_append, ← Nat.add_assoc]
  exact .pure _

/-- A written string without a zero is read back. -/
theorem read_encode {start : Nat} (h : Holds buffer start (encode s)) (hzero : '\x00' ∉ s.toList)
    (hsize : buffer.size < 0x100000000) :
    ∃ data : StringData, data.text = s ∧ StringData.read.Yields buffer start data := by
  have hroom := h.right.le_size
  have hunits : 1 * (Text.Utf16.encode s.toList).length ≤
      ((Text.Utf16.encode s.toList).flatMap encodeUnit).length :=
    mul_length_le_length_flatMap fun u hu =>
      (spells_encodeUnit (Text.Utf16.lt_of_mem_encode hu)).length_pos
  exact ⟨written s start, ofList_filter_of_notMem hzero, (read_reads h (by omega)).result⟩

/-- Between any other bytes a written string is read back without its zeros, with the number of its
units and as it was if it has no zero; the cursor is left behind the last unit. -/
theorem text_of_encode (s : String) (hlength : (Text.Utf16.encode s.toList).length < 2 ^ 35)
    (before after : List UInt8) :
    ∃ data, StringData.read.Reads (before ++ encode s ++ after).toArray before.length data
        (before.length + (encode s).length) ∧
      data.length.value = (Text.Utf16.encode s.toList).length ∧
      data.text = String.ofList (s.toList.filter (· ≠ '\x00')) ∧
      ('\x00' ∉ s.toList → data.text = s) :=
  ⟨_, read_reads (.intro before (encode s) after) hlength, rfl, rfl, ofList_filter_of_notMem⟩

/-- Characters at the ends of what groups of each length have room for, and a surrogate pair
between two zeros. -/
def borderline : String :=
  "\x01\x7f\u0080\u07ff\u0800\uffff\x00𐐀\x00"

/-- They are read back between bytes that would continue a group. -/
theorem text_of_encode_borderline :
    (Text.Utf16.encode borderline.toList).length < 2 ^ 35 ∧
    ∃ data, StringData.read.Reads ([0x80] ++ encode borderline ++ [0x80]).toArray 1 data 24 ∧
      data.length.value = 10 ∧ data.text = "\x01\x7f\u0080\u07ff\u0800\uffff𐐀" := by
  have hcount : (Text.Utf16.encode borderline.toList).length = 10 := by
    decide +kernel
  have hsmall : (Text.Utf16.encode borderline.toList).length < 2 ^ 35 := by
    rw [hcount]
    decide
  have hends : 1 + (encode borderline).length = 24 := by
    decide +kernel
  have htext : String.ofList (borderline.toList.filter (· ≠ '\x00')) =
      "\x01\x7f\u0080\u07ff\u0800\uffff𐐀" := by
    decide +kernel
  obtain ⟨data, hread, hvalue, hdata, -⟩ := text_of_encode borderline hsmall [0x80] [0x80]
  rw [List.length_singleton, hends] at hread
  rw [hcount] at hvalue
  exact ⟨hsmall, data, hread, hvalue, hdata.trans htext⟩

end StringData

end Texts

end ApkFormats.Dex
