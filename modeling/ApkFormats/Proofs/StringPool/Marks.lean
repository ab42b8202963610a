import ApkFormats.Proofs.BitFields
import ApkFormats.Proofs.FirstPart
import ApkFormats.StringPool

/-!
# Length marks

A length mark takes one unit, or two when the first one has its high bit set; a
unit is one byte in a short mark and two bytes in a long one.  A mark is read at
the cursor, or at an offset of some bytes.

* `markWidth` and `markValue`: how many bytes a mark takes, and the length that
  it stands for;
* `markValue_eq_or`: the same length by masks and shifts;
* `reads_mark_iff`: a mark is read at the cursor exactly when its bytes are
  there;
* `marks_agree`: the two ways to read a mark come to the same, and where a byte
  is missing both of them fail as out of bounds.
-/

namespace ApkFormats

namespace Decoder

variable {width start stop n : Nat} {buffer : Bytes}

/-- A byte is a number of one byte. -/
theorem u8_eq_number : u8 = number 1 := by
  funext buffer start
  simp only [u8, number, bind_apply, andThen, byte, take]
  by_cases hinside : start < buffer.size
  · have hroom : start + 1 ≤ buffer.size := hinside
    have hnumber := numberAt_one hinside
    rw [numberAt] at hnumber
    simp only [dif_pos hinside, if_pos (Or.inr hroom : 1 = 0 ∨ _), pure_apply, hnumber]
  · have hroom : ¬start + 1 ≤ buffer.size := by omega
    simp only [dif_neg hinside, largeRead]
    simp [hroom]
    omega

/-- A number of some bytes is read exactly when they are all there. -/
theorem reads_number_iff_of_ne (hwidth : width ≠ 0) :
    (number width).Reads buffer start n stop ↔
      start + width ≤ buffer.size ∧ numberAt width buffer start = n ∧ start + width = stop := by
  obtain ⟨width, rfl⟩ := Nat.exists_eq_succ_of_ne_zero hwidth
  exact reads_number_iff

theorem reads_number_bind_iff_of_ne (hwidth : width ≠ 0) {next : Nat → Decoder Nat} :
    (number width >>= next).Reads buffer start n stop ↔ start + width ≤ buffer.size ∧
      (next (numberAt width buffer start)).Reads buffer (start + width) n stop :=
  reads_bind_iff_of fun _ _ => reads_number_iff_of_ne hwidth

/-- A number whose bytes are not all there is out of bounds. -/
theorem number_fallsShort (hwidth : width ≠ 0) (h : buffer.size < start + width) :
    (number width).FallsShort buffer start := by
  have hroom : ¬(width = 0 ∨ start + width ≤ buffer.size) := by omega
  refine FallsShort.bind ?_
  rw [FallsShort, take, if_neg hroom]
  split
  · exact ⟨_, rfl, rfl⟩
  · exact ⟨_, rfl, rfl⟩

end Decoder

namespace StringPool

section Units

/-! ## Marks of any unit -/

/-- The least number of some bytes whose high bit is set. -/
def highBit (unit : Nat) : Nat := 256 ^ unit / 2

/-- Number of bytes of the mark at an offset. -/
def markWidth (unit : Nat) (buffer : Bytes) (start : Nat) : Nat :=
  if numberAt unit buffer start < highBit unit then unit else 2 * unit

/-- Length that the mark at an offset stands for. -/
def markValue (unit : Nat) (buffer : Bytes) (start : Nat) : Nat :=
  if numberAt unit buffer start < highBit unit then numberAt unit buffer start
  else numberAt unit buffer start % highBit unit * (2 * highBit unit) +
    numberAt unit buffer (start + unit)

theorem highBit_eq (k : Nat) : highBit (k + 1) = 2 ^ (8 * k + 7) := by
  have hbits : 2 ^ (8 * k + 7) * 2 = 256 ^ (k + 1) := by
    rw [← Nat.pow_succ, show (256 : Nat) = 2 ^ 8 from rfl, ← Nat.pow_mul]
    rfl
  rw [highBit, ← hbits, Nat.mul_div_cancel _ (by decide)]

/-- A mark goes on when a mask leaves the high bit of its first unit, whose other bits stand in
front of the second unit then. -/
theorem markValue_eq_or {unit : Nat} (hunit : unit ≠ 0) (buffer : Bytes) (start : Nat) :
    markValue unit buffer start =
      if numberAt unit buffer start &&& highBit unit ≠ 0 then
        (numberAt unit buffer start &&& (highBit unit - 1)) <<< (8 * unit) |||
          numberAt unit buffer (start + unit)
      else numberAt unit buffer start := by
  obtain ⟨k, rfl⟩ := Nat.exists_eq_add_one_of_ne_zero hunit
  have hpow : 256 ^ (k + 1) = 2 ^ (8 * (k + 1)) := (Nat.pow_mul 2 8 (k + 1)).symm
  have hfirst := numberAt_lt (k + 1) buffer start
  have hsecond := numberAt_lt (k + 1) buffer (start + (k + 1))
  rw [hpow] at hfirst hsecond
  have htop : 2 * highBit (k + 1) = 2 ^ (8 * (k + 1)) := by
    rw [highBit_eq, Nat.mul_comm, ← Nat.pow_succ]
    rfl
  have hmask : numberAt (k + 1) buffer start &&& 2 ^ (8 * k + 7) ≠ 0 ↔
      2 ^ (8 * k + 7) ≤ numberAt (k + 1) buffer start := and_two_pow_ne_zero_iff hfirst
  rw [markValue, shiftLeft_or_eq hsecond, htop, highBit_eq, Nat.and_two_pow_sub_one_eq_mod]
  by_cases hlong : 2 ^ (8 * k + 7) ≤ numberAt (k + 1) buffer start
  · rw [if_neg (Nat.not_lt.mpr hlong), if_pos (hmask.mpr hlong)]
  · rw [if_pos (Nat.lt_of_not_le hlong), if_neg (hlong ∘ hmask.mp)]

/-- Reads a mark whose units take some bytes. -/
def mark (unit : Nat) : Decoder Nat := do
  let first ← Decoder.number unit
  if first < highBit unit then pure first
  else do
    let second ← Decoder.number unit
    pure (first % highBit unit * (2 * highBit unit) + second)

/-- The mark at an offset of some data whose units take some bytes, and how many it takes. -/
def markAt (unit : Nat) (data : Bytes) (offset : Int) : Except Fault (Nat × Nat) := do
  let first ← markNumber data offset 0 unit
  if first < highBit unit then pure (first, unit)
  else do
    let second ← markNumber data offset unit unit
    pure (first % highBit unit * (2 * highBit unit) + second, 2 * unit)

theorem shortMark_eq : shortMark = mark 1 := by
  rw [shortMark, Decoder.u8_eq_number]
  rfl

theorem longMark_eq : longMark = mark 2 := rfl

theorem shortMarkAt_eq : shortMarkAt = markAt 1 := rfl

theorem longMarkAt_eq : longMarkAt = markAt 2 := rfl

variable {unit : Nat} {buffer : Bytes} {start stop n : Nat}

/-- A mark is read at the cursor exactly when its bytes are there. -/
theorem reads_mark_iff (hunit : unit ≠ 0) :
    (mark unit).Reads buffer start n stop ↔ start + markWidth unit buffer start ≤ buffer.size ∧
      markValue unit buffer start = n ∧ start + markWidth unit buffer start = stop := by
  rw [mark, Decoder.reads_number_bind_iff_of_ne hunit, markWidth, markValue]
  by_cases hshort : numberAt unit buffer start < highBit unit
  · simp only [if_pos hshort, Decoder.reads_pure_iff]
  · simp only [if_neg hshort, Decoder.reads_number_bind_iff_of_ne hunit, Decoder.reads_pure_iff,
      Nat.two_mul, ← Nat.add_assoc]
    constructor
    · exact And.right
    · exact fun h => ⟨Nat.le_of_add_right_le h.1, h⟩

/-- A mark whose bytes are not all there is out of bounds at the cursor. -/
theorem mark_fallsShort (hunit : unit ≠ 0)
    (h : buffer.size < start + markWidth unit buffer start) :
    (mark unit).FallsShort buffer start := by
  by_cases hfirst : buffer.size < start + unit
  · exact (Decoder.number_fallsShort hunit hfirst).bind
  · -- The first unit is there, so it is the second one that is missing.
    have hread := (Decoder.reads_number_iff_of_ne hunit).mpr ⟨Nat.le_of_not_lt hfirst, rfl, rfl⟩
    refine .after hread ?_
    rw [markWidth] at h
    split at h
    · exact absurd h hfirst
    · rename_i hlong
      rw [Nat.two_mul, ← Nat.add_assoc] at h
      rw [if_neg hlong]
      exact (Decoder.number_fallsShort hunit h).bind

/-- A unit of a mark is a number of the data, when its bytes are there. -/
theorem markNumber_eq (skipped : Nat) (h : start + (skipped + unit) ≤ buffer.size) :
    markNumber buffer start skipped unit = .ok (numberAt unit buffer (start + skipped)) := by
  rw [markNumber, if_neg (by omega), Int.toNat_natCast]
  rfl

theorem markNumber_outOfBounds (skipped : Nat) (h : buffer.size < start + (skipped + unit)) :
    ∃ fault, markNumber buffer start skipped unit = .error fault ∧
      fault.category = .outOfBounds := by
  rw [markNumber, if_pos (by omega)]
  exact ⟨_, rfl, rfl⟩

theorem markAt_eq (h : start + markWidth unit buffer start ≤ buffer.size) :
    markAt unit buffer start = .ok (markValue unit buffer start, markWidth unit buffer start) := by
  have hfirst : start + (0 + unit) ≤ buffer.size := by
    rw [markWidth] at h
    split at h <;> omega
  rw [markAt, markNumber_eq 0 hfirst, Nat.add_zero, markValue]
  rw [markWidth] at h ⊢
  by_cases hshort : numberAt unit buffer start < highBit unit
  · simp only [if_pos hshort]
    exact if_pos hshort
  · rw [if_neg hshort, Nat.two_mul] at h
    simp only [if_neg hshort]
    refine (if_neg hshort).trans ?_
    rw [markNumber_eq unit h]
    rfl

theorem markAt_outOfBounds (h : buffer.size < start + markWidth unit buffer start) :
    ∃ fault, markAt unit buffer start = .error fault ∧ fault.category = .outOfBounds := by
  by_cases hfirst : buffer.size < start + (0 + unit)
  · obtain ⟨fault, hfault, hcategory⟩ := markNumber_outOfBounds 0 hfirst
    exact ⟨fault, by rw [markAt, hfault]; rfl, hcategory⟩
  · rw [markWidth] at h
    split at h
    · omega
    · rename_i hlong
      rw [Nat.two_mul] at h
      obtain ⟨fault, hfault, hcategory⟩ := markNumber_outOfBounds unit h
      refine ⟨fault, ?_, hcategory⟩
      rw [markAt, markNumber_eq 0 (Nat.le_of_not_lt hfirst), Nat.add_zero]
      refine (if_neg hlong).trans ?_
      rw [hfault]
      rfl

end Units

/-- Two ways to read a mark come to the same: where its bytes are there, both give its length, and
one of them counts the bytes that the other one goes over; where one is missing, both fail as out
of bounds. -/
def MarkAgrees (unit : Nat) (data : Bytes) (start : Nat) (direct : Except Fault (Nat × Nat))
    (streamed : Decoder Nat) : Prop :=
  start + markWidth unit data start ≤ data.size ∧
      (∃ length used, direct = .ok (length, used) ∧
        streamed.Reads data start length (start + used) ∧
        length = markValue unit data start ∧ used = markWidth unit data start) ∨
    data.size < start + markWidth unit data start ∧
      (∃ fault, direct = .error fault ∧ fault.category = .outOfBounds) ∧
      streamed.FallsShort data start

theorem markAgrees {unit : Nat} (hunit : unit ≠ 0) (data : Bytes) (start : Nat) :
    MarkAgrees unit data start (markAt unit data start) (mark unit) := by
  rcases Nat.lt_or_ge data.size (start + markWidth unit data start) with hshort | hroom
  · exact .inr ⟨hshort, markAt_outOfBounds hshort, mark_fallsShort hunit hshort⟩
  · have hread := (reads_mark_iff hunit).mpr ⟨hroom, rfl, rfl⟩
    exact .inl ⟨hroom, _, _, markAt_eq hroom, hread, rfl, rfl⟩

/-- At every offset, also behind the end of the data, both kinds of marks are read in one way. -/
theorem marks_agree (data : Bytes) (start : Nat) :
    MarkAgrees 1 data start (shortMarkAt data start) shortMark ∧
      MarkAgrees 2 data start (longMarkAt data start) longMark := by
  rw [shortMark_eq, longMark_eq, shortMarkAt_eq, longMarkAt_eq]
  exact ⟨markAgrees Nat.one_ne_zero data start, markAgrees (Nat.succ_ne_zero 1) data start⟩

/-- Of a long mark of two units three bytes are not enough. -/
example : longMarkAt #[0x01, 0x80, 0x02] 0 = .error (.pool (.lengthMark 0 4 3)) ∧
    (longMark #[0x01, 0x80, 0x02] 0).result = .error (.stream (.short 2 1)) ∧
    longMarkAt #[0x01, 0x80, 0x02, 0x00] 0 = .ok (0x10002, 4) := by
  decide

end StringPool

end ApkFormats
