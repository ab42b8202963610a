import ApkFormats.Bytes
import Mathlib.Algebra.BigOperators.Ring.Finset
import Mathlib.Algebra.Order.Ring.Int
import Mathlib.Data.Int.Bitwise
import Mathlib.Data.List.Forall2
import Mathlib.Tactic.Positivity
import Mathlib.Tactic.Ring

/-!
# Bit fields

A number is cut into fields of given widths, the lowest places first.  Nothing
is lost by that but what lies above all of the fields, and a negative number is
cut as the places of its two's complement are.

* `and_two_pow_ne_zero_iff`, `shiftLeft_or_eq` and `land_mask`: masks and shifts
  are remainders and multiples;
* `splitBits_cons_land`: a field is what a mask leaves of a number;
* `joinBits`: the number that some fields make up;
* `joinBits_splitBits` and `splitBits_joinBits`: cutting and joining undo each
  other, up to the places above the fields;
* `splitBits_lossless`: every field has room in its width, the fields with their
  places sum up to the number, and the bytes of a number are its fields of eight
  bits.
-/

namespace ApkFormats

section Masks

/-! ## Masks -/

variable {n k low : Nat}

/-- A mask of the highest place leaves something of the numbers in the upper half. -/
theorem and_two_pow_ne_zero_iff (h : n < 2 ^ (k + 1)) : n &&& 2 ^ k ≠ 0 ↔ 2 ^ k ≤ n := by
  have hpos := Nat.two_pow_pos k
  have hquotient : n / 2 ^ k < 2 := by
    rwa [Nat.div_lt_iff_lt_mul hpos, Nat.mul_comm, ← Nat.pow_succ]
  rw [Nat.and_two_pow, Nat.testBit_eq_decide_div_mod_eq, Nat.mod_eq_of_lt hquotient,
    ← Nat.one_le_div_iff hpos]
  obtain hzero | hone := Nat.le_one_iff_eq_zero_or_eq_one.mp (Nat.lt_succ_iff.mp hquotient)
  · simp [hzero]
  · simp [hone]

/-- A number is put in front of one that has room in the places below. -/
theorem shiftLeft_or_eq (h : low < 2 ^ k) (n : Nat) : n <<< k ||| low = n * 2 ^ k + low := by
  rw [← Nat.shiftLeft_add_eq_or_of_lt h, Nat.shiftLeft_eq]

/-- A mask leaves those places of a negative number that its complement does not have. -/
theorem ldiff_mask (m width : Nat) :
    Nat.ldiff (2 ^ width - 1) m = 2 ^ width - (m % 2 ^ width + 1) := by
  have hlt := Nat.mod_lt m (Nat.two_pow_pos width)
  refine Nat.eq_of_testBit_eq fun i => ?_
  rw [Nat.testBit_ldiff, Nat.testBit_two_pow_sub_one, Nat.testBit_two_pow_sub_succ hlt,
    Nat.testBit_mod_two_pow]
  cases decide (i < width) <;> rfl

/-- What a mask leaves of a number of either sign is the remainder. -/
theorem land_mask (n : Int) (width : Nat) :
    Int.land n (2 ^ width - 1 : Nat) = n % (2 ^ width : Nat) := by
  cases n with
  | ofNat m =>
      change ((m &&& (2 ^ width - 1) : Nat) : Int) = (m : Int) % _
      rw [Nat.and_two_pow_sub_one_eq_mod, Int.natCast_emod]
  | negSucc m =>
      have hlt := Nat.mod_lt m (Nat.two_pow_pos width)
      change ((Nat.ldiff (2 ^ width - 1) m : Nat) : Int) = _
      rw [ldiff_mask, Int.negSucc_emod _ (by positivity), ← Int.natCast_emod]
      omega

/-- The first field is what a mask leaves of a number, and the others are cut from what is above. -/
theorem splitBits_cons_land (n : Int) (width : Nat) (widths : List Nat) :
    splitBits n (width :: widths) =
      Int.land n ((1 <<< width) - 1 : Nat) :: splitBits (n >>> width) widths := by
  rw [splitBits, Nat.one_shiftLeft, land_mask]

end Masks

/-- The number that some fields make up, the first one in the lowest places. -/
def joinBits : List Int → List Nat → Int
  | field :: fields, width :: widths => field + 2 ^ width * joinBits fields widths
  | _, _ => 0

/-- Every field has room in its width. -/
def FieldsFit (fields : List Int) (widths : List Nat) : Prop :=
  List.Forall₂ (fun field width => 0 ≤ field ∧ field < 2 ^ width) fields widths

section Splitting

variable {fields : List Int} {widths : List Nat}

/-- The lowest places are the remainder, and the others are cut likewise. -/
theorem splitBits_cons (n : Int) (width : Nat) (widths : List Nat) :
    splitBits n (width :: widths) = n % 2 ^ width :: splitBits (n / 2 ^ width) widths := by
  rw [splitBits, Nat.one_shiftLeft, Int.shiftRight_eq_div_pow]
  norm_cast

theorem fieldsFit_splitBits (n : Int) (widths : List Nat) :
    FieldsFit (splitBits n widths) widths := by
  induction widths generalizing n with
  | nil => exact .nil
  | cons width widths ih =>
      have hpos : (0 : Int) < 2 ^ width := by positivity
      rw [splitBits_cons]
      exact .cons ⟨Int.emod_nonneg n hpos.ne', Int.emod_lt_of_pos n hpos⟩ (ih _)

/-- The lowest places of a quotient stand right above those of the remainder. -/
theorem emod_add_mul_ediv_emod (n b : Int) {a : Int} (ha : 0 ≤ a) :
    n % a + a * (n / a % b) = n % (a * b) := by
  rw [Int.emod_def n a, Int.emod_def (n / a) b, Int.emod_def n (a * b), Int.ediv_ediv_of_nonneg ha]
  ring

/-- Fields that a number was cut into make it up again, but for the places above all of them. -/
theorem joinBits_splitBits (n : Int) (widths : List Nat) :
    joinBits (splitBits n widths) widths = n % 2 ^ widths.sum := by
  induction widths generalizing n with
  | nil => exact (Int.emod_one n).symm
  | cons width widths ih =>
      rw [splitBits_cons, joinBits, ih, List.sum_cons, pow_add]
      exact emod_add_mul_ediv_emod n _ (by positivity)

/-- A number that fields make up is cut into these fields. -/
theorem splitBits_joinBits (h : FieldsFit fields widths) :
    splitBits (joinBits fields widths) widths = fields := by
  induction h with
  | nil => rfl
  | @cons field width fields widths hfield _ ih =>
      have hpos : (2 : Int) ^ width ≠ 0 := by positivity
      rw [joinBits, splitBits_cons, Int.add_mul_emod_self_left, Int.emod_eq_of_lt hfield.1 hfield.2,
        Int.add_mul_ediv_left _ _ hpos, Int.ediv_eq_zero_of_lt hfield.1 hfield.2, Int.zero_add, ih]

/-- Every field counts as much as the widths below it make its places worth. -/
theorem sum_eq_joinBits (h : fields.length = widths.length) :
    ∑ i ∈ Finset.range widths.length, fields.getD i 0 * 2 ^ (widths.take i).sum =
      joinBits fields widths := by
  induction widths generalizing fields with
  | nil => cases fields <;> rfl
  | cons width widths ih =>
      obtain ⟨field, fields, rfl⟩ := List.exists_cons_of_length_eq_add_one h
      rw [List.length_cons, Finset.sum_range_succ', joinBits, ← ih (Nat.succ.inj h),
        Finset.mul_sum, add_comm]
      congr 1
      · simp
      · refine Finset.sum_congr rfl fun i _ => ?_
        rw [List.getD_cons_succ, List.take_succ_cons, List.sum_cons, pow_add]
        ring

end Splitting

section Bytes

/-! ## Bytes are fields of eight bits -/

theorem fieldsFit_bytes (data : List UInt8) :
    FieldsFit (data.map fun b => (b.toNat : Int)) (List.replicate data.length 8) := by
  induction data with
  | nil => exact .nil
  | cons b rest ih =>
      have hlt := b.toNat_lt
      refine .cons ⟨Int.natCast_nonneg _, ?_⟩ ih
      dsimp only
      omega

theorem joinBits_bytes (data : List UInt8) :
    joinBits (data.map fun b => (b.toNat : Int)) (List.replicate data.length 8) =
      littleEndian data := by
  induction data with
  | nil => rfl
  | cons b rest ih =>
      rw [List.map_cons, List.length_cons, List.replicate_succ, joinBits, ih, littleEndian]
      norm_num

end Bytes

/-- A number of either sign is cut into fields that have room in their widths and that make it up
again with the places they stand in, but for what lies above all of them.  So the bytes of a number
come back as its fields of eight bits. -/
theorem splitBits_lossless (n : Int) (widths : List Nat) (data : List UInt8) :
    List.Forall₂ (fun field width => 0 ≤ field ∧ field < 2 ^ width) (splitBits n widths) widths ∧
    ∑ i ∈ Finset.range widths.length, (splitBits n widths).getD i 0 * 2 ^ (widths.take i).sum =
      n % 2 ^ widths.sum ∧
    splitBits (littleEndian data) (List.replicate data.length 8) =
      data.map fun b => (b.toNat : Int) := by
  have hfits := fieldsFit_splitBits n widths
  refine ⟨hfits, ?_, ?_⟩
  · rw [sum_eq_joinBits hfits.length_eq, joinBits_splitBits]
  · rw [← joinBits_bytes, splitBits_joinBits (fieldsFit_bytes data)]

/-- Below zero all places above the number are set, and a field without width holds nothing. -/
example : splitBits (-2) [3, 0, 2] = [6, 0, 3] := by
  decide

end ApkFormats
