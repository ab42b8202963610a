import ApkFormats.Leb128
import ApkFormats.Proofs.Success
import Mathlib.Algebra.Order.Ring.Int

/-!
# LEB128 numbers are read back

A written number ends at its first byte without the high bit (`Terminated`), so
that exactly its own bytes are read, and its bytes stand for the number again:

* `unsigned_decodes` and `stored_decodes` for unsigned numbers;
* `unsignedMinusOne_decodes` for numbers that are stored one larger;
* `signed_decodes` for signed numbers.

The bounds are those of five bytes with seven bits each.
-/

namespace ApkFormats.Leb128

/-- Some bytes of which exactly the last one has no byte after it. -/
inductive Terminated : List UInt8 → Prop
  | last (b : UInt8) (h : continues b = false) : Terminated [b]
  | more (b : UInt8) (rest : List UInt8) (h : continues b = true) (hrest : Terminated rest) :
      Terminated (b :: rest)

variable {buffer : Bytes} {bytes : List UInt8}

theorem Terminated.ne_nil (h : Terminated bytes) : bytes ≠ [] := by
  cases h <;> simp

/-- The bytes of a number are read as far as it goes, when there is room for them. -/
theorem readGroups_decodes {room : Nat} (start : Nat) (h : Terminated bytes)
    (hroom : bytes.length ≤ room) : (readGroups start room).Decodes buffer bytes bytes := by
  induction h generalizing room with
  | last b hb =>
      obtain ⟨room, rfl⟩ := Nat.exists_eq_add_of_le' hroom
      have hread : (readGroups start (room + 1)).Decodes buffer [b] ([b] ++ []) := by
        refine (Decoder.Decodes.byte b).bind ?_
        rw [hb]
        exact .pure [b]
      exact hread
  | more b rest hb hrest ih =>
      rw [List.length_cons] at hroom
      obtain ⟨room, rfl⟩ := Nat.exists_eq_add_of_le' (Nat.le_trans (Nat.le_add_left 1 _) hroom)
      refine (Decoder.Decodes.byte b).bind ?_
      rw [hb]
      exact (ih (by omega)).last rfl

theorem groups_decodes (h : Terminated bytes) (hlength : bytes.length ≤ maxLeb128Bytes) :
    groups.Decodes buffer bytes bytes :=
  .bind_position fun start => readGroups_decodes start h hlength

section Unsigned

/-! ## Unsigned numbers -/

variable {n : Nat}

/-- The low seven bits of a byte below the high bit, and of one with the high bit set. -/
theorem toNat_group (h : n < 128) :
    (UInt8.ofNat n).toNat = n ∧ (UInt8.ofNat (128 + n)).toNat = 128 + n :=
  ⟨toNat_byte (by omega), toNat_byte (by omega)⟩

theorem continues_last (h : n < 128) : continues (UInt8.ofNat n) = false := by
  have hbyte := (toNat_group h).1
  rw [continues, decide_eq_false_iff_not, UInt8.le_iff_toNat_le, hbyte]
  exact Nat.not_le.mpr h

theorem continues_more (h : n < 128) : continues (UInt8.ofNat (128 + n)) = true := by
  have hbyte := (toNat_group h).2
  rw [continues, decide_eq_true_eq, UInt8.le_iff_toNat_le, hbyte]
  exact Nat.le_add_right 128 n

theorem terminated_encodeUnsigned (n : Nat) : Terminated (encodeUnsigned n) := by
  induction n using encodeUnsigned.induct with
  | case1 n hsmall =>
      rw [encodeUnsigned, if_pos hsmall]
      exact .last _ (continues_last hsmall)
  | case2 n hlarge ih =>
      rw [encodeUnsigned, if_neg hlarge]
      exact .more _ _ (continues_more (Nat.mod_lt n (by decide))) ih

theorem payload_encodeUnsigned (n : Nat) : payload (encodeUnsigned n) = n := by
  induction n using encodeUnsigned.induct with
  | case1 n hsmall =>
      have hbyte := (toNat_group hsmall).1
      rw [encodeUnsigned, if_pos hsmall, payload, payload, hbyte]
      omega
  | case2 n hlarge ih =>
      have hbyte := (toNat_group (Nat.mod_lt n (by decide : 0 < 128))).2
      rw [encodeUnsigned, if_neg hlarge, payload, ih, hbyte]
      omega

theorem length_encodeUnsigned_le {k : Nat} (h : n < 128 ^ (k + 1)) :
    (encodeUnsigned n).length ≤ k + 1 := by
  induction k generalizing n with
  | zero =>
      rw [encodeUnsigned, if_pos (by simpa using h)]
      simp
  | succ k ih =>
      rw [encodeUnsigned]
      by_cases hsmall : n < 128
      · simp [hsmall]
      · have hrest : n / 128 < 128 ^ (k + 1) := by
          rw [Nat.div_lt_iff_lt_mul (by decide)]
          rwa [Nat.pow_succ] at h
        have hlength := ih hrest
        rw [if_neg hsmall, List.length_cons]
        omega

theorem length_encodeUnsigned_pos (n : Nat) : 0 < (encodeUnsigned n).length :=
  List.length_pos_iff.mpr (terminated_encodeUnsigned n).ne_nil

/-- An unsigned number is read back with its bytes. -/
theorem groups_encodeUnsigned (h : n < 2 ^ 35) :
    groups.Decodes buffer (encodeUnsigned n) (encodeUnsigned n) :=
  groups_decodes (terminated_encodeUnsigned n) (length_encodeUnsigned_le (k := 4) h)

theorem unsigned_decodes (h : n < 2 ^ 35) : unsigned.Decodes buffer n (encodeUnsigned n) :=
  (groups_encodeUnsigned h).last (payload_encodeUnsigned n)

theorem stored_decodes (h : n < 2 ^ 35) :
    (stored .unsigned).Decodes buffer ⟨encodeUnsigned n, n⟩ (encodeUnsigned n) :=
  (groups_encodeUnsigned h).last (by rw [Kind.value, payload_encodeUnsigned])

theorem unsignedMinusOne_decodes (h : n < 2 ^ 35) :
    unsignedMinusOne.Decodes buffer ((n : Int) - 1) (encodeUnsigned n) :=
  (groups_encodeUnsigned h).last (by rw [Kind.value, payload_encodeUnsigned])

/-- An unsigned number is not negative. -/
theorem nonneg_of_stored_unsigned {start stop : Nat} {number : Stored}
    (h : (stored .unsigned).Reads buffer start number stop) : 0 ≤ number.value := by
  simp only [stored, Decoder.reads_bind_iff, Decoder.reads_pure_iff] at h
  obtain ⟨bytes, mid, -, rfl, -⟩ := h
  exact Int.natCast_nonneg _

end Unsigned

section Signed

/-! ## Signed numbers -/

variable {n : Int}

theorem toNat_mod_lt (n : Int) : (n % 128).toNat < 128 := by
  omega

theorem terminated_encodeSigned (n : Int) : Terminated (encodeSigned n) := by
  induction n using encodeSigned.induct with
  | case1 n hsmall =>
      rw [encodeSigned, if_pos hsmall]
      exact .last _ (continues_last (toNat_mod_lt n))
  | case2 n hlarge ih =>
      rw [encodeSigned, if_neg hlarge]
      exact .more _ _ (continues_more (toNat_mod_lt n)) ih

/-- The last group of a longer number decides about its sign. -/
theorem isNegative_cons (b : UInt8) (h : bytes ≠ []) :
    isNegative (b :: bytes) = isNegative bytes := by
  obtain ⟨c, rest, rfl⟩ := List.exists_cons_of_ne_nil h
  rw [isNegative, isNegative, List.getLast?_cons_cons]

/-- The sign of a number is that of its bytes, which spell a negative number in two's
complement. -/
theorem payload_encodeSigned (n : Int) :
    isNegative (encodeSigned n) = decide (n < 0) ∧
      (payload (encodeSigned n) : Int) =
        if n < 0 then n + 128 ^ (encodeSigned n).length else n := by
  induction n using encodeSigned.induct with
  | case1 n hsmall =>
      have hbyte := (toNat_group (toNat_mod_lt n)).1
      rw [encodeSigned, if_pos hsmall]
      constructor
      · rw [isNegative]
        simp only [List.getLast?_singleton, hbyte, decide_eq_decide]
        omega
      · simp only [payload, hbyte, List.length_singleton, pow_one]
        split <;> omega
  | case2 n hlarge ih =>
      obtain ⟨hsign, hpayload⟩ := ih
      have hbyte := (toNat_group (toNat_mod_lt n)).2
      have hrest := (terminated_encodeSigned (n / 128)).ne_nil
      rw [encodeSigned, if_neg hlarge]
      constructor
      · rw [isNegative_cons _ hrest, hsign, decide_eq_decide]
        omega
      · rw [payload, hbyte, List.length_cons, pow_succ]
        push_cast
        rw [hpayload]
        by_cases hneg : n < 0
        · rw [if_pos hneg, if_pos (by omega)]
          omega
        · rw [if_neg hneg, if_neg (by omega)]
          omega

theorem length_encodeSigned_le {k : Nat} (hlow : -(64 * 128 ^ k) ≤ n) (hhigh : n < 64 * 128 ^ k) :
    (encodeSigned n).length ≤ k + 1 := by
  induction k generalizing n with
  | zero =>
      rw [encodeSigned, if_pos (by omega)]
      simp
  | succ k ih =>
      rw [encodeSigned]
      by_cases hsmall : -64 ≤ n ∧ n < 64
      · simp [hsmall]
      · rw [pow_succ] at hlow hhigh
        have hlength := ih (n := n / 128) (by omega) (by omega)
        rw [if_neg hsmall, List.length_cons]
        omega

/-- What a negative number of some bytes lacks is a power of their base. -/
theorem one_shiftLeft_groups (k : Nat) : ((1 <<< (7 * k) : Nat) : Int) = 128 ^ k := by
  rw [Nat.one_shiftLeft, pow_mul]
  norm_cast

theorem value_encodeSigned (n : Int) : Kind.value .signed (encodeSigned n) = n := by
  obtain ⟨hsign, hpayload⟩ := payload_encodeSigned n
  rw [Kind.value, hsign, hpayload, one_shiftLeft_groups]
  by_cases hneg : n < 0
  · simp [hneg]
  · simp [hneg]

/-- A signed number is read back with its bytes. -/
theorem groups_encodeSigned (hlow : -2 ^ 34 ≤ n) (hhigh : n < 2 ^ 34) :
    groups.Decodes buffer (encodeSigned n) (encodeSigned n) :=
  groups_decodes (terminated_encodeSigned n)
    (length_encodeSigned_le (k := 4) (by omega) (by omega))

theorem signed_decodes (hlow : -2 ^ 34 ≤ n) (hhigh : n < 2 ^ 34) :
    signed.Decodes buffer n (encodeSigned n) :=
  (groups_encodeSigned hlow hhigh).last (value_encodeSigned n)

end Signed

end ApkFormats.Leb128
