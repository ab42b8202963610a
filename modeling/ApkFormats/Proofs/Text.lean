import ApkFormats.Proofs.Reading
import ApkFormats.Text.Utf16
import ApkFormats.Text.Utf8

/-!
# Encoded text is read back

Both encodings of text are undone by their decoders:

* `Utf16.decode_encode` and, for the lenient decoder, `Utf16.decodeLenient_encode`;
* `Utf8.decode_encode`.

A character is never a surrogate, which is why a unit of its own is never taken
for half of a pair, and why the second byte of every three-byte form lies in its
interval.
-/

namespace ApkFormats.Text

/-- A character is no surrogate and not above the last code point. -/
theorem toNat_range (c : Char) :
    c.toNat < 0xD800 ∨ 0xDFFF < c.toNat ∧ c.toNat < 0x110000 :=
  c.valid

namespace Utf16

theorem encode_nil : encode [] = [] :=
  rfl

theorem encode_cons (c : Char) (cs : List Char) :
    encode (c :: cs) = encodeChar c ++ encode cs :=
  rfl

/-- A unit below the surrogates or above them stands for itself. -/
theorem not_surrogate {u : Nat} (h : u < 0xD800 ∨ 0xDFFF < u) :
    isHigh u = false ∧ isLow u = false := by
  simp only [isHigh, isLow, Bool.and_eq_false_iff, decide_eq_false_iff_not]
  omega

/-- The two halves of a character above the first 64 K are a pair that is joined to it. -/
theorem pair_of_large {c : Char} (h : 0x10000 ≤ c.toNat) :
    isHigh (0xD800 + (c.toNat - 0x10000) / 0x400) = true ∧
      isLow (0xDC00 + (c.toNat - 0x10000) % 0x400) = true ∧
      joinPair (0xD800 + (c.toNat - 0x10000) / 0x400) (0xDC00 + (c.toNat - 0x10000) % 0x400) =
        c := by
  have hrange := toNat_range c
  refine ⟨?_, ?_, ?_⟩
  · simp only [isHigh, Bool.and_eq_true, decide_eq_true_eq]
    omega
  · simp only [isLow, Bool.and_eq_true, decide_eq_true_eq]
    omega
  · have hcode :
        0x10000 + 0x400 * (0xD800 + (c.toNat - 0x10000) / 0x400 - 0xD800) +
          (0xDC00 + (c.toNat - 0x10000) % 0x400 - 0xDC00) = c.toNat := by
      omega
    rw [joinPair, hcode, Char.ofNat_toNat]

/-- Reading goes over the units of a character and adds it to what has been read. -/
theorem decodeFrom_encodeChar (i : Nat) (done : List Char) (c : Char) (rest : List Nat) :
    decodeFrom i done (encodeChar c ++ rest) =
      decodeFrom (i + (encodeChar c).length) (c :: done) rest := by
  have hrange := toNat_range c
  by_cases hsmall : c.toNat < 0x10000
  · obtain ⟨hhigh, hlow⟩ := not_surrogate (u := c.toNat) (by omega)
    simp only [encodeChar, hsmall, if_true, List.cons_append, List.nil_append, List.length_cons,
      List.length_nil]
    rw [decodeFrom.eq_def]
    simp [hhigh, hlow]
  · obtain ⟨hhigh, hlow, hjoin⟩ := pair_of_large (c := c) (by omega)
    simp [encodeChar, hsmall, decodeFrom, hhigh, hlow, hjoin]

/-- The units of a text are read back. -/
theorem decode_encode (cs : List Char) : decode (encode cs) = .ok cs := by
  have hfrom (i : Nat) (done : List Char) :
      decodeFrom i done (encode cs) = .ok (done.reverse ++ cs) := by
    induction cs generalizing i done with
    | nil => simp [encode_nil, decodeFrom]
    | cons c cs ih =>
        rw [encode_cons, decodeFrom_encodeChar, ih]
        simp
  simpa [decode] using hfrom 0 []

/-- The lenient decoder goes over the units of a character as well. -/
theorem decodeLenient_encodeChar (c : Char) (rest : List Nat) :
    decodeLenient (encodeChar c ++ rest) = c :: decodeLenient rest := by
  have hrange := toNat_range c
  by_cases hsmall : c.toNat < 0x10000
  · obtain ⟨hhigh, hlow⟩ := not_surrogate (u := c.toNat) (by omega)
    cases rest <;> simp [encodeChar, hsmall, decodeLenient, hhigh, hlow]
  · obtain ⟨hhigh, hlow, hjoin⟩ := pair_of_large (c := c) (by omega)
    simp [encodeChar, hsmall, decodeLenient, hhigh, hlow, hjoin]

/-- Nothing of a text is lost to the lenient decoder, whatever follows. -/
theorem decodeLenient_encode (cs : List Char) (rest : List Nat) :
    decodeLenient (encode cs ++ rest) = cs ++ decodeLenient rest := by
  induction cs with
  | nil => rfl
  | cons c cs ih =>
      rw [encode_cons, List.append_assoc, decodeLenient_encodeChar, ih]
      rfl

/-- Every unit takes two bytes. -/
theorem lt_of_mem_encode {cs : List Char} {u : Nat} (h : u ∈ encode cs) : u < 0x10000 := by
  simp only [encode, List.mem_flatMap] at h
  obtain ⟨c, _, hu⟩ := h
  have hrange := toNat_range c
  unfold encodeChar at hu
  dsimp only at hu
  split at hu
  · simp only [List.mem_singleton] at hu
    omega
  · simp only [List.mem_cons, List.not_mem_nil, or_false] at hu
    omega

end Utf16

namespace Utf8

theorem encode_cons (c : Char) (cs : List Char) :
    encode (c :: cs) = encodeChar c ++ encode cs :=
  rfl

section Steps

/-! One byte of a text at a time. -/

variable {i : Nat} {done : List Char} {b : UInt8} {rest : List UInt8} {c : Begun}

theorem decodeFrom_ascii (h : b.toNat < 0x80) :
    decodeFrom i none done (b :: rest) =
      decodeFrom (i + 1) none (Char.ofNat b.toNat :: done) rest := by
  have hb : b < 0x80 := UInt8.lt_iff_toNat_lt.mpr h
  simp [decodeFrom, hb]

theorem decodeFrom_lead (h : 0x80 ≤ b.toNat) (hc : begin? i b = some c) :
    decodeFrom i none done (b :: rest) = decodeFrom (i + 1) (some c) done rest := by
  have hb : ¬b < 0x80 := fun hlt => by
    have := UInt8.lt_iff_toNat_lt.mp hlt
    simp at this
    omega
  simp [decodeFrom, hb, hc]

theorem decodeFrom_last (h : c.low ≤ b.toNat ∧ b.toNat ≤ c.high) (howed : c.owed ≤ 1) :
    decodeFrom i (some c) done (b :: rest) =
      decodeFrom (i + 1) none (Char.ofNat (64 * c.code + b.toNat % 64) :: done) rest := by
  simp [decodeFrom, h, howed]

theorem decodeFrom_more (h : c.low ≤ b.toNat ∧ b.toNat ≤ c.high) (howed : 1 < c.owed) :
    decodeFrom i (some c) done (b :: rest) =
      decodeFrom (i + 1)
        (some ⟨c.start, c.lead, 64 * c.code + b.toNat % 64, c.owed - 1, 0x80, 0xBF⟩)
        done rest := by
  have hnot : ¬c.owed ≤ 1 := by omega
  simp [decodeFrom, h, hnot]

end Steps

section Forms

/-! A character of each length. -/

variable (i : Nat) (done : List Char) (c : Char) (rest : List UInt8)

theorem decodeFrom_one (h : c.toNat < 0x80) :
    decodeFrom i none done (UInt8.ofNat c.toNat :: rest) =
      decodeFrom (i + 1) none (c :: done) rest := by
  have hb := toNat_byte (n := c.toNat) (by omega)
  rw [decodeFrom_ascii (by omega), hb, Char.ofNat_toNat]

theorem decodeFrom_two (hlow : 0x80 ≤ c.toNat) (hhigh : c.toNat < 0x800) :
    decodeFrom i none done
        (UInt8.ofNat (0xC0 + c.toNat / 64) :: UInt8.ofNat (0x80 + c.toNat % 64) :: rest) =
      decodeFrom (i + 2) none (c :: done) rest := by
  have hlead := toNat_byte (n := 0xC0 + c.toNat / 64) (by omega)
  have hlast := toNat_byte (n := 0x80 + c.toNat % 64) (by omega)
  have hbegin : begin? i (UInt8.ofNat (0xC0 + c.toNat / 64)) =
      some ⟨i, UInt8.ofNat (0xC0 + c.toNat / 64), c.toNat / 64, 1, 0x80, 0xBF⟩ := by
    simp only [begin?, hlead]
    rw [if_neg (by omega), if_pos (by omega)]
    simp
  have hcode : 64 * (c.toNat / 64) + (0x80 + c.toNat % 64) % 64 = c.toNat := by omega
  rw [decodeFrom_lead (by omega) hbegin,
    decodeFrom_last (by dsimp only; omega) (by dsimp only; omega)]
  dsimp only
  rw [hlast, hcode, Char.ofNat_toNat]

theorem decodeFrom_three (hlow : 0x800 ≤ c.toNat) (hhigh : c.toNat < 0x10000) :
    decodeFrom i none done
        (UInt8.ofNat (0xE0 + c.toNat / 4096) :: UInt8.ofNat (0x80 + c.toNat / 64 % 64) ::
          UInt8.ofNat (0x80 + c.toNat % 64) :: rest) =
      decodeFrom (i + 3) none (c :: done) rest := by
  have hrange := toNat_range c
  have hlead := toNat_byte (n := 0xE0 + c.toNat / 4096) (by omega)
  have hnext := toNat_byte (n := 0x80 + c.toNat / 64 % 64) (by omega)
  have hlast := toNat_byte (n := 0x80 + c.toNat % 64) (by omega)
  have hbegin : begin? i (UInt8.ofNat (0xE0 + c.toNat / 4096)) =
      some ⟨i, UInt8.ofNat (0xE0 + c.toNat / 4096), c.toNat / 4096, 2,
        if 0xE0 + c.toNat / 4096 = 0xE0 then 0xA0 else 0x80,
        if 0xE0 + c.toNat / 4096 = 0xED then 0x9F else 0xBF⟩ := by
    simp only [begin?, hlead]
    rw [if_neg (by omega), if_neg (by omega), if_pos (by omega)]
    simp
  have hcode : 64 * (64 * (c.toNat / 4096) + (0x80 + c.toNat / 64 % 64) % 64) +
      (0x80 + c.toNat % 64) % 64 = c.toNat := by omega
  rw [decodeFrom_lead (by omega) hbegin,
    decodeFrom_more (by dsimp only; split <;> split <;> omega) (by dsimp only; omega),
    decodeFrom_last (by dsimp only; omega) (by dsimp only; omega)]
  dsimp only
  rw [hnext, hlast, hcode, Char.ofNat_toNat]

theorem decodeFrom_four (hlow : 0x10000 ≤ c.toNat) :
    decodeFrom i none done
        (UInt8.ofNat (0xF0 + c.toNat / 262144) :: UInt8.ofNat (0x80 + c.toNat / 4096 % 64) ::
          UInt8.ofNat (0x80 + c.toNat / 64 % 64) :: UInt8.ofNat (0x80 + c.toNat % 64) :: rest) =
      decodeFrom (i + 4) none (c :: done) rest := by
  have hrange := toNat_range c
  have hlead := toNat_byte (n := 0xF0 + c.toNat / 262144) (by omega)
  have hnext := toNat_byte (n := 0x80 + c.toNat / 4096 % 64) (by omega)
  have hthird := toNat_byte (n := 0x80 + c.toNat / 64 % 64) (by omega)
  have hlast := toNat_byte (n := 0x80 + c.toNat % 64) (by omega)
  have hbegin : begin? i (UInt8.ofNat (0xF0 + c.toNat / 262144)) =
      some ⟨i, UInt8.ofNat (0xF0 + c.toNat / 262144), c.toNat / 262144, 3,
        if 0xF0 + c.toNat / 262144 = 0xF0 then 0x90 else 0x80,
        if 0xF0 + c.toNat / 262144 = 0xF4 then 0x8F else 0xBF⟩ := by
    simp only [begin?, hlead]
    rw [if_neg (by omega), if_neg (by omega), if_neg (by omega), if_pos (by omega)]
    simp
  have hcode : 64 * (64 * (64 * (c.toNat / 262144) + (0x80 + c.toNat / 4096 % 64) % 64) +
      (0x80 + c.toNat / 64 % 64) % 64) + (0x80 + c.toNat % 64) % 64 = c.toNat := by omega
  rw [decodeFrom_lead (by omega) hbegin,
    decodeFrom_more (by dsimp only; split <;> split <;> omega) (by dsimp only; omega),
    decodeFrom_more (by dsimp only; omega) (by dsimp only; omega),
    decodeFrom_last (by dsimp only; omega) (by dsimp only; omega)]
  dsimp only
  rw [hnext, hthird, hlast, hcode, Char.ofNat_toNat]

end Forms

/-- Reading goes over the bytes of a character and adds it to what has been read. -/
theorem decodeFrom_encodeChar (i : Nat) (done : List Char) (c : Char) (rest : List UInt8) :
    decodeFrom i none done (encodeChar c ++ rest) =
      decodeFrom (i + (encodeChar c).length) none (c :: done) rest := by
  unfold encodeChar
  dsimp only
  by_cases h1 : c.toNat < 0x80
  · rw [if_pos h1]
    exact decodeFrom_one i done c rest h1
  · by_cases h2 : c.toNat < 0x800
    · rw [if_neg h1, if_pos h2]
      exact decodeFrom_two i done c rest (by omega) h2
    · by_cases h3 : c.toNat < 0x10000
      · rw [if_neg h1, if_neg h2, if_pos h3]
        exact decodeFrom_three i done c rest (by omega) h3
      · rw [if_neg h1, if_neg h2, if_neg h3]
        exact decodeFrom_four i done c rest (by omega)

/-- The bytes of a text are read back. -/
theorem decode_encode (cs : List Char) : decode (encode cs) = .ok cs := by
  have hfrom (i : Nat) (done : List Char) :
      decodeFrom i none done (encode cs) = .ok (done.reverse ++ cs) := by
    induction cs generalizing i done with
    | nil => simp [encode, decodeFrom]
    | cons c cs ih =>
        rw [encode_cons, decodeFrom_encodeChar, ih]
        simp
  simpa [decode] using hfrom 0 []

/-- A text takes no more units than bytes. -/
theorem length_utf16_le (cs : List Char) : (Utf16.encode cs).length ≤ (encode cs).length := by
  induction cs with
  | nil => exact Nat.le_refl 0
  | cons c cs ih =>
      have hchar : (Utf16.encodeChar c).length ≤ (encodeChar c).length := by
        unfold Utf16.encodeChar encodeChar
        dsimp only
        repeat' split
        all_goals simp
        omega
      rw [Utf16.encode_cons, encode_cons, List.length_append, List.length_append]
      omega

end Utf8

end ApkFormats.Text
