import ApkFormats.Proofs.Leb128.Stream

/-!
# LEB128 numbers and words

The numbers of a file are meant for words of 32 bits.  Five groups have room for
35 bits, and nothing looks at what the fifth one carries above the word.

* `Kind.InWord`: the numbers of a kind that a word has room for;
* `Kind.FifthFits`: what a fifth group may carry so that the number stays in the
  word;
* `values_of_decodeAt`: decoded are exactly the numbers that five groups have
  room for, and one of them is in the word exactly when its fifth group fits;
* `decodeAt_beyond_word`: some are not.
-/

namespace ApkFormats.Leb128

/-- Numbers of a kind that a word of 32 bits has room for. -/
def Kind.InWord : Kind → Int → Prop
  | .unsigned, n => 0 ≤ n ∧ n < 2 ^ 32
  | .unsignedMinusOne, n => -1 ≤ n ∧ n ≤ 2 ^ 32 - 2
  | .signed, n => -2 ^ 31 ≤ n ∧ n < 2 ^ 31

instance : ∀ (kind : Kind) (n : Int), Decidable (kind.InWord n)
  | .unsigned, n => inferInstanceAs (Decidable (0 ≤ n ∧ n < 2 ^ 32))
  | .unsignedMinusOne, n => inferInstanceAs (Decidable (-1 ≤ n ∧ n ≤ 2 ^ 32 - 2))
  | .signed, n => inferInstanceAs (Decidable (-2 ^ 31 ≤ n ∧ n < 2 ^ 31))

/-- A fifth group carries no more than the four places that are left of a word: for signed numbers
the places above them agree with the sign. -/
def Kind.FifthFits : Kind → UInt8 → Prop
  | .unsigned, b => b.toNat % 128 < 0x10
  | .unsignedMinusOne, b => b.toNat % 128 < 0x10
  | .signed, b => b.toNat % 128 < 0x08 ∨ 0x78 ≤ b.toNat % 128

instance : ∀ (kind : Kind) (b : UInt8), Decidable (kind.FifthFits b)
  | .unsigned, b => inferInstanceAs (Decidable (b.toNat % 128 < 0x10))
  | .unsignedMinusOne, b => inferInstanceAs (Decidable (b.toNat % 128 < 0x10))
  | .signed, b => inferInstanceAs (Decidable (b.toNat % 128 < 0x08 ∨ 0x78 ≤ b.toNat % 128))

section Groups

/-! ## The fifth group -/

variable {bytes front : List UInt8} {b : UInt8}

theorem payload_append (front back : List UInt8) :
    payload (front ++ back) = payload front + 128 ^ front.length * payload back := by
  induction front with
  | nil => simp [payload]
  | cons b rest ih =>
      rw [List.cons_append, payload, payload, ih, List.length_cons, Nat.pow_succ]
      ring

/-- The number of five groups is that of the first four and what the fifth one carries. -/
theorem payload_five (h : front.length = 4) :
    payload (front ++ [b]) = payload front + 2 ^ 28 * (b.toNat % 128) := by
  rw [payload_append, h, payload, payload]
  norm_num

theorem isNegative_last (front : List UInt8) (b : UInt8) :
    isNegative (front ++ [b]) = decide (64 ≤ b.toNat % 128) := by
  rw [isNegative, List.getLast?_concat]

/-- Numbers of a kind that `k` groups and one more have room for. -/
def Kind.InGroups (k : Nat) : Kind → Int → Prop
  | .unsigned, n => 0 ≤ n ∧ n < 128 * 128 ^ k
  | .unsignedMinusOne, n => -1 ≤ n ∧ n < 128 * 128 ^ k - 1
  | .signed, n => -(64 * 128 ^ k) ≤ n ∧ n < 64 * 128 ^ k

theorem value_inGroups {k : Nat} (kind : Kind) (hne : bytes ≠ []) (h : bytes.length ≤ k + 1) :
    kind.InGroups k (kind.value bytes) := by
  obtain ⟨j, hlength⟩ := Nat.exists_eq_add_one.mpr (List.length_pos_iff.mpr hne)
  have hpow : (128 : Int) ^ j ≤ 128 ^ k := pow_le_pow_right₀ (by decide) (by omega)
  have hpayload : (payload bytes : Int) < 128 * 128 ^ j := by
    have hlt := payload_lt bytes
    rw [hlength, Nat.pow_succ'] at hlt
    exact_mod_cast hlt
  cases kind with
  | unsigned =>
      rw [Kind.value, Kind.InGroups]
      omega
  | unsignedMinusOne =>
      rw [Kind.value, Kind.InGroups]
      omega
  | signed =>
      obtain ⟨hlow, hhigh, -⟩ := value_signed hlength
      rw [Kind.InGroups]
      omega

/-- Up to five groups are a number that five groups have room for. -/
theorem value_encodable (kind : Kind) (hne : bytes ≠ []) (h : bytes.length ≤ 5) :
    kind.Encodable (kind.value bytes) := by
  have hgroups := value_inGroups (k := 4) kind hne h
  cases kind <;> exact hgroups

/-- Groups without a fifth one are in the word. -/
theorem value_inWord_of_short {kind : Kind} (hne : bytes ≠ []) (h : bytes.length ≤ 4) :
    kind.InWord (kind.value bytes) := by
  have hgroups := value_inGroups (k := 3) kind hne h
  cases kind <;> rw [Kind.InGroups] at hgroups <;> rw [Kind.InWord] <;> omega

/-- Five groups are in the word when the fifth one fits. -/
theorem value_inWord_iff_of_five {kind : Kind} (h : front.length = 4) :
    kind.InWord (kind.value (front ++ [b])) ↔ kind.FifthFits b := by
  have hlow := payload_lt front
  have hpayload := payload_five (b := b) h
  rw [h] at hlow
  cases kind with
  | unsigned =>
      rw [Kind.value, Kind.InWord, Kind.FifthFits, hpayload]
      omega
  | unsignedMinusOne =>
      rw [Kind.value, Kind.InWord, Kind.FifthFits, hpayload]
      omega
  | signed =>
      rw [Kind.value, Kind.InWord, Kind.FifthFits, isNegative_last, one_shiftLeft_groups,
        List.length_append, h, hpayload]
      by_cases hsign : 64 ≤ b.toNat % 128
      · rw [if_pos (decide_eq_true hsign)]
        norm_num
        omega
      · rw [if_neg (by simpa using hsign)]
        omega

/-- Up to five groups are in the word when the fifth one fits, if there is one. -/
theorem value_inWord_iff (kind : Kind) (hne : bytes ≠ []) (h : bytes.length ≤ 5) :
    kind.InWord (kind.value bytes) ↔ ∀ b ∈ bytes[4]?, kind.FifthFits b := by
  rcases Nat.lt_or_ge bytes.length 5 with hshort | hlong
  · have hnone : bytes[4]? = none := List.getElem?_eq_none (Nat.le_of_lt_succ hshort)
    refine iff_of_true (value_inWord_of_short hne (Nat.le_of_lt_succ hshort)) fun b hb => ?_
    rw [hnone] at hb
    cases hb
  · obtain ⟨front, b, rfl⟩ := (List.eq_nil_or_concat bytes).resolve_left hne
    rw [List.concat_eq_append] at h hlong ⊢
    have hfront : front.length = 4 := by
      rw [List.length_append, List.length_singleton] at h hlong
      omega
    have hlast : (front ++ [b])[4]? = some b := by
      rw [← hfront, List.getElem?_concat_length]
    simpa [hlast] using value_inWord_iff_of_five hfront

end Groups

section Decoded

/-! ## Decoded numbers -/

variable {kind : Kind} {buffer : Bytes} {offset : Int} {s : Stored}

/-- A decoded number is what its groups stand for, of which there are up to five. -/
theorem groups_of_decodeAt (h : decodeAt kind buffer offset = .ok s) :
    s.value = kind.value s.groups ∧ s.groups ≠ [] ∧ s.groups.length ≤ 5 := by
  cases offset with
  | negSucc place => cases h
  | ofNat start =>
      obtain ⟨k, -, hlength, hfive, -⟩ := (decodeAt_exact buffer start).2.1 kind s h
      rw [Stored.length] at hlength hfive
      refine ⟨?_, List.ne_nil_of_length_eq_add_one hlength, hfive⟩
      have hresult : (stored kind buffer start).result = .ok s :=
        mapError_eq_ok_iff.mp ((decodeAt_of_result rfl).symm.trans h)
      obtain ⟨bytes, mid, -, hpure⟩ := Decoder.reads_bind_iff.mp ⟨hresult, rfl⟩
      obtain ⟨rfl, -⟩ := Decoder.reads_pure_iff.mp hpure
      rfl

/-- Numbers that five groups have room for are decoded somewhere, and no others. -/
theorem exists_decodeAt_iff (kind : Kind) (n : Int) :
    (∃ buffer offset s, decodeAt kind buffer offset = .ok s ∧ s.value = n) ↔ kind.Encodable n := by
  constructor
  · rintro ⟨buffer, offset, s, h, rfl⟩
    obtain ⟨hvalue, hne, hlength⟩ := groups_of_decodeAt h
    rw [hvalue]
    exact value_encodable kind hne hlength
  · intro h
    have hread := stored_decodes_encode h 0 (.all (kind.encode n))
    exact ⟨(kind.encode n).toArray, (0 : Nat), ⟨kind.encode n, n⟩, decodeAt_of_result hread.result,
      rfl⟩

/-- Decoded are exactly the numbers that five groups have room for.  One of them is in the word
exactly when it has no fifth group or one that fits. -/
theorem values_of_decodeAt (kind : Kind) :
    (∀ n, (∃ buffer offset s, decodeAt kind buffer offset = .ok s ∧ s.value = n) ↔
      kind.Encodable n) ∧
    ∀ buffer offset s, decodeAt kind buffer offset = .ok s →
      (kind.InWord s.value ↔ ∀ b ∈ s.groups[4]?, kind.FifthFits b) := by
  refine ⟨exists_decodeAt_iff kind, fun buffer offset s h => ?_⟩
  obtain ⟨hvalue, hne, hlength⟩ := groups_of_decodeAt h
  rw [hvalue]
  exact value_inWord_iff kind hne hlength

/-- A fifth group that fits, at the end of the word, and the first one that does not. -/
theorem values_of_decodeAt_fifth :
    (decodeAt .signed #[0xFF, 0xFF, 0x80, 0x80, 0x80, 0x80, 0x78] 2 =
        .ok ⟨[0x80, 0x80, 0x80, 0x80, 0x78], -2 ^ 31⟩ ∧
      Kind.InWord .signed (-2 ^ 31)) ∧
    decodeAt .unsigned #[0xFF, 0x80, 0x80, 0x80, 0x80, 0x10] 1 =
        .ok ⟨[0x80, 0x80, 0x80, 0x80, 0x10], 2 ^ 32⟩ ∧
      ¬Kind.InWord .unsigned (2 ^ 32) := by
  have hinside : decodeAt .signed #[0xFF, 0xFF, 0x80, 0x80, 0x80, 0x80, 0x78] 2 =
      .ok ⟨[0x80, 0x80, 0x80, 0x80, 0x78], -2 ^ 31⟩ := by
    decide +kernel
  have hbeyond : decodeAt .unsigned #[0xFF, 0x80, 0x80, 0x80, 0x80, 0x10] 1 =
      .ok ⟨[0x80, 0x80, 0x80, 0x80, 0x10], 2 ^ 32⟩ := by
    decide +kernel
  refine ⟨⟨hinside, ((values_of_decodeAt .signed).2 _ _ _ hinside).mpr ?_⟩, hbeyond, fun h => ?_⟩
  · rintro b ⟨⟩
    decide
  · exact absurd (((values_of_decodeAt .unsigned).2 _ _ _ hbeyond).mp h 0x10 rfl) (by decide)

/-- Four groups that carry nothing, and a fifth one. -/
def fifthGroup (b : UInt8) : Bytes :=
  #[0x80, 0x80, 0x80, 0x80, b]

/-- A fifth group may carry a number out of the word, whatever its kind. -/
theorem decodeAt_beyond_word :
    ((decodeAt .unsigned (fifthGroup 0x10) 0).map Stored.value = .ok (2 ^ 32) ∧
      ¬Kind.InWord .unsigned (2 ^ 32)) ∧
    ((decodeAt .unsignedMinusOne (fifthGroup 0x10) 0).map Stored.value = .ok (2 ^ 32 - 1) ∧
      ¬Kind.InWord .unsignedMinusOne (2 ^ 32 - 1)) ∧
    ((decodeAt .signed (fifthGroup 0x08) 0).map Stored.value = .ok (2 ^ 31) ∧
      ¬Kind.InWord .signed (2 ^ 31)) ∧
    ((decodeAt .signed (fifthGroup 0x77) 0).map Stored.value = .ok (-2 ^ 31 - 2 ^ 28) ∧
      ¬Kind.InWord .signed (-2 ^ 31 - 2 ^ 28)) := by
  decide +kernel

end Decoded

end ApkFormats.Leb128
