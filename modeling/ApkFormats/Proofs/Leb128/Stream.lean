import ApkFormats.Proofs.Leb128.Exact

/-!
# Rows of LEB128 numbers

Numbers of different kinds may stand one behind the other, with nothing between
them.  Each of them says itself where it ends, so that a row of numbers is read
back when their kinds are known.

* `Kind.encode` writes a number of a kind, and `Kind.Encodable` says which
  numbers five groups have room for;
* `length_encode_le`: no other bytes of the same number are fewer;
* `row_decodes`: a row of numbers is read back, each with its own bytes;
* `storedRow_of_encode`: whatever stands before and behind the row.
-/

namespace ApkFormats

/-- A field that is repeated for the keys of some items, once for each of them. -/
theorem Decoder.Decodes.each {α β γ : Type} {buffer : Bytes} {decode : α → Decoder β}
    {key : γ → α} {value : γ → β} {encode : γ → List UInt8} {items : List γ}
    (h : ∀ item ∈ items, (decode (key item)).Decodes buffer (value item) (encode item)) :
    (Decoder.each decode (items.map key)).Decodes buffer (items.map value)
      (items.flatMap encode) := by
  induction items with
  | nil => exact .pure []
  | cons item rest ih =>
      rw [List.map_cons, each_cons, List.map_cons, List.flatMap_cons]
      refine (h item List.mem_cons_self).bind ?_
      exact (ih fun a ha => h a (List.mem_cons_of_mem _ ha)).last rfl

namespace Leb128

/-- The shortest bytes of a number of some kind. -/
def Kind.encode : Kind → Int → List UInt8
  | .unsigned, n => encodeUnsigned n.toNat
  | .unsignedMinusOne, n => encodeUnsigned (n + 1).toNat
  | .signed, n => encodeSigned n

/-- Five groups have room for a number of some kind. -/
def Kind.Encodable : Kind → Int → Prop
  | .unsigned, n => 0 ≤ n ∧ n < 2 ^ 35
  | .unsignedMinusOne, n => -1 ≤ n ∧ n < 2 ^ 35 - 1
  | .signed, n => -2 ^ 34 ≤ n ∧ n < 2 ^ 34

instance : ∀ (kind : Kind) (n : Int), Decidable (kind.Encodable n)
  | .unsigned, n => inferInstanceAs (Decidable (0 ≤ n ∧ n < 2 ^ 35))
  | .unsignedMinusOne, n => inferInstanceAs (Decidable (-1 ≤ n ∧ n < 2 ^ 35 - 1))
  | .signed, n => inferInstanceAs (Decidable (-2 ^ 34 ≤ n ∧ n < 2 ^ 34))

section Numbers

variable {buffer : Bytes} {kind : Kind} {n : Int}

/-- A number of a kind is read back with its bytes. -/
theorem stored_decodes_encode (h : kind.Encodable n) :
    (stored kind).Decodes buffer ⟨kind.encode n, n⟩ (kind.encode n) := by
  cases kind with
  | unsigned =>
      obtain ⟨hlow, hhigh⟩ := h
      obtain ⟨m, rfl⟩ := Int.eq_ofNat_of_zero_le hlow
      exact stored_decodes (by omega)
  | unsignedMinusOne =>
      obtain ⟨hlow, hhigh⟩ := h
      refine (groups_encodeUnsigned (by omega)).last ?_
      rw [Kind.value, payload_encodeUnsigned]
      congr 1
      omega
  | signed => exact (groups_encodeSigned h.1 h.2).last (by rw [value_encodeSigned, Kind.encode])

/-- Bytes that stand for a number are no fewer than those that it is written as. -/
theorem length_encode_le {bytes : List UInt8} (h : bytes ≠ []) (hvalue : kind.value bytes = n) :
    (kind.encode n).length ≤ bytes.length := by
  obtain ⟨k, hlength⟩ := Nat.exists_eq_add_one.mpr (List.length_pos_iff.mpr h)
  have hpayload := payload_lt bytes
  rw [hlength] at hpayload ⊢
  subst hvalue
  cases kind with
  | unsigned =>
      rw [Kind.encode, Kind.value, Int.toNat_natCast]
      exact length_encodeUnsigned_le hpayload
  | unsignedMinusOne =>
      rw [Kind.encode, Kind.value, Int.sub_add_cancel, Int.toNat_natCast]
      exact length_encodeUnsigned_le hpayload
  | signed =>
      obtain ⟨hlow, hhigh, -⟩ := value_signed hlength
      exact length_encodeSigned_le hlow hhigh

end Numbers

section Rows

/-! ## Rows -/

variable {buffer : Bytes} {items : List (Kind × Int)}

/-- Reads numbers of the given kinds, one behind the other. -/
def storedRow (kinds : List Kind) : Decoder (List Stored) :=
  Decoder.each stored kinds

/-- The shortest bytes of some numbers, one behind the other. -/
def encodeRow (items : List (Kind × Int)) : List UInt8 :=
  items.flatMap fun item => item.1.encode item.2

/-- A row of numbers is read back, each with its own bytes. -/
theorem storedRow_decodes (h : ∀ item ∈ items, item.1.Encodable item.2) :
    (storedRow (items.map Prod.fst)).Decodes buffer
      (items.map fun item => ⟨item.1.encode item.2, item.2⟩) (encodeRow items) :=
  .each fun item hitem => stored_decodes_encode (h item hitem)

/-- Between any other bytes a row of numbers is read back by their kinds: every number has its
value and the length of its bytes, which are the fewest for it, and the cursor is left behind the
row. -/
theorem storedRow_of_encode (items : List (Kind × Int))
    (h : ∀ item ∈ items, item.1.Encodable item.2) (before after : List UInt8) :
    (∃ numbers, (storedRow (items.map Prod.fst)).Reads
        (before ++ encodeRow items ++ after).toArray before.length numbers
        (before.length + (encodeRow items).length) ∧
      numbers.map Stored.value = items.map Prod.snd ∧
      numbers.map Stored.length = items.map fun item => (item.1.encode item.2).length) ∧
    ∀ item ∈ items, ∀ bytes ≠ [], item.1.value bytes = item.2 →
      (item.1.encode item.2).length ≤ bytes.length := by
  refine ⟨⟨_, storedRow_decodes h _ (.intro before (encodeRow items) after), ?_, ?_⟩,
    fun item _ bytes => length_encode_le⟩
  · rw [List.map_map]
    rfl
  · rw [List.map_map]
    rfl

/-- Numbers at the ends of what one, two and five groups have room for. -/
def borderline : List (Kind × Int) :=
  [(.unsigned, 2 ^ 35 - 1), (.signed, -64), (.unsignedMinusOne, -1), (.signed, 64),
    (.signed, -2 ^ 34), (.unsigned, 128)]

/-- Their row is read back between a byte that would go on and one that does. -/
theorem storedRow_of_encode_borderline :
    (∀ item ∈ borderline, item.1.Encodable item.2) ∧
    ∃ numbers, (storedRow (borderline.map Prod.fst)).Reads
        ([0x80] ++ encodeRow borderline ++ [0xFF]).toArray 1 numbers 17 ∧
      numbers.map Stored.value = borderline.map Prod.snd ∧
      numbers.map Stored.length = [5, 1, 1, 2, 5, 2] := by
  have hfits : ∀ item ∈ borderline, item.1.Encodable item.2 := by
    decide +kernel
  have hends : 1 + (encodeRow borderline).length = 17 := by
    decide +kernel
  have hlengths : (borderline.map fun item => (item.1.encode item.2).length) =
      [5, 1, 1, 2, 5, 2] := by
    decide +kernel
  obtain ⟨⟨numbers, hread, hvalues, hlength⟩, -⟩ :=
    storedRow_of_encode borderline hfits [0x80] [0xFF]
  rw [List.length_singleton, hends] at hread
  exact ⟨hfits, numbers, hread, hvalues, hlength.trans hlengths⟩

end Rows

end Leb128

end ApkFormats
