import ApkFormats.Proofs.Reading

/-!
# What the success of a decoder says

When a decoder has read a buffer, all that it asked of the buffer was there.
For each decoder that others are made of, a law says what exactly that means:
`reads_u32_iff` for a field, `reads_require_iff` for a check, `reads_bind_iff`
for decoders in turn.

The laws about a field or a check with something behind it (`reads_u32_bind_iff`
and its like) are `simp` lemmas: they turn the success of a record's decoder
into the checks that it made, every field replaced by `numberAt`, the number
that stands at its offset.
-/

namespace ApkFormats

/-- The number of `width` bytes at an offset of a buffer. -/
def numberAt (width : Nat) (buffer : Bytes) (offset : Nat) : Nat :=
  littleEndian (buffer.extract offset (offset + width)).toList

/-- A list of bytes spells a number that they have room for. -/
theorem littleEndian_lt (bytes : List UInt8) : littleEndian bytes < 256 ^ bytes.length := by
  induction bytes with
  | nil => exact Nat.one_pos
  | cons b rest ih =>
      have hb := b.toNat_lt
      rw [littleEndian, List.length_cons, Nat.pow_succ]
      omega

/-- A number has room in the bytes that it stands in. -/
theorem numberAt_lt (width : Nat) (buffer : Bytes) (offset : Nat) :
    numberAt width buffer offset < 256 ^ width := by
  have hlt := littleEndian_lt (buffer.extract offset (offset + width)).toList
  have hlength : (buffer.extract offset (offset + width)).toList.length ≤ width := by
    simp only [Array.length_toList, Array.size_extract]
    omega
  exact Nat.lt_of_lt_of_le hlt (Nat.pow_le_pow_right (by decide) hlength)

/-- A value that a translation of errors leaves alone was there before. -/
@[simp] theorem mapError_eq_ok_iff {ε ε' α : Type} {f : ε → ε'} {x : Except ε α} {a : α} :
    x.mapError f = .ok a ↔ x = .ok a := by
  cases x <;> simp [Except.mapError]

namespace Decoder

section Laws

variable {α β : Type} {buffer : Bytes} {start stop : Nat} {a : α} {b : β}
variable {d d' : Decoder α} {next : α → Decoder β}

/-- Decoders in turn have read when each of them has, the second where the first one ended. -/
theorem reads_bind_iff :
    (d >>= next).Reads buffer start b stop ↔
      ∃ a mid, d.Reads buffer start a mid ∧ (next a).Reads buffer mid b stop := by
  constructor
  · rintro ⟨hresult, hcursor⟩
    simp only [bind_apply, andThen] at hresult hcursor
    rcases hrun : d buffer start with ⟨fault | a, mid, notes⟩
    · simp [hrun] at hresult
    · simp only [hrun] at hresult hcursor
      exact ⟨a, mid, ⟨by rw [hrun], by rw [hrun]⟩, hresult, hcursor⟩
  · rintro ⟨a, mid, hd, hnext⟩
    exact hd.bind hnext

@[simp] theorem reads_pure_iff {a' : α} :
    (pure a : Decoder α).Reads buffer start a' stop ↔ a = a' ∧ start = stop := by
  constructor
  · rintro ⟨hresult, hcursor⟩
    exact ⟨Except.ok.inj hresult, hcursor⟩
  · rintro ⟨rfl, rfl⟩
    exact .pure _

@[simp] theorem not_reads_fail {fault : Fault} :
    ¬ (Decoder.fail fault : Decoder α).Reads buffer start a stop :=
  fun h => nomatch h.result

@[simp] theorem reads_require_iff {condition : Bool} {fault : Fault} {u : Unit} :
    (Decoder.require condition fault).Reads buffer start u stop ↔
      condition = true ∧ start = stop := by
  cases condition <;> simp [Decoder.require]

@[simp] theorem reads_resolved_iff {r : Except IndexFault α} :
    (Decoder.resolved r).Reads buffer start a stop ↔ r = .ok a ∧ start = stop := by
  cases r <;> simp [Decoder.resolved]

@[simp] theorem reads_note_iff {n : Note} {u : Unit} :
    (Decoder.note n).Reads buffer start u stop ↔ start = stop :=
  ⟨fun h => h.cursor, fun h => h ▸ .note n⟩

@[simp] theorem reads_position_iff {cursor : Nat} :
    Decoder.position.Reads buffer start cursor stop ↔ start = cursor ∧ start = stop := by
  constructor
  · rintro ⟨hresult, hcursor⟩
    exact ⟨Except.ok.inj hresult, hcursor⟩
  · rintro ⟨rfl, rfl⟩
    exact .position

@[simp] theorem reads_bufferSize_iff {size : Nat} :
    Decoder.bufferSize.Reads buffer start size stop ↔ buffer.size = size ∧ start = stop := by
  constructor
  · rintro ⟨hresult, hcursor⟩
    exact ⟨Except.ok.inj hresult, hcursor⟩
  · rintro ⟨rfl, rfl⟩
    exact .bufferSize

@[simp] theorem reads_goTo_iff {target : Nat} {u : Unit} :
    (Decoder.goTo target).Reads buffer start u stop ↔ target = stop :=
  ⟨fun h => h.cursor, fun h => h ▸ .goTo target⟩

/-- A branch has read when the way that is taken has. -/
theorem reads_ite_iff {condition : Prop} [Decidable condition] :
    (if condition then d else d').Reads buffer start a stop ↔
      condition ∧ d.Reads buffer start a stop ∨ ¬condition ∧ d'.Reads buffer start a stop := by
  by_cases h : condition <;> simp [h]

end Laws

section Fields

/-! ## Fields -/

variable {buffer : Bytes} {start stop n : Nat}

/-- Bytes that have been taken were there. -/
@[simp] theorem reads_take_iff {count : Nat} {bytes : List UInt8} :
    (Decoder.take count).Reads buffer start bytes stop ↔
      (count = 0 ∨ start + count ≤ buffer.size) ∧
        (buffer.extract start (start + count)).toList = bytes ∧ start + count = stop := by
  constructor
  · rintro ⟨hresult, hcursor⟩
    unfold Decoder.take at hresult hcursor
    split at hresult
    · rename_i hroom
      rw [if_pos hroom] at hcursor
      exact ⟨hroom, Except.ok.inj hresult, hcursor⟩
    · split at hresult <;> cases hresult
  · rintro ⟨hroom, rfl, rfl⟩
    exact ⟨by simp only [Decoder.take, if_pos hroom], by simp only [Decoder.take, if_pos hroom]⟩

@[simp] theorem reads_number_iff {width : Nat} :
    (Decoder.number (width + 1)).Reads buffer start n stop ↔
      start + (width + 1) ≤ buffer.size ∧ numberAt (width + 1) buffer start = n ∧
        start + (width + 1) = stop := by
  simp only [Decoder.number, reads_bind_iff, reads_take_iff, reads_pure_iff, numberAt]
  constructor
  · rintro ⟨bytes, mid, ⟨hroom, rfl, rfl⟩, rfl, rfl⟩
    exact ⟨by omega, rfl, rfl⟩
  · rintro ⟨hroom, rfl, rfl⟩
    exact ⟨_, _, ⟨.inr hroom, rfl, rfl⟩, rfl, rfl⟩

@[simp] theorem reads_u16_iff :
    Decoder.u16.Reads buffer start n stop ↔
      start + 2 ≤ buffer.size ∧ numberAt 2 buffer start = n ∧ start + 2 = stop :=
  reads_number_iff

@[simp] theorem reads_u32_iff :
    Decoder.u32.Reads buffer start n stop ↔
      start + 4 ≤ buffer.size ∧ numberAt 4 buffer start = n ∧ start + 4 = stop :=
  reads_number_iff

/-- A byte that has been taken was there. -/
theorem reads_byte_iff {v : UInt8} :
    Decoder.byte.Reads buffer start v stop ↔ buffer[start]? = some v ∧ start + 1 = stop := by
  rw [Array.getElem?_eq_some_iff]
  constructor
  · rintro ⟨hresult, hcursor⟩
    unfold Decoder.byte at hresult hcursor
    split at hresult
    · rename_i hroom
      rw [dif_pos hroom] at hcursor
      exact ⟨⟨hroom, Except.ok.inj hresult⟩, hcursor⟩
    · cases hresult
  · rintro ⟨⟨hroom, rfl⟩, rfl⟩
    exact ⟨by rw [Decoder.byte, dif_pos hroom], by rw [Decoder.byte, dif_pos hroom]⟩

/-- A number of one byte is that byte. -/
theorem numberAt_one (h : start < buffer.size) : numberAt 1 buffer start = buffer[start].toNat := by
  have hbyte : (buffer.extract start (start + 1)).toList = [buffer[start]] := by
    rw [Array.toList_extract]
    simp [List.extract, List.take_one, h]
  rw [numberAt, hbyte, littleEndian, littleEndian]
  omega

@[simp] theorem reads_u8_iff :
    Decoder.u8.Reads buffer start n stop ↔
      start + 1 ≤ buffer.size ∧ numberAt 1 buffer start = n ∧ start + 1 = stop := by
  simp only [Decoder.u8, reads_bind_iff, reads_byte_iff, reads_pure_iff]
  constructor
  · rintro ⟨v, mid, ⟨hv, rfl⟩, rfl, rfl⟩
    obtain ⟨hroom, rfl⟩ := Array.getElem?_eq_some_iff.mp hv
    exact ⟨hroom, numberAt_one hroom, rfl⟩
  · rintro ⟨hroom, rfl, rfl⟩
    exact ⟨_, _, ⟨Array.getElem?_eq_getElem hroom, rfl⟩, (numberAt_one hroom).symm, rfl⟩

end Fields

section Behind

/-! ## Fields and checks with something behind them -/

variable {α β : Type} {buffer : Bytes} {start stop : Nat} {b : β}

/-- A decoder whose value and end are known is passed over. -/
theorem reads_bind_iff_of {d : Decoder α} {next : α → Decoder β} {P : Prop} {value : α}
    {mid : Nat} (hd : ∀ a cursor, d.Reads buffer start a cursor ↔ P ∧ value = a ∧ mid = cursor) :
    (d >>= next).Reads buffer start b stop ↔ P ∧ (next value).Reads buffer mid b stop := by
  rw [reads_bind_iff]
  constructor
  · rintro ⟨a, cursor, hread, hnext⟩
    obtain ⟨hP, rfl, rfl⟩ := (hd a cursor).mp hread
    exact ⟨hP, hnext⟩
  · rintro ⟨hP, hnext⟩
    exact ⟨value, mid, (hd _ _).mpr ⟨hP, rfl, rfl⟩, hnext⟩

variable {next : Nat → Decoder β} {after : Unit → Decoder β}

@[simp] theorem reads_u8_bind_iff :
    (Decoder.u8 >>= next).Reads buffer start b stop ↔
      start + 1 ≤ buffer.size ∧ (next (numberAt 1 buffer start)).Reads buffer (start + 1) b stop :=
  reads_bind_iff_of fun _ _ => reads_u8_iff

/-- A number of one byte and what is read behind it. -/
theorem reads_u8_bind_iff_byte :
    (Decoder.u8 >>= next).Reads buffer start b stop ↔
      ∃ v, buffer[start]? = some v ∧ (next v.toNat).Reads buffer (start + 1) b stop := by
  simp only [Decoder.u8, reads_bind_iff, reads_byte_iff, reads_pure_iff]
  constructor
  · rintro ⟨n, mid, ⟨v, cursor, ⟨hv, rfl⟩, rfl, rfl⟩, hnext⟩
    exact ⟨v, hv, hnext⟩
  · rintro ⟨v, hv, hnext⟩
    exact ⟨v.toNat, start + 1, ⟨v, start + 1, ⟨hv, rfl⟩, rfl, rfl⟩, hnext⟩

@[simp] theorem reads_u16_bind_iff :
    (Decoder.u16 >>= next).Reads buffer start b stop ↔
      start + 2 ≤ buffer.size ∧ (next (numberAt 2 buffer start)).Reads buffer (start + 2) b stop :=
  reads_bind_iff_of fun _ _ => reads_u16_iff

@[simp] theorem reads_u32_bind_iff :
    (Decoder.u32 >>= next).Reads buffer start b stop ↔
      start + 4 ≤ buffer.size ∧ (next (numberAt 4 buffer start)).Reads buffer (start + 4) b stop :=
  reads_bind_iff_of fun _ _ => reads_u32_iff

@[simp] theorem reads_position_bind_iff :
    (Decoder.position >>= next).Reads buffer start b stop ↔
      (next start).Reads buffer start b stop := by
  simp [reads_bind_iff]

@[simp] theorem reads_bufferSize_bind_iff :
    (Decoder.bufferSize >>= next).Reads buffer start b stop ↔
      (next buffer.size).Reads buffer start b stop := by
  simp [reads_bind_iff]

@[simp] theorem reads_goTo_bind_iff {target : Nat} :
    (Decoder.goTo target >>= after).Reads buffer start b stop ↔
      (after ()).Reads buffer target b stop := by
  rw [reads_bind_iff]
  constructor
  · rintro ⟨_, _, hmoved, h⟩
    rwa [← reads_goTo_iff.mp hmoved] at h
  · exact fun h => ⟨(), target, .goTo target, h⟩

@[simp] theorem reads_note_bind_iff {n : Note} :
    (Decoder.note n >>= after).Reads buffer start b stop ↔
      (after ()).Reads buffer start b stop := by
  rw [reads_bind_iff]
  constructor
  · rintro ⟨_, _, hnoted, h⟩
    rwa [← reads_note_iff.mp hnoted] at h
  · exact fun h => ⟨(), start, .note n, h⟩

@[simp] theorem reads_require_bind_iff {condition : Bool} {fault : Fault} :
    (Decoder.require condition fault >>= after).Reads buffer start b stop ↔
      condition = true ∧ (after ()).Reads buffer start b stop :=
  reads_bind_iff_of fun _ _ => by simp

@[simp] theorem reads_take_bind_iff {count : Nat} {next : List UInt8 → Decoder β} :
    (Decoder.take count >>= next).Reads buffer start b stop ↔
      (count = 0 ∨ start + count ≤ buffer.size) ∧
        (next (buffer.extract start (start + count)).toList).Reads buffer (start + count) b stop :=
  reads_bind_iff_of fun _ _ => reads_take_iff

end Behind

section Repeated

/-! ## Repeated decoders -/

variable {α β : Type} {buffer : Bytes} {start stop : Nat}

/-- A decoder that has read every item of a list gave a value for each of them. -/
theorem forall₂_of_reads_each {decode : α → Decoder β} {items : List α} {values : List β}
    (h : (Decoder.each decode items).Reads buffer start values stop) :
    List.Forall₂ (fun item value => ∃ from' to', (decode item).Reads buffer from' value to')
      items values := by
  induction items generalizing start values with
  | nil =>
      rw [each_nil, reads_pure_iff] at h
      rw [← h.1]
      exact .nil
  | cons item rest ih =>
      simp only [each_cons, reads_bind_iff, reads_pure_iff] at h
      obtain ⟨value, mid, hitem, others, last, hrest, rfl, rfl⟩ := h
      exact .cons ⟨start, mid, hitem⟩ (ih hrest)

/-- A decoder that is repeated gives as many values as it is repeated, one behind the other. -/
theorem length_of_reads_times {d : Decoder α} {count : Nat} {values : List α}
    (h : (Decoder.times d count).Reads buffer start values stop) : values.length = count := by
  induction count generalizing start values with
  | zero =>
      rw [times_zero, reads_pure_iff] at h
      rw [← h.1]
      rfl
  | succ count ih =>
      simp only [times_succ, reads_bind_iff, reads_pure_iff] at h
      obtain ⟨value, mid, -, others, last, hrest, rfl, rfl⟩ := h
      rw [List.length_cons, ih hrest]

/-- A decoder that always takes the same number of bytes takes as many each time it is repeated. -/
theorem stop_of_reads_times {d : Decoder α} {width count : Nat} {values : List α}
    (hd : ∀ {start a stop}, d.Reads buffer start a stop → stop = start + width)
    (h : (Decoder.times d count).Reads buffer start values stop) :
    stop = start + width * count := by
  induction count generalizing start values with
  | zero =>
      rw [times_zero, reads_pure_iff] at h
      exact h.2.symm
  | succ count ih =>
      simp only [times_succ, reads_bind_iff, reads_pure_iff] at h
      obtain ⟨value, mid, hfirst, others, last, hrest, -, rfl⟩ := h
      rw [ih hrest, hd hfirst, Nat.mul_succ]
      omega

/-- Numbers that are read in a row stand one behind the other. -/
theorem getElem?_of_reads_u32s {count : Nat} {words : List Nat}
    (h : (Decoder.times Decoder.u32 count).Reads buffer start words stop) {i : Nat}
    (hi : i < count) : words[i]? = some (numberAt 4 buffer (start + 4 * i)) := by
  induction count generalizing start stop words i with
  | zero => exact absurd hi (Nat.not_lt_zero i)
  | succ count ih =>
      rw [times_succ, reads_u32_bind_iff] at h
      obtain ⟨rest, mid, hrest, h⟩ := reads_bind_iff.mp h.2
      rw [← (reads_pure_iff.mp h).1]
      cases i with
      | zero => rfl
      | succ i =>
          rw [List.getElem?_cons_succ, ih hrest (Nat.lt_of_succ_lt_succ hi)]
          congr 2
          omega

/-- Each of some numbers that are read in a row stands somewhere in it. -/
theorem exists_of_mem_u32s {count word : Nat} {words : List Nat}
    (h : (Decoder.times Decoder.u32 count).Reads buffer start words stop) (hword : word ∈ words) :
    ∃ i < count, numberAt 4 buffer (start + 4 * i) = word := by
  obtain ⟨i, hi⟩ := List.mem_iff_getElem?.mp hword
  have hlt : i < count := by
    have hlength := (List.getElem?_eq_some_iff.mp hi).1
    rwa [length_of_reads_times h] at hlength
  rw [getElem?_of_reads_u32s h hlt, Option.some.injEq] at hi
  exact ⟨i, hlt, hi⟩

end Repeated

end Decoder

end ApkFormats
