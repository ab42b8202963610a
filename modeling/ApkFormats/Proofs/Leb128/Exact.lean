import ApkFormats.Proofs.BitFields
import ApkFormats.Proofs.Leb128
import ApkFormats.Proofs.Window
import Mathlib.Algebra.BigOperators.Ring.Finset
import Mathlib.Algebra.Order.Ring.Abs
import Mathlib.Data.Int.ModEq
import Mathlib.Tactic.Ring

/-!
# What any bytes are as a LEB128 number

Nothing is asked of the bytes here: they need not be the shortest ones of a
number, and they may go on for too long or end too soon.

* `payload_eq_orGroups`: the number that groups spell is put together by masks
  and shifts;
* `EndsBehind`: where a number ends is decided by the first byte without its
  high bit, if there is one among the first five;
* `Kind.Denotes`: what the groups up to there stand for, said without the way in
  which the number is put together;
* `decodeAt_exact`: every kind of number is decoded exactly where one ends, and
  is then the number denoted; otherwise all kinds fail alike, and the fault says
  whether five bytes went on or the data ended before.
-/

namespace ApkFormats.Leb128

section Groups

/-! ## Numbers of some groups -/

variable {bytes : List UInt8}

/-- Groups spell a number that they have room for. -/
theorem payload_lt (bytes : List UInt8) : payload bytes < 128 ^ bytes.length := by
  induction bytes with
  | nil => exact Nat.one_pos
  | cons b rest ih =>
      have hb := Nat.mod_lt b.toNat (by decide : 0 < 128)
      rw [payload, List.length_cons, Nat.pow_succ]
      omega

/-- The last group has its top bit set when the number is in the upper half of those that the
groups have room for. -/
theorem isNegative_eq {k : Nat} (h : bytes.length = k + 1) :
    isNegative bytes = decide (64 * 128 ^ k ≤ payload bytes) := by
  induction bytes generalizing k with
  | nil => cases h
  | cons b rest ih =>
      have hb := Nat.mod_lt b.toNat (by decide : 0 < 128)
      cases k with
      | zero =>
          obtain rfl := List.length_eq_zero_iff.mp (Nat.succ.inj h)
          simp [isNegative, payload]
      | succ k =>
          have hlength : rest.length = k + 1 := Nat.succ.inj h
          have hrest : rest ≠ [] := List.ne_nil_of_length_eq_add_one hlength
          rw [isNegative_cons b hrest, ih hlength, payload, decide_eq_decide, Nat.pow_succ]
          omega

/-- A signed number lies in the range of two's complement and is the unsigned one up to a multiple
of what the groups have room for. -/
theorem value_signed {k : Nat} (h : bytes.length = k + 1) :
    -(64 * 128 ^ k) ≤ Kind.value .signed bytes ∧ Kind.value .signed bytes < 64 * 128 ^ k ∧
      (Kind.value .signed bytes = payload bytes ∨
        Kind.value .signed bytes = payload bytes - 128 ^ (k + 1)) := by
  have hlt := payload_lt bytes
  have hsign := isNegative_eq h
  rw [h, Nat.pow_succ] at hlt
  rw [Kind.value, one_shiftLeft_groups, h, hsign, pow_succ]
  have hcast : ((128 ^ k : Nat) : Int) = 128 ^ k := by norm_cast
  rw [← hcast]
  by_cases hhigh : 64 * 128 ^ k ≤ payload bytes
  · rw [if_pos (decide_eq_true hhigh)]
    omega
  · rw [if_neg (by simpa using hhigh)]
    omega

end Groups

section Masks

/-! ## Groups by masks -/

theorem and_low_eq_mod (b : UInt8) : b.toNat &&& 0x7F = b.toNat % 128 :=
  Nat.and_two_pow_sub_one_eq_mod b.toNat 7

/-- Another byte follows when a mask leaves the high bit. -/
theorem continues_iff_and (b : UInt8) : continues b = true ↔ b.toNat &&& 0x80 ≠ 0 := by
  rw [continues, decide_eq_true_iff, UInt8.le_iff_toNat_le]
  exact (and_two_pow_ne_zero_iff b.toNat_lt).symm

/-- A number is negative when a mask leaves the top bit of the last group. -/
theorem isNegative_iff_and {bytes : List UInt8} {b : UInt8} (h : bytes.getLast? = some b) :
    isNegative bytes = true ↔ b.toNat &&& 0x40 ≠ 0 := by
  have hmask : b.toNat &&& 0x40 = b.toNat % 128 &&& 0x40 := by
    rw [← and_low_eq_mod, Nat.and_assoc]
    rfl
  have hlow : b.toNat % 128 < 2 ^ 7 := Nat.mod_lt _ (by decide)
  rw [isNegative, h, hmask]
  simp only [decide_eq_true_iff]
  exact (and_two_pow_ne_zero_iff hlow).symm

/-- A number with some more groups put into it from the place of group `i` on. -/
def orGroups (value i : Nat) : List UInt8 → Nat
  | [] => value
  | b :: rest => orGroups (value ||| (b.toNat &&& 0x7F) <<< (7 * i)) (i + 1) rest

theorem orGroups_eq (value i : Nat) (bytes : List UInt8) :
    orGroups value i bytes = value ||| payload bytes <<< (7 * i) := by
  induction bytes generalizing value i with
  | nil => simp [orGroups, payload]
  | cons b rest ih =>
      have hlow : b.toNat % 128 < 2 ^ 7 := Nat.mod_lt _ (by decide)
      have hpayload : payload (b :: rest) = b.toNat % 128 ||| payload rest <<< 7 := by
        rw [Nat.or_comm, shiftLeft_or_eq hlow, payload]
        omega
      rw [orGroups, ih, and_low_eq_mod, hpayload, Nat.shiftLeft_or_distrib, Nat.or_assoc,
        ← Nat.shiftLeft_add, Nat.mul_succ, Nat.add_comm 7]

/-- The number that groups spell is made by putting one after the other in its place. -/
theorem payload_eq_orGroups (bytes : List UInt8) : payload bytes = orGroups 0 0 bytes := by
  rw [orGroups_eq, Nat.zero_or, Nat.mul_zero, Nat.shiftLeft_zero]

end Masks

section Places

/-! ## Where a number ends -/

variable {buffer : Bytes} {start k : Nat}

/-- Each of the next `k` bytes is there and has its high bit set. -/
def GoesOn (buffer : Bytes) (start k : Nat) : Prop :=
  ∀ i < k, start + i < buffer.size ∧ 0x80 ≤ numberAt 1 buffer (start + i)

/-- The first byte without its high bit stands `k` bytes behind a place, and is one of five. -/
structure EndsBehind (buffer : Bytes) (start k : Nat) : Prop where
  room : k < maxLeb128Bytes
  goesOn : GoesOn buffer start k
  inside : start + k < buffer.size
  last : numberAt 1 buffer (start + k) < 0x80

/-- The high bit of a byte of a buffer. -/
theorem continues_eq (h : start < buffer.size) :
    continues buffer[start] = decide (0x80 ≤ numberAt 1 buffer start) := by
  rw [Decoder.numberAt_one h, continues, decide_eq_decide, UInt8.le_iff_toNat_le]
  rfl

theorem byte_reads (h : start < buffer.size) :
    Decoder.byte buffer start = ⟨.ok buffer[start], start + 1, []⟩ := by
  rw [Decoder.byte, dif_pos h]

/-- Bytes cut out of a buffer, the first one in front. -/
theorem extract_cons (h : start < buffer.size) (k : Nat) :
    (buffer.extract start (start + (k + 1))).toList =
      buffer[start] :: (buffer.extract (start + 1) (start + 1 + k)).toList := by
  have hlist : start < buffer.toList.length := by simpa using h
  rw [Array.toList_extract, Array.toList_extract, List.extract, List.extract,
    List.drop_eq_getElem_cons hlist, Nat.add_sub_cancel_left, Nat.add_sub_cancel_left,
    List.take_succ_cons, Array.getElem_toList]

theorem GoesOn.head (h : GoesOn buffer start (k + 1)) :
    start < buffer.size ∧ 0x80 ≤ numberAt 1 buffer start :=
  h 0 (Nat.succ_pos k)

theorem GoesOn.rest (h : GoesOn buffer start (k + 1)) : GoesOn buffer (start + 1) k := by
  intro i hi
  have hnext := h (i + 1) (by omega)
  rwa [Nat.add_comm i 1, ← Nat.add_assoc] at hnext

/-- The bytes of a number are those up to the first one without its high bit. -/
theorem terminated_of_goesOn (hgoes : GoesOn buffer start k) (hinside : start + k < buffer.size)
    (hlast : numberAt 1 buffer (start + k) < 0x80) :
    Terminated (buffer.extract start (start + (k + 1))).toList := by
  induction k generalizing start with
  | zero =>
      rw [Nat.add_zero] at hinside hlast
      rw [extract_cons hinside, Nat.add_zero, Array.extract_empty_of_stop_le_start (Nat.le_refl _)]
      refine .last _ ?_
      rw [continues_eq hinside, decide_eq_false (Nat.not_le_of_lt hlast)]
  | succ k ih =>
      obtain ⟨hfirst, hhigh⟩ := hgoes.head
      rw [extract_cons hfirst]
      rw [Nat.add_comm k 1, ← Nat.add_assoc] at hinside hlast
      refine .more _ _ ?_ (ih hgoes.rest hinside hlast)
      rw [continues_eq hfirst]
      exact decide_eq_true hhigh

/-- Where bytes go on for too long or the data ends, no number can be read. -/
theorem readGroups_fails (origin : Nat) {room : Nat} (hroom : k ≤ room)
    (hgoes : GoesOn buffer start k) (hstops : k < room → buffer.size ≤ start + k) :
    readGroups origin room buffer start =
      ⟨.error (if k = room then .longLeb128 origin else .stream (.short 1 0)), start + k, []⟩ := by
  induction k generalizing start room with
  | zero =>
      cases room with
      | zero => rfl
      | succ room =>
          have hend : ¬start < buffer.size := Nat.not_lt_of_le (hstops (Nat.succ_pos room))
          rw [readGroups, Decoder.bind_apply, Decoder.andThen, Decoder.byte, dif_neg hend]
          rfl
  | succ k ih =>
      obtain ⟨room, rfl⟩ := Nat.exists_eq_add_of_le' (Nat.le_trans (Nat.le_add_left 1 k) hroom)
      obtain ⟨hfirst, hhigh⟩ := hgoes.head
      have hroom : k ≤ room := Nat.le_of_succ_le_succ hroom
      have hrest := ih hroom hgoes.rest fun hlt => by
        have := hstops (by omega)
        omega
      have hcontinues : continues buffer[start] = true :=
        (continues_eq hfirst).trans (decide_eq_true hhigh)
      rw [readGroups, Decoder.bind_apply, Decoder.andThen, byte_reads hfirst]
      simp only [hcontinues, if_true, Decoder.bind_apply, Decoder.andThen, hrest, List.nil_append,
        Nat.add_right_cancel_iff, Nat.add_assoc, Nat.add_comm 1 k]

/-- From every place on, a number ends, or bytes go on for too long or up to the end of the data. -/
theorem endsBehind_or (buffer : Bytes) (start : Nat) :
    (∃ k, EndsBehind buffer start k) ∨
      ∃ k ≤ maxLeb128Bytes, GoesOn buffer start k ∧
        (k < maxLeb128Bytes → buffer.size ≤ start + k) := by
  by_cases hall : GoesOn buffer start maxLeb128Bytes
  · exact .inr ⟨_, Nat.le_refl _, hall, fun h => absurd h (Nat.lt_irrefl _)⟩
  · -- The first byte that is missing or has no high bit decides.
    have hsome : ∃ k, k < maxLeb128Bytes ∧
        ¬(start + k < buffer.size ∧ 0x80 ≤ numberAt 1 buffer (start + k)) := by
      simpa only [GoesOn, not_forall, exists_prop] using hall
    classical
    obtain ⟨hroom, hstops⟩ := Nat.find_spec hsome
    have hgoes : GoesOn buffer start (Nat.find hsome) := by
      intro i hi
      have hbefore := Nat.find_min hsome hi
      by_contra hcontra
      exact hbefore ⟨Nat.lt_trans hi hroom, hcontra⟩
    by_cases hinside : start + Nat.find hsome < buffer.size
    · refine .inl ⟨_, hroom, hgoes, hinside, ?_⟩
      exact Nat.lt_of_not_le fun hle => hstops ⟨hinside, hle⟩
    · exact .inr ⟨_, Nat.le_of_lt hroom, hgoes, fun _ => Nat.le_of_not_lt hinside⟩

end Places

section Exact

/-! ## The number of any bytes -/

variable {buffer : Bytes} {start k : Nat}

/-- The sum of the low seven bits of some bytes of a buffer, each seven places further up. -/
def groupSum (buffer : Bytes) (start length : Nat) : Nat :=
  ∑ i ∈ Finset.range length, numberAt 1 buffer (start + i) % 128 * 128 ^ i

theorem payload_extract (h : start + k ≤ buffer.size) :
    payload (buffer.extract start (start + k)).toList = groupSum buffer start k := by
  induction k generalizing start with
  | zero =>
      rw [Nat.add_zero, Array.extract_empty_of_stop_le_start (Nat.le_refl _)]
      rfl
  | succ k ih =>
      have hfirst : start < buffer.size := by omega
      have hroom : start + 1 + k ≤ buffer.size := by omega
      have hrest := ih hroom
      rw [extract_cons hfirst, payload, hrest, ← Decoder.numberAt_one hfirst, groupSum, groupSum,
        Finset.sum_range_succ', Finset.mul_sum, Nat.add_comm, pow_zero, Nat.mul_one, Nat.add_zero]
      congr 1
      refine Finset.sum_congr rfl fun i _ => ?_
      rw [Nat.add_assoc, Nat.add_comm 1 i]
      ring

/-- What `length` groups stand for when they spell `n`: for signed numbers the only integer in the
range of two's complement that agrees with `n`. -/
def Kind.Denotes (length n : Nat) (v : Int) : Kind → Prop
  | .unsigned => v = n
  | .unsignedMinusOne => v = n - 1
  | .signed => ∀ w : Int, w = v ↔
      (-2 ^ (7 * length - 1) ≤ w ∧ w < 2 ^ (7 * length - 1)) ∧ w ≡ n [ZMOD 2 ^ (7 * length)]

theorem value_denotes {bytes : List UInt8} (h : bytes ≠ []) (kind : Kind) :
    kind.Denotes bytes.length (payload bytes) (kind.value bytes) := by
  cases kind with
  | unsigned => rfl
  | unsignedMinusOne => rfl
  | signed =>
      obtain ⟨k, hlength⟩ := Nat.exists_eq_add_one.mpr (List.length_pos_iff.mpr h)
      obtain ⟨hlow, hhigh, hvalue⟩ := value_signed hlength
      have hhalf : (2 : Int) ^ (7 * (k + 1) - 1) = 64 * 128 ^ k := by
        rw [Nat.mul_add, Nat.add_sub_assoc (by decide), pow_add, pow_mul]
        ring
      have hwhole : (2 : Int) ^ (7 * (k + 1)) = 128 ^ (k + 1) := by
        rw [pow_mul]
        norm_num
      have hagrees : Kind.value .signed bytes ≡ payload bytes [ZMOD 128 ^ (k + 1)] := by
        rcases hvalue with hvalue | hvalue
        · rw [hvalue]
        · rw [hvalue]
          exact Int.sub_modulus_modEq_iff.mpr rfl
      intro w
      rw [hlength, hhalf, hwhole]
      constructor
      · rintro rfl
        exact ⟨⟨hlow, hhigh⟩, hagrees⟩
      · rintro ⟨⟨hlow', hhigh'⟩, hagrees'⟩
        -- Two such integers differ by less than what they agree up to.
        have hdvd := (hagrees.trans hagrees'.symm).dvd
        refine Int.sub_eq_zero.mp (Int.eq_zero_of_abs_lt_dvd hdvd ?_)
        rw [abs_lt, pow_succ]
        omega

/-- A number that ends somewhere is read up to there, as what its groups denote. -/
theorem stored_reads (h : EndsBehind buffer start k) (kind : Kind) :
    ∃ s, (stored kind).Reads buffer start s (start + (k + 1)) ∧ s.length = k + 1 ∧
      kind.Denotes s.length (groupSum buffer start s.length) s.value := by
  have hinside : start + (k + 1) ≤ buffer.size := h.inside
  have hholds : Holds buffer start (buffer.extract start (start + (k + 1))).toList :=
    .of_extract hinside
  have hlength : (buffer.extract start (start + (k + 1))).toList.length = k + 1 := by
    rw [Array.length_toList, Array.size_extract]
    omega
  have hbytes := terminated_of_goesOn h.goesOn h.inside h.last
  have hgroups := groups_decodes hbytes (hlength.trans_le h.room) start hholds
  have hdenotes := value_denotes hbytes.ne_nil kind
  rw [payload_extract hinside] at hdenotes
  rw [hlength] at hgroups hdenotes
  refine ⟨⟨_, kind.value _⟩, hgroups.bind (.pure _), hlength, ?_⟩
  rwa [Stored.length, hlength]

/-- Without an end, all kinds of numbers fail for one reason: five bytes go on, or the data ends. -/
theorem stored_fails (hends : ∀ k, ¬EndsBehind buffer start k) :
    ∃ (fault : Fault) (cursor : Nat),
      (∀ kind, stored kind buffer start = ⟨.error fault, cursor, []⟩) ∧
      cursor ≤ start + maxLeb128Bytes ∧
      (fault.category = .malformedHeader ∧ GoesOn buffer start maxLeb128Bytes ∨
        fault.category = .outOfBounds ∧ ¬GoesOn buffer start maxLeb128Bytes) := by
  rcases endsBehind_or buffer start with ⟨k, h⟩ | ⟨k, hroom, hgoes, hstops⟩
  · exact absurd h (hends k)
  · have hfails := readGroups_fails start hroom hgoes hstops
    have hstored (kind : Kind) : stored kind buffer start = ⟨.error (if k = maxLeb128Bytes then
        .longLeb128 start else .stream (.short 1 0)), start + k, []⟩ := by
      simp only [stored, groups, Decoder.bind_apply, Decoder.andThen, Decoder.position, hfails,
        List.append_nil]
    refine ⟨_, start + k, hstored, by omega, ?_⟩
    by_cases hfull : k = maxLeb128Bytes
    · subst hfull
      exact .inl ⟨by rw [if_pos rfl]; rfl, hgoes⟩
    · refine .inr ⟨by rw [if_neg hfull]; rfl, fun hall => ?_⟩
      have hend := hstops (by omega)
      have hinside := (hall k (by omega)).1
      omega

theorem exists_endsBehind_iff :
    (∃ k, EndsBehind buffer start k) ↔
      ∃ k < 5, start + k < buffer.size ∧ numberAt 1 buffer (start + k) < 0x80 := by
  constructor
  · rintro ⟨k, hroom, -, hinside, hlast⟩
    exact ⟨k, hroom, hinside, hlast⟩
  · rintro ⟨k, hroom, hinside, hlast⟩
    rcases endsBehind_or buffer start with h | ⟨k', hroom', hgoes, hstops⟩
    · exact h
    · -- The byte would be one of those that go on, or stand behind the end of the data.
      rcases Nat.lt_or_ge k k' with hlt | hge
      · exact absurd (hgoes k hlt).2 (Nat.not_le_of_lt hlast)
      · have hend := hstops (Nat.lt_of_le_of_lt hge hroom)
        omega

theorem goesOn_five_iff :
    GoesOn buffer start 5 ↔
      start + 5 ≤ buffer.size ∧ ∀ i < 5, 0x80 ≤ numberAt 1 buffer (start + i) := by
  constructor
  · exact fun h => ⟨(h 4 (by decide)).1, fun i hi => (h i hi).2⟩
  · exact fun ⟨hroom, h⟩ i hi => ⟨by omega, h i hi⟩

theorem decodeAt_of_result {kind : Kind} {result : Except Fault Stored}
    (h : (stored kind buffer start).result = result) :
    decodeAt kind buffer start =
      result.mapError fun fault => .decode (fault.within kind.name) := by
  change (Decoder.runAt kind.name (stored kind) buffer (.ofNat start)).map Prod.fst = _
  simp only [Decoder.runAt, Outcome.within, h]
  cases result <;> rfl

/-- Where a number ends, all kinds of numbers are decoded up to there. -/
theorem decodeAt_of_ends (h : EndsBehind buffer start k) (kind : Kind) :
    ∃ s, decodeAt kind buffer start = .ok s ∧ s.length = k + 1 ∧
      kind.Denotes s.length (groupSum buffer start s.length) s.value ∧
      (stored kind buffer start).cursor = start + (k + 1) := by
  obtain ⟨s, hread, hlength, hdenotes⟩ := stored_reads h kind
  exact ⟨s, decodeAt_of_result hread.result, hlength, hdenotes, hread.cursor⟩

/-- Every kind of number is decoded exactly where a byte without its high bit is among the next
five, and is then what the groups up to the first such byte denote.  Otherwise all kinds fail for
one reason: that five bytes go on, or else that the data ends.  No more than five bytes are used
up. -/
theorem decodeAt_exact (buffer : Bytes) (start : Nat) :
    (∀ kind, Succeeds (decodeAt kind buffer start) ↔
      ∃ k < 5, start + k < buffer.size ∧ numberAt 1 buffer (start + k) < 0x80) ∧
    (∀ kind s, decodeAt kind buffer start = .ok s →
      ∃ k, EndsBehind buffer start k ∧ s.length = k + 1 ∧ s.length ≤ 5 ∧
        kind.Denotes s.length (groupSum buffer start s.length) s.value) ∧
    (∀ kind, (∃ e, decodeAt kind buffer start = .error (.decode e) ∧
        e.category = .malformedHeader) ↔
      start + 5 ≤ buffer.size ∧ ∀ i < 5, 0x80 ≤ numberAt 1 buffer (start + i)) ∧
    ((∀ kind, Succeeds (decodeAt kind buffer start)) ∨
      ∃ fault : Fault,
        (∀ kind, decodeAt kind buffer start = .error (.decode (fault.within kind.name))) ∧
        (fault.category = .malformedHeader ∨ fault.category = .outOfBounds)) ∧
    ∀ kind, (stored kind buffer start).cursor ≤ start + 5 := by
  rw [← goesOn_five_iff, ← exists_endsBehind_iff]
  by_cases hends : ∃ k, EndsBehind buffer start k
  · obtain ⟨k, hend⟩ := hends
    choose number hdecode hlength hdenotes hcursor using decodeAt_of_ends hend
    have hroom : k + 1 ≤ 5 := hend.room
    have hnot : ¬GoesOn buffer start 5 := fun hall =>
      Nat.not_le_of_lt hend.last (hall k hend.room).2
    refine ⟨fun kind => iff_of_true ⟨_, hdecode kind⟩ ⟨k, hend⟩, fun kind s h => ?_,
      fun kind => iff_of_false ?_ hnot, .inl fun kind => ⟨_, hdecode kind⟩, fun kind => ?_⟩
    · cases h.symm.trans (hdecode kind)
      exact ⟨k, hend, hlength kind, (hlength kind).trans_le hroom, hdenotes kind⟩
    · rintro ⟨e, he, -⟩
      cases he.symm.trans (hdecode kind)
    · rw [hcursor kind]
      omega
  · obtain ⟨fault, cursor, hstored, hcursor, hcategory⟩ := stored_fails (not_exists.mp hends)
    have hdecode (kind : Kind) : decodeAt kind buffer start =
        .error (.decode (fault.within kind.name)) :=
      decodeAt_of_result (congrArg Outcome.result (hstored kind))
    have hmalformed : fault.category = .malformedHeader ↔ GoesOn buffer start 5 := by
      rcases hcategory with ⟨heq, hgoes⟩ | ⟨heq, hgoes⟩
      · exact iff_of_true heq hgoes
      · exact iff_of_false (heq ▸ by decide) hgoes
    refine ⟨fun kind => iff_of_false ?_ hends, fun kind s h => ?_, fun kind => ?_,
      .inr ⟨fault, hdecode, hcategory.imp And.left And.left⟩, fun kind => ?_⟩
    · rw [hdecode]
      exact not_succeeds_error _
    · cases h.symm.trans (hdecode kind)
    · rw [hdecode, ← hmalformed]
      constructor
      · rintro ⟨e, he, hcategory⟩
        cases he
        exact hcategory
      · exact fun hcategory => ⟨_, rfl, hcategory⟩
    · rw [hstored]
      exact hcursor

end Exact

end ApkFormats.Leb128
