import ApkFormats.Proofs.Dex.Extent
import ApkFormats.Proofs.Dex.Strings
import ApkFormats.Proofs.Text.Surrogates

/-!
# What any bytes are as a string of a DEX file

Nothing is asked of the bytes here: groups may be longer than they have to be,
surrogates may stand alone, and the data may end anywhere.

* `reads_readUnit_iff`: a unit is read exactly where a group spells it;
* `Malformed`: there is no group at a place (`malformed_iff`), because of its lead,
  because of a byte that does not continue it, or because the data ends;
* `Spelled`: groups laid end to end spell units, which is what repeated reading
  finds (`reads_units_iff`);
* `StringData.exact_of_read`: a string is read exactly where as many groups as it
  declares spell paired units, and without the zeros these are its own units;
  otherwise there is no such number, one of the groups is malformed or the units
  are not paired.
-/

namespace ApkFormats.Dex

open Text.Utf16 (Paired decode_eq_ok_iff encode_filter_zero encode_injective paired_encode
  paired_iff)

variable {buffer : Bytes} {start stop place offset count u v : Nat}
variable {group group' : List UInt8} {units : List Nat}

section Units

/-! ## Units -/

theorem reads_readContinuation_iff :
    (readContinuation offset).Reads buffer start u stop ↔
      ∃ b, buffer[start]? = some b ∧ IsContinuation b ∧ b.toNat - 0x80 = u ∧ start + 1 = stop := by
  simp only [readContinuation, Decoder.reads_position_bind_iff, Decoder.reads_u8_bind_iff_byte,
    Decoder.reads_ite_iff, Decoder.reads_pure_iff, Decoder.not_reads_fail, and_false, or_false]
  refine exists_congr fun b => and_congr_right fun _ => ?_
  unfold IsContinuation
  omega

/-- A unit is read exactly where a group spells it. -/
theorem reads_readUnit_iff :
    (readUnit offset).Reads buffer start u stop ↔
      ∃ group, Spells group u ∧ Holds buffer start group ∧ start + group.length = stop := by
  constructor
  · intro h
    rw [readUnit, Decoder.reads_position_bind_iff, Decoder.reads_u8_bind_iff_byte] at h
    obtain ⟨a, ha, h⟩ := h
    simp only [Decoder.reads_ite_iff, Decoder.reads_bind_iff, reads_readContinuation_iff,
      Decoder.reads_pure_iff, Decoder.not_reads_fail, and_false, or_false] at h
    rcases h with ⟨hone, rfl, rfl⟩ | ⟨hone, h⟩
    · exact ⟨[a], .one a hone, Holds.singleton ha, rfl⟩
    rcases h with ⟨htwo, _, _, ⟨b, hb, hcont, rfl, rfl⟩, rfl, rfl⟩ | ⟨htwo, hthree, h⟩
    · have hspells := Spells.two a b (by omega) hcont
      rw [show a.toNat - 0xC0 = a.toNat % 0x20 by omega] at hspells
      exact ⟨_, hspells, (Holds.singleton hb).cons ha, rfl⟩
    · obtain ⟨_, _, ⟨b, hb, hcontb, rfl, rfl⟩, _, _, ⟨c, hc, hcontc, rfl, rfl⟩, rfl, rfl⟩ := h
      have hspells := Spells.three a b c (by omega) hcontb hcontc
      rw [show a.toNat - 0xE0 = a.toNat % 0x10 by omega] at hspells
      exact ⟨_, hspells, ((Holds.singleton hc).cons hb).cons ha, rfl⟩
  · rintro ⟨group, hspells, hholds, rfl⟩
    exact readUnit_decodes offset hspells start hholds

/-- At one place there is one group. -/
theorem Spells.unique (hgroup : Spells group u) (hholds : Holds buffer start group)
    (hgroup' : Spells group' v) (hholds' : Holds buffer start group') :
    u = v ∧ group.length = group'.length := by
  obtain ⟨hunit, hend⟩ :=
    (readUnit_decodes 0 hgroup start hholds).unique (readUnit_decodes 0 hgroup' start hholds')
  exact ⟨hunit, Nat.add_left_cancel hend⟩

/-- How many bytes a group takes that starts with a byte, if one can start with it. -/
def groupSize? (lead : UInt8) : Option Nat :=
  if lead.toNat < 0x80 then some 1
  else if lead.toNat < 0xC0 then none
  else if lead.toNat < 0xE0 then some 2
  else if lead.toNat < 0xF0 then some 3
  else none

/-- Why there is no group at a place. -/
inductive Malformed (buffer : Bytes) (place : Nat) : Prop
  /-- No group starts with the byte there. -/
  | lead (a : UInt8) (ha : buffer[place]? = some a) (hlead : groupSize? a = none)
  /-- A byte does not continue the group that starts there. -/
  | continuation (a : UInt8) (size i : Nat) (b : UInt8) (ha : buffer[place]? = some a)
      (hsize : groupSize? a = some size) (hi : 0 < i) (hlt : i < size)
      (hb : buffer[place + i]? = some b) (hnot : ¬IsContinuation b)
  /-- The data ends before the group that starts there does. -/
  | cut (a : UInt8) (size : Nat) (ha : buffer[place]? = some a)
      (hsize : groupSize? a = some size) (hends : buffer.size < place + size)
  /-- The data has ended. -/
  | ended (h : buffer.size ≤ place)

/-- A group has the size that its lead gives, and its other bytes continue it. -/
theorem Spells.shape (h : Spells group u) :
    ∃ a, group[0]? = some a ∧ groupSize? a = some group.length ∧
      ∀ i b, 0 < i → group[i]? = some b → IsContinuation b := by
  cases h with
  | one a ha =>
      refine ⟨a, rfl, by simp [groupSize?, ha], fun i b hi hb => ?_⟩
      rw [List.getElem?_singleton, if_neg (by omega)] at hb
      cases hb
  | two a b ha hb =>
      refine ⟨a, rfl, ?_, fun i c hi hc => ?_⟩
      · rw [groupSize?, if_neg (by omega), if_neg (by omega), if_pos ha.2]
        rfl
      · obtain _ | _ | i := i
        · omega
        · exact Option.some.inj hc ▸ hb
        · cases hc
  | three a b c ha hb hc =>
      refine ⟨a, rfl, ?_, fun i d hi hd => ?_⟩
      · rw [groupSize?, if_neg (by omega), if_neg (by omega), if_neg (by omega), if_pos ha.2]
        rfl
      · obtain _ | _ | _ | i := i
        · omega
        · exact Option.some.inj hd ▸ hb
        · exact Option.some.inj hd ▸ hc
        · cases hd

/-- A lead and bytes that continue it are a group. -/
theorem exists_group {a : UInt8} {size : Nat} (ha : buffer[place]? = some a)
    (hsize : groupSize? a = some size)
    (hcont : ∀ i, 0 < i → i < size → ∃ b, buffer[place + i]? = some b ∧ IsContinuation b) :
    ∃ group u, Spells group u ∧ Holds buffer place group := by
  unfold groupSize? at hsize
  split at hsize
  · rename_i hone
    exact ⟨_, _, .one a hone, Holds.singleton ha⟩
  split at hsize
  · cases hsize
  rename_i hlow
  split at hsize
  · rename_i hhigh
    obtain rfl := Option.some.inj hsize
    obtain ⟨b, hb, hcontb⟩ := hcont 1 (by decide) (by decide)
    exact ⟨_, _, .two a b (by omega) hcontb, (Holds.singleton hb).cons ha⟩
  split at hsize
  · rename_i hhigh
    obtain rfl := Option.some.inj hsize
    obtain ⟨b, hb, hcontb⟩ := hcont 1 (by decide) (by decide)
    obtain ⟨c, hc, hcontc⟩ := hcont 2 (by decide) (by decide)
    exact ⟨_, _, .three a b c (by omega) hcontb hcontc, ((Holds.singleton hc).cons hb).cons ha⟩
  · cases hsize

/-- There is no group exactly where one is malformed. -/
theorem malformed_iff :
    Malformed buffer place ↔ ∀ group u, Spells group u → ¬Holds buffer place group := by
  constructor
  · intro h group u hspells hholds
    obtain ⟨a, ha, hsize, hcont⟩ := hspells.shape
    have hend := hholds.le_size
    have hfirst : buffer[place]? = some a := by
      have hget := hholds.getElem? hspells.length_pos
      rwa [Nat.add_zero, ha] at hget
    cases h with
    | lead a' ha' hlead =>
        obtain rfl := Option.some.inj (hfirst.symm.trans ha')
        rw [hsize] at hlead
        cases hlead
    | continuation a' size i b ha' hsize' hi hlt hb hnot =>
        obtain rfl := Option.some.inj (hfirst.symm.trans ha')
        obtain rfl := Option.some.inj (hsize.symm.trans hsize')
        rw [hholds.getElem? hlt] at hb
        exact hnot (hcont i b hi hb)
    | cut a' size ha' hsize' hends =>
        obtain rfl := Option.some.inj (hfirst.symm.trans ha')
        obtain rfl := Option.some.inj (hsize.symm.trans hsize')
        omega
    | ended h =>
        have hpos := hspells.length_pos
        omega
  · intro h
    by_contra hno
    have hinside : place < buffer.size := by
      by_contra hend
      exact hno (.ended (Nat.le_of_not_lt hend))
    have ha := Array.getElem?_eq_getElem hinside
    cases hsize : groupSize? buffer[place] with
    | none => exact hno (.lead _ ha hsize)
    | some size =>
        have hroom : place + size ≤ buffer.size := by
          by_contra hend
          exact hno (.cut _ size ha hsize (Nat.lt_of_not_le hend))
        obtain ⟨group, u, hspells, hholds⟩ := exists_group ha hsize fun i hi hlt => by
          have hbyte : place + i < buffer.size := by omega
          have hb := Array.getElem?_eq_getElem hbyte
          refine ⟨_, hb, ?_⟩
          by_contra hnot
          exact hno (.continuation _ size i _ ha hsize hi hlt hb hnot)
        exact h group u hspells hholds

end Units

section Rows

/-! ## Units in a row -/

/-- Groups laid end to end spell some units. -/
inductive Spelled (buffer : Bytes) : (start : Nat) → (units : List Nat) → (stop : Nat) → Prop
  | nil (start : Nat) : Spelled buffer start [] start
  | cons {start u stop : Nat} {group : List UInt8} {units : List Nat} (hgroup : Spells group u)
      (hholds : Holds buffer start group)
      (hrest : Spelled buffer (start + group.length) units stop) :
      Spelled buffer start (u :: units) stop

namespace Spelled

/-- Every unit is a number of two bytes. -/
theorem lt (h : Spelled buffer start units stop) : ∀ u ∈ units, u < 0x10000 := by
  induction h with
  | nil start => simp
  | cons hgroup hholds hrest ih =>
      rw [List.forall_mem_cons]
      exact ⟨hgroup.lt, ih⟩

/-- Every unit takes a byte at least. -/
theorem length_le (h : Spelled buffer start units stop) : start + units.length ≤ stop := by
  induction h with
  | nil start => exact Nat.le_refl _
  | cons hgroup hholds hrest ih =>
      have hpos := hgroup.length_pos
      rw [List.length_cons]
      omega

/-- Groups end inside the buffer that holds them. -/
theorem le_size (h : Spelled buffer start units stop) (hstart : start ≤ buffer.size) :
    stop ≤ buffer.size := by
  induction h with
  | nil start => exact hstart
  | cons hgroup hholds hrest ih => exact ih hholds.le_size

end Spelled

/-- Repeated reading finds the units that groups laid end to end spell. -/
theorem reads_units_iff :
    (Decoder.times (readUnit offset) count).Reads buffer start units stop ↔
      units.length = count ∧ Spelled buffer start units stop := by
  induction count generalizing start units stop with
  | zero =>
      rw [Decoder.times_zero, Decoder.reads_pure_iff, List.length_eq_zero_iff]
      constructor
      · rintro ⟨rfl, rfl⟩
        exact ⟨rfl, .nil start⟩
      · rintro ⟨rfl, h⟩
        cases h
        exact ⟨rfl, rfl⟩
  | succ count ih =>
      simp only [Decoder.times_succ, Decoder.reads_bind_iff, reads_readUnit_iff, ih,
        Decoder.reads_pure_iff]
      constructor
      · rintro ⟨u, _, ⟨group, hgroup, hholds, rfl⟩, rest, _, ⟨rfl, hrest⟩, rfl, rfl⟩
        exact ⟨rfl, .cons hgroup hholds hrest⟩
      · rintro ⟨hcount, h⟩
        cases h with
        | nil => cases hcount
        | cons hgroup hholds hrest =>
            exact ⟨_, _, ⟨_, hgroup, hholds, rfl⟩, _, _, ⟨Nat.succ.inj hcount, hrest⟩, rfl, rfl⟩

/-- Either there are as many groups as asked for, or one of them is malformed. -/
theorem spelled_or_malformed (buffer : Bytes) (start count : Nat) :
    (∃ units stop, units.length = count ∧ Spelled buffer start units stop) ∨
      ∃ units place, units.length < count ∧ Spelled buffer start units place ∧
        Malformed buffer place := by
  induction count generalizing start with
  | zero => exact .inl ⟨[], start, rfl, .nil start⟩
  | succ count ih =>
      by_cases h : ∀ group u, Spells group u → ¬Holds buffer start group
      · exact .inr ⟨[], start, Nat.succ_pos count, .nil start, malformed_iff.mpr h⟩
      · push Not at h
        obtain ⟨group, u, hgroup, hholds⟩ := h
        rcases ih (start + group.length) with ⟨units, stop, rfl, hrest⟩ |
          ⟨units, place, hlt, hrest, hplace⟩
        · exact .inl ⟨u :: units, stop, rfl, .cons hgroup hholds hrest⟩
        · exact .inr ⟨u :: units, place, Nat.succ_lt_succ hlt, .cons hgroup hholds hrest, hplace⟩

/-- Fewer units are the first ones of more, behind which another group stands. -/
theorem Spelled.not_malformed {shorter : List Nat} (hshorter : Spelled buffer start shorter place)
    (h : Spelled buffer start units stop) (hlt : shorter.length < units.length) :
    ¬Malformed buffer place := by
  induction hshorter generalizing units with
  | nil start =>
      cases h with
      | nil => simp at hlt
      | cons hgroup hholds hrest => exact fun hplace => malformed_iff.mp hplace _ _ hgroup hholds
  | cons hgroup hholds hrest ih =>
      cases h with
      | nil => simp at hlt
      | cons hgroup' hholds' hrest' =>
          rw [← (hgroup.unique hholds hgroup' hholds').2] at hrest'
          exact ih hrest' (Nat.lt_of_succ_lt_succ hlt)

/-- Groups spell only one row of a number of units. -/
theorem Spelled.unique {units' : List Nat} {stop' : Nat} (h : Spelled buffer start units stop)
    (h' : Spelled buffer start units' stop') (hlength : units.length = units'.length) :
    units = units' := by
  have hread : (Decoder.times (readUnit start) units.length).Reads buffer start units stop :=
    reads_units_iff.mpr ⟨rfl, h⟩
  have hread' : (Decoder.times (readUnit start) units.length).Reads buffer start units' stop' :=
    reads_units_iff.mpr ⟨hlength.symm, h'⟩
  exact (hread.unique hread').1

end Rows

section Texts

/-! ## Texts -/

/-- Units make a text exactly when they are paired, and it has those that are not zero. -/
theorem textOfUnits_eq_ok_iff {s : String} (hsmall : ∀ u ∈ units, u < 0x10000) :
    textOfUnits offset units = .ok s ↔
      Paired units ∧ Text.Utf16.encode s.toList = units.filter (· ≠ 0) := by
  rw [paired_iff hsmall, textOfUnits]
  constructor
  · intro h
    cases hdecode : Text.Utf16.decode units with
    | error unpaired =>
        rw [hdecode] at h
        dsimp only at h
        split at h <;> cases h
    | ok cs =>
        rw [hdecode] at h
        obtain rfl := Except.ok.inj h
        have hencode := (decode_eq_ok_iff hsmall).mp hdecode
        exact ⟨⟨cs, hencode⟩, by rw [String.toList_ofList, encode_filter_zero, hencode]⟩
  · rintro ⟨⟨cs, rfl⟩, hs⟩
    rw [← encode_filter_zero] at hs
    rw [Text.Utf16.decode_encode]
    dsimp only
    rw [← encode_injective hs, String.ofList_toList]

namespace StringData

/-- Why there is no string of a number of units at an offset. -/
inductive Refused (buffer : Bytes) (offset : Nat) (count : Int) : Prop
  /-- Behind too few groups there is no other one. -/
  | malformed (units : List Nat) (place : Nat) (hlt : units.length < count)
      (hunits : Spelled buffer offset units place) (hplace : Malformed buffer place)
  /-- A surrogate is not beside its partner. -/
  | unpaired (units : List Nat) (stop : Nat) (hcount : units.length = count)
      (hunits : Spelled buffer offset units stop) (hnot : ¬Paired units)

theorem reads_readText_iff {length : Leb128.Stored} {data : StringData} :
    (readText length offset).Reads buffer start data stop ↔
      data.length = length ∧ data.offset = offset ∧
      ∃ units, units.length = length.value.toNat ∧ Spelled buffer start units stop ∧
        Paired units ∧ Text.Utf16.encode data.text.toList = units.filter (· ≠ 0) := by
  rw [readText, Decoder.reads_bind_iff]
  constructor
  · rintro ⟨units, mid, hunits, h⟩
    obtain ⟨hcount, hspelled⟩ := reads_units_iff.mp hunits
    cases htext : textOfUnits offset units with
    | error fault =>
        rw [htext] at h
        exact absurd h Decoder.not_reads_fail
    | ok text =>
        rw [htext] at h
        obtain ⟨rfl, rfl⟩ := Decoder.reads_pure_iff.mp h
        exact ⟨rfl, rfl, units, hcount, hspelled, (textOfUnits_eq_ok_iff hspelled.lt).mp htext⟩
  · rintro ⟨rfl, rfl, units, hcount, hspelled, htext⟩
    refine ⟨units, stop, reads_units_iff.mpr ⟨hcount, hspelled⟩, ?_⟩
    rw [(textOfUnits_eq_ok_iff hspelled.lt).mpr htext]
    exact .pure data

/-- A string is read exactly where as many groups as it declares spell paired units, and then it
has those that are not zero. -/
theorem reads_read_iff {data : StringData} :
    read.Reads buffer start data stop ↔
      (Leb128.stored .unsigned).Reads buffer start data.length data.offset ∧
      ∃ units : List Nat, units.length = data.length.value ∧
        Spelled buffer data.offset units stop ∧ Paired units ∧
        Text.Utf16.encode data.text.toList = units.filter (· ≠ 0) := by
  rw [read, Decoder.reads_bind_iff]
  simp only [Decoder.reads_position_bind_iff, Decoder.reads_bufferSize_bind_iff,
    Decoder.reads_require_bind_iff, reads_readText_iff, decide_eq_true_eq]
  constructor
  · rintro ⟨length, offset, hlength, -, rfl, rfl, units, hcount, hspelled, htext⟩
    have hnonneg := Leb128.nonneg_of_stored_unsigned hlength
    exact ⟨hlength, units, by omega, hspelled, htext⟩
  · rintro ⟨hlength, units, hcount, hspelled, htext⟩
    have hoffset : data.offset ≤ buffer.size := by
      have hsolid := Leb128.stored_solid .unsigned
      have hle := hsolid.le hlength
      have hinside := hsolid.inside hlength
      omega
    have hroom := hspelled.le_size hoffset
    have hleast := hspelled.length_le
    exact ⟨_, _, hlength, by omega, rfl, rfl, units, by omega, hspelled, htext⟩

/-- Behind its number of units a string fails to be read exactly when it is refused. -/
theorem not_succeeds_of_length_iff {length : Leb128.Stored}
    (hlength : (Leb128.stored .unsigned).Reads buffer start length offset) :
    ¬Succeeds (read buffer start).result ↔ Refused buffer offset length.value := by
  constructor
  · intro hfails
    have hnonneg := Leb128.nonneg_of_stored_unsigned hlength
    rcases spelled_or_malformed buffer offset length.value.toNat with
      ⟨units, stop, hcount, hspelled⟩ | ⟨units, place, hlt, hspelled, hplace⟩
    · have hcount' : units.length = length.value := by omega
      refine .unpaired units stop hcount' hspelled fun hpaired => hfails ?_
      obtain ⟨cs, hcs⟩ := (paired_iff hspelled.lt).mp hpaired
      have hread : read.Reads buffer start
          ⟨length, offset, String.ofList (cs.filter (· ≠ '\x00'))⟩ stop := by
        refine reads_read_iff.mpr ⟨hlength, units, hcount', hspelled, hpaired, ?_⟩
        rw [String.toList_ofList, encode_filter_zero, hcs]
      exact ⟨_, hread.result⟩
    · exact .malformed units place (by omega) hspelled hplace
  · rintro hrefused ⟨data, hdata⟩
    obtain ⟨hlength', units, hcount, hspelled, hpaired, -⟩ :=
      reads_read_iff.mp (Decoder.Yields.reads hdata)
    obtain ⟨hsame, hoffset⟩ := hlength.unique hlength'
    rw [← hsame] at hcount
    rw [← hoffset] at hspelled
    cases hrefused with
    | malformed units' place hlt hunits hplace =>
        exact hunits.not_malformed hspelled (by omega) hplace
    | unpaired units' stop' hcount' hunits hnot =>
        rw [hunits.unique hspelled (by omega)] at hnot
        exact hnot hpaired

/-- A string fails to be read exactly when there is no number of its units or it is refused behind
that number. -/
theorem not_succeeds_read_iff :
    ¬Succeeds (read buffer start).result ↔ ∀ length offset,
      (Leb128.stored .unsigned).Reads buffer start length offset →
        Refused buffer offset length.value := by
  constructor
  · exact fun hfails _ _ hlength => (not_succeeds_of_length_iff hlength).mp hfails
  · rintro hrefused ⟨data, hdata⟩
    have hlength := (reads_read_iff.mp (Decoder.Yields.reads hdata)).1
    exact (not_succeeds_of_length_iff hlength).mpr (hrefused _ _ hlength) ⟨data, hdata⟩

/-- At any place of any buffer a string is read exactly where as many groups as it declares are laid
end to end behind that number, up to the final cursor, and spell paired units; the units of its text
are those that are not zero, with no surrogate alone.  Otherwise it fails, because there is no
number of units, because in place of one of their groups there is none, or because the surrogates
among them are not paired. -/
theorem exact_of_read (buffer : Bytes) (start : Nat) :
    (∀ data stop, read.Reads buffer start data stop ↔
      (Leb128.stored .unsigned).Reads buffer start data.length data.offset ∧
      ∃ units : List Nat, units.length = data.length.value ∧
        Spelled buffer data.offset units stop ∧ Paired units ∧
        Text.Utf16.encode data.text.toList = units.filter (· ≠ 0)) ∧
    (∀ data stop, read.Reads buffer start data stop →
      Paired (Text.Utf16.encode data.text.toList)) ∧
    (¬Succeeds (read buffer start).result ↔ ∀ length offset,
      (Leb128.stored .unsigned).Reads buffer start length offset →
        Refused buffer offset length.value) :=
  ⟨fun _ _ => reads_read_iff, fun data _ _ => paired_encode data.text.toList,
    not_succeeds_read_iff⟩

-- A zero parts surrogates, although it would be dropped.
example : (read #[3, 0xED, 0xA0, 0x80, 0xC0, 0x80, 0xED, 0xB0, 0x80] 0).result.toOption = none := by
  decide

end StringData

end Texts

end ApkFormats.Dex
