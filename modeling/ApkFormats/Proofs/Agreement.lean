import ApkFormats.Proofs.Window

/-!
# Buffers that agree where they are read

Two buffers of one size may hold different bytes in some places.  A decoder that
does not look there reads the same of both; one that looks there and makes no
use of what it sees goes the same way in both.

* `SameBetween`: two buffers hold the same bytes from one offset to another;
* `Carries`: what is read of one buffer is read of the other, the same up to a
  function that leaves out what may differ.

The laws of `Carries` follow the ways in which decoders are put together.
-/

namespace ApkFormats

variable {b b' : Bytes} {start stop x y width : Nat}

/-- Two buffers hold the same bytes from one offset up to another one. -/
def SameBetween (b b' : Bytes) (start stop : Nat) : Prop :=
  b'.extract start stop = b.extract start stop

theorem sameBetween_iff : SameBetween b b' start stop ↔
    (b'.toList.drop start).take (stop - start) = (b.toList.drop start).take (stop - start) := by
  rw [SameBetween, ← Array.toList_inj, Array.toList_extract, Array.toList_extract, List.extract,
    List.extract]

instance (b b' : Bytes) (start stop : Nat) : Decidable (SameBetween b b' start stop) :=
  decidable_of_iff' _ sameBetween_iff

namespace SameBetween

theorem part (h : SameBetween b b' start stop) (hx : start ≤ x) (hy : y ≤ stop) (hxy : x ≤ y) :
    SameBetween b b' x y := by
  have hcut (buffer : Bytes) : buffer.extract x y =
      (buffer.extract start stop).extract (x - start) (y - start) := by
    rw [Array.extract_extract, Nat.add_sub_cancel' hx, Nat.add_sub_cancel' (Nat.le_trans hx hxy),
      Nat.min_eq_left hy]
  rw [SameBetween, hcut, hcut, h]

theorem symm (h : SameBetween b b' start stop) : SameBetween b' b start stop :=
  Eq.symm h

theorem numberAt_eq (h : SameBetween b b' start stop) (hx : start ≤ x) (hy : x + width ≤ stop) :
    numberAt width b' x = numberAt width b x := by
  rw [numberAt, numberAt, h.part hx hy (Nat.le_add_right x width)]

end SameBetween

namespace Decoder

variable {α β γ δ : Type}

/-- What one decoder reads of a buffer, another one reads of another buffer from the same cursor to
the same cursor, and up to a function it is the same. -/
def Carries (b b' : Bytes) (f : α → γ) (start : Nat) (d d' : Decoder α) : Prop :=
  ∀ ⦃a stop⦄, d.Reads b start a stop → ∃ a', f a' = f a ∧ d'.Reads b' start a' stop

namespace Carries

variable {f : α → γ} {g : β → δ} {d d' : Decoder α} {next next' : α → Decoder β}

theorem pure {a a' : α} (h : f a' = f a) :
    Carries b b' f start (Pure.pure a : Decoder α) (Pure.pure a') := by
  intro a'' stop hread
  obtain ⟨rfl, rfl⟩ := reads_pure_iff.mp hread
  exact ⟨a', h, .pure a'⟩

theorem fail {fault : Fault} : Carries b b' f start (Decoder.fail fault) d' :=
  fun _ _ h => absurd h not_reads_fail

/-- Decoders in turn carry over when each of them does. -/
theorem bind (hd : Carries b b' f start d d')
    (hnext : ∀ a a' mid, d.Reads b start a mid → f a' = f a →
      Carries b b' g mid (next a) (next' a')) :
    Carries b b' g start (d >>= next) (d' >>= next') := by
  intro c stop h
  obtain ⟨a, mid, hfirst, hrest⟩ := reads_bind_iff.mp h
  obtain ⟨a', ha, hfirst'⟩ := hd hfirst
  obtain ⟨c', hc, hrest'⟩ := hnext a a' mid hfirst ha hrest
  exact ⟨c', hc, hfirst'.bind hrest'⟩

/-- A decoder that reads the same, and what is read behind it. -/
theorem bind_same (hd : Carries b b' id start d d')
    (hnext : ∀ a mid, d.Reads b start a mid → Carries b b' g mid (next a) (next' a)) :
    Carries b b' g start (d >>= next) (d' >>= next') := by
  refine hd.bind fun a a' mid hread ha => ?_
  obtain rfl : a' = a := ha
  exact hnext a' mid hread

/-- What a decoder reads may be used to show that it carries over. -/
theorem of_reads (h : ∀ a stop, d.Reads b start a stop → Carries b b' f start d d') :
    Carries b b' f start d d' :=
  fun a stop hread => h a stop hread hread

/-- The same is read when the same value is. -/
theorem reads {a : α} (h : Carries b b' id start d d') (hread : d.Reads b start a stop) :
    d'.Reads b' start a stop := by
  obtain ⟨a', ha, hread'⟩ := h hread
  obtain rfl : a' = a := ha
  exact hread'

theorem ite {condition : Prop} [Decidable condition] {e e' : Decoder α}
    (hd : condition → Carries b b' f start d d') (he : ¬condition → Carries b b' f start e e') :
    Carries b b' f start (if condition then d else e) (if condition then d' else e') := by
  by_cases h : condition
  · rw [if_pos h, if_pos h]
    exact hd h
  · rw [if_neg h, if_neg h]
    exact he h

/-- A decoder that is repeated for some items carries over when it does for each of them. -/
theorem each {items : List α} {decode decode' : α → Decoder β}
    (h : ∀ item ∈ items, ∀ start, Carries b b' g start (decode item) (decode' item)) :
    Carries b b' (List.map g) start (Decoder.each decode items) (Decoder.each decode' items) := by
  induction items generalizing start with
  | nil => exact pure rfl
  | cons item rest ih =>
      rw [each_cons, each_cons]
      refine bind (h item List.mem_cons_self start) fun c c' mid _ hc => ?_
      refine bind (ih fun a ha => h a (List.mem_cons_of_mem _ ha)) fun cs cs' mid' _ hcs => ?_
      exact pure (by rw [List.map_cons, List.map_cons, hc, hcs])

theorem each_same {items : List α} {decode decode' : α → Decoder β}
    (h : ∀ item ∈ items, ∀ start, Carries b b' id start (decode item) (decode' item)) :
    Carries b b' id start (Decoder.each decode items) (Decoder.each decode' items) := by
  rw [← List.map_id_fun]
  exact each h

section Cursor

/-! ## The cursor, notes and checks -/

variable {after after' : Unit → Decoder β}

theorem goTo {target : Nat} (hnext : Carries b b' g target (after ()) (after' ())) :
    Carries b b' g start (Decoder.goTo target >>= after) (Decoder.goTo target >>= after') := by
  intro c stop
  simp only [reads_goTo_bind_iff]
  exact @hnext c stop

theorem position {next next' : Nat → Decoder β}
    (hnext : Carries b b' g start (next start) (next' start)) :
    Carries b b' g start (Decoder.position >>= next) (Decoder.position >>= next') := by
  intro c stop
  simp only [reads_position_bind_iff]
  exact @hnext c stop

theorem note {n n' : Note} (hnext : Carries b b' g start (after ()) (after' ())) :
    Carries b b' g start (Decoder.note n >>= after) (Decoder.note n' >>= after') := by
  intro c stop
  simp only [reads_note_bind_iff]
  exact @hnext c stop

theorem require {condition : Bool} {fault fault' : Fault}
    (hnext : condition = true → Carries b b' g start (after ()) (after' ())) :
    Carries b b' g start (Decoder.require condition fault >>= after)
      (Decoder.require condition fault' >>= after') := by
  intro c stop
  simp only [reads_require_bind_iff]
  rintro ⟨hcondition, h⟩
  obtain ⟨c', hc, h'⟩ := hnext hcondition h
  exact ⟨c', hc, hcondition, h'⟩

theorem resolved (r : Except IndexFault α) :
    Carries b b' id start (Decoder.resolved r) (Decoder.resolved r) := by
  cases r with
  | ok a => exact pure rfl
  | error index => exact fail

end Cursor

section Fields

/-! ## Fields -/

variable (hsize : b'.size = b.size)
include hsize

theorem bufferSize {next next' : Nat → Decoder β}
    (hnext : Carries b b' g start (next b.size) (next' b.size)) :
    Carries b b' g start (Decoder.bufferSize >>= next) (Decoder.bufferSize >>= next') := by
  intro c stop
  simp only [reads_bufferSize_bind_iff, hsize]
  exact @hnext c stop

/-- A decoder that goes forward reads the same where the bytes are the same that it goes over. -/
theorem sequential (hd : Sequential d) (hstart : start ≤ b.size)
    (hsame : ∀ a stop, d.Reads b start a stop → SameBetween b b' start stop) :
    Carries b b' id start d d := by
  intro a stop h
  have hle := hd.le h
  have hend := hd.le_size h hstart
  have hholds : Holds b' start (b'.extract start (start + (stop - start))).toList :=
    .of_extract (by omega)
  rw [Nat.add_sub_cancel' hle, hsame a stop h] at hholds
  have hread := hd.reads_of_holds h hend hholds
  rw [Nat.add_sub_cancel' hle] at hread
  exact ⟨a, rfl, hread⟩

/-- Bytes that are the same in both buffers, and what is read behind them. -/
theorem take {count : Nat} {next next' : List UInt8 → Decoder β}
    (hsame : SameBetween b b' start (start + count))
    (hnext : ∀ bytes, Carries b b' g (start + count) (next bytes) (next' bytes)) :
    Carries b b' g start (Decoder.take count >>= next) (Decoder.take count >>= next') := by
  intro c stop
  rw [reads_take_bind_iff, hsize.symm]
  rintro ⟨hroom, h⟩
  obtain ⟨c', hc, h'⟩ := hnext _ h
  refine ⟨c', hc, ?_⟩
  rw [reads_take_bind_iff, hsame]
  exact ⟨hroom, h'⟩

/-- A number that may be another one in each buffer, and what is read behind it. -/
theorem number_any {next next' : Nat → Decoder β}
    (hnext : Carries b b' g (start + width) (next (numberAt width b start))
      (next' (numberAt width b' start))) :
    Carries b b' g start (Decoder.number width >>= next) (Decoder.number width >>= next') := by
  intro c stop
  simp only [Decoder.number, bind_assoc, pure_bind, reads_take_bind_iff, hsize]
  rintro ⟨hroom, h⟩
  obtain ⟨c', hc, h'⟩ := hnext h
  exact ⟨c', hc, hroom, h'⟩

/-- A number whose bytes are the same in both buffers, and what is read behind it. -/
theorem number {next next' : Nat → Decoder β}
    (hsame : SameBetween b b' start (start + width))
    (hnext : Carries b b' g (start + width) (next (numberAt width b start))
      (next' (numberAt width b start))) :
    Carries b b' g start (Decoder.number width >>= next) (Decoder.number width >>= next') := by
  refine number_any hsize ?_
  rwa [hsame.numberAt_eq (Nat.le_refl start) (Nat.le_refl (start + width))]

theorem u8 {next next' : Nat → Decoder β} (hsame : SameBetween b b' start (start + 1))
    (hnext : Carries b b' g (start + 1) (next (numberAt 1 b start)) (next' (numberAt 1 b start))) :
    Carries b b' g start (Decoder.u8 >>= next) (Decoder.u8 >>= next') := by
  intro c stop
  simp only [reads_u8_bind_iff, hsize,
    hsame.numberAt_eq (Nat.le_refl start) (Nat.le_refl (start + 1))]
  rintro ⟨hroom, h⟩
  obtain ⟨c', hc, h'⟩ := hnext h
  exact ⟨c', hc, hroom, h'⟩

theorem u16 {next next' : Nat → Decoder β} (hsame : SameBetween b b' start (start + 2))
    (hnext : Carries b b' g (start + 2) (next (numberAt 2 b start)) (next' (numberAt 2 b start))) :
    Carries b b' g start (Decoder.u16 >>= next) (Decoder.u16 >>= next') :=
  number hsize hsame hnext

theorem u32 {next next' : Nat → Decoder β} (hsame : SameBetween b b' start (start + 4))
    (hnext : Carries b b' g (start + 4) (next (numberAt 4 b start)) (next' (numberAt 4 b start))) :
    Carries b b' g start (Decoder.u32 >>= next) (Decoder.u32 >>= next') :=
  number hsize hsame hnext

/-- Words that are the same in both buffers are read of both. -/
theorem words {count : Nat} (hsame : SameBetween b b' start (start + 4 * count))
    (hstart : start ≤ b.size) :
    Carries b b' id start (Decoder.times Decoder.u32 count) (Decoder.times Decoder.u32 count) := by
  refine .sequential hsize (.times .u32 count) hstart fun words stop h => ?_
  have hstop := Decoder.stop_of_reads_times (fun h => (Decoder.reads_u32_iff.mp h).2.2.symm) h
  rwa [hstop]

end Fields

end Carries

end Decoder

end ApkFormats
