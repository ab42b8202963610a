import ApkFormats.Proofs.Success

/-!
# Reading a part of a buffer on its own

A part that is cut out of a buffer is a buffer of its own.  Here the two are
compared: what is read in the part, and what is read of the whole as much
further on as the part stands in it.

* `Sequential`: a decoder that goes forward and learns nothing but the bytes
  that it goes over reads the same in both, as long as it ends in the part;
* `Mirrors`: what one decoder reads of the whole is exactly what another one
  reads of the part, changed by a function, so that neither sees more than the
  other.

The laws of `Mirrors` follow the ways in which decoders are put together.  A
field is mirrored where its bytes lie in the part.  A decoder that may read
beyond the part is mirrored where everything behind such a read is refused.
-/

namespace ApkFormats

namespace Holds

variable {part buffer : Bytes} {shift start count width : Nat}

/-- What is cut out of a buffer stands there. -/
theorem of_extract {size : Nat} (h : shift + size ≤ buffer.size) :
    Holds buffer shift (buffer.extract shift (shift + size)).toList := by
  refine ⟨buffer.toList.take shift, buffer.toList.drop (shift + size), ?_, ?_⟩
  · rw [Array.toList_extract, List.extract, Nat.add_sub_cancel_left, List.append_assoc,
      ← List.drop_drop, List.take_append_drop, List.take_append_drop]
  · rw [List.length_take, Array.length_toList]
    omega

/-- The first bytes of a buffer stand at its start. -/
theorem of_first {n : Nat} (h : n ≤ buffer.size) :
    Holds buffer 0 (buffer.extract 0 n).toList ∧ (buffer.extract 0 n).size = n := by
  have hcut : Holds buffer 0 (buffer.extract 0 (0 + n)).toList := of_extract (by omega)
  rw [Nat.zero_add] at hcut
  refine ⟨hcut, ?_⟩
  rw [Array.size_extract]
  omega

/-- A part ends inside the buffer. -/
theorem part_le (h : Holds buffer shift part.toList) : shift + part.size ≤ buffer.size :=
  h.le_size

/-- Bytes are cut out of a part as they are cut out of the whole. -/
theorem extract_part (h : Holds buffer shift part.toList) (hroom : start + count ≤ part.size) :
    buffer.extract (shift + start) (shift + start + count) =
      part.extract start (start + count) := by
  have hcut : buffer.extract shift (shift + part.size) = part := Array.toList_inj.mp h.extract_eq
  have hmin : min (shift + (start + count)) (shift + part.size) = shift + start + count := by omega
  calc buffer.extract (shift + start) (shift + start + count)
      = (buffer.extract shift (shift + part.size)).extract start (start + count) := by
        rw [Array.extract_extract, hmin]
    _ = part.extract start (start + count) := by rw [hcut]

/-- A number in a part is the one that stands as much further on in the whole. -/
theorem numberAt_part (h : Holds buffer shift part.toList) (hroom : start + width ≤ part.size) :
    numberAt width buffer (shift + start) = numberAt width part start := by
  rw [numberAt, numberAt, h.extract_part hroom]

end Holds

namespace Decoder

variable {α α' β β' : Type}

section Sequential

/-! ## Decoders that go forward -/

/-- A decoder goes forward and learns nothing but the bytes that it goes over. -/
structure Sequential (d : Decoder α) : Prop where
  le : ∀ {buffer start a stop}, d.Reads buffer start a stop → start ≤ stop
  le_size : ∀ {buffer start a stop}, d.Reads buffer start a stop → start ≤ buffer.size →
    stop ≤ buffer.size
  part : ∀ {part buffer shift start a stop}, Holds buffer shift part.toList → stop ≤ part.size →
    (d.Reads buffer (shift + start) a (shift + stop) ↔ d.Reads part start a stop)

namespace Sequential

theorem pure (a : α) : Sequential (Pure.pure a : Decoder α) := by
  constructor
  · intro buffer start a stop h
    exact Nat.le_of_eq (reads_pure_iff.mp h).2
  · intro buffer start a stop h hstart
    exact (reads_pure_iff.mp h).2 ▸ hstart
  · intro part buffer shift start a stop _ _
    simp only [reads_pure_iff, Nat.add_left_cancel_iff]

theorem take (count : Nat) : Sequential (Decoder.take count) := by
  constructor
  · intro buffer start bytes stop h
    have := (reads_take_iff.mp h).2.2
    omega
  · intro buffer start bytes stop h hstart
    obtain ⟨hroom, -, hstop⟩ := reads_take_iff.mp h
    omega
  · intro part buffer shift start bytes stop hpart hstop
    have hle := hpart.part_le
    rw [reads_take_iff, reads_take_iff]
    constructor
    · rintro ⟨-, hbytes, hend⟩
      have hroom : start + count ≤ part.size := by omega
      exact ⟨.inr hroom, hpart.extract_part hroom ▸ hbytes, by omega⟩
    · rintro ⟨-, hbytes, hend⟩
      have hroom : start + count ≤ part.size := by omega
      exact ⟨.inr (by omega), (congrArg Array.toList (hpart.extract_part hroom)).trans hbytes,
        by omega⟩

/-- Decoders in turn go forward when each of them does: where the second one ends in a part, the
first one does. -/
theorem bind {d : Decoder α} {next : α → Decoder β} (hd : Sequential d)
    (hnext : ∀ a, Sequential (next a)) : Sequential (d >>= next) := by
  constructor
  · intro buffer start b stop h
    obtain ⟨a, mid, hfirst, hrest⟩ := reads_bind_iff.mp h
    exact Nat.le_trans (hd.le hfirst) ((hnext a).le hrest)
  · intro buffer start b stop h hstart
    obtain ⟨a, mid, hfirst, hrest⟩ := reads_bind_iff.mp h
    exact (hnext a).le_size hrest (hd.le_size hfirst hstart)
  · intro part buffer shift start b stop hpart hstop
    rw [reads_bind_iff, reads_bind_iff]
    constructor
    · rintro ⟨a, place, hfirst, hrest⟩
      have hle := hd.le hfirst
      have hle' := (hnext a).le hrest
      obtain ⟨mid, rfl⟩ : ∃ mid, place = shift + mid := ⟨place - shift, by omega⟩
      exact ⟨a, mid, (hd.part hpart (by omega)).mp hfirst, ((hnext a).part hpart hstop).mp hrest⟩
    · rintro ⟨a, mid, hfirst, hrest⟩
      have hle := (hnext a).le hrest
      exact ⟨a, shift + mid, (hd.part hpart (by omega)).mpr hfirst,
        ((hnext a).part hpart hstop).mpr hrest⟩

theorem fail {fault : Fault} : Sequential (Decoder.fail fault : Decoder α) where
  le h := absurd h not_reads_fail
  le_size h := absurd h not_reads_fail
  part _ _ := iff_of_false not_reads_fail not_reads_fail

/-- Decoders that read the same go forward alike. -/
theorem congr {d d' : Decoder α} (hd : Sequential d)
    (hsame : ∀ {buffer start a stop}, d'.Reads buffer start a stop ↔ d.Reads buffer start a stop) :
    Sequential d' where
  le h := hd.le (hsame.mp h)
  le_size h := hd.le_size (hsame.mp h)
  part hpart hstop := hsame.trans ((hd.part hpart hstop).trans hsame.symm)

theorem byte : Sequential Decoder.byte := by
  constructor
  · intro buffer start b stop h
    exact (reads_byte_iff.mp h).2 ▸ Nat.le_succ start
  · intro buffer start b stop h _
    obtain ⟨hb, rfl⟩ := reads_byte_iff.mp h
    exact (Array.getElem?_eq_some_iff.mp hb).1
  · intro part buffer shift start b stop hpart hstop
    rw [reads_byte_iff, reads_byte_iff]
    constructor
    · rintro ⟨hb, hend⟩
      have hsame := hpart.getElem? (i := start) (by rw [Array.length_toList]; omega)
      rw [Array.getElem?_toList] at hsame
      exact ⟨hsame ▸ hb, by omega⟩
    · rintro ⟨hb, rfl⟩
      have hsame := hpart.getElem? (i := start) hstop
      rw [Array.getElem?_toList] at hsame
      exact ⟨hsame.trans hb, rfl⟩

theorem number (width : Nat) : Sequential (Decoder.number width) :=
  (take width).bind fun _ => pure _

theorem u8 : Sequential Decoder.u8 :=
  byte.bind fun _ => pure _

theorem u16 : Sequential Decoder.u16 :=
  number 2

theorem u32 : Sequential Decoder.u32 :=
  number 4

/-- A branch goes forward when both of its ways do. -/
theorem ite {condition : Prop} [Decidable condition] {d d' : Decoder α} (hd : Sequential d)
    (hd' : Sequential d') : Sequential (if condition then d else d') := by
  split
  · exact hd
  · exact hd'

/-- A decoder that goes forward may be repeated. -/
theorem times {d : Decoder α} (hd : Sequential d) (count : Nat) :
    Sequential (Decoder.times d count) := by
  induction count with
  | zero => exact pure []
  | succ count ih =>
      rw [times_succ]
      exact hd.bind fun _ => ih.bind fun _ => pure _

/-- Wherever the same bytes stand the same is read. -/
theorem reads_of_holds {d : Decoder α} {buffer buffer' : Bytes} {start start' stop : Nat} {a : α}
    (hd : Sequential d) (h : d.Reads buffer start a stop) (hend : stop ≤ buffer.size)
    (hbytes : Holds buffer' start' (buffer.extract start stop).toList) :
    d.Reads buffer' start' a (start' + (stop - start)) := by
  have hle := hd.le h
  have hstop : start + (stop - start) = stop := by omega
  have hsize : stop - start ≤ (buffer.extract start stop).size := by
    rw [Array.size_extract]
    omega
  have hpart : Holds buffer start (buffer.extract start (start + (stop - start))).toList :=
    .of_extract (by omega)
  rw [hstop] at hpart
  have hread : d.Reads (buffer.extract start stop) 0 a (stop - start) := by
    refine (hd.part hpart hsize).mp ?_
    rwa [Nat.add_zero, hstop]
  exact (hd.part hbytes hsize).mpr hread

end Sequential

end Sequential

section Mirrors

/-! ## Two runs -/

/-- What one decoder reads of a buffer, from a cursor in a part of it, is what another one reads
of that part, changed by a function. -/
def Mirrors (part buffer : Bytes) (shift : Nat) (f : α → α') (start : Nat) (d : Decoder α)
    (d' : Decoder α') : Prop :=
  ∀ a' stop', d'.Reads buffer (shift + start) a' stop' ↔
    ∃ a stop, d.Reads part start a stop ∧ f a = a' ∧ shift + stop = stop'

namespace Mirrors

variable {part buffer : Bytes} {shift start : Nat} {f : α → α'} {g : β → β'}
variable {d : Decoder α} {d' : Decoder α'} {next : α → Decoder β} {next' : α' → Decoder β'}

theorem pure (a : α) :
    Mirrors part buffer shift f start (Pure.pure a : Decoder α) (Pure.pure (f a)) := by
  intro a' stop'
  simp only [reads_pure_iff]
  constructor
  · rintro ⟨rfl, rfl⟩
    exact ⟨a, start, ⟨rfl, rfl⟩, rfl, rfl⟩
  · rintro ⟨_, _, ⟨rfl, rfl⟩, rfl, rfl⟩
    exact ⟨rfl, rfl⟩

/-- A decoder that mirrors itself in a first part reads the same there as of the whole. -/
theorem reads_iff {d d' : Decoder α} {a : α} {stop : Nat}
    (h : Mirrors part buffer 0 id start d d') :
    d'.Reads buffer start a stop ↔ d.Reads part start a stop := by
  have hsame := h a stop
  simp only [Nat.zero_add, id] at hsame
  rw [hsame]
  constructor
  · rintro ⟨a, stop, h, rfl, rfl⟩
    exact h
  · exact fun h => ⟨a, stop, h, rfl, rfl⟩

/-- What is read of two buffers that hold the same part comes from one value. -/
theorem exists_common {buffer' : Bytes} {shift' : Nat} {f' : α → α'} {d'' : Decoder α'}
    (h : Mirrors part buffer shift f 0 d d') (h' : Mirrors part buffer' shift' f' 0 d d'')
    {a' a'' : α'} {stop' stop'' : Nat} (hread : d'.Reads buffer shift a' stop')
    (hread' : d''.Reads buffer' shift' a'' stop'') : ∃ a, f a = a' ∧ f' a = a'' := by
  obtain ⟨a, _, hpart, ha, -⟩ := (h a' stop').mp hread
  obtain ⟨b, _, hpart', hb, -⟩ := (h' a'' stop'').mp hread'
  have hsame := hpart.result.symm.trans hpart'.result
  exact ⟨a, ha, Except.ok.inj hsame ▸ hb⟩

/-- Two decoders mirror each other when neither of them reads anything. -/
theorem of_not (hd : ∀ a stop, ¬ d.Reads part start a stop)
    (hd' : ∀ a' stop', ¬ d'.Reads buffer (shift + start) a' stop') :
    Mirrors part buffer shift f start d d' :=
  fun a' stop' => ⟨fun h => absurd h (hd' a' stop'), fun ⟨a, stop, h, _⟩ => absurd h (hd a stop)⟩

theorem fail {fault fault' : Fault} :
    Mirrors part buffer shift f start (Decoder.fail fault) (Decoder.fail fault') :=
  of_not (fun _ _ => not_reads_fail) fun _ _ => not_reads_fail

/-- Decoders in turn mirror each other when each of them does. -/
theorem bind (hd : Mirrors part buffer shift f start d d')
    (hnext : ∀ a mid, d.Reads part start a mid →
      Mirrors part buffer shift g mid (next a) (next' (f a))) :
    Mirrors part buffer shift g start (d >>= next) (d' >>= next') := by
  intro b' stop'
  simp only [reads_bind_iff]
  constructor
  · rintro ⟨a', mid', hwhole, hrest'⟩
    obtain ⟨a, mid, hfirst, rfl, rfl⟩ := (hd a' mid').mp hwhole
    obtain ⟨b, stop, hrest, hb, hstop⟩ := (hnext a mid hfirst b' stop').mp hrest'
    exact ⟨b, stop, ⟨a, mid, hfirst, hrest⟩, hb, hstop⟩
  · rintro ⟨b, stop, ⟨a, mid, hfirst, hrest⟩, hb, hstop⟩
    exact ⟨f a, shift + mid, (hd _ _).mpr ⟨a, mid, hfirst, rfl, rfl⟩,
      (hnext a mid hfirst b' stop').mpr ⟨b, stop, hrest, hb, hstop⟩⟩

/-- A decoder that goes forward mirrors itself when it ends in the part. -/
theorem sequential {d : Decoder α} (hpart : Holds buffer shift part.toList) (hd : Sequential d)
    (hstart : start ≤ part.size)
    (hstop : ∀ a stop', d.Reads buffer (shift + start) a stop' → stop' ≤ shift + part.size) :
    Mirrors part buffer shift id start d d := by
  intro a stop'
  constructor
  · intro h
    have hle := hd.le h
    have hle' := hstop a stop' h
    obtain ⟨stop, rfl⟩ : ∃ stop, stop' = shift + stop := ⟨stop' - shift, by omega⟩
    exact ⟨a, stop, (hd.part hpart (by omega)).mp h, rfl, rfl⟩
  · rintro ⟨_, stop, h, rfl, rfl⟩
    exact (hd.part hpart (hd.le_size h hstart)).mpr h

/-- A decoder that goes forward may leave the part when all that follows is then refused. -/
theorem overrun {d : Decoder α} {next : α → Decoder β} {next' : α → Decoder β'}
    (hpart : Holds buffer shift part.toList) (hd : Sequential d) (hstart : start ≤ part.size)
    (hnext : ∀ a mid, mid ≤ part.size → Mirrors part buffer shift g mid (next a) (next' a))
    (hrefused : ∀ a place b' stop', shift + part.size < place →
      ¬(next' a).Reads buffer place b' stop') :
    Mirrors part buffer shift g start (d >>= next) (d >>= next') := by
  intro b' stop'
  simp only [reads_bind_iff]
  constructor
  · rintro ⟨a, place, hwhole, hrest'⟩
    have hle := hd.le hwhole
    have hle' : place ≤ shift + part.size :=
      Nat.le_of_not_lt fun hlt => hrefused a place b' stop' hlt hrest'
    obtain ⟨mid, rfl⟩ : ∃ mid, place = shift + mid := ⟨place - shift, by omega⟩
    obtain ⟨b, stop, hrest, hb, hstop⟩ := (hnext a mid (by omega) b' stop').mp hrest'
    exact ⟨b, stop, ⟨a, mid, (hd.part hpart (by omega)).mp hwhole, hrest⟩, hb, hstop⟩
  · rintro ⟨b, stop, ⟨a, mid, hfirst, hrest⟩, hb, hstop⟩
    have hmid := hd.le_size hfirst hstart
    exact ⟨a, shift + mid, (hd.part hpart hmid).mpr hfirst,
      (hnext a mid hmid b' stop').mpr ⟨b, stop, hrest, hb, hstop⟩⟩

/-- A branch is mirrored when each of its ways is. -/
theorem ite {condition : Prop} [Decidable condition] {e : Decoder α} {e' : Decoder α'}
    (hd : condition → Mirrors part buffer shift f start d d')
    (he : ¬condition → Mirrors part buffer shift f start e e') :
    Mirrors part buffer shift f start (if condition then d else e)
      (if condition then d' else e') := by
  by_cases h : condition
  · rw [if_pos h, if_pos h]
    exact hd h
  · rw [if_neg h, if_neg h]
    exact he h

variable {after : Unit → Decoder β} {after' : Unit → Decoder β'}

theorem goTo {target target' : Nat} (htarget : target' = shift + target)
    (hnext : Mirrors part buffer shift g target (after ()) (after' ())) :
    Mirrors part buffer shift g start (Decoder.goTo target >>= after)
      (Decoder.goTo target' >>= after') := by
  intro b' stop'
  simp only [reads_goTo_bind_iff, htarget]
  exact hnext b' stop'

theorem position {next : Nat → Decoder β} {next' : Nat → Decoder β'}
    (hnext : Mirrors part buffer shift g start (next start) (next' (shift + start))) :
    Mirrors part buffer shift g start (Decoder.position >>= next)
      (Decoder.position >>= next') := by
  intro b' stop'
  simp only [reads_position_bind_iff]
  exact hnext b' stop'

theorem note {n n' : Note} (hnext : Mirrors part buffer shift g start (after ()) (after' ())) :
    Mirrors part buffer shift g start (Decoder.note n >>= after) (Decoder.note n' >>= after') := by
  intro b' stop'
  simp only [reads_note_bind_iff]
  exact hnext b' stop'

/-- Checks of what comes to the same. -/
theorem require {condition condition' : Bool} {fault fault' : Fault}
    (hsame : condition = condition')
    (hnext : condition = true → Mirrors part buffer shift g start (after ()) (after' ())) :
    Mirrors part buffer shift g start (Decoder.require condition fault >>= after)
      (Decoder.require condition' fault' >>= after') := by
  subst hsame
  intro b' stop'
  simp only [reads_require_bind_iff]
  constructor
  · rintro ⟨hcondition, h⟩
    obtain ⟨b, stop, hb, hrest⟩ := (hnext hcondition b' stop').mp h
    exact ⟨b, stop, ⟨hcondition, hb⟩, hrest⟩
  · rintro ⟨b, stop, ⟨hcondition, hb⟩, hrest⟩
    exact ⟨hcondition, (hnext hcondition b' stop').mpr ⟨b, stop, hb, hrest⟩⟩

/-- Bytes in the part, and what is read behind them. -/
theorem take {count : Nat} {next : List UInt8 → Decoder β} {next' : List UInt8 → Decoder β'}
    (hpart : Holds buffer shift part.toList) (hroom : start + count ≤ part.size)
    (hnext : ∀ bytes, Mirrors part buffer shift g (start + count) (next bytes) (next' bytes)) :
    Mirrors part buffer shift g start (Decoder.take count >>= next)
      (Decoder.take count >>= next') := by
  refine bind (sequential hpart (.take count) (by omega) ?_) ?_
  · intro bytes stop' h
    have := (reads_take_iff.mp h).2.2
    omega
  · intro bytes mid h
    rw [← (reads_take_iff.mp h).2.2]
    exact hnext bytes

/-- A number in the part, and what is read behind it. -/
theorem number {width : Nat} {next : Nat → Decoder β} {next' : Nat → Decoder β'}
    (hpart : Holds buffer shift part.toList) (hroom : start + width ≤ part.size)
    (hnext : ∀ n, Mirrors part buffer shift g (start + width) (next n) (next' n)) :
    Mirrors part buffer shift g start (Decoder.number width >>= next)
      (Decoder.number width >>= next') := by
  simp only [Decoder.number, bind_assoc, pure_bind]
  exact take hpart hroom fun bytes => hnext _

theorem u16 {next : Nat → Decoder β} {next' : Nat → Decoder β'}
    (hpart : Holds buffer shift part.toList) (hroom : start + 2 ≤ part.size)
    (hnext : ∀ n, Mirrors part buffer shift g (start + 2) (next n) (next' n)) :
    Mirrors part buffer shift g start (Decoder.u16 >>= next) (Decoder.u16 >>= next') :=
  number hpart hroom hnext

theorem u32 {next : Nat → Decoder β} {next' : Nat → Decoder β'}
    (hpart : Holds buffer shift part.toList) (hroom : start + 4 ≤ part.size)
    (hnext : ∀ n, Mirrors part buffer shift g (start + 4) (next n) (next' n)) :
    Mirrors part buffer shift g start (Decoder.u32 >>= next) (Decoder.u32 >>= next') :=
  number hpart hroom hnext

theorem u8 {next : Nat → Decoder β} {next' : Nat → Decoder β'}
    (hpart : Holds buffer shift part.toList) (hroom : start + 1 ≤ part.size)
    (hnext : ∀ n, Mirrors part buffer shift g (start + 1) (next n) (next' n)) :
    Mirrors part buffer shift g start (Decoder.u8 >>= next) (Decoder.u8 >>= next') := by
  refine bind (sequential hpart .u8 (by omega) ?_) ?_
  · intro n stop' h
    have := (reads_u8_iff.mp h).2.2
    omega
  · intro n mid h
    rw [← (reads_u8_iff.mp h).2.2]
    exact hnext n

theorem resolved (r : Except IndexFault α) :
    Mirrors part buffer shift id start (Decoder.resolved r) (Decoder.resolved r) := by
  cases r with
  | ok a => exact pure a
  | error index => exact fail

/-- A decoder that is repeated for some items is mirrored when it is for each of them. -/
theorem each {items : List α} {decode decode' : α → Decoder β}
    (h : ∀ item ∈ items, ∀ start, Mirrors part buffer shift id start (decode item)
      (decode' item)) :
    Mirrors part buffer shift id start (Decoder.each decode items)
      (Decoder.each decode' items) := by
  induction items generalizing start with
  | nil => exact pure []
  | cons item rest ih =>
      rw [each_cons, each_cons]
      refine bind (h item List.mem_cons_self start) fun b mid _ => ?_
      refine bind (ih fun a ha => h a (List.mem_cons_of_mem _ ha)) fun bs mid' _ => ?_
      exact pure (b :: bs)

end Mirrors

end Mirrors

end Decoder

end ApkFormats
