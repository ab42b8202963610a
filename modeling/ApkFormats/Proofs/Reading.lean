import ApkFormats.Decoder
import ApkFormats.Proofs.Lists
import Mathlib.Algebra.Group.Nat.Defs

/-!
# Reading what stands in a buffer

`Holds buffer start bytes` says that some bytes stand at an offset of a buffer.
What a decoder makes of them is said in four ways:

* `Reads`: from a cursor it gives a value and ends at another cursor;
* `Yields`: from a cursor it gives a value, wherever it ends;
* `Decodes`: wherever some bytes stand in a buffer, it reads them as a value and
  ends behind them;
* `Finds`: from every cursor it gives a value, as a decoder does that first goes
  to a place of its own.

The laws beside them follow the ways in which decoders are put together, so that
the reading of a structure is composed from the readings of its fields.
-/

namespace ApkFormats

/-- A byte is the number that it is made of. -/
theorem toNat_byte {n : Nat} (h : n < 0x100) : (UInt8.ofNat n).toNat = n :=
  UInt8.toNat_ofNat_of_lt' h

/-- A number is spelled by the bytes that it is written as. -/
theorem littleEndian_toLittleEndian {width n : Nat} (h : n < 256 ^ width) :
    littleEndian (toLittleEndian width n) = n := by
  induction width generalizing n with
  | zero =>
      rw [pow_zero] at h
      simp only [toLittleEndian, littleEndian]
      omega
  | succ width ih =>
      have hlow := toNat_byte (Nat.mod_lt n (by decide : 0 < 256))
      have hhigh : n / 256 < 256 ^ width := by
        rw [Nat.div_lt_iff_lt_mul (by decide), ← pow_succ]
        exact h
      rw [toLittleEndian, littleEndian, ih hhigh, hlow]
      omega

/-- Some bytes stand at an offset of a buffer. -/
def Holds (buffer : Bytes) (start : Nat) (bytes : List UInt8) : Prop :=
  ∃ before after, buffer.toList = before ++ bytes ++ after ∧ before.length = start

namespace Holds

variable {buffer : Bytes} {start : Nat} {xs ys bytes : List UInt8}

/-- Bytes stand between those before and after them. -/
theorem intro (before bytes after : List UInt8) :
    Holds (before ++ bytes ++ after).toArray before.length bytes :=
  ⟨before, after, rfl, rfl⟩

/-- The bytes of a buffer stand at its start. -/
theorem all (bytes : List UInt8) : Holds bytes.toArray 0 bytes :=
  ⟨[], [], by simp, rfl⟩

/-- A first part stands where the whole does. -/
theorem left (h : Holds buffer start (xs ++ ys)) : Holds buffer start xs := by
  obtain ⟨before, after, hbuffer, hstart⟩ := h
  exact ⟨before, ys ++ after, by simp [hbuffer], hstart⟩

/-- A second part stands behind the first one. -/
theorem right (h : Holds buffer start (xs ++ ys)) :
    Holds buffer (start + xs.length) ys := by
  obtain ⟨before, after, hbuffer, hstart⟩ := h
  exact ⟨before ++ xs, after, by simp [hbuffer], by simp [hstart]⟩

/-- Bytes end inside the buffer that holds them. -/
theorem le_size (h : Holds buffer start bytes) : start + bytes.length ≤ buffer.size := by
  obtain ⟨before, after, hbuffer, hstart⟩ := h
  have hlength := congrArg List.length hbuffer
  simp only [Array.length_toList, List.length_append] at hlength
  omega

/-- Cutting out as many bytes as some bytes take gives these bytes. -/
theorem extract_eq (h : Holds buffer start bytes) :
    (buffer.extract start (start + bytes.length)).toList = bytes := by
  obtain ⟨before, after, hbuffer, hstart⟩ := h
  subst hstart
  rw [Array.toList_extract, hbuffer]
  simp [List.extract]

/-- A byte among bytes that stand in a buffer. -/
theorem getElem? {i : Nat} (h : Holds buffer start bytes) (hi : i < bytes.length) :
    buffer[start + i]? = bytes[i]? := by
  obtain ⟨before, after, hbuffer, rfl⟩ := h
  rw [← Array.getElem?_toList, hbuffer, List.append_assoc,
    List.getElem?_append_right (Nat.le_add_right _ _), Nat.add_sub_cancel_left,
    List.getElem?_append_left hi]

theorem nil (h : start ≤ buffer.size) : Holds buffer start [] := by
  refine ⟨buffer.toList.take start, buffer.toList.drop start, ?_, ?_⟩
  · rw [List.append_nil, List.take_append_drop]
  · rw [List.length_take, Array.length_toList]
    omega

/-- A byte in front of bytes that stand behind it. -/
theorem cons {b : UInt8} (h : Holds buffer (start + 1) bytes) (hb : buffer[start]? = some b) :
    Holds buffer start (b :: bytes) := by
  rw [← Array.getElem?_toList] at hb
  obtain ⟨hstart, hb⟩ := List.getElem?_eq_some_iff.mp hb
  obtain ⟨before, after, hbuffer, hbefore⟩ := h
  have hdrop : buffer.toList.drop (start + 1) = bytes ++ after := by
    rw [hbuffer, List.append_assoc, ← hbefore, List.drop_left]
  refine ⟨buffer.toList.take start, after, ?_, ?_⟩
  · rw [List.append_assoc, List.cons_append, ← hdrop, ← hb, List.getElem_cons_drop,
      List.take_append_drop]
  · rw [List.length_take]
    omega

theorem singleton {b : UInt8} (h : buffer[start]? = some b) : Holds buffer start [b] :=
  (nil (Array.getElem?_eq_some_iff.mp h).1).cons h

/-- In a row of items of one length, each item stands behind those before it. -/
theorem row {α : Type} {encode : α → List UInt8} {stride : Nat} {items : List α}
    (h : Holds buffer start (items.flatMap encode))
    (hstride : ∀ item ∈ items, (encode item).length = stride)
    (i : Nat) (hi : i < items.length) :
    Holds buffer (start + i * stride) (encode items[i]) := by
  induction items generalizing start i with
  | nil => exact absurd hi (Nat.not_lt_zero i)
  | cons item rest ih =>
      rw [List.flatMap_cons] at h
      cases i with
      | zero => simpa using h.left
      | succ i =>
          have hright := h.right
          rw [hstride item List.mem_cons_self] at hright
          have hi' : i < rest.length := Nat.lt_of_succ_lt_succ hi
          have hrow := ih hright (fun a ha => hstride a (List.mem_cons_of_mem _ ha)) i hi'
          rw [List.getElem_cons_succ, Nat.succ_mul]
          rwa [Nat.add_assoc, Nat.add_comm stride] at hrow

end Holds

namespace Decoder

variable {α β γ : Type}

/-- From a cursor a decoder gives a value and ends at another cursor. -/
structure Reads (d : Decoder α) (buffer : Bytes) (start : Nat) (a : α) (stop : Nat) : Prop where
  result : (d buffer start).result = .ok a
  cursor : (d buffer start).cursor = stop

/-- Wherever some bytes stand in a buffer, a decoder reads them as a value and ends behind them. -/
def Decodes (d : Decoder α) (buffer : Bytes) (a : α) (bytes : List UInt8) : Prop :=
  ∀ start, Holds buffer start bytes → d.Reads buffer start a (start + bytes.length)

/-- From a cursor a decoder gives a value. -/
def Yields (d : Decoder α) (buffer : Bytes) (start : Nat) (a : α) : Prop :=
  (d buffer start).result = .ok a

/-- From every cursor a decoder gives a value. -/
def Finds (d : Decoder α) (buffer : Bytes) (a : α) : Prop :=
  ∀ start, d.Yields buffer start a

section Reads

variable {buffer : Bytes} {start mid stop : Nat} {a : α} {b : β}
variable {d : Decoder α} {next : α → Decoder β}

namespace Reads

/-- Reading on where a first decoder ended. -/
theorem bind (hd : d.Reads buffer start a mid) (hnext : (next a).Reads buffer mid b stop) :
    (d >>= next).Reads buffer start b stop := by
  obtain ⟨hresult, hcursor⟩ := hd
  rcases hrun : d buffer start with ⟨result, cursor, notes⟩
  simp only [hrun] at hresult hcursor
  subst hresult hcursor
  exact ⟨by simp [bind_apply, andThen, hrun, hnext.result],
    by simp [bind_apply, andThen, hrun, hnext.cursor]⟩

theorem pure (a : α) : (Pure.pure a : Decoder α).Reads buffer start a start :=
  ⟨rfl, rfl⟩

theorem require {condition : Bool} {fault : Fault} (h : condition = true) :
    (Decoder.require condition fault).Reads buffer start () start := by
  subst h
  exact pure ()

theorem note (n : Note) : (Decoder.note n).Reads buffer start () start :=
  ⟨rfl, rfl⟩

theorem position : Decoder.position.Reads buffer start start start :=
  ⟨rfl, rfl⟩

theorem bufferSize : Decoder.bufferSize.Reads buffer start buffer.size start :=
  ⟨rfl, rfl⟩

theorem goTo (target : Nat) : (Decoder.goTo target).Reads buffer start () target :=
  ⟨rfl, rfl⟩

theorem resolved {r : Except IndexFault α} (h : r = .ok a) :
    (Decoder.resolved r).Reads buffer start a start := by
  subst h
  exact pure a

end Reads

/-- From one cursor a decoder reads one value. -/
theorem Reads.unique {a' : α} {stop' : Nat} (h : d.Reads buffer start a stop)
    (h' : d.Reads buffer start a' stop') : a = a' ∧ stop = stop' :=
  ⟨Except.ok.inj (h.result.symm.trans h'.result), h.cursor.symm.trans h'.cursor⟩

namespace Yields

/-- A decoder that gives a value ends somewhere. -/
theorem reads (h : d.Yields buffer start a) :
    d.Reads buffer start a (d buffer start).cursor :=
  ⟨h, rfl⟩

theorem pure (a : α) : (Pure.pure a : Decoder α).Yields buffer start a :=
  rfl

/-- Going on where a first decoder ended. -/
theorem bind (hd : d.Reads buffer start a mid) (hnext : (next a).Yields buffer mid b) :
    (d >>= next).Yields buffer start b :=
  (hd.bind hnext.reads).result

/-- Going on after a decoder whose end does not matter. -/
theorem bind_finds (hd : d.Finds buffer a) (hnext : ∀ cursor, (next a).Yields buffer cursor b) :
    (d >>= next).Yields buffer start b :=
  bind (hd start).reads (hnext _)

end Yields

namespace Finds

theorem pure (a : α) : (Pure.pure a : Decoder α).Finds buffer a :=
  fun _ => Yields.pure a

/-- Finding one thing after another. -/
theorem bind (hd : d.Finds buffer a) (hnext : (next a).Finds buffer b) :
    (d >>= next).Finds buffer b :=
  fun _ => Yields.bind_finds hd hnext

/-- What is given at a place is found by going there first. -/
theorem goTo {target : Nat} (hd : d.Yields buffer target a) :
    (Decoder.goTo target >>= fun _ => d).Finds buffer a :=
  fun _ => Yields.bind (.goTo target) hd

end Finds

/-- Reading on after a decoder whose end does not matter. -/
theorem Reads.bind_finds (hd : d.Finds buffer a)
    (hnext : ∀ cursor, (next a).Reads buffer cursor b stop) :
    (d >>= next).Reads buffer start b stop :=
  (hd start).reads.bind (hnext _)

end Reads

section Fields

/-! ## Fields -/

variable {buffer : Bytes} {start stop n : Nat} {xs ys rest : List UInt8} {a : α} {b : β}
variable {d : Decoder α} {next : α → Decoder β}

/-- A field is read, and then the rest behind it. -/
theorem Reads.field
    (h : Holds buffer start (xs ++ rest))
    (hd : d.Decodes buffer a xs)
    (hnext : Holds buffer (start + xs.length) rest →
      (next a).Reads buffer (start + xs.length) b stop) :
    (d >>= next).Reads buffer start b stop :=
  (hd _ h.left).bind (hnext h.right)

namespace Decodes

theorem pure (a : α) : (Pure.pure a : Decoder α).Decodes buffer a [] :=
  fun _ _ => Reads.pure a

/-- Two fields, one behind the other. -/
theorem bind (hd : d.Decodes buffer a xs) (hnext : (next a).Decodes buffer b ys) :
    (d >>= next).Decodes buffer b (xs ++ ys) := by
  intro start h
  refine Reads.field h hd fun h => ?_
  have hreads := hnext _ h
  rwa [Nat.add_assoc, ← List.length_append] at hreads

/-- What is to be read may be taken to be no longer than the buffer. -/
theorem of_le_size (h : xs.length ≤ buffer.size → d.Decodes buffer a xs) :
    d.Decodes buffer a xs := by
  intro start hbytes
  have hend := hbytes.le_size
  exact h (by omega) start hbytes

/-- Fields whose reading starts with a look at the cursor. -/
theorem bind_position {next : Nat → Decoder β}
    (hnext : ∀ cursor, (next cursor).Decodes buffer b ys) :
    (Decoder.position >>= next).Decodes buffer b ys :=
  fun start h => Reads.bind .position (hnext start start h)

/-- A last field, from which the value is made. -/
theorem last {f : α → β} (hd : d.Decodes buffer a xs) (hf : f a = b) :
    (d >>= fun a => Pure.pure (f a)).Decodes buffer b xs := by
  subst hf
  have h : (d >>= fun a => Pure.pure (f a)).Decodes buffer (f a) (xs ++ []) :=
    hd.bind (pure (f a))
  rwa [List.append_nil] at h

/-- A branch that is taken. -/
theorem ite_true {condition : Prop} [Decidable condition] {d' : Decoder α}
    (h : condition) (hd : d.Decodes buffer a xs) :
    (if condition then d else d').Decodes buffer a xs := by
  rwa [if_pos h]

/-- A branch that is not taken. -/
theorem ite_false {condition : Prop} [Decidable condition] {d' : Decoder α}
    (h : ¬condition) (hd : d'.Decodes buffer a xs) :
    (if condition then d else d').Decodes buffer a xs := by
  rwa [if_neg h]

/-- As many bytes as are asked for. -/
theorem take (bytes : List UInt8) : (Decoder.take bytes.length).Decodes buffer bytes bytes := by
  intro start h
  have hroom : start + bytes.length ≤ buffer.size := h.le_size
  have hbytes := h.extract_eq
  exact ⟨by simp only [Decoder.take, hroom, or_true, if_true, hbytes],
    by simp only [Decoder.take, hroom, or_true, if_true]⟩

theorem byte (v : UInt8) : Decoder.byte.Decodes buffer v [v] := by
  intro start h
  have hroom : start < buffer.size := h.le_size
  have hbyte : buffer[start] = v := by
    have hextract := h.extract_eq
    rw [List.length_singleton, Array.toList_extract] at hextract
    have hhead := congrArg List.head? hextract
    simpa [List.extract, List.head?_take, hroom] using hhead
  exact ⟨by simp [Decoder.byte, hroom, hbyte], by simp [Decoder.byte, hroom]⟩

/-- A byte is read as the number that it is. -/
theorem u8_byte (v : UInt8) : Decoder.u8.Decodes buffer v.toNat [v] :=
  (byte v).last rfl

theorem u8 (hn : n < 0x100) : Decoder.u8.Decodes buffer n [UInt8.ofNat n] :=
  (byte (UInt8.ofNat n)).last (toNat_byte hn)

/-- A number of some width is read back. -/
theorem number {width : Nat} (hn : n < 256 ^ width) :
    (Decoder.number width).Decodes buffer n (toLittleEndian width n) := by
  have h : (Decoder.number (toLittleEndian width n).length).Decodes buffer n
      (toLittleEndian width n) :=
    (take (toLittleEndian width n)).last (littleEndian_toLittleEndian hn)
  rwa [length_toLittleEndian] at h

theorem u16 (hn : n < 0x10000) : Decoder.u16.Decodes buffer n (toLittleEndian 2 n) :=
  number hn

theorem u32 (hn : n < 0x100000000) : Decoder.u32.Decodes buffer n (toLittleEndian 4 n) :=
  number hn

/-- Fixed bytes that are there. -/
theorem fixed (expected : List UInt8) : (Decoder.fixed expected).Decodes buffer () expected := by
  have h : (Decoder.fixed expected).Decodes buffer () (expected ++ []) :=
    (take expected).bind fun _ _ => Reads.require (by simp)
  rwa [List.append_nil] at h

/-- A field that is repeated, once for each of some items. -/
theorem times {items : List γ} {values : List α} {encode : γ → List UInt8}
    (h : List.Forall₂ (fun item value => d.Decodes buffer value (encode item)) items values) :
    (Decoder.times d items.length).Decodes buffer values (items.flatMap encode) := by
  induction h with
  | nil => exact pure []
  | cons hitem _ ih =>
      rw [List.length_cons, times_succ, List.flatMap_cons]
      exact hitem.bind (ih.last rfl)

end Decodes

/-- A number of two bytes, and then the rest behind it. -/
theorem Reads.u16 {next : Nat → Decoder β}
    (h : Holds buffer start (toLittleEndian 2 n ++ rest))
    (hn : n < 0x10000)
    (hnext : Holds buffer (start + 2) rest → (next n).Reads buffer (start + 2) b stop) :
    (Decoder.u16 >>= next).Reads buffer start b stop := by
  refine Reads.field h (.u16 hn) ?_
  rwa [length_toLittleEndian]

/-- A number of four bytes, and then the rest behind it. -/
theorem Reads.u32 {next : Nat → Decoder β}
    (h : Holds buffer start (toLittleEndian 4 n ++ rest))
    (hn : n < 0x100000000)
    (hnext : Holds buffer (start + 4) rest → (next n).Reads buffer (start + 4) b stop) :
    (Decoder.u32 >>= next).Reads buffer start b stop := by
  refine Reads.field h (.u32 hn) ?_
  rwa [length_toLittleEndian]

/-- A field is read, and what follows gives a value behind it. -/
theorem Yields.field
    (h : Holds buffer start (xs ++ rest))
    (hd : d.Decodes buffer a xs)
    (hnext : Holds buffer (start + xs.length) rest → (next a).Yields buffer (start + xs.length) b) :
    (d >>= next).Yields buffer start b :=
  bind (hd _ h.left) (hnext h.right)

/-- A number of two bytes is read, and what follows gives a value behind it. -/
theorem Yields.u16 {next : Nat → Decoder β}
    (h : Holds buffer start (toLittleEndian 2 n ++ rest))
    (hn : n < 0x10000)
    (hnext : Holds buffer (start + 2) rest → (next n).Yields buffer (start + 2) b) :
    (Decoder.u16 >>= next).Yields buffer start b := by
  refine Yields.field h (.u16 hn) ?_
  rwa [length_toLittleEndian]

/-- A number of four bytes is read, and what follows gives a value behind it. -/
theorem Yields.u32 {next : Nat → Decoder β}
    (h : Holds buffer start (toLittleEndian 4 n ++ rest))
    (hn : n < 0x100000000)
    (hnext : Holds buffer (start + 4) rest → (next n).Yields buffer (start + 4) b) :
    (Decoder.u32 >>= next).Yields buffer start b := by
  refine Yields.field h (.u32 hn) ?_
  rwa [length_toLittleEndian]

/-- Something is found for every item of a list. -/
theorem Finds.each {decode : α → Decoder β} {items : List α} {values : List β}
    (h : List.Forall₂ (fun item value => (decode item).Finds buffer value) items values) :
    (Decoder.each decode items).Finds buffer values := by
  induction h with
  | nil => exact pure []
  | cons hitem _ ih =>
      rw [each_cons]
      exact hitem.bind (ih.bind (pure _))

/-- Something is found for every index of a list of values. -/
theorem Finds.rows {decode : Nat → Decoder β} {values : List β}
    (h : ∀ i (hi : i < values.length), (decode i).Finds buffer values[i]) :
    (Decoder.each decode (List.range values.length)).Finds buffer values := by
  refine Finds.each ?_
  rw [List.forall₂_iff_get]
  refine ⟨by simp, fun i hrange hvalues => ?_⟩
  simpa using h i hvalues

end Fields

end Decoder

section Words

/-! ## Rows of numbers -/

@[simp] theorem wordBytes_nil : wordBytes [] = [] :=
  rfl

@[simp] theorem wordBytes_cons (n : Nat) (ns : List Nat) :
    wordBytes (n :: ns) = toLittleEndian 4 n ++ wordBytes ns :=
  rfl

theorem wordBytes_append (ms ns : List Nat) :
    wordBytes (ms ++ ns) = wordBytes ms ++ wordBytes ns :=
  List.flatMap_append

@[simp] theorem halfWordBytes_nil : halfWordBytes [] = [] :=
  rfl

@[simp] theorem halfWordBytes_cons (n : Nat) (ns : List Nat) :
    halfWordBytes (n :: ns) = toLittleEndian 2 n ++ halfWordBytes ns :=
  rfl

@[simp] theorem length_wordBytes (ns : List Nat) : (wordBytes ns).length = 4 * ns.length := by
  induction ns with
  | nil => rfl
  | cons n ns ih =>
      rw [wordBytes_cons, List.length_append, length_toLittleEndian, ih, List.length_cons]
      omega

@[simp] theorem length_halfWordBytes (ns : List Nat) :
    (halfWordBytes ns).length = 2 * ns.length := by
  induction ns with
  | nil => rfl
  | cons n ns ih =>
      rw [halfWordBytes_cons, List.length_append, length_toLittleEndian, ih, List.length_cons]
      omega

/-- Written half words are split again. -/
theorem halfWords_halfWordBytes (ns : List Nat) (h : ∀ n ∈ ns, n < 0x10000) :
    halfWords (halfWordBytes ns) = ns := by
  induction ns with
  | nil => rfl
  | cons n ns ih =>
      have hn : n < 0x10000 := h n List.mem_cons_self
      have hns := ih fun m hm => h m (List.mem_cons_of_mem _ hm)
      have hsplit : halfWords (toLittleEndian 2 n ++ halfWordBytes ns) =
          (n % 256 + 256 * (n / 256 % 256)) :: halfWords (halfWordBytes ns) := by
        simp [toLittleEndian, halfWords]
      rw [halfWordBytes_cons, hsplit, hns]
      congr 1
      omega

/-- Half words are taken as the bytes that they were written as. -/
theorem Decoder.Decodes.halfWords {buffer : Bytes} (ns : List Nat) :
    (Decoder.take (2 * ns.length)).Decodes buffer (halfWordBytes ns) (halfWordBytes ns) := by
  have htake : (Decoder.take (halfWordBytes ns).length).Decodes buffer (halfWordBytes ns)
      (halfWordBytes ns) := .take _
  rwa [length_halfWordBytes] at htake

/-- Items that take so many bytes each take so many bytes together. -/
theorem mul_length_le_length_flatMap {α : Type} {encode : α → List UInt8} {least : Nat}
    {items : List α} (h : ∀ item ∈ items, least ≤ (encode item).length) :
    least * items.length ≤ (items.flatMap encode).length := by
  induction items with
  | nil => exact Nat.le_refl 0
  | cons item rest ih =>
      have hitem := h item List.mem_cons_self
      have hrest := ih fun a ha => h a (List.mem_cons_of_mem _ ha)
      rw [List.flatMap_cons, List.length_append, List.length_cons, Nat.mul_succ]
      omega

/-- Items that all take the same number of bytes. -/
theorem length_flatMap_of_stride {α : Type} {encode : α → List UInt8} {stride : Nat}
    {items : List α} (h : ∀ item ∈ items, (encode item).length = stride) :
    (items.flatMap encode).length = stride * items.length := by
  rw [List.length_flatMap, List.map_congr_left h, List.map_const', List.sum_replicate_nat,
    Nat.mul_comm]

/-- A row of written words is read back. -/
theorem Decoder.Decodes.words {buffer : Bytes} {ns : List Nat} {count : Nat}
    (hcount : ns.length = count) (h : ∀ n ∈ ns, n < 0x100000000) :
    (Decoder.times Decoder.u32 count).Decodes buffer ns (wordBytes ns) := by
  rw [← hcount]
  refine .times ?_
  rw [List.forall₂_same]
  exact fun n hn => .u32 (h n hn)

end Words

end ApkFormats
