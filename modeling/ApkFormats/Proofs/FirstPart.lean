import ApkFormats.Leb128
import ApkFormats.Proofs.Lists
import ApkFormats.Proofs.Window

/-!
# Decoding a first part of a buffer

A first part of a buffer is what is left when the buffer is cut off somewhere.
Here a decoder that reads the whole is run on such a part.  It either reads the
same there or fails because something reaches outside the data, and which of
the two depends on how far it goes.

* `FallsShort`: a decoder fails because something reaches outside the data;
* `Grows`: what a decoder reads of a first part it reads of the whole;
* `Gauged`: a decoder that goes forward reads the same as long as it ends in the
  part, and so does what its value points to;
* `Reaches`: the parts that are long enough for one run, wherever it goes;
* `Points`: a decoder reads some bytes in place and what these point to.
-/

namespace ApkFormats

/-- A first part has the bytes of the whole. -/
theorem Holds.getElem?_first {part buffer : Bytes} {i : Nat} (h : Holds buffer 0 part.toList)
    (hi : i < part.size) : buffer[i]? = part[i]? := by
  have hbyte := h.getElem? (i := i) hi
  rwa [Nat.zero_add, Array.getElem?_toList] at hbyte

namespace Decoder

variable {α β : Type} {part buffer : Bytes} {start mid stop : Nat} {a : α}

/-- A decoder fails because something reaches outside the data. -/
def FallsShort (d : Decoder α) (buffer : Bytes) (start : Nat) : Prop :=
  ∃ fault, (d buffer start).result = .error fault ∧ fault.category = .outOfBounds

namespace FallsShort

variable {d : Decoder α} {next : α → Decoder β}

theorem bind (h : d.FallsShort buffer start) : (d >>= next).FallsShort buffer start := by
  obtain ⟨fault, hresult, hcategory⟩ := h
  refine ⟨fault, ?_, hcategory⟩
  rcases hrun : d buffer start with ⟨result, cursor, notes⟩
  rw [hrun] at hresult
  subst hresult
  simp only [bind_apply, andThen, hrun]

/-- A decoder falls short behind what another one has read. -/
theorem after (hd : d.Reads buffer start a mid) (h : (next a).FallsShort buffer mid) :
    (d >>= next).FallsShort buffer start := by
  obtain ⟨fault, hresult, hcategory⟩ := h
  obtain ⟨hvalue, hcursor⟩ := hd
  refine ⟨fault, ?_, hcategory⟩
  rcases hrun : d buffer start with ⟨result, cursor, notes⟩
  simp only [hrun] at hvalue hcursor
  subst hvalue hcursor
  simp only [bind_apply, andThen, hrun, hresult]

theorem require {condition : Bool} {fault : Fault} {next : Unit → Decoder β}
    (hcondition : condition = false) (hcategory : fault.category = .outOfBounds) :
    (Decoder.require condition fault >>= next).FallsShort buffer start := by
  subst hcondition
  exact bind ⟨fault, rfl, hcategory⟩

/-- Callers see that something reaches outside the data. -/
theorem within {subject : String} (h : d.FallsShort buffer start) :
    ∃ e, (d buffer start).within subject = .error e ∧ e.category = .outOfBounds := by
  obtain ⟨fault, hresult, hcategory⟩ := h
  exact ⟨fault.within subject, by rw [Outcome.within, hresult]; rfl, hcategory⟩

end FallsShort

section Grows

/-! ## From a first part to the whole -/

/-- What a decoder reads of a first part of a buffer it reads of the whole. -/
def Grows (d : Decoder α) : Prop :=
  ∀ ⦃part buffer : Bytes⦄, Holds buffer 0 part.toList →
    ∀ ⦃start a stop⦄, d.Reads part start a stop → d.Reads buffer start a stop

namespace Grows

variable {d : Decoder α} {next : α → Decoder β}

theorem pure (a : α) : Grows (Pure.pure a : Decoder α) :=
  fun _ _ _ _ _ _ h => reads_pure_iff.mpr (reads_pure_iff.mp h)

theorem fail {fault : Fault} : Grows (Decoder.fail fault : Decoder α) :=
  fun _ _ _ _ _ _ h => absurd h not_reads_fail

theorem bind (hd : Grows d) (hnext : ∀ a, Grows (next a)) : Grows (d >>= next) := by
  intro part buffer hpart start b stop h
  obtain ⟨a, mid, hfirst, hrest⟩ := reads_bind_iff.mp h
  exact (hd hpart hfirst).bind (hnext a hpart hrest)

theorem ite {condition : Prop} [Decidable condition] {d' : Decoder α} (hd : Grows d)
    (hd' : Grows d') : Grows (if condition then d else d') := by
  split
  · exact hd
  · exact hd'

theorem goTo (target : Nat) : Grows (Decoder.goTo target) :=
  fun _ _ _ _ _ _ h => reads_goTo_iff.mpr (reads_goTo_iff.mp h)

theorem position : Grows Decoder.position :=
  fun _ _ _ _ _ _ h => reads_position_iff.mpr (reads_position_iff.mp h)

theorem take (count : Nat) : Grows (Decoder.take count) := by
  intro part buffer hpart start bytes stop h
  obtain ⟨hroom, hbytes, hstop⟩ := reads_take_iff.mp h
  rcases hroom with rfl | hroom
  · exact reads_take_iff.mpr ⟨.inl rfl, by simpa using hbytes, hstop⟩
  · have hsame := hpart.extract_part hroom
    have hle := hpart.part_le
    rw [Nat.zero_add] at hsame hle
    exact reads_take_iff.mpr ⟨.inr (Nat.le_trans hroom hle), hsame ▸ hbytes, hstop⟩

theorem byte : Grows Decoder.byte := by
  intro part buffer hpart start v stop h
  obtain ⟨hbyte, hstop⟩ := reads_byte_iff.mp h
  have hstart := (Array.getElem?_eq_some_iff.mp hbyte).1
  rw [← hpart.getElem?_first hstart] at hbyte
  exact reads_byte_iff.mpr ⟨hbyte, hstop⟩

/-- A check of the size that a first part passes is passed by the whole. -/
theorem check {condition : Nat → Bool} {fault : Nat → Fault}
    (hmore : ∀ {size size'}, size ≤ size' → condition size = true → condition size' = true)
    (hd : Grows d) :
    Grows (Decoder.bufferSize >>= fun size =>
      Decoder.require (condition size) (fault size) >>= fun _ => d) := by
  intro part buffer hpart start a stop h
  rw [reads_bufferSize_bind_iff, reads_require_bind_iff] at h ⊢
  have hle := hpart.part_le
  rw [Nat.zero_add] at hle
  exact ⟨hmore hle h.1, hd hpart h.2⟩

theorem each {decode : α → Decoder β} (hdecode : ∀ a, Grows (decode a)) (items : List α) :
    Grows (Decoder.each decode items) := by
  induction items with
  | nil => exact pure []
  | cons item items ih =>
      rw [each_cons]
      exact (hdecode item).bind fun b => ih.bind fun bs => pure _

end Grows

end Grows

section Gauged

/-! ## Decoders that go forward -/

/-- A decoder goes forward over at least some bytes, and what else it reads belongs to its value.
It reads the same of a first part when both lie in it, and falls short otherwise. -/
structure Gauged (least : Nat) (d : Decoder α) (rest : Bytes → α → Nat → Prop) : Prop where
  le : ∀ {buffer start a stop}, d.Reads buffer start a stop → start + least ≤ stop
  inside : ∀ {buffer start a stop}, d.Reads buffer start a stop → stop ≤ buffer.size ∨ stop = start
  grows : Grows d
  first : ∀ {part buffer start a stop}, Holds buffer 0 part.toList → d.Reads buffer start a stop →
    stop ≤ part.size → rest buffer a part.size → d.Reads part start a stop
  short : ∀ {part buffer start a stop}, Holds buffer 0 part.toList → d.Reads buffer start a stop →
    d.Reads part start a stop ∧ rest buffer a part.size ∨ d.FallsShort part start

/-- A decoder goes forward and reads nothing else. -/
abbrev Forward (d : Decoder α) : Prop :=
  Gauged 0 d fun _ _ _ => True

/-- A decoder goes forward over at least a byte, so that it ends in the buffer wherever it starts,
and reads nothing else. -/
abbrev Solid (d : Decoder α) : Prop :=
  Gauged 1 d fun _ _ _ => True

namespace Gauged

variable {d : Decoder α} {next : α → Decoder β} {rest : Bytes → α → Nat → Prop} {l m n : Nat}

theorem value {a : α} (ha : ∀ buffer n, rest buffer a n) :
    Gauged 0 (Pure.pure a : Decoder α) rest where
  le h := Nat.le_of_eq (reads_pure_iff.mp h).2
  inside h := .inr (reads_pure_iff.mp h).2.symm
  grows := .pure a
  first _ h _ _ := reads_pure_iff.mpr (reads_pure_iff.mp h)
  short _ h := .inl ⟨reads_pure_iff.mpr (reads_pure_iff.mp h), (reads_pure_iff.mp h).1 ▸ ha _ _⟩

theorem pure (a : α) : Forward (Pure.pure a : Decoder α) :=
  value fun _ _ => trivial

theorem fail {fault : Fault} : Gauged l (Decoder.fail fault : Decoder α) rest where
  le h := absurd h not_reads_fail
  inside h := absurd h not_reads_fail
  grows := .fail
  first _ h := absurd h not_reads_fail
  short _ h := absurd h not_reads_fail

theorem weaken (hd : Gauged m d rest) (hle : l ≤ m) : Gauged l d rest :=
  { hd with le := fun h => Nat.le_trans (Nat.add_le_add_left hle _) (hd.le h) }

theorem congr {rest' : Bytes → α → Nat → Prop} (hd : Gauged m d rest)
    (hsame : ∀ buffer a n, rest buffer a n ↔ rest' buffer a n) : Gauged m d rest' where
  le := hd.le
  inside := hd.inside
  grows := hd.grows
  first hpart h hstop hrest := hd.first hpart h hstop ((hsame _ _ _).mpr hrest)
  short hpart h := (hd.short hpart h).imp_left (And.imp_right (hsame _ _ _).mp)

theorem take (count : Nat) : Gauged count (Decoder.take count) fun _ _ _ => True where
  le h := Nat.le_of_eq (reads_take_iff.mp h).2.2
  inside h := by
    obtain ⟨hroom, -, hstop⟩ := reads_take_iff.mp h
    omega
  grows := .take count
  first hpart h hstop _ := by
    obtain ⟨-, hbytes, hend⟩ := reads_take_iff.mp h
    have hroom := Nat.le_trans (Nat.le_of_eq hend) hstop
    have hsame := hpart.extract_part hroom
    rw [Nat.zero_add] at hsame
    exact reads_take_iff.mpr ⟨.inr hroom, hsame ▸ hbytes, hend⟩
  short {part buffer start bytes stop} hpart h := by
    obtain ⟨-, hbytes, hend⟩ := reads_take_iff.mp h
    by_cases hroom : count = 0 ∨ start + count ≤ part.size
    · refine .inl ⟨reads_take_iff.mpr ⟨hroom, ?_, hend⟩, trivial⟩
      rcases hroom with rfl | hroom
      · simpa using hbytes
      · have hsame := hpart.extract_part hroom
        rw [Nat.zero_add] at hsame
        rw [← hsame, hbytes]
    · right
      unfold FallsShort Decoder.take
      rw [if_neg hroom]
      split
      · exact ⟨_, rfl, rfl⟩
      · exact ⟨_, rfl, rfl⟩

/-- A decoder falls short of a part when what follows on the whole does. -/
theorem fallsShort (hd : Gauged m d rest) (hpart : Holds buffer 0 part.toList)
    (h : d.Reads buffer start a mid) (hnext : (next a).FallsShort part mid) :
    (d >>= next).FallsShort part start := by
  rcases hd.short hpart h with ⟨hread, -⟩ | hshort
  · exact hnext.after hread
  · exact hshort.bind

/-- Decoders in turn read in addition what each of them does. -/
theorem bind {more : α → Bytes → β → Nat → Prop} {all : Bytes → β → Nat → Prop}
    (hd : Gauged m d rest) (hnext : ∀ a, Gauged n (next a) (more a))
    (hall : ∀ {buffer start a mid b stop n}, d.Reads buffer start a mid →
      (next a).Reads buffer mid b stop → (all buffer b n ↔ rest buffer a n ∧ more a buffer b n)) :
    Gauged (m + n) (d >>= next) all where
  le h := by
    obtain ⟨a, mid, hfirst, hsecond⟩ := reads_bind_iff.mp h
    have hle := hd.le hfirst
    have hle' := (hnext a).le hsecond
    omega
  inside h := by
    obtain ⟨a, mid, hfirst, hsecond⟩ := reads_bind_iff.mp h
    have hinside := hd.inside hfirst
    have hinside' := (hnext a).inside hsecond
    omega
  grows := hd.grows.bind fun a => (hnext a).grows
  first hpart h hstop hvalue := by
    obtain ⟨a, mid, hfirst, hsecond⟩ := reads_bind_iff.mp h
    -- Nothing goes back, so the first decoder ends in the part when the second one does.
    have hmid := Nat.le_trans (Nat.le_of_add_right_le ((hnext a).le hsecond)) hstop
    obtain ⟨hrest, hmore⟩ := (hall hfirst hsecond).mp hvalue
    exact (hd.first hpart hfirst hmid hrest).bind ((hnext a).first hpart hsecond hstop hmore)
  short hpart h := by
    obtain ⟨a, mid, hfirst, hsecond⟩ := reads_bind_iff.mp h
    rcases hd.short hpart hfirst with ⟨hread, hrest⟩ | hshort
    · rcases (hnext a).short hpart hsecond with ⟨hread', hmore⟩ | hshort
      · exact .inl ⟨hread.bind hread', (hall hfirst hsecond).mpr ⟨hrest, hmore⟩⟩
      · exact .inr (hshort.after hread)
    · exact .inr hshort.bind

/-- What the second decoder reads in addition is all when the first one only goes forward. -/
theorem add (hd : Gauged m d fun _ _ _ => True) {rest : Bytes → β → Nat → Prop}
    (hnext : ∀ a, Gauged n (next a) rest) : Gauged (m + n) (d >>= next) rest :=
  hd.bind hnext fun _ _ => (iff_of_eq (true_and _)).symm

/-- At least the second decoder goes forward. -/
theorem behind (hd : Gauged m d fun _ _ _ => True) {rest : Bytes → β → Nat → Prop}
    (hnext : ∀ a, Gauged n (next a) rest) : Gauged n (d >>= next) rest :=
  (hd.add hnext).weaken (Nat.le_add_left n m)

/-- At least the first decoder goes forward. -/
theorem ahead (hd : Gauged m d fun _ _ _ => True) {rest : Bytes → β → Nat → Prop}
    (hnext : ∀ a, Gauged 0 (next a) rest) (hle : l ≤ m) :
    Gauged l (d >>= next) rest :=
  (hd.add hnext).weaken hle

theorem ite {condition : Prop} [Decidable condition] {d' : Decoder α} (hd : Gauged m d rest)
    (hd' : Gauged m d' rest) : Gauged m (if condition then d else d') rest := by
  split
  · exact hd
  · exact hd'

theorem require (condition : Bool) (fault : Fault) : Forward (Decoder.require condition fault) :=
  ite (pure ()) fail

theorem position : Forward Decoder.position where
  le h := Nat.le_of_eq (reads_position_iff.mp h).2
  inside h := .inr (reads_position_iff.mp h).2.symm
  grows := .position
  first _ h _ _ := reads_position_iff.mpr (reads_position_iff.mp h)
  short _ h := .inl ⟨reads_position_iff.mpr (reads_position_iff.mp h), trivial⟩

theorem u16 : Gauged 2 Decoder.u16 fun _ _ _ => True :=
  (take 2).add fun _ => pure _

theorem u32 : Gauged 4 Decoder.u32 fun _ _ _ => True :=
  (take 4).add fun _ => pure _

theorem byte : Solid Decoder.byte where
  le h := Nat.le_of_eq (reads_byte_iff.mp h).2
  inside h := by
    obtain ⟨hbyte, hstop⟩ := reads_byte_iff.mp h
    have := (Array.getElem?_eq_some_iff.mp hbyte).1
    omega
  grows := .byte
  first hpart h hstop _ := by
    obtain ⟨hbyte, hend⟩ := reads_byte_iff.mp h
    rw [hpart.getElem?_first (by omega)] at hbyte
    exact reads_byte_iff.mpr ⟨hbyte, hend⟩
  short {part buffer start v stop} hpart h := by
    obtain ⟨hbyte, hend⟩ := reads_byte_iff.mp h
    by_cases hroom : start < part.size
    · rw [hpart.getElem?_first hroom] at hbyte
      exact .inl ⟨reads_byte_iff.mpr ⟨hbyte, hend⟩, trivial⟩
    · refine .inr ⟨.stream (.short 1 0), ?_, rfl⟩
      rw [Decoder.byte, dif_neg hroom]

theorem u8 : Solid Decoder.u8 :=
  byte.add fun _ => pure _

/-- A check of the room behind the cursor asks for nothing that the decoder behind it does not go
over. -/
theorem check {condition : Nat → Nat → Bool} {fault : Nat → Nat → Fault} {d : Nat → Decoder α}
    (hd : ∀ cursor, Gauged m (d cursor) rest)
    (hmore : ∀ {cursor size size'}, size ≤ size' → condition cursor size = true →
      condition cursor size' = true)
    (hroom : ∀ {cursor size}, cursor + m ≤ size → condition cursor size = true)
    (hcategory : ∀ cursor size, (fault cursor size).category = .outOfBounds) :
    Gauged m (Decoder.position >>= fun cursor => Decoder.bufferSize >>= fun size =>
      Decoder.require (condition cursor size) (fault cursor size) >>= fun _ => d cursor) rest := by
  have hreads {buffer : Bytes} {start : Nat} {a : α} {stop : Nat} :
      (Decoder.position >>= fun cursor => Decoder.bufferSize >>= fun size =>
        Decoder.require (condition cursor size) (fault cursor size) >>= fun _ =>
          d cursor).Reads buffer start a stop ↔
        condition start buffer.size = true ∧ (d start).Reads buffer start a stop := by
    rw [reads_position_bind_iff, reads_bufferSize_bind_iff, reads_require_bind_iff]
  constructor
  · intro buffer start a stop h
    exact (hd start).le (hreads.mp h).2
  · intro buffer start a stop h
    exact (hd start).inside (hreads.mp h).2
  · exact Grows.position.bind fun cursor => .check hmore (hd cursor).grows
  · intro part buffer start a stop hpart h hstop hrest
    have hread := (hreads.mp h).2
    have hpasses := hroom (Nat.le_trans ((hd start).le hread) hstop)
    exact hreads.mpr ⟨hpasses, (hd start).first hpart hread hstop hrest⟩
  · intro part buffer start a stop hpart h
    cases hpasses : condition start part.size with
    | false =>
        exact .inr (.after .position (.after .bufferSize (.require hpasses (hcategory _ _))))
    | true =>
        rcases (hd start).short hpart (hreads.mp h).2 with ⟨hread, hrest⟩ | hshort
        · exact .inl ⟨hreads.mpr ⟨hpasses, hread⟩, hrest⟩
        · exact .inr (.after .position (.after .bufferSize (.after (.require hpasses) hshort)))

/-- A check asks for the least size of what the decoder behind it goes over. -/
theorem checkLeast {fault : Nat → Nat → Fault} {d : Nat → Decoder α}
    (hd : ∀ cursor, Gauged m (d cursor) rest)
    (hcategory : ∀ cursor size, (fault cursor size).category = .outOfBounds) :
    Gauged m (Decoder.position >>= fun cursor => Decoder.bufferSize >>= fun size =>
      Decoder.require (m ≤ size - cursor) (fault cursor size) >>= fun _ => d cursor) rest := by
  refine check hd (fun hle h => ?_) (fun h => ?_) hcategory
  · have hleast := of_decide_eq_true h
    exact decide_eq_true (by omega)
  · exact decide_eq_true (by omega)

/-- A value may be changed when the new one stands for as much. -/
theorem map {f : α → β} {all : Bytes → β → Nat → Prop} (hd : Gauged m d rest)
    (hall : ∀ buffer a n, all buffer (f a) n ↔ rest buffer a n) :
    Gauged m (d >>= fun a => Pure.pure (f a)) all := by
  refine hd.bind (fun a => pure (f a)) fun _ hpure => ?_
  rw [← (reads_pure_iff.mp hpure).1, and_true]
  exact hall _ _ _

/-- A decoder that is repeated goes as far each time. -/
theorem times (hd : Gauged m d rest) (count : Nat) :
    Gauged (m * count) (Decoder.times d count) fun buffer as n => ∀ a ∈ as, rest buffer a n := by
  induction count with
  | zero =>
      rw [times_zero]
      exact value fun _ _ _ ha => nomatch ha
  | succ count ih =>
      rw [times_succ, Nat.mul_succ, Nat.add_comm]
      have htail (a : α) : Gauged (m * count)
          (Decoder.times d count >>= fun as => Pure.pure (a :: as))
          fun buffer as n => ∀ a ∈ as.tail, rest buffer a n :=
        ih.map fun _ _ _ => Iff.rfl
      refine hd.bind htail fun _ h => ?_
      obtain ⟨as, _, -, hpure⟩ := reads_bind_iff.mp h
      rw [← (reads_pure_iff.mp hpure).1]
      exact List.forall_mem_cons

theorem repeated (hd : Gauged m d fun _ _ _ => True) (count : Nat) :
    Gauged (m * count) (Decoder.times d count) fun _ _ _ => True :=
  (hd.times count).congr fun _ _ _ => iff_of_true (fun _ _ => trivial) trivial

end Gauged

end Gauged

section Reaches

/-! ## Single runs -/

/-- A run reads the same of every first part whose size passes a test, and falls short of the
others. -/
structure Reaches (d : Decoder α) (buffer : Bytes) (start : Nat) (a : α) (stop : Nat)
    (room : Nat → Prop) : Prop where
  reads : ∀ {part}, Holds buffer 0 part.toList → room part.size → d.Reads part start a stop
  short : ∀ {part}, Holds buffer 0 part.toList → ¬room part.size → d.FallsShort part start

/-- A first part of which a run reads the same is one that passes the test. -/
theorem Reaches.reads_iff {d : Decoder α} {room : Nat → Prop}
    (h : Reaches d buffer start a stop room) (hpart : Holds buffer 0 part.toList) :
    d.Reads part start a stop ↔ room part.size := by
  refine ⟨fun hread => ?_, h.reads hpart⟩
  by_contra hroom
  obtain ⟨fault, herror, -⟩ := h.short hpart hroom
  rw [hread.result] at herror
  cases herror

/-- What stands at an offset ends within the first bytes of a buffer. -/
def EndsIn (d : Decoder α) (buffer : Bytes) (offset : Nat) (a : α) (n : Nat) : Prop :=
  ∃ stop ≤ n, d.Reads buffer offset a stop

theorem endsIn_iff {d : Decoder α} (h : d.Reads buffer start a stop) {n : Nat} :
    d.EndsIn buffer start a n ↔ stop ≤ n := by
  constructor
  · rintro ⟨stop', hle, h'⟩
    exact (h.cursor.symm.trans h'.cursor) ▸ hle
  · exact fun hle => ⟨stop, hle, h⟩

/-- The run of a decoder that goes over a byte reaches as far as it stops, and as its value points
to. -/
theorem Gauged.reaches {d : Decoder α} {rest : Bytes → α → Nat → Prop} (hd : Gauged 1 d rest)
    (h : d.Reads buffer start a stop) :
    Reaches d buffer start a stop fun n => d.EndsIn buffer start a n ∧ rest buffer a n where
  reads hpart hroom := hd.first hpart h ((endsIn_iff h).mp hroom.1) hroom.2
  short hpart hroom := by
    rcases hd.short hpart h with ⟨hread, hrest⟩ | hshort
    · -- The run is the same, and since it goes over a byte it has to end inside the part.
      have hle := hd.le hread
      have hinside := hd.inside hread
      exact absurd ⟨(endsIn_iff h).mpr (by omega), hrest⟩ hroom
    · exact hshort

namespace Reaches

variable {d : Decoder α} {next : α → Decoder β} {b : β} {room room' : Nat → Prop}

theorem congr (h : Reaches d buffer start a stop room) (hroom : ∀ n, room n ↔ room' n) :
    Reaches d buffer start a stop room' where
  reads hpart hlong := h.reads hpart ((hroom _).mpr hlong)
  short hpart hlong := h.short hpart fun hroom' => hlong ((hroom _).mp hroom')

theorem pure (a : α) : Reaches (Pure.pure a) buffer start a start fun _ => True where
  reads _ _ := .pure a
  short _ h := absurd trivial h

theorem bind (hd : Reaches d buffer start a mid room)
    (hnext : Reaches (next a) buffer mid b stop room') :
    Reaches (d >>= next) buffer start b stop fun n => room n ∧ room' n where
  reads hpart hroom := (hd.reads hpart hroom.1).bind (hnext.reads hpart hroom.2)
  short {part} hpart hroom := by
    by_cases hfirst : room part.size
    · have hsecond : ¬room' part.size := fun hsecond => hroom ⟨hfirst, hsecond⟩
      exact (hnext.short hpart hsecond).after (hd.reads hpart hfirst)
    · exact (hd.short hpart hfirst).bind

theorem map {f : α → β} (hd : Reaches d buffer start a stop room) :
    Reaches (d >>= fun a => Pure.pure (f a)) buffer start (f a) stop room where
  reads hpart hroom := (hd.reads hpart hroom).bind (.pure (f a))
  short hpart hroom := (hd.short hpart hroom).bind

theorem goTo {target : Nat} {after : Unit → Decoder β}
    (h : Reaches (after ()) buffer target b stop room) :
    Reaches (Decoder.goTo target >>= after) buffer start b stop room where
  reads hpart hroom := reads_goTo_bind_iff.mpr (h.reads hpart hroom)
  short hpart hroom := (h.short hpart hroom).after (.goTo target)

/-- A check of the size is one more test. -/
theorem check {condition : Nat → Bool} {fault : Nat → Fault}
    (hcategory : ∀ size, (fault size).category = .outOfBounds)
    (h : Reaches d buffer start a stop room) :
    Reaches (Decoder.bufferSize >>= fun size =>
      Decoder.require (condition size) (fault size) >>= fun _ => d) buffer start a stop
      fun n => condition n = true ∧ room n where
  reads {part} hpart hroom := by
    rw [reads_bufferSize_bind_iff, reads_require_bind_iff]
    exact ⟨hroom.1, h.reads hpart hroom.2⟩
  short {part} hpart hroom := by
    cases hpasses : condition part.size with
    | false => exact .after .bufferSize (.require hpasses (hcategory _))
    | true =>
        have hshort := h.short hpart fun hlong => hroom ⟨hpasses, hlong⟩
        exact .after .bufferSize (.after (.require hpasses) hshort)

/-- The runs for the items of a list pass their tests together. -/
theorem each {decode : α → Decoder β} {items : List α} {values : List β}
    {room : α → β → Nat → Prop}
    (hitem : ∀ item ∈ items, ∀ {start value stop}, (decode item).Reads buffer start value stop →
      Reaches (decode item) buffer start value stop (room item value))
    (h : (Decoder.each decode items).Reads buffer start values stop) :
    Reaches (Decoder.each decode items) buffer start values stop
      fun n => List.Forall₂ (fun item value => room item value n) items values := by
  induction items generalizing start values with
  | nil =>
      obtain ⟨rfl, rfl⟩ := reads_pure_iff.mp h
      exact (pure []).congr fun _ => ⟨fun _ => .nil, fun _ => trivial⟩
  | cons item items ih =>
      rw [each_cons] at h ⊢
      obtain ⟨value, mid, hfirst, h⟩ := reads_bind_iff.mp h
      obtain ⟨others, last, hrest, h⟩ := reads_bind_iff.mp h
      obtain ⟨rfl, rfl⟩ := reads_pure_iff.mp h
      have hreach := hitem item List.mem_cons_self hfirst
      have hreach' := ih (fun item h => hitem item (List.mem_cons_of_mem _ h)) hrest
      refine congr (bind hreach (map hreach')) fun n => ?_
      rw [List.forall₂_cons]

end Reaches

end Reaches

section Points

/-! ## Decoders that point elsewhere -/

/-- A decoder reads some bytes at the cursor, and what these point to.  It reads the same of a first
part when both lie in it, and falls short otherwise. -/
structure Points (size : Nat) (d : Decoder α) (away : Bytes → α → Nat → Prop) : Prop where
  grows : Grows d
  reaches : ∀ {buffer start a stop}, d.Reads buffer start a stop →
    Reaches d buffer start a stop fun n => (size = 0 ∨ start + size ≤ n) ∧ away buffer a n

namespace Points

variable {away : Bytes → α → Nat → Prop} {m : Nat} {next : Nat → Decoder α}

/-- Nothing is read at the cursor. -/
theorem elsewhere {d : Decoder α} (hd : Grows d)
    (haway : ∀ {buffer start a stop}, d.Reads buffer start a stop →
      Reaches d buffer start a stop (away buffer a)) : Points 0 d away where
  grows := hd
  reaches h := (haway h).congr fun _ => (and_iff_right (.inl rfl)).symm

theorem pure (a : α) : Points 0 (Pure.pure a : Decoder α) fun _ _ _ => True :=
  elsewhere (.pure a) fun h => by
    obtain ⟨rfl, rfl⟩ := reads_pure_iff.mp h
    exact .pure a

/-- A number of fixed size is read before. -/
theorem behind {d : Decoder Nat} {size : Nat} (hd : Gauged (size + 1) d fun _ _ _ => True)
    (hexact : ∀ {buffer start v stop}, d.Reads buffer start v stop → start + (size + 1) = stop)
    (hnext : ∀ v, Points m (next v) away) : Points (size + 1 + m) (d >>= next) away where
  grows := hd.grows.bind fun v => (hnext v).grows
  reaches h := by
    obtain ⟨v, mid, hfirst, hrest⟩ := reads_bind_iff.mp h
    have hfirst' := (hd.weaken (Nat.le_add_left 1 size)).reaches hfirst
    refine Reaches.congr (.bind hfirst' ((hnext v).reaches hrest)) fun n => ?_
    rw [endsIn_iff hfirst, and_true, ← and_assoc]
    have hmid := hexact hfirst
    refine and_congr_left fun _ => ?_
    omega

theorem u16 (hnext : ∀ v, Points m (next v) away) : Points (2 + m) (Decoder.u16 >>= next) away :=
  behind Gauged.u16 (fun h => (reads_u16_iff.mp h).2.2) hnext

theorem u32 (hnext : ∀ v, Points m (next v) away) : Points (4 + m) (Decoder.u32 >>= next) away :=
  behind Gauged.u32 (fun h => (reads_u32_iff.mp h).2.2) hnext

end Points

end Points

end Decoder

end ApkFormats
