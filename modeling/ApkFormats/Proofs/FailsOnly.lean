import ApkFormats.Decoder

/-!
# Decoders that fail only in certain ways

`Decoder.FailsOnly` says that a decoder fails only with faults of some kind,
whatever buffer it reads from whatever cursor on.  It is closed under
everything that decoders are made of:

* a decoder in turn after another one, a branch, and a decoder that is repeated;
* what reads bytes or follows an index, as soon as stream faults are allowed.

`FailsOnly.bind_of_gives` lets what follows a decoder use what is known of the
values that the decoder gives.
-/

namespace ApkFormats

namespace Decoder

variable {α β : Type} {P : Fault → Prop}

/-- Whatever a decoder reads, it fails only with faults of some kind. -/
def FailsOnly (P : Fault → Prop) (d : Decoder α) : Prop :=
  ∀ buffer cursor fault, (d buffer cursor).result = .error fault → P fault

/-- A value that a decoder gives on some buffer. -/
def Gives (d : Decoder α) (a : α) : Prop :=
  ∃ buffer cursor, (d buffer cursor).result = .ok a

/-- Faults of some kind include all stream faults. -/
class AllowsStream (P : Fault → Prop) : Prop where
  stream : ∀ s, P (.stream s)

namespace FailsOnly

/-- A value of a decoder may be used to see that what follows is harmless. -/
theorem bind_of_gives
    {d : Decoder α} {next : α → Decoder β}
    (hd : FailsOnly P d)
    (hnext : ∀ a, d.Gives a → FailsOnly P (next a)) :
    FailsOnly P (d >>= next) := by
  intro buffer cursor fault h
  simp only [bind_apply, andThen] at h
  rcases hrun : d buffer cursor with ⟨e | a, stop, notes⟩
  · refine hd buffer cursor fault ?_
    rw [hrun] at h ⊢
    simpa using h
  · rw [hrun] at h
    exact hnext a ⟨buffer, cursor, by rw [hrun]⟩ buffer stop fault h

/-- Two decoders in turn fail only as each of them does. -/
theorem bind
    {d : Decoder α} {next : α → Decoder β}
    (hd : FailsOnly P d)
    (hnext : ∀ a, FailsOnly P (next a)) :
    FailsOnly P (d >>= next) :=
  hd.bind_of_gives fun a _ => hnext a

theorem pure (a : α) : FailsOnly P (Pure.pure a : Decoder α) := by
  intro buffer cursor fault h
  simp [pure_apply] at h

theorem fail {fault : Fault} (h : P fault) : FailsOnly P (Decoder.fail fault : Decoder α) := by
  intro buffer cursor fault' h'
  simp only [Decoder.fail, Except.error.injEq] at h'
  exact h' ▸ h

theorem note (n : Note) : FailsOnly P (Decoder.note n) := by
  intro buffer cursor fault h
  simp [Decoder.note] at h

theorem position : FailsOnly P Decoder.position := by
  intro buffer cursor fault h
  simp [Decoder.position] at h

theorem bufferSize : FailsOnly P Decoder.bufferSize := by
  intro buffer cursor fault h
  simp [Decoder.bufferSize] at h

theorem goTo (target : Nat) : FailsOnly P (Decoder.goTo target) := by
  intro buffer cursor fault h
  simp [Decoder.goTo] at h

/-- A branch fails only as its two ways do. -/
theorem ite
    {condition : Prop} [Decidable condition] {d d' : Decoder α}
    (hd : FailsOnly P d) (hd' : FailsOnly P d') :
    FailsOnly P (if condition then d else d') := by
  split
  · exact hd
  · exact hd'

/-- What an offset points to fails only as its decoder does. -/
theorem atOffset (offset : Nat) {d : Decoder α} (h : FailsOnly P d) :
    FailsOnly P (Decoder.atOffset offset d) :=
  .ite (.pure _) (.bind (.goTo _) fun _ => .bind h fun _ => .pure _)

theorem require (condition : Bool) {fault : Fault} (h : P fault) :
    FailsOnly P (Decoder.require condition fault) :=
  ite (pure ()) (fail h)

section Stream

/-! What reads bytes or follows an index fails only with a stream fault. -/

variable [AllowsStream P]

theorem resolved (r : Except IndexFault α) : FailsOnly P (Decoder.resolved r) := by
  cases r with
  | ok a => exact pure a
  | error index => exact fail (AllowsStream.stream _)

theorem take (count : Nat) : FailsOnly P (Decoder.take count) := by
  intro buffer cursor fault h
  unfold Decoder.take at h
  split at h
  · simp at h
  · split at h <;>
      · simp only [Except.error.injEq] at h
        exact h ▸ AllowsStream.stream _

theorem byte : FailsOnly P Decoder.byte := by
  intro buffer cursor fault h
  unfold Decoder.byte at h
  split at h
  · simp at h
  · simp only [Except.error.injEq] at h
    exact h ▸ AllowsStream.stream _

theorem number (width : Nat) : FailsOnly P (Decoder.number width) :=
  (take width).bind fun _ => pure _

theorem u8 : FailsOnly P Decoder.u8 :=
  byte.bind fun _ => pure _

theorem u16 : FailsOnly P Decoder.u16 :=
  number 2

theorem u32 : FailsOnly P Decoder.u32 :=
  number 4

theorem fixed (expected : List UInt8) : FailsOnly P (Decoder.fixed expected) :=
  (take _).bind fun _ => require _ (AllowsStream.stream _)

end Stream

/-- Repeating a decoder for some items fails only as the decoder does. -/
theorem each
    {decode : α → Decoder β} (items : List α)
    (h : ∀ a, FailsOnly P (decode a)) :
    FailsOnly P (Decoder.each decode items) := by
  induction items with
  | nil =>
      rw [each_nil]
      exact pure _
  | cons a rest ih =>
      rw [each_cons]
      exact (h a).bind fun _ => ih.bind fun _ => pure _

/-- Repeating a decoder a number of times fails only as the decoder does. -/
theorem times
    {decode : Decoder α} (count : Nat)
    (h : FailsOnly P decode) :
    FailsOnly P (Decoder.times decode count) := by
  induction count with
  | zero =>
      rw [times_zero]
      exact pure _
  | succ count ih =>
      rw [times_succ]
      exact h.bind fun _ => ih.bind fun _ => pure _

end FailsOnly

/-- A read that is served gives as many bytes as it asks for. -/
theorem length_of_take_gives {count : Nat} {bytes : List UInt8}
    (h : (take count).Gives bytes) : bytes.length = count := by
  obtain ⟨buffer, cursor, h⟩ := h
  unfold take at h
  split at h
  · rename_i hroom
    simp only [Except.ok.injEq] at h
    subst h
    simp only [Array.length_toList, Array.size_extract]
    omega
  · split at h <;> simp at h

end Decoder

end ApkFormats
