import ApkFormats.Bytes
import ApkFormats.Fault
import ApkFormats.Note

/-!
# Decoders

A decoder reads a buffer from a cursor on.  It ends with a value or a fault, and
in both cases with a cursor and with the notes it took.  The cursor may be
placed beyond the end of the buffer: only a read there fails.

Decoders form a monad in which a fault ends the run where it happens; the laws
are `Decoder.instLawfulMonad`.  `each` and `times` repeat a decoder; `each_cons`
and `times_succ` say that they run it once and then repeat it.
-/

namespace ApkFormats

/-- How a decoder ends. -/
structure Outcome (α : Type) where
  result : Except Fault α
  cursor : Nat
  notes : List Note

/-- Reads a value from a buffer, from a cursor on. -/
def Decoder (α : Type) : Type :=
  Bytes → Nat → Outcome α

namespace Decoder

variable {α β : Type}

/-- Runs one decoder after another, unless the first one fails. -/
def andThen (d : Decoder α) (next : α → Decoder β) : Decoder β := fun buffer cursor =>
  match d buffer cursor with
  | ⟨.ok a, stop, notes⟩ =>
      let rest := next a buffer stop
      ⟨rest.result, rest.cursor, notes ++ rest.notes⟩
  | ⟨.error fault, stop, notes⟩ => ⟨.error fault, stop, notes⟩

instance : Monad Decoder where
  pure a := fun _ cursor => ⟨.ok a, cursor, []⟩
  bind := andThen

theorem pure_apply (a : α) (buffer : Bytes) (cursor : Nat) :
    (pure a : Decoder α) buffer cursor = ⟨.ok a, cursor, []⟩ := rfl

theorem bind_apply (d : Decoder α) (next : α → Decoder β) (buffer : Bytes) (cursor : Nat) :
    (d >>= next) buffer cursor = andThen d next buffer cursor := rfl

theorem id_map_decoder (d : Decoder α) : id <$> d = d := by
  funext buffer cursor
  change andThen d (fun a => pure (id a)) buffer cursor = d buffer cursor
  unfold andThen
  rcases d buffer cursor with ⟨_ | a, stop, notes⟩ <;> simp [pure_apply]

theorem pure_bind_decoder (a : α) (next : α → Decoder β) : pure a >>= next = next a := by
  funext buffer cursor
  simp [bind_apply, andThen, pure_apply]

theorem bind_assoc_decoder {γ : Type} (d : Decoder α) (f : α → Decoder β) (g : β → Decoder γ) :
    d >>= f >>= g = d >>= fun a => f a >>= g := by
  funext buffer cursor
  simp only [bind_apply, andThen]
  rcases d buffer cursor with ⟨_ | a, stop, notes⟩
  · rfl
  · rcases h : f a buffer stop with ⟨_ | b, stop', notes'⟩ <;> simp [h]

instance instLawfulMonad : LawfulMonad Decoder :=
  LawfulMonad.mk' Decoder id_map_decoder pure_bind_decoder bind_assoc_decoder

def fail (fault : Fault) : Decoder α := fun _ cursor =>
  ⟨.error fault, cursor, []⟩

/-- Goes on only when a condition holds. -/
def require (condition : Bool) (fault : Fault) : Decoder Unit :=
  if condition then pure () else fail fault

/-- The value of a computation that looked up indices of the file. -/
def resolved : Except IndexFault α → Decoder α
  | .ok a => pure a
  | .error index => fail (.stream (.dangling index))

def note (n : Note) : Decoder Unit := fun _ cursor =>
  ⟨.ok (), cursor, [n]⟩

def position : Decoder Nat := fun _ cursor =>
  ⟨.ok cursor, cursor, []⟩

def bufferSize : Decoder Nat := fun buffer cursor =>
  ⟨.ok buffer.size, cursor, []⟩

def goTo (target : Nat) : Decoder Unit := fun _ _ =>
  ⟨.ok (), target, []⟩

/-- From this many bytes on, a read that cannot be served leaves the cursor where it is. -/
def largeRead : Nat := 0x800000

/-- Takes the next `count` bytes.

A read that cannot be served says how many bytes are left.  A small one has by
then used them up; a large one has not touched them, and counts how far the
cursor lies beyond the end. -/
def take (count : Nat) : Decoder (List UInt8) := fun buffer cursor =>
  if count = 0 ∨ cursor + count ≤ buffer.size then
    ⟨.ok (buffer.extract cursor (cursor + count)).toList, cursor + count, []⟩
  else if count < largeRead then
    ⟨.error (.stream (.short count ((buffer.size - cursor : Nat) : Int))),
      max cursor buffer.size, []⟩
  else
    ⟨.error (.stream (.short count ((buffer.size : Int) - cursor))), cursor, []⟩

def byte : Decoder UInt8 := fun buffer cursor =>
  if inside : cursor < buffer.size then ⟨.ok buffer[cursor], cursor + 1, []⟩
  else ⟨.error (.stream (.short 1 0)), cursor, []⟩

def number (width : Nat) : Decoder Nat := do
  let bytes ← take width
  pure (littleEndian bytes)

def u8 : Decoder Nat := do
  let b ← byte
  pure b.toNat

def u16 : Decoder Nat := number 2

def u32 : Decoder Nat := number 4

def fixed (expected : List UInt8) : Decoder Unit := do
  let actual ← take expected.length
  require (actual == expected) (.stream (.fixedBytes expected actual))

/-- Reads what an offset points to, of which there is nothing at offset zero. -/
def atOffset (offset : Nat) (decode : Decoder α) : Decoder (Option α) :=
  if offset = 0 then pure none
  else do
    goTo offset
    let a ← decode
    pure (some a)

/-- Runs a decoder for the items of a list, on top of the values and notes got so far.

Both are held in reverse, so that the loop needs no stack. -/
def eachFrom (decode : α → Decoder β) (buffer : Bytes) :
    List α → (cursor : Nat) → (done : List β) → (seen : List Note) → Outcome (List β)
  | [], cursor, done, seen => ⟨.ok done.reverse, cursor, seen.reverse⟩
  | a :: rest, cursor, done, seen =>
      match decode a buffer cursor with
      | ⟨.ok b, stop, notes⟩ =>
          eachFrom decode buffer rest stop (b :: done) (notes.reverse ++ seen)
      | ⟨.error fault, stop, notes⟩ => ⟨.error fault, stop, seen.reverse ++ notes⟩

/-- Runs a decoder for each item of a list, in order. -/
def each (decode : α → Decoder β) (items : List α) : Decoder (List β) := fun buffer cursor =>
  eachFrom decode buffer items cursor [] []

/-- Runs a decoder a number of times, on top of the values and notes got so far. -/
def timesFrom (decode : Decoder α) (buffer : Bytes) :
    (count : Nat) → (cursor : Nat) → (done : List α) → (seen : List Note) → Outcome (List α)
  | 0, cursor, done, seen => ⟨.ok done.reverse, cursor, seen.reverse⟩
  | count + 1, cursor, done, seen =>
      match decode buffer cursor with
      | ⟨.ok a, stop, notes⟩ =>
          timesFrom decode buffer count stop (a :: done) (notes.reverse ++ seen)
      | ⟨.error fault, stop, notes⟩ => ⟨.error fault, stop, seen.reverse ++ notes⟩

def times (decode : Decoder α) (count : Nat) : Decoder (List α) := fun buffer cursor =>
  timesFrom decode buffer count cursor [] []

/-- An outcome behind values and notes that were got before it. -/
def behind (done : List α) (seen : List Note) (o : Outcome (List α)) : Outcome (List α) :=
  ⟨o.result.map (done.reverse ++ ·), o.cursor, seen.reverse ++ o.notes⟩

theorem eachFrom_eq_behind (decode : α → Decoder β) (buffer : Bytes) (items : List α)
    (cursor : Nat) (done : List β) (seen : List Note) :
    eachFrom decode buffer items cursor done seen =
      behind done seen (eachFrom decode buffer items cursor [] []) := by
  induction items generalizing cursor done seen with
  | nil => simp [eachFrom, behind, Except.map]
  | cons a rest ih =>
      rcases h : decode a buffer cursor with ⟨_ | b, stop, notes⟩
      · simp [eachFrom, behind, Except.map, h]
      · simp only [eachFrom, h]
        rw [ih stop (b :: done), ih stop [b]]
        rcases (eachFrom decode buffer rest stop [] []) with ⟨_ | bs, stop', notes'⟩ <;>
          simp [behind, Except.map]

theorem timesFrom_eq_behind (decode : Decoder α) (buffer : Bytes) (count cursor : Nat)
    (done : List α) (seen : List Note) :
    timesFrom decode buffer count cursor done seen =
      behind done seen (timesFrom decode buffer count cursor [] []) := by
  induction count generalizing cursor done seen with
  | zero => simp [timesFrom, behind, Except.map]
  | succ count ih =>
      rcases h : decode buffer cursor with ⟨_ | a, stop, notes⟩
      · simp [timesFrom, behind, Except.map, h]
      · simp only [timesFrom, h]
        rw [ih stop (a :: done), ih stop [a]]
        rcases (timesFrom decode buffer count stop [] []) with ⟨_ | as, stop', notes'⟩ <;>
          simp [behind, Except.map]

theorem each_nil (decode : α → Decoder β) : each decode [] = pure [] := rfl

theorem each_cons (decode : α → Decoder β) (a : α) (rest : List α) :
    each decode (a :: rest) = (do
      let b ← decode a
      let bs ← each decode rest
      pure (b :: bs)) := by
  funext buffer cursor
  simp only [each, eachFrom, bind_apply, andThen]
  rcases decode a buffer cursor with ⟨_ | b, stop, notes⟩
  · simp
  · simp only
    rw [eachFrom_eq_behind]
    rcases (eachFrom decode buffer rest stop [] []) with ⟨_ | bs, stop', notes'⟩ <;>
      simp [behind, Except.map, pure_apply]

theorem times_zero (decode : Decoder α) : times decode 0 = pure [] := rfl

theorem times_succ (decode : Decoder α) (count : Nat) :
    times decode (count + 1) = (do
      let a ← decode
      let as ← times decode count
      pure (a :: as)) := by
  funext buffer cursor
  simp only [times, timesFrom, bind_apply, andThen]
  rcases decode buffer cursor with ⟨_ | a, stop, notes⟩
  · simp
  · simp only
    rw [timesFrom_eq_behind]
    rcases (timesFrom decode buffer count stop [] []) with ⟨_ | as, stop', notes'⟩ <;>
      simp [behind, Except.map, pure_apply]

end Decoder

/-- The end of a run as callers see it, when it decoded `subject`. -/
def Outcome.within {α : Type} (subject : String) (o : Outcome α) : Except DecodeError α :=
  o.result.mapError (Fault.within subject)

/-- Why decoding at a position chosen from outside gives nothing. -/
inductive PlacedError where
  | position (target : Int)
  | decode (error : DecodeError)
  deriving DecidableEq, Repr

def PlacedError.text : PlacedError → String
  | .position target => s!"cannot seek to invalid position {target}"
  | .decode error => error.text

/-- Decodes `subject` at a chosen position, and gives the cursor afterwards too. -/
def Decoder.runAt {α : Type} (subject : String) (d : Decoder α) (buffer : Bytes) (target : Int) :
    Except PlacedError (α × Nat) :=
  match target with
  | .ofNat start =>
      let o := d buffer start
      match o.within subject with
      | .ok a => .ok (a, o.cursor)
      | .error error => .error (.decode error)
  | .negSucc _ => .error (.position target)

end ApkFormats
