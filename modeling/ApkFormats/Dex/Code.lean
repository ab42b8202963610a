import ApkFormats.Leb128

/-!
# Code of methods

A code item holds the instructions of a method, the ranges of them that are
guarded, the handlers of those ranges, and the offset of its debug information.
Of the latter only the first line and the names of the parameters are decoded.

A list of handlers has a signed length: when it is not positive, a handler for
everything else follows the ones for single types.
-/

namespace ApkFormats.Dex

/-- Reads a list of type indices behind its length. -/
def readTypeList : Decoder (List Nat) := do
  let size ← Decoder.u32
  let bytes ← Decoder.take (2 * size)
  pure (halfWords bytes)

/-- A guarded range of instructions. -/
structure TryRange where
  start : Nat
  /-- Number of instruction units. -/
  count : Nat
  /-- Offset of the handlers in their list. -/
  handlerOffset : Nat
  deriving DecidableEq, Repr

def TryRange.read : Decoder TryRange := do
  let start ← Decoder.u32
  let count ← Decoder.u16
  let handlerOffset ← Decoder.u16
  pure ⟨start, count, handlerOffset⟩

/-- The handler of one type of exceptions. -/
structure TypedHandler where
  type : Nat
  address : Nat
  deriving DecidableEq, Repr

def TypedHandler.read : Decoder TypedHandler := do
  let type ← Leb128.unsigned
  let address ← Leb128.unsigned
  pure ⟨type, address⟩

/-- The handlers of a guarded range. -/
structure Handlers where
  /-- Signed length as it is stored. -/
  size : Int
  typed : List TypedHandler
  /-- First instruction of the handler for everything else. -/
  catchAll : Option Nat
  deriving DecidableEq, Repr

def Handlers.read : Decoder Handlers := do
  let size ← Leb128.signed
  let typed ← Decoder.times TypedHandler.read size.natAbs
  if size ≤ 0 then do
    let address ← Leb128.unsigned
    pure ⟨size, typed, some address⟩
  else pure ⟨size, typed, none⟩

def Handlers.readAll : Decoder (List Handlers) := do
  let size ← Leb128.unsigned
  Decoder.times Handlers.read size

/-- What is decoded of debug information. -/
structure DebugInfo where
  lineStart : Nat
  parameterCount : Nat
  /-- Indices of the parameters' names, `-1` for an unnamed one. -/
  parameterNames : List Int
  deriving DecidableEq, Repr

/-- Reads debug information up to the names of the parameters. -/
def DebugInfo.read : Decoder DebugInfo := do
  let lineStart ← Leb128.unsigned
  let parameterCount ← Leb128.unsigned
  let parameterNames ← Decoder.times Leb128.unsignedMinusOne parameterCount
  pure ⟨lineStart, parameterCount, parameterNames⟩

structure Code where
  registers : Nat
  /-- Number of words of incoming arguments. -/
  ins : Nat
  /-- Number of words of outgoing arguments. -/
  outs : Nat
  tryCount : Nat
  /-- Offset of the debug information, or zero. -/
  debugOffset : Nat
  /-- Declared number of instruction units. -/
  unitCount : Nat
  instructions : List Nat
  tries : List TryRange
  handlers : Option (List Handlers)
  debug : Option DebugInfo
  deriving DecidableEq, Repr

namespace Code

/-- Passes over the two bytes that bring the ranges to a multiple of four. -/
def skipPadding (unitCount : Nat) : Decoder Unit :=
  if unitCount % 2 = 1 then do
    let _ ← Decoder.u16
    pure ()
  else pure ()

/-- Reads the guarded ranges and their handlers, of which there are none without ranges. -/
def readTries (tryCount unitCount : Nat) : Decoder (List TryRange × Option (List Handlers)) :=
  if tryCount = 0 then pure ([], none)
  else do
    skipPadding unitCount
    let tries ← Decoder.times TryRange.read tryCount
    let handlers ← Handlers.readAll
    pure (tries, some handlers)

/-- Reads the code of a method; the cursor ends after the part that was read last. -/
def read : Decoder Code := do
  let registers ← Decoder.u16
  let ins ← Decoder.u16
  let outs ← Decoder.u16
  let tryCount ← Decoder.u16
  let debugOffset ← Decoder.u32
  let unitCount ← Decoder.u32
  let bytes ← Decoder.take (2 * unitCount)
  let (tries, handlers) ← readTries tryCount unitCount
  let debug ← Decoder.atOffset debugOffset DebugInfo.read
  pure ⟨registers, ins, outs, tryCount, debugOffset, unitCount, halfWords bytes, tries, handlers,
    debug⟩

end Code

end ApkFormats.Dex
