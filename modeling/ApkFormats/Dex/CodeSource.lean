import ApkFormats.Dex.ClassData

/-!
# Writing code of methods

A `CodeSource` holds what the code of a method consists of, without the numbers
that follow from it.  `CodeSource.toCode` is the code that it stands for, and
`CodeSource.encode` its bytes; debug information is written at an offset of its
own.
-/

namespace ApkFormats.Dex

/-- The handlers of a guarded range as they are written. -/
structure HandlerSource where
  typed : List TypedHandler
  /-- First instruction of the handler for everything else. -/
  catchAll : Option Nat
  deriving DecidableEq, Repr

namespace HandlerSource

/-- The length that is stored: negative when a handler for everything else follows. -/
def size (h : HandlerSource) : Int :=
  match h.catchAll with
  | some _ => -(h.typed.length : Int)
  | none => h.typed.length

def toHandlers (h : HandlerSource) : Handlers :=
  ⟨h.size, h.typed, h.catchAll⟩

def encode (h : HandlerSource) : List UInt8 :=
  Leb128.encodeSigned h.size ++
    h.typed.flatMap (fun t => Leb128.encodeUnsigned t.type ++ Leb128.encodeUnsigned t.address) ++
    h.catchAll.toList.flatMap Leb128.encodeUnsigned

/-- The bytes of the handlers of all ranges, behind their number. -/
def encodeAll (all : List HandlerSource) : List UInt8 :=
  Leb128.encodeUnsigned all.length ++ all.flatMap encode

end HandlerSource

/-- Debug information as it is written. -/
structure DebugSource where
  lineStart : Nat
  /-- Indices of the parameters' names, none for an unnamed one. -/
  parameterNames : List (Option Nat)
  deriving DecidableEq, Repr

namespace DebugSource

/-- The number that stands for a name: its index, or `-1`. -/
def nameIndex : Option Nat → Int
  | some index => index
  | none => -1

def toDebugInfo (d : DebugSource) : DebugInfo :=
  ⟨d.lineStart, d.parameterNames.length, d.parameterNames.map nameIndex⟩

/-- The bytes of debug information up to the names of the parameters. -/
def encode (d : DebugSource) : List UInt8 :=
  Leb128.encodeUnsigned d.lineStart ++ Leb128.encodeUnsigned d.parameterNames.length ++
    d.parameterNames.flatMap fun name => Leb128.encodeUnsigned (nameIndex name + 1).toNat

end DebugSource

structure CodeSource where
  registers : Nat
  /-- Number of words of incoming arguments. -/
  ins : Nat
  /-- Number of words of outgoing arguments. -/
  outs : Nat
  instructions : List Nat
  tries : List TryRange
  /-- Handlers of the ranges; without ranges they are not written. -/
  handlers : List HandlerSource
  debug : Option DebugSource
  deriving DecidableEq, Repr

namespace CodeSource

/-- The code that is written when its debug information stands at an offset. -/
def toCode (c : CodeSource) (debugOffset : Nat) : Code :=
  ⟨c.registers, c.ins, c.outs, c.tries.length, debugOffset, c.instructions.length, c.instructions,
    c.tries, if c.tries.isEmpty then none else some (c.handlers.map HandlerSource.toHandlers),
    c.debug.map DebugSource.toDebugInfo⟩

def encodeRange (t : TryRange) : List UInt8 :=
  wordBytes [t.start] ++ halfWordBytes [t.count, t.handlerOffset]

/-- The bytes of the ranges and their handlers, of which there are none without ranges. -/
def encodeTries (c : CodeSource) : List UInt8 :=
  if c.tries.isEmpty then []
  else
    List.replicate (2 * (c.instructions.length % 2)) 0 ++ c.tries.flatMap encodeRange ++
      HandlerSource.encodeAll c.handlers

/-- The bytes of a code item whose debug information stands at an offset. -/
def encode (c : CodeSource) (debugOffset : Nat) : List UInt8 :=
  halfWordBytes [c.registers, c.ins, c.outs, c.tries.length] ++
    wordBytes [debugOffset, c.instructions.length] ++ halfWordBytes c.instructions ++ c.encodeTries

end CodeSource

end ApkFormats.Dex
