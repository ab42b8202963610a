import ApkFormats.Text.Hex

/-!
# Access flags

Classes, fields and methods carry a word of access flags.  Two of the bits mean
one thing on classes and fields and another on methods.
-/

namespace ApkFormats.Dex

/-- What a word of flags belongs to. -/
inductive FlagOwner where
  | ofClass
  | ofMethod
  deriving DecidableEq, Repr

structure AccessFlags where
  owner : FlagOwner
  bits : Int
  deriving DecidableEq, Repr

/-- Position and name of every flag, in the order in which flags are listed. -/
def FlagOwner.flagNames (owner : FlagOwner) : List (Nat × String) :=
  let (bit6, bit7) :=
    match owner with
    | .ofClass => ("volatile", "transient")
    | .ofMethod => ("bridge", "varargs")
  [(0, "public"), (1, "private"), (2, "protected"), (3, "static"), (4, "final"),
    (5, "synchronized"), (6, bit6), (7, bit7), (8, "native"), (9, "interface"), (10, "abstract"),
    (11, "strict"), (12, "synthetic"), (13, "annotation"), (14, "enum"), (16, "constructor"),
    (17, "declared-synchronized")]

/-- Name of the flags of an owner in descriptions. -/
def FlagOwner.name : FlagOwner → String
  | .ofClass => "ClassAccessFlag"
  | .ofMethod => "MethodAccessFlag"

namespace AccessFlags

/-- Whether a bit is set; negative numbers count as infinite two's complement. -/
def hasBit (bits : Int) (position : Nat) : Bool :=
  (bits >>> position) % 2 == 1

/-- Names of the flags that are set. -/
def names (f : AccessFlags) : List String :=
  (f.owner.flagNames.filter fun flag => hasBit f.bits flag.1).map Prod.snd

/-- The flags that are set, one after the other. -/
def text (f : AccessFlags) : String :=
  " ".intercalate f.names

def summary (f : AccessFlags) : String :=
  "<" ++ f.owner.name ++ " " ++ Text.hex f.bits ++ " " ++ f.text ++ ">"

end AccessFlags

end ApkFormats.Dex
