import ApkFormats.StringPool

/-!
# Typed values

Attributes of documents and entries of resource tables hold a value as a type
byte and a 32-bit number.  `Value.ofTyped` gives the value that they stand for
and `Value.shown` its textual form; types without a form of their own keep the
number together with the flags it came with.
-/

namespace ApkFormats

open Text

inductive Value where
  | text (s : String)
  | reference (id : Int)
  | decimal (n : Int)
  | hexadecimal (n : Int)
  | boolean (b : Bool)
  | null
  /-- A number of any other type, with its type flags. -/
  | raw (data flags : Int)
  deriving DecidableEq, Repr

namespace Value

def shown : Value → String
  | .text s => s
  | .reference id => "@0x" ++ hexBare 8 id
  | .decimal n => s!"{n}"
  | .hexadecimal n => "0x" ++ hexBare 0 n
  | .boolean b => if b then "true" else "false"
  | .null => ""
  | .raw data flags => "[0x" ++ hexBare 0 data ++ ", flag=0x" ++ hexBare 0 flags ++ "]"

/-- Whether a number stands for truth. -/
def isTrue (data : Int) : Bool :=
  data == 1 || data == 0xFFFFFFFF

/-- The value of a type byte and a number, when strings are not looked up. -/
def ofNumber (type data flags : Int) : Value :=
  if type = 0x00 then .null
  else if type = 0x01 then .reference data
  else if type = 0x10 then .decimal data
  else if type = 0x11 then .hexadecimal data
  else if type = 0x12 then .boolean (isTrue data)
  else .raw data flags

def stringType : Int := 0x03

/-- The value of a type byte and a number.

Strings are looked up in a pool where there is one and are not resolved
otherwise. -/
def ofTyped (type data flags : Int) (strings : Option StringPool) : Except IndexFault Value :=
  match strings with
  | some pool =>
      if type = stringType then (pool.stringAt data).map .text
      else .ok (ofNumber type data flags)
  | none => .ok (ofNumber type data flags)

/-- The flags that a bare type byte stands for. -/
def flagsOfType (type : Int) : Int :=
  type * 0x1000000

/-- The value of an attribute: its raw string where it has one, else its typed value. -/
def ofAttribute (rawString flags data : Int) (pool : StringPool) : Except IndexFault Value :=
  if rawString = noIndex then .ok (ofNumber (flags / 0x1000000) data flags)
  else (pool.stringAt rawString).map .text

end Value

end ApkFormats
