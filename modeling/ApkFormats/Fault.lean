import ApkFormats.Bytes
import ApkFormats.Text.Malformed
import ApkFormats.Text.Quoted

/-!
# Why decoding stops

A decoder that cannot go on stops with one `Fault`, which names the cause and
holds the numbers involved.  The wording of every cause, its category and the
offset it is reported at are functions of the cause.

* `IndexFault`: an index that is used on a table it points outside of;
* `Fault`: the causes, grouped by the structure whose rule is broken;
* `DecodeError`: a fault as it leaves one of the entry points.  Faults that know
  nothing of the structure being read (the data ends, fixed bytes differ, an
  index dangles) are then told apart by the name of what was being decoded.
-/

namespace ApkFormats

open Text

/-- The tables of a DEX file that an index of the same name points into. -/
inductive RowKind where
  | type
  | field
  | method
  | proto
  deriving DecidableEq, Repr

def RowKind.name : RowKind → String
  | .type => "type"
  | .field => "field"
  | .method => "method"
  | .proto => "proto"

/-- An index that points outside the table it is used on. -/
inductive IndexFault where
  | poolString (index : Int) (count : Nat)
  | dexString (index : Int) (count : Nat)
  | row (kind : RowKind) (index : Int) (count : Nat)
  | resourceType (id : Int) (count : Nat)
  deriving DecidableEq, Repr

def IndexFault.text : IndexFault → String
  | .poolString index count =>
      "string index " ++ hex index ++ s!" out of range (pool has {count} strings)"
  | .dexString index count => "string index " ++ hex index ++ s!" out of range ({count} strings)"
  | .row kind index count =>
      kind.name ++ " index " ++ hex index ++ s!" out of range ({count} entries)"
  | .resourceType id count => s!"type id {id} out of range ({count} types)"

/-- Faults of reading bytes, whatever structure they belong to. -/
inductive StreamFault where
  /-- Fewer bytes are left than the read asks for. -/
  | short (requested : Nat) (available : Int)
  | fixedBytes (expected actual : List UInt8)
  /-- An index stored in the file points outside its table. -/
  | dangling (index : IndexFault)
  deriving DecidableEq, Repr

/-- Wording of a stream fault, without the name of what was being decoded. -/
def StreamFault.text : StreamFault → String
  | .short requested available =>
      s!"requested {requested} bytes, but only {available} bytes available"
  | .fixedBytes expected actual =>
      "expected " ++ quotedBytes expected ++ ", got " ++ quotedBytes actual
  | .dangling index => index.text

inductive ChunkFault where
  | unexpectedType (expected offset actual : Nat)
  /-- Header size and size contradict each other. -/
  | sizes (offset headerSize size : Nat)
  | pastBuffer (offset size bufferSize : Nat)
  deriving DecidableEq, Repr

def ChunkFault.text : ChunkFault → String
  | .unexpectedType expected offset actual =>
      "expected chunk type " ++ hexWide 6 expected ++ " at " ++ hex offset ++ ", got " ++
        hexWide 6 actual
  | .sizes offset headerSize size =>
      "chunk at " ++ hex offset ++ s!" declares header_size={headerSize}, size={size}"
  | .pastBuffer offset size bufferSize =>
      "chunk at " ++ hex offset ++ " (size " ++ hex size ++ ") runs past end of buffer (" ++
        hex bufferSize ++ ")"

/-- Faults of string pools and of the length marks in front of their strings. -/
inductive PoolFault where
  | headerSize (offset declared : Nat)
  | stringCount (offset count : Nat)
  | stringStart (position offset stop : Nat)
  | stringEnd (position length stop : Nat)
  | malformed (position : Nat) (bytes : Malformed)
  | lengthMark (offset : Int) (needed available : Nat)
  deriving DecidableEq, Repr

def PoolFault.text : PoolFault → String
  | .headerSize _ declared => s!"string pool header too small: {declared}"
  | .stringCount offset count =>
      "string pool at " ++ hex offset ++ s!" declares {count} strings, more than fit in the chunk"
  | .stringStart position offset stop =>
      "string offset " ++ hex position ++ " outside pool chunk [" ++ hex offset ++ ", " ++
        hex stop ++ ")"
  | .stringEnd position length stop =>
      "string at " ++ hex position ++ s!" with length {length} runs past pool end " ++ hex stop
  | .malformed position bytes =>
      "malformed " ++ bytes.encoding.name ++ " string at " ++ hex position ++ ": " ++ bytes.text
  | .lengthMark offset needed available =>
      "length prefix at " ++ hex offset ++ s!" needs {needed} bytes, buffer has {available}"

inductive XmlFault where
  | declaredSize (declared bufferSize : Nat)
  | noElement (position : Nat)
  | recordSize (position tag size : Nat)
  | secondRoot (position : Nat) (name : String)
  | unopened (position : Nat)
  | unknownTag (position tag : Nat)
  | attributeRoom (position count : Nat)
  /-- A record names a string that the pool does not hold. -/
  | string (position : Nat) (index : IndexFault)
  /-- The value of an attribute is a string that the pool does not hold. -/
  | attribute (position : Nat) (key : String) (index : IndexFault)
  deriving DecidableEq, Repr

/-- Position of a record in messages, in decimal and in hexadecimal. -/
def XmlFault.place (position : Nat) : String :=
  s!"pos={position}(" ++ hex position ++ ")"

def XmlFault.text : XmlFault → String
  | .declaredSize declared bufferSize =>
      "declared size " ++ hex declared ++ " exceeds buffer size " ++ hex bufferSize
  | .noElement _ => "no start tag found"
  | .recordSize position tag size =>
      place position ++ "[tag:" ++ hex tag ++ s!"] bad record size {size}"
  | .secondRoot position name => place position ++ " second root element <" ++ name ++ ">"
  | .unopened position => place position ++ " end tag without open element"
  | .unknownTag position tag => place position ++ "[tag:" ++ hex tag ++ "]"
  | .attributeRoom position count =>
      place position ++ s!" {count} attributes do not fit in start tag record"
  | .string position index => place position ++ " " ++ index.text
  | .attribute position key index => place position ++ " attribute " ++ key ++ ": " ++ index.text

def XmlFault.offset : XmlFault → Nat
  | .declaredSize _ _ => 4
  | .noElement position => position
  | .recordSize position _ _ => position
  | .secondRoot position _ => position
  | .unopened position => position
  | .unknownTag position _ => position
  | .attributeRoom position _ => position
  | .string position _ => position
  | .attribute position _ _ => position

inductive DexFault where
  | version (bytes : List UInt8)
  | headerSize (declared : Nat)
  | byteOrder (tag : Nat)
  | fileSize (declared bufferSize : Nat)
  | mapSize (count position : Nat)
  | tableSize (table : String) (offset count : Nat)
  | stringSize (offset units left : Nat)
  | leadByte (byte offset position : Nat)
  | continuationByte (byte offset position : Nat)
  | unpairedHigh (offset : Nat)
  | unpairedLow (offset : Nat)
  | memberCount (offset needed left : Nat)
  deriving DecidableEq, Repr

/-- Tag of a file whose numbers are stored with their bytes in reverse order. -/
def reversedByteOrder : Nat := 0x78563412

/-- Size that the header of a DEX file has to declare. -/
def dexHeaderSize : Nat := 0x70

def DexFault.text : DexFault → String
  | .version bytes => "unsupported dex version " ++ quotedBytes bytes
  | .headerSize declared =>
      "header_size is " ++ hex declared ++ ", expected " ++ hex dexHeaderSize
  | .byteOrder tag =>
      let shown :=
        if tag = reversedByteOrder then s!"<EndianConstant.reverse_endian_constant: {tag}>"
        else s!"{tag}"
      "unsupported endian tag " ++ shown
  | .fileSize declared bufferSize =>
      "file_size " ++ hex declared ++ " exceeds buffer size " ++ hex bufferSize
  | .mapSize count _ => s!"map list with {count} items runs past end of file"
  | .tableSize table offset count =>
      table ++ " table at " ++ hex offset ++ s!" with {count} entries runs past end of file"
  | .stringSize offset units left =>
      "string at " ++ hex offset ++
        s!" declares {units} units, more than the {left} bytes left"
  | .leadByte byte offset _ =>
      "bad MUTF-8 lead byte " ++ hex byte ++ " in string at " ++ hex offset
  | .continuationByte byte offset _ =>
      "bad MUTF-8 continuation byte " ++ hex byte ++ " in string at " ++ hex offset
  | .unpairedHigh offset => "unpaired high surrogate in string at " ++ hex offset
  | .unpairedLow offset => "unpaired low surrogate in string at " ++ hex offset
  | .memberCount offset needed left =>
      "class data at " ++ hex offset ++
        s!" declares {needed} bytes of members, only {left} left"

def DexFault.offset : DexFault → Nat
  | .version _ => 4
  | .headerSize _ => 0x24
  | .byteOrder _ => 0x28
  | .fileSize _ _ => 0x20
  | .mapSize _ position => position
  | .tableSize _ offset _ => offset
  | .stringSize offset _ _ => offset
  | .leadByte _ _ position => position
  | .continuationByte _ _ position => position
  | .unpairedHigh offset => offset
  | .unpairedLow offset => offset
  | .memberCount offset _ _ => offset

inductive TableFault where
  | packageBeforePool (position : Nat)
  | unknownChunk (type position : Nat)
  | chunkPastPackage (position stop : Nat)
  | configSize (position size : Nat)
  | configRoom (offset headerSize : Nat)
  | entryCount (offset count : Nat)
  | entryPlace (offset index position : Nat)
  | localeCode (code : List UInt8) (offset : Option Int)
  deriving DecidableEq, Repr

/-- An offset in messages, when there is one. -/
def offsetText : Option Int → String
  | some n => s!"{n}"
  | none => "None"

def TableFault.text : TableFault → String
  | .packageBeforePool position =>
      "package chunk at " ++ hex position ++ " before the global string pool"
  | .unknownChunk type position =>
      "chunk type error: type:" ++ hexWide 6 type ++ s!" at {position}"
  | .chunkPastPackage position stop =>
      "chunk at " ++ hex position ++ " runs past package end " ++ hex stop
  | .configSize position size => "config at " ++ hex position ++ s!" too small: {size}"
  | .configRoom offset headerSize =>
      "type chunk at " ++ hex offset ++ s!": config overruns header ({headerSize} bytes)"
  | .entryCount offset count =>
      "type chunk at " ++ hex offset ++ s!": {count} entry offsets do not fit"
  | .entryPlace offset index position =>
      "type chunk at " ++ hex offset ++ s!": entry {index} at " ++ hex position ++
        " outside chunk"
  | .localeCode code offset =>
      "locale code " ++ quotedBytes code ++ " at " ++ offsetText offset ++ " is not ASCII"

def TableFault.offset : TableFault → Option Int
  | .packageBeforePool position => some position
  | .unknownChunk _ position => some position
  | .chunkPastPackage position _ => some position
  | .configSize position _ => some position
  | .configRoom offset _ => some offset
  | .entryCount offset _ => some offset
  | .entryPlace _ _ position => some position
  | .localeCode _ offset => offset

/-- The cause that stops a decoder. -/
inductive Fault where
  | stream (fault : StreamFault)
  /-- A byte is asked for by its index in too few bytes. -/
  | missingByte
  /-- A LEB128 value goes on after its last possible byte. -/
  | longLeb128 (start : Nat)
  | chunk (fault : ChunkFault)
  | pool (fault : PoolFault)
  | xml (fault : XmlFault)
  | dex (fault : DexFault)
  | table (fault : TableFault)
  deriving DecidableEq, Repr

/-- Greatest number of bytes that a LEB128 value takes. -/
def maxLeb128Bytes : Nat := 5

/-- Wording of a fault, without the name of what was being decoded. -/
def Fault.text : Fault → String
  | .stream fault => fault.text
  | .missingByte => "index out of range"
  | .longLeb128 start =>
      "LEB128 value at " ++ hex start ++ s!" exceeds {maxLeb128Bytes} bytes"
  | .chunk fault => fault.text
  | .pool fault => fault.text
  | .xml fault => fault.text
  | .dex fault => fault.text
  | .table fault => fault.text

/-- The kinds of structural failure that callers tell apart. -/
inductive Category where
  /-- The content breaks a rule of its encoding. -/
  | invalid
  /-- A fixed field has a value it must not have. -/
  | malformedHeader
  /-- Something points or reaches outside the data. -/
  | outOfBounds
  | unknownChunkType (type : Nat)
  | unreadable
  deriving DecidableEq, Repr

/-- Whether the entry points have an error for a fault.

They have one for all that a file can bring about; a missing byte would leave them as it is. -/
def Fault.isTranslated : Fault → Bool
  | .missingByte => false
  | _ => true

/-- Kind of structural failure that a fault is; an untranslated one is of no kind of its own. -/
def Fault.category : Fault → Category
  | .stream (.short _ _) => .outOfBounds
  | .stream (.fixedBytes _ _) => .malformedHeader
  | .stream (.dangling _) => .outOfBounds
  | .missingByte => .invalid
  | .longLeb128 _ => .malformedHeader
  | .chunk (.unexpectedType _ _ _) => .malformedHeader
  | .chunk (.sizes _ _ _) => .malformedHeader
  | .chunk (.pastBuffer _ _ _) => .outOfBounds
  | .pool (.headerSize _ _) => .malformedHeader
  | .pool (.stringCount _ _) => .outOfBounds
  | .pool (.stringStart _ _ _) => .outOfBounds
  | .pool (.stringEnd _ _ _) => .outOfBounds
  | .pool (.malformed _ _) => .invalid
  | .pool (.lengthMark _ _ _) => .outOfBounds
  | .xml _ => .unreadable
  | .dex (.version _) => .malformedHeader
  | .dex (.headerSize _) => .malformedHeader
  | .dex (.byteOrder _) => .malformedHeader
  | .dex (.fileSize _ _) => .outOfBounds
  | .dex (.mapSize _ _) => .outOfBounds
  | .dex (.tableSize _ _ _) => .outOfBounds
  | .dex (.stringSize _ _ _) => .outOfBounds
  | .dex (.leadByte _ _ _) => .invalid
  | .dex (.continuationByte _ _ _) => .invalid
  | .dex (.unpairedHigh _) => .invalid
  | .dex (.unpairedLow _) => .invalid
  | .dex (.memberCount _ _ _) => .outOfBounds
  | .table (.packageBeforePool _) => .malformedHeader
  | .table (.unknownChunk type _) => .unknownChunkType type
  | .table (.chunkPastPackage _ _) => .outOfBounds
  | .table (.configSize _ _) => .malformedHeader
  | .table (.configRoom _ _) => .malformedHeader
  | .table (.entryCount _ _) => .outOfBounds
  | .table (.entryPlace _ _ _) => .outOfBounds
  | .table (.localeCode _ _) => .malformedHeader

def Fault.offset : Fault → Option Int
  | .stream _ => none
  | .missingByte => none
  | .longLeb128 start => some start
  | .chunk (.unexpectedType _ offset _) => some offset
  | .chunk (.sizes offset _ _) => some offset
  | .chunk (.pastBuffer offset _ _) => some offset
  | .pool (.headerSize offset _) => some offset
  | .pool (.stringCount offset _) => some offset
  | .pool (.stringStart position _ _) => some position
  | .pool (.stringEnd position _ _) => some position
  | .pool (.malformed position _) => some position
  | .pool (.lengthMark offset _ _) => some offset
  | .xml fault => some fault.offset
  | .dex fault => some fault.offset
  | .table fault => fault.offset

/-- A fault as it leaves an entry point. -/
structure DecodeError where
  subject : String
  /-- Kind of failure that callers see. -/
  category : Category
  fault : Fault
  deriving DecidableEq, Repr

/-- A fault of decoding `subject`, in its own category. -/
def Fault.within (subject : String) (fault : Fault) : DecodeError :=
  ⟨subject, fault.category, fault⟩

/-- A fault of decoding `subject`, of which callers only see that it cannot be read. -/
def Fault.unreadable (subject : String) (fault : Fault) : DecodeError :=
  ⟨subject, .unreadable, fault⟩

/-- Message of an error: only stream faults need the subject to be told apart. -/
def DecodeError.text (e : DecodeError) : String :=
  match e.fault with
  | .stream fault => e.subject ++ ": " ++ fault.text
  | fault => fault.text

def DecodeError.offset (e : DecodeError) : Option Int :=
  e.fault.offset

end ApkFormats
