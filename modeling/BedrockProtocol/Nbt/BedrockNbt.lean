import BedrockProtocol.BinaryStream
import BedrockProtocol.Lib.FloatBits

/-!
# The NBT codec

`BedrockNbt.cpp`: a tree of tagged values in two encodings.  `LittleEndian` has
fixed-width integers and lengths, `LittleVarInt` has zigzag varints for integers
and collection lengths and a varint for string lengths.  Reader and writer each
check nesting depth, the total number of values and every length against the
same limits.
-/

namespace BedrockProtocol

inductive NbtTagType
  | endTag
  | byte
  | short
  | int
  | long
  | float
  | double
  | byteArray
  | string
  | list
  | compound
  | intArray
  | longArray
  deriving DecidableEq, Repr

namespace NbtTagType

def toByte : NbtTagType → UInt8
  | endTag => 0
  | byte => 1
  | short => 2
  | int => 3
  | long => 4
  | float => 5
  | double => 6
  | byteArray => 7
  | string => 8
  | list => 9
  | compound => 10
  | intArray => 11
  | longArray => 12

/-- The tag types in the order of their bytes. -/
def all : List NbtTagType :=
  [endTag, byte, short, int, long, float, double, byteArray, string, list, compound, intArray,
    longArray]

end NbtTagType

/-- A value of any tag; each tag uses its own fields and leaves the others.  A
floating value is the bit pattern of a double, a string is its bytes. -/
structure NbtValue where
  type : NbtTagType := .endTag
  integerValue : Int64 := 0
  floatingValue : UInt64 := 0
  stringValue : List UInt8 := []
  byteArrayValue : List UInt8 := []
  listElementType : NbtTagType := .endTag
  listValue : List NbtValue := []
  compoundValue : List (List UInt8 × NbtValue) := []
  intArrayValue : List Int32 := []
  longArrayValue : List Int64 := []

namespace NbtValue

def integer (value : Int32) : NbtValue := { type := .int, integerValue := .ofInt value.toInt }

def string (value : List UInt8) : NbtValue := { type := .string, stringValue := value }

def compound (value : List (List UInt8 × NbtValue)) : NbtValue :=
  { type := .compound, compoundValue := value }

/-- The first child of a compound with the given name. -/
def find (value : NbtValue) (name : List UInt8) : Option NbtValue :=
  if value.type = .compound then
    (value.compoundValue.find? fun child ↦ child.1 = name).map Prod.snd
  else none

end NbtValue

structure NbtDocument where
  name : List UInt8
  root : NbtValue

inductive BedrockNbtEncoding
  | littleEndian
  | littleVarInt
  deriving DecidableEq, Repr

structure BedrockNbtLimits where
  maxDepth : ℕ := 64
  maxStringBytes : ℕ := 16 * 1024 * 1024
  maxCollectionLength : ℕ := 16 * 1024 * 1024
  maxTotalValues : ℕ := 32 * 1024 * 1024
  deriving DecidableEq, Repr

namespace BedrockNbt

open BinaryStream

def checkedTagType (raw : UInt8) : Except String NbtTagType :=
  match NbtTagType.all[raw.toNat]? with
  | some type => .ok type
  | none => .error ("unsupported NBT tag type: " ++ toString raw.toNat)

section Codec

variable (encoding : BedrockNbtEncoding) (limits : BedrockNbtLimits)

/-- The count of values after one more. -/
def accountValue (total : ℕ) : Except String ℕ :=
  if total = limits.maxTotalValues then .error "NBT value count exceeds configured limit"
  else .ok (total + 1)

/-! ## Integers, lengths and strings -/

def readInt32 : Reader ℤ :=
  match encoding with
  | .littleVarInt => (fun encoded ↦ toSigned 32 (decodeZigZag 32 encoded)) <$> readVarUInt
  | .littleEndian => readSigned 4

def readInt64 : Reader ℤ :=
  match encoding with
  | .littleVarInt => (fun encoded ↦ toSigned 64 (decodeZigZag 64 encoded)) <$> readVarULong
  | .littleEndian => readSigned 8

def writeInt32 (value : ℤ) : List UInt8 :=
  match encoding with
  | .littleVarInt => writeVarUInt (encodeZigZag 32 (toUnsigned 32 value))
  | .littleEndian => writeSigned 4 value

def writeInt64 (value : ℤ) : List UInt8 :=
  match encoding with
  | .littleVarInt => writeVarULong (encodeZigZag 64 (toUnsigned 64 value))
  | .littleEndian => writeSigned 8 value

/-- The length a reader accepts. -/
def checkedReadLength (value : ℤ) : Except String ℕ :=
  if value < 0 then .error "negative NBT collection length"
  else if limits.maxCollectionLength < value.toNat then
    .error "NBT collection length exceeds configured limit"
  else .ok value.toNat

/-- The length a writer accepts. -/
def checkedWriteLength (value : ℕ) : Except String ℤ :=
  if limits.maxCollectionLength < value ∨ 2 ^ 31 - 1 < value then
    .error "NBT collection is too large to encode"
  else .ok value

def readStringLength : Reader ℕ :=
  match encoding with
  | .littleVarInt => readVarUInt
  | .littleEndian => readWord 2

def readString (tagName : Bool) : Reader (List UInt8) := do
  let length ← readStringLength encoding
  if limits.maxStringBytes < length then throw "NBT string length exceeds configured limit"
  else if (← Reader.remaining) < length then throw "NBT string length exceeds remaining input"
  else
    let value ← readBytes length
    if tagName ∧ 0 ∈ value then throw "NBT tag name contains an embedded null byte"
    else pure value

def writeString (value : List UInt8) (tagName : Bool) : Except String (List UInt8) :=
  if limits.maxStringBytes < value.length then .error "NBT string length exceeds configured limit"
  else if tagName ∧ 0 ∈ value then .error "NBT tag name contains an embedded null byte"
  else
    match encoding with
    | .littleVarInt =>
        if 2 ^ 32 - 1 < value.length then .error "NBT string is too large to encode"
        else .ok (writeVarUInt value.length ++ value)
    | .littleEndian =>
        if 2 ^ 16 - 1 < value.length then .error "little-endian NBT string exceeds uint16 length"
        else .ok (leBytes 2 value.length ++ value)

/-! ## Reading -/

/-- The elements of a list, one payload after the other. -/
def readItems (readItem : ℕ → Reader (NbtValue × ℕ)) : ℕ → ℕ → Reader (List NbtValue × ℕ)
  | 0, total => pure ([], total)
  | length + 1, total => do
      let (item, total) ← readItem total
      let (items, total) ← readItems readItem length total
      pure (item :: items, total)

/-- The children of a compound up to its end tag.  Every turn takes a byte, so
one turn more than there are bytes is enough. -/
def readChildren (readChild : NbtTagType → ℕ → Reader (NbtValue × ℕ)) :
    ℕ → ℕ → Reader (List (List UInt8 × NbtValue) × ℕ)
  | 0, _ => throw "not enough bytes in BinaryStream"
  | fuel + 1, total => do
      let raw ← readU8
      let childType ← checkedTagType raw
      if childType = .endTag then pure ([], total)
      else
        let childName ← readString encoding limits true
        let (child, total) ← readChild childType total
        let (children, total) ← readChildren readChild fuel total
        pure ((childName, child) :: children, total)

/-- The `switch` of `readPayload`; `readNested` reads a payload one level down. -/
def readBody (readNested : NbtTagType → ℕ → Reader (NbtValue × ℕ)) (type : NbtTagType)
    (total : ℕ) : Reader (NbtValue × ℕ) :=
  match type with
  | .endTag => pure ({}, total)
  | .byte => do
      let value ← readSigned 1
      pure ({ type := .byte, integerValue := .ofInt value }, total)
  | .short => do
      let value ← readSigned 2
      pure ({ type := .short, integerValue := .ofInt value }, total)
  | .int => do
      let value ← readInt32 encoding
      pure ({ type := .int, integerValue := .ofInt value }, total)
  | .long => do
      let value ← readInt64 encoding
      pure ({ type := .long, integerValue := .ofInt value }, total)
  | .float => do
      let bits ← readWord 4
      pure ({ type := .float, floatingValue := widen (.ofNat bits) }, total)
  | .double => do
      let bits ← readWord 8
      pure ({ type := .double, floatingValue := .ofNat bits }, total)
  | .byteArray => do
      let value ← readInt32 encoding
      let length ← checkedReadLength limits value
      if (← Reader.remaining) < length then throw "NBT byte array exceeds remaining input"
      else
        let bytes ← readBytes length
        pure ({ type := .byteArray, byteArrayValue := bytes }, total)
  | .string => do
      let value ← readString encoding limits false
      pure ({ type := .string, stringValue := value }, total)
  | .list => do
      let raw ← readU8
      let elementType ← checkedTagType raw
      let value ← readInt32 encoding
      let length ← checkedReadLength limits value
      if elementType = .endTag ∧ length ≠ 0 then
        throw "non-empty NBT list cannot use TAG_End elements"
      else
        let (items, total) ← readItems (readNested elementType) length total
        pure ({ type := .list, listElementType := elementType, listValue := items }, total)
  | .compound => do
      let turns ← Reader.remaining
      let (children, total) ← readChildren encoding limits readNested (turns + 1) total
      pure ({ type := .compound, compoundValue := children }, total)
  -- The elements of an array have a fixed width in both encodings.
  | .intArray => do
      let value ← readInt32 encoding
      let length ← checkedReadLength limits value
      if (← Reader.remaining) / 4 < length then throw "NBT int array exceeds remaining input"
      else
        let items ← Reader.many (readSigned 4) length
        pure ({ type := .intArray, intArrayValue := items.map .ofInt }, total)
  | .longArray => do
      let value ← readInt32 encoding
      let length ← checkedReadLength limits value
      if (← Reader.remaining) / 8 < length then throw "NBT long array exceeds remaining input"
      else
        let items ← Reader.many (readSigned 8) length
        pure ({ type := .longArray, longArrayValue := items.map .ofInt }, total)

/-- The payload of a tag and the new count of values.  `levels` is how many
levels of nesting are left, `maxDepth + 1 - depth`. -/
def readPayload : ℕ → NbtTagType → ℕ → Reader (NbtValue × ℕ)
  | 0, _, _ => throw "NBT nesting depth exceeds configured limit"
  | levels + 1, type, total => do
      let total ← accountValue limits total
      readBody encoding limits (readPayload levels) type total

def read : Reader NbtDocument := do
  let raw ← readU8
  let type ← checkedTagType raw
  if type = .endTag then pure ⟨[], {}⟩
  else
    let name ← readString encoding limits true
    let (root, _) ← readPayload encoding limits (limits.maxDepth + 1) type 0
    pure ⟨name, root⟩

/-! ## Writing -/

def checkedInteger (bits : ℕ) (value : Int64) (tagName : String) : Except String ℤ :=
  if InSigned bits value.toInt then .ok value.toInt
  else .error ("NBT " ++ tagName ++ " value is out of range")

mutual

/-- The bytes of a payload and the new count of values. -/
def writePayload (depth total : ℕ) (value : NbtValue) : Except String (List UInt8 × ℕ) :=
  match value with
  | ⟨type, integerValue, floatingValue, stringValue, byteArrayValue, listElementType, listValue,
      compoundValue, intArrayValue, longArrayValue⟩ =>
    if limits.maxDepth < depth then .error "NBT nesting depth exceeds configured limit"
    else do
      let total ← accountValue limits total
      match type with
      | .endTag => pure ([], total)
      | .byte => do
          let value ← checkedInteger 8 integerValue "byte"
          pure (writeSigned 1 value, total)
      | .short => do
          let value ← checkedInteger 16 integerValue "short"
          pure (writeSigned 2 value, total)
      | .int => do
          let value ← checkedInteger 32 integerValue "int"
          pure (writeInt32 encoding value, total)
      | .long => pure (writeInt64 encoding integerValue.toInt, total)
      | .float => pure (leBytes 4 (narrow floatingValue).toNat, total)
      | .double => pure (leBytes 8 floatingValue.toNat, total)
      | .byteArray => do
          let length ← checkedWriteLength limits byteArrayValue.length
          pure (writeInt32 encoding length ++ byteArrayValue, total)
      | .string => do
          let bytes ← writeString encoding limits stringValue false
          pure (bytes, total)
      | .list =>
          if listElementType = .endTag ∧ listValue ≠ [] then
            .error "non-empty NBT list cannot use TAG_End elements"
          else do
            let length ← checkedWriteLength limits listValue.length
            let (items, total) ← writeItems (depth + 1) total listElementType listValue
            pure (listElementType.toByte :: (writeInt32 encoding length ++ items), total)
      | .compound =>
          if limits.maxCollectionLength < compoundValue.length then
            .error "NBT compound length exceeds configured limit"
          else do
            let (children, total) ← writeChildren (depth + 1) total compoundValue
            pure (children ++ [NbtTagType.endTag.toByte], total)
      | .intArray => do
          let length ← checkedWriteLength limits intArrayValue.length
          pure (writeInt32 encoding length ++
            intArrayValue.flatMap (fun item ↦ writeSigned 4 item.toInt), total)
      | .longArray => do
          let length ← checkedWriteLength limits longArrayValue.length
          pure (writeInt32 encoding length ++
            longArrayValue.flatMap (fun item ↦ writeSigned 8 item.toInt), total)

def writeItems (depth total : ℕ) (elementType : NbtTagType) (items : List NbtValue) :
    Except String (List UInt8 × ℕ) :=
  match items with
  | [] => .ok ([], total)
  | item :: items =>
      if item.type ≠ elementType then
        .error "NBT list item type does not match its element type"
      else do
        let (bytes, total) ← writePayload depth total item
        let (rest, total) ← writeItems depth total elementType items
        pure (bytes ++ rest, total)

def writeChildren (depth total : ℕ) (children : List (List UInt8 × NbtValue)) :
    Except String (List UInt8 × ℕ) :=
  match children with
  | [] => .ok ([], total)
  | (name, child) :: children =>
      if child.type = .endTag then .error "NBT compound cannot contain a named TAG_End"
      else do
        let nameBytes ← writeString encoding limits name true
        let (bytes, total) ← writePayload depth total child
        let (rest, total) ← writeChildren depth total children
        pure (child.type.toByte :: (nameBytes ++ (bytes ++ rest)), total)

end

def write (document : NbtDocument) : Except String (List UInt8) :=
  if document.root.type = .endTag then .ok [document.root.type.toByte]
  else do
    let name ← writeString encoding limits document.name true
    let (bytes, _) ← writePayload encoding limits 0 0 document.root
    pure (document.root.type.toByte :: (name ++ bytes))

end Codec

end BedrockNbt

end BedrockProtocol
