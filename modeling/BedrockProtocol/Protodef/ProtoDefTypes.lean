import BedrockProtocol.Protodef.ProtoDefContext
import BedrockProtocol.Protodef.ProtoDefNumber
import BedrockProtocol.Protodef.ProtoDefReader

/-!
# Primitive types

`encodeTypeName` and `decodeTypeName` for integers of fixed width, varints,
booleans and strings.  The other names (floats, identifiers, trees of tags and
names that a resolver or the generated table knows) are a parameter.  A decoded
field is text.
-/

namespace BedrockProtocol

namespace ProtoDefTypes

open ProtoDefValue

/-! ## Encoding -/

def asBool : ProtoDefValue → Except String Bool
  | .bool value => .ok value
  | .int value => .ok (value ≠ 0)
  | .uint value => .ok (value ≠ 0)
  -- Both zeros have no bit below the sign.
  | .double bits => .ok (bits.toNat % 2 ^ 63 ≠ 0)
  | .string value => .ok (value = txt "true" ∨ value = txt "1")
  | _ => .error "expected bool-compatible value"

def asString : ProtoDefValue → Except String Text
  | .string value => .ok value
  | _ => .error "expected string value"

section Encoding

variable (undefinedCast : UInt64 → UInt64)
  (other : Text → ProtoDefValue → Except String (List UInt8))

/-- The signed types cast the value to `int64` first, the unsigned ones to `uint64`. -/
def encodeTypeName (typeName : Text) (value : ProtoDefValue) : Except String (List UInt8) :=
  let unsigned (write : ℕ → List UInt8) : Except String (List UInt8) :=
    write <$> asUInt undefinedCast value
  let signed (write : ℤ → List UInt8) : Except String (List UInt8) :=
    write <$> asInt undefinedCast value
  if typeName = txt "void" then .ok []
  else if typeName = txt "string" then
    (fun text ↦ leb128 4 (text.length % 2 ^ 32) ++ text) <$> asString value
  else if typeName = txt "ShortString" then
    (fun text ↦ leBytes 2 text.length ++ text) <$> asString value
  else if typeName = txt "lstring" then
    (fun text ↦ leBytes 4 text.length ++ text) <$> asString value
  else if typeName = txt "bool" then (fun b ↦ [if b then 1 else 0]) <$> asBool value
  else if typeName ∈ [txt "u8", txt "lu8", txt "li8"] then unsigned (leBytes 1)
  else if typeName ∈ [txt "i8", txt "byte"] then signed fun z ↦ leBytes 1 (toUnsigned 8 z)
  else if typeName = txt "u16" then unsigned (beBytes 2)
  else if typeName = txt "lu16" then unsigned (leBytes 2)
  else if typeName = txt "i16" then signed fun z ↦ beBytes 2 (toUnsigned 16 z)
  else if typeName = txt "li16" then signed fun z ↦ leBytes 2 (toUnsigned 16 z)
  else if typeName = txt "u32" then unsigned (beBytes 4)
  else if typeName = txt "lu32" then unsigned (leBytes 4)
  else if typeName = txt "u64" then unsigned (beBytes 8)
  else if typeName = txt "lu64" then unsigned (leBytes 8)
  else if typeName = txt "i32" then signed fun z ↦ beBytes 4 (toUnsigned 32 z)
  else if typeName = txt "li32" then signed fun z ↦ leBytes 4 (toUnsigned 32 z)
  else if typeName = txt "i64" then signed fun z ↦ beBytes 8 (toUnsigned 64 z)
  else if typeName = txt "li64" then signed fun z ↦ leBytes 8 (toUnsigned 64 z)
  else if typeName ∈ [txt "varint", txt "varuint"] then unsigned fun n ↦ leb128 4 (n % 2 ^ 32)
  else if typeName ∈ [txt "varuint64", txt "varint64", txt "varlong", txt "entity_runtime_id",
      txt "actor_runtime_id", txt "runtime_entity_id"] then unsigned (leb128 9)
  else if typeName = txt "zigzag32" then
    signed fun z ↦ leb128 4 (encodeZigZag 32 (toUnsigned 32 z))
  else if typeName = txt "zigzag64" then
    signed fun z ↦ leb128 9 (encodeZigZag 64 (toUnsigned 64 z))
  else if typeName = txt "varint128" then unsigned (leb128 18)
  else other typeName value

end Encoding

/-! ## Decoding -/

def readShortString : Reader Text := do
  let len ← ProtoDefReader.u16le
  Reader.many ProtoDefReader.u8 len

def readLString : Reader Text := do
  let count ← ProtoDefReader.i32le
  if count < 0 then throw "lstring negative length"
  else Reader.many ProtoDefReader.u8 count.toNat

/-- A byte, or a text that says there is none. -/
def readOptionalU8 : Reader Text := do
  if (← Reader.remaining) < 1 then pure (txt "<missing:u8>")
  else (fun b ↦ decimal b.toNat) <$> ProtoDefReader.u8

/-- Paths whose varints are read with up to 64 bits. -/
def isRuntimeId (path : Text) : Bool :=
  txt "runtime_id" <:+: path ∨ txt "runtime_entity_id" <:+: path ∨
    txt "actor_runtime_id" <:+: path ∨ txt "entity_runtime_id" <:+: path

/-- The reader of the text of a type, if it is one of the types modelled here. -/
def readText (typeName path : Text) : Option (Reader Text) :=
  let signed (w : ℕ) (read : Reader ℕ) : Option (Reader Text) :=
    some ((fun n ↦ decimalInt (toSigned w n)) <$> read)
  let unsigned (read : Reader ℕ) : Option (Reader Text) := some (decimal <$> read)
  if typeName = txt "void" then some (pure (txt "<void>"))
  else if typeName = txt "string" then some ProtoDefReader.string
  else if typeName = txt "ShortString" then some readShortString
  else if typeName = txt "lstring" then some readLString
  else if typeName = txt "bool" then
    some ((fun b ↦ if b then txt "true" else txt "false") <$> ProtoDefReader.boolean)
  else if typeName ∈ [txt "u8", txt "lu8", txt "byte"] then some readOptionalU8
  else if typeName ∈ [txt "i8", txt "li8"] then signed 8 (UInt8.toNat <$> ProtoDefReader.u8)
  else if typeName = txt "u16" then unsigned ProtoDefReader.u16be
  else if typeName = txt "lu16" then unsigned ProtoDefReader.u16le
  else if typeName = txt "i16" then signed 16 ProtoDefReader.u16be
  else if typeName = txt "li16" then signed 16 ProtoDefReader.u16le
  else if typeName = txt "u32" then unsigned ProtoDefReader.u32be
  else if typeName = txt "lu32" then unsigned ProtoDefReader.u32le
  else if typeName = txt "i32" then some (decimalInt <$> ProtoDefReader.i32be)
  else if typeName = txt "li32" then some (decimalInt <$> ProtoDefReader.i32le)
  else if typeName = txt "u64" then unsigned ProtoDefReader.u64be
  else if typeName = txt "lu64" then unsigned ProtoDefReader.u64le
  else if typeName = txt "i64" then some (decimalInt <$> ProtoDefReader.i64be)
  else if typeName = txt "li64" then some (decimalInt <$> ProtoDefReader.i64le)
  else if typeName ∈ [txt "varuint64", txt "varlong", txt "entity_runtime_id",
      txt "actor_runtime_id", txt "runtime_entity_id", txt "varint64"] then
    unsigned ProtoDefReader.varuint64
  else if typeName ∈ [txt "varint", txt "varuint"] then
    if isRuntimeId path then unsigned ProtoDefReader.varuint64
    else unsigned ProtoDefReader.varuint32
  else if typeName = txt "zigzag32" then some (decimalInt <$> ProtoDefReader.zigzag32)
  else if typeName = txt "zigzag64" then some (decimalInt <$> ProtoDefReader.zigzag64)
  else if typeName = txt "varint128" then unsigned ProtoDefReader.varuint128
  else none

/-- A decoded number as a value: a number of more than 64 bits stays text. -/
def numberValue (n : ℕ) : ProtoDefValue := if n < 2 ^ 64 then .uint n else .string (decimal n)

section Decoding

variable (collectFields : Bool) (other : Text → Text → Decoded → Reader Decoded)

def decodeTypeName (typeName path : Text) (decoded : Decoded) : Reader Decoded :=
  match readText typeName path with
  | none => other typeName path decoded
  | some read => do
      let start ← Reader.offset
      let value ← read
      let offset ← Reader.offset
      let field : ProtoDefField :=
        { path := if path = [] then txt "$value" else path, type := typeName, value := value,
          offset := start, size := offset - start }
      pure (decoded.record collectFields field)

end Decoding

end ProtoDefTypes

end BedrockProtocol
