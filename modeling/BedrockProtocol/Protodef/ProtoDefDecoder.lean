import BedrockProtocol.Protodef.Bitfield
import BedrockProtocol.Protodef.Bitflags
import BedrockProtocol.Protodef.ElementCounts
import BedrockProtocol.Protodef.ProtoDefJson
import BedrockProtocol.Protodef.ProtoDefNbt

/-!
# The decoder

`ProtoDefDecoder.hpp`: a type is JSON text, which the decoder searches for what it needs
while it reads.  A few types do not throw at the end of the input but go on with a text
that says what is missing.  Recursion through type names need not end, so the decoder has
fuel; running out of it stands for a run that does not come back.
-/

namespace BedrockProtocol

namespace BinaryStream

def readString : Reader (List UInt8) := do
  let len ← readVarUInt
  Reader.take len fun _ ↦ "string length exceeds remaining buffer"

end BinaryStream

namespace ProtoDefDecoder

open ProtoDefTypes SchemaText ElementCounts

/-! ## Texts of values -/

/-- `std::to_string` of a double, the conversion `%f`. -/
def fixedText (bits : UInt64) : Text :=
  let sign := if 2 ^ 63 ≤ bits.toNat then txt "-" else []
  let (numerator, denominator) := magnitudeFraction bits
  if isNaN bits then sign ++ txt "nan"
  else if !isFinite bits then sign ++ txt "inf"
  else
    let millionths := roundDiv (numerator * 10 ^ 6) denominator
    let fraction := decimal (millionths % 10 ^ 6)
    sign ++ decimal (millionths / 10 ^ 6) ++ txt "." ++
      List.replicate (6 - fraction.length) 0x30 ++ fraction

def uuidText (bytes : List UInt8) : Text :=
  (bytes.zipIdx.map fun byte ↦
    (if byte.2 ∈ [4, 6, 8, 10] then txt "-" else []) ++ ProtoDefJson.hexByte byte.1).flatten

def ipAddressText (bytes : List UInt8) : Text :=
  (txt ".").intercalate (bytes.map fun byte ↦ decimal byte.toNat)

/-- Three numbers with commas between them. -/
def vec3Text (x y z : Text) : Text := x ++ txt "," ++ y ++ txt "," ++ z

def bufferText (count : ℕ) : Text := txt "<Buffer bytes:" ++ decimal count ++ txt ">"

/-! ## Trees of tags -/

def nbtDocumentToProtoDefValue (document : NbtDocument) : Except String ProtoDefValue := do
  let out ← ProtoDefNbt.nbtValueToProtoDefValue document.root
  pure (.object (ProtoDefValue.assign (txt "name") (.string document.name) out.objectValue))

def readProtoDefNbt (encoding : BedrockNbtEncoding) : Reader ProtoDefValue := do
  let first ← Reader.peek
  if first = none then throw "not enough bytes for NBT root tag"
  else
    let document ←
      (if first = some NbtTagType.endTag.toByte then do
        let _ ← BinaryStream.readU8
        let name ← (if encoding = .littleVarInt then BinaryStream.readString else pure [])
        pure ⟨name, {}⟩
      else BedrockNbt.read encoding {})
    nbtDocumentToProtoDefValue document

/-- The loop of `nbtLoop`; every turn consumes a byte. -/
def readNbtLoop : ℕ → Reader (List ProtoDefValue)
  | 0 => throw "nbtLoop is missing its TAG_End terminator"
  | turns + 1 => do
      let tag ← Reader.peek
      if tag = none then throw "nbtLoop is missing its TAG_End terminator"
      else if tag = some 0 then do
        let _ ← ProtoDefReader.u8
        pure []
      else
        let value ← readProtoDefNbt .littleVarInt
        let values ← readNbtLoop turns
        pure (value :: values)

/-- A tree and its JSON text. -/
def withJson (value : ProtoDefValue) : Text × Option ProtoDefValue :=
  (ProtoDefJson.stringify value, some value)

/-! ## The remaining primitive types -/

/-- The reader of the text and the value of a type that `readText` does not have. -/
def readOther (typeName : Text) : Option (Reader (Text × Option ProtoDefValue)) :=
  let text (read : Reader Text) : Option (Reader (Text × Option ProtoDefValue)) :=
    some ((fun value ↦ (value, none)) <$> read)
  let float (read : Reader ℕ) : Reader Text :=
    (fun bits ↦ fixedText (widen (UInt32.ofNat bits))) <$> read
  let double (read : Reader ℕ) : Reader Text := (fun bits ↦ fixedText (UInt64.ofNat bits)) <$> read
  if typeName = txt "uuid" then text (uuidText <$> Reader.many ProtoDefReader.u8 16)
  else if typeName = txt "ipAddress" then text (ipAddressText <$> Reader.many ProtoDefReader.u8 4)
  else if typeName ∈ [txt "restBuffer", txt "MapInfo"] then some do
    let count ← Reader.remaining
    let content ← ProtoDefReader.readBytes count
    pure (bufferText count, some (.bytes content))
  else if typeName = txt "byterot" then
    -- 360 / 256 of the byte, in double precision exact
    text ((fun byte ↦ fixedText (UInt64.ofNat (fractionBits (byte.toNat * 45) 32))) <$>
      ProtoDefReader.u8)
  else if typeName = txt "nbtLoop" then some do
    let remaining ← Reader.remaining
    let values ← readNbtLoop (remaining + 1)
    pure (withJson (.array values))
  else if typeName = txt "f32" then text (float ProtoDefReader.u32be)
  else if typeName = txt "lf32" then text (float ProtoDefReader.u32le)
  else if typeName = txt "f64" then text (double ProtoDefReader.u64be)
  else if typeName = txt "lf64" then text (double ProtoDefReader.u64le)
  else if typeName = txt "vec3i" then text do
    let x ← ProtoDefReader.zigzag32
    let y ← ProtoDefReader.zigzag32
    let z ← ProtoDefReader.zigzag32
    pure (vec3Text (decimalInt x) (decimalInt y) (decimalInt z))
  else if typeName = txt "vec3f" then text do
    let x ← float ProtoDefReader.u32le
    let y ← float ProtoDefReader.u32le
    let z ← float ProtoDefReader.u32le
    pure (vec3Text x y z)
  else if typeName ∈ [txt "native", txt "nbt"] then
    some (withJson <$> readProtoDefNbt .littleVarInt)
  else if typeName = txt "lnbt" then some (withJson <$> readProtoDefNbt .littleEndian)
  else none

/-! ## Discriminators -/

def contextValueTruthy (value : Text) : Bool :=
  value ∉ [[], txt "false", txt "0", txt "null", txt "undefined", txt "NaN"]

/-- The operands between the `||` of an expression. -/
def splitOr : Text → List Text
  | [] => [[]]
  | 0x7c :: 0x7c :: rest => [] :: splitOr rest
  | c :: rest => (splitOr rest).modifyHead (c :: ·)

section CompareExpression

variable (resolve : Text → Option Text)

/-- The loop over the operands: the first true one ends it. -/
def evaluateOr (expression : Text) : List Text → Except String Text
  | [] => .ok (txt "false")
  | operand :: operands =>
      if trim operand = [] then
        .error ("empty operand in ProtoDef compare expression: " ++ shown expression)
      else if ((resolve (trim operand)).map contextValueTruthy).getD false then .ok (txt "true")
      else evaluateOr expression operands

def evaluateProtoDefCompareExpression (expression : Text) : Except String (Option Text) :=
  let expression := trim expression
  if expression = [] then .ok none
  else
    match splitOr expression with
    | operands@(_ :: _ :: _) => some <$> evaluateOr resolve expression operands
    | _ => .ok (resolve expression)

end CompareExpression

/-- The text that the context has for a name: relative to the path, as it is, or below the path. -/
def contextValue (path : Text) (context : ProtoDefContext) (name : Text) : Option Text :=
  let enumType := if txt "_enum_type" <:+: name then context.values (txt "_enum_type") else none
  let below := if path ≠ [] then context.values (path ++ txt "." ++ name) else none
  context.values (resolveComparePath path name) <|> enumType <|> context.values name <|> below

def switchLookupKeys (value : Text) : List Text :=
  let after := (value.dropWhile (· ≠ 0x2f)).tail
  if after = [] then [value, txt "/" ++ value]
  else [value, after, txt "/" ++ value, txt "/" ++ after]

def switchValuesEqual (lhs rhs : Text) : Bool :=
  (switchLookupKeys lhs).any fun left ↦ left ∈ switchLookupKeys rhs

def findSwitchBranchType (protoDefVariables : List (Text × Text)) (switchJson key : Text) : Option Text := do
  let fields ← readJsonValueField switchJson (txt "fields")
  (protoDefVariables.findSome? fun entry ↦
      if switchValuesEqual key entry.2 then readJsonValueField fields (txt "/" ++ entry.1)
      else none) <|>
    (switchLookupKeys key).findSome? (readJsonValueField fields)

/-- The branch of a discriminator, or the default. -/
def switchBranch (protoDefVariables : List (Text × Text)) (switchJson key : Text) : Option Text :=
  findSwitchBranchType protoDefVariables switchJson key <|> readJsonValueField switchJson (txt "default")

/-! ## Enumerations whose size depends on a count -/

/-- `std::stoull`: like `std::stoll`, a negative number is taken modulo `2 ^ 64`. -/
def stoullText (text : Text) : Except String ℕ :=
  let text := text.dropWhile isSpace
  let unsigned := if text.head? = some 0x2d ∨ text.head? = some 0x2b then text.tail else text
  let digits := unsigned.takeWhile isDigit
  if digits = [] ∨ 2 ^ 64 ≤ decimalValue digits then .error "stoull"
  else if text.head? = some 0x2d then .ok (toUnsigned 64 (-decimalValue digits))
  else .ok (decimalValue digits)

def enumType (valuesLen : ℕ) : Text :=
  if valuesLen ≤ 0xff then txt "byte" else if valuesLen ≤ 0xffff then txt "short" else txt "int"

def missingValuesLen : String := "enum_size_based_on_values_len missing values_len"

def enumSizeBasedOnValuesLen (context : ProtoDefContext) : Except String Text :=
  let raw := context.get (txt "values_len")
  if raw = [] then .error missingValuesLen else enumType <$> stoullText (beforeSlash raw)

/-! ## The types -/

section Decoding

variable (typeJson : Text → Option Text) (protoDefVariables : List (Text × Text)) (collectFields : Bool)
  (atEnd : Except String Unit) (decode : Text → Text → Decoded → Reader Decoded)

/-- Where the decoder goes on without a byte; it does if `atEnd` is no error. -/
def orMissing (read : Reader Text) : Reader Text := do
  if (← Reader.remaining) < 1 then
    liftM atEnd
    pure (txt "<missing:u8>")
  else read

/-- The names that no reader is known for: a size of an enumeration, or a type with JSON text. -/
def decodeNamed (typeName path : Text) (decoded : Decoded) : Reader Decoded :=
  match readOther typeName with
  | some read => do
      let start ← Reader.offset
      let (value, structuredValue) ← read
      let offset ← Reader.offset
      pure (decoded.record collectFields
        { path := if path = [] then txt "$value" else path, type := typeName, value, offset := start
          size := offset - start, structuredValue })
  | none =>
      if typeName = txt "enum_size_based_on_values_len" then do
        let value ← enumSizeBasedOnValuesLen decoded.context
        let offset ← Reader.offset
        pure (decoded.record collectFields
          { path := if path = [] then txt "$value" else path, type := typeName, value, offset })
      else
        match typeJson typeName with
        | some json => decode json path decoded
        | none => throw ("ProtoDefDecoder unknown primitive type: " ++ shown typeName)

def decodeTypeName (typeName path : Text) (decoded : Decoded) : Reader Decoded := do
  if typeName ∈ [txt "u8", txt "lu8", txt "byte"] then
    let start ← Reader.offset
    let value ← orMissing atEnd ((fun b ↦ decimal b.toNat) <$> ProtoDefReader.u8)
    let offset ← Reader.offset
    pure (decoded.record collectFields
      { path := if path = [] then txt "$value" else path, type := typeName, value, offset := start
        size := offset - start })
  else
    ProtoDefTypes.decodeTypeName collectFields (decodeNamed typeJson collectFields decode) typeName
      path decoded

/-- The readers of the base types of a mapper; the text of a byte may be missing. -/
def readNumeric (baseType : Text) : Option (Reader Text) :=
  let signed (w : ℕ) (read : Reader ℕ) : Option (Reader Text) :=
    some ((fun n ↦ decimalInt (toSigned w n)) <$> read)
  let unsigned (read : Reader ℕ) : Option (Reader Text) := some (decimal <$> read)
  if baseType ∈ [txt "u8", txt "lu8"] then
    some (orMissing atEnd ((fun b ↦ decimal b.toNat) <$> ProtoDefReader.u8))
  else if baseType ∈ [txt "i8", txt "li8"] then signed 8 (UInt8.toNat <$> ProtoDefReader.u8)
  else if baseType = txt "u16" then unsigned ProtoDefReader.u16be
  else if baseType = txt "lu16" then unsigned ProtoDefReader.u16le
  else if baseType = txt "i16" then signed 16 ProtoDefReader.u16be
  else if baseType = txt "li16" then signed 16 ProtoDefReader.u16le
  else if baseType = txt "u32" then unsigned ProtoDefReader.u32be
  else if baseType = txt "lu32" then unsigned ProtoDefReader.u32le
  else if baseType = txt "i32" then some (decimalInt <$> ProtoDefReader.i32be)
  else if baseType = txt "li32" then some (decimalInt <$> ProtoDefReader.i32le)
  else if baseType ∈ [txt "varint", txt "varuint"] then unsigned ProtoDefReader.varuint32
  else if baseType ∈ [txt "varint64", txt "varuint64"] then unsigned ProtoDefReader.varuint64
  else if baseType = txt "zigzag32" then some (decimalInt <$> ProtoDefReader.zigzag32)
  else none

/-- `readMapperValue`. -/
def mappedName (mapperJson numeric : Text) : Option Text := do
  let mappings ← readJsonValueField mapperJson (txt "mappings")
  readJsonStringField mappings numeric

def decodeMapper (mapperJson path : Text) (decoded : Decoded) : Reader Decoded :=
  match readJsonStringField mapperJson (txt "type") with
  | none => throw "mapper base type not found"
  | some baseType =>
      match readNumeric atEnd baseType with
      | none => throw ("mapper unsupported base type: " ++ shown baseType)
      | some read => do
          let start ← Reader.offset
          let numeric ← read
          let offset ← Reader.offset
          let mapped := (mappedName mapperJson numeric).getD numeric
          let field : ProtoDefField :=
            { path := if path = [] then txt "$value" else path
              type := txt "mapper<" ++ baseType ++ txt ">", value := numeric ++ txt "/" ++ mapped
              offset := start, size := offset - start }
          -- the context gets the name alone
          pure ((decoded.appendField collectFields field).setContext field.path mapped)

def decodeOption (optionJson path : Text) (decoded : Decoded) : Reader Decoded := do
  let start ← Reader.offset
  if (← Reader.remaining) < 1 then
    liftM atEnd
    pure (decoded.appendField collectFields
      { path := path ++ txt ".$present", type := txt "option_present", value := txt "<missing:u8>" })
  else
    let present ← ProtoDefReader.u8
    let offset ← Reader.offset
    let flag : ProtoDefField :=
      { path := if path = [] then txt "$option" else path ++ txt ".$present"
        type := txt "option_present", value := if present ≠ 0 then txt "true" else txt "false"
        offset := start, size := offset - start }
    let decoded := decoded.record collectFields flag
    if present = 0 then pure decoded
    else
      match readSecondElement optionJson with
      | none => throw "option inner type not found"
      | some innerType => decode innerType path decoded

/-- The text that a switch compares its cases with. -/
def compareValue (switchJson path : Text) (context : ProtoDefContext) : Except String Text :=
  match readJsonStringField switchJson (txt "compareToValue") with
  | some value => .ok value
  | none =>
      match readJsonStringField switchJson (txt "compareTo") with
      | none => .error "switch compareTo not found"
      | some compareTo =>
          (fun resolved ↦ resolved.getD []) <$>
            evaluateProtoDefCompareExpression (contextValue path context) compareTo

def decodeSwitch (switchJson path : Text) (decoded : Decoded) : Reader Decoded := do
  let value ← compareValue switchJson path decoded.context
  match switchBranch protoDefVariables switchJson value with
  | some branch => decode branch path decoded
  | none =>
      let offset ← Reader.offset
      pure (decoded.record collectFields
        { path := if path = [] then txt "$switch" else path, type := txt "switch"
          value := txt "<no_branch:" ++ value ++ txt ">", offset })

def decodeCount (countJson path : Text) (decoded : Decoded) : Reader Decoded :=
  match readJsonValueField countJson (txt "type") with
  | none => throw "count type not found"
  | some type => decode type (if path = [] then txt "$count" else path) decoded

/-- The loop over the elements of `endOfArray` from the index `i`. -/
def itemsToEnd (itemType path : Text) : ℕ → ℕ → Decoded → Reader Decoded
  | 0, _, _ => throw "out of fuel"
  | turns + 1, i, decoded => do
      if (← Reader.remaining) = 0 then pure decoded
      else
        let decoded ← decode itemType (itemPath path i) decoded
        itemsToEnd itemType path turns (i + 1) decoded

def decodeEndOfArray (turns : ℕ) (arrayJson path : Text) (decoded : Decoded) : Reader Decoded :=
  match readJsonValueField arrayJson (txt "type") with
  | none => throw "endOfArray item type not found"
  | some itemType => itemsToEnd decode itemType path turns 0 decoded

/-- The loop over the elements in front of the byte `endVal`. -/
def itemsToMark (itemType path : Text) (endVal : ℕ) : ℕ → ℕ → Decoded → Reader Decoded
  | 0, _, _ => throw "out of fuel"
  | turns + 1, i, decoded => do
      let before ← get
      let marker ← ProtoDefReader.u8
      if marker = UInt8.ofNat endVal then
        pure (decoded.record collectFields
          { path := if path = [] then txt "$metadata_end" else path ++ txt ".$end"
            type := txt "entityMetadataLoop_end", value := decimal endVal, offset := before.offset
            size := 1 })
      else
        -- the marker belongs to the element
        set before
        let decoded ← decode itemType (itemPath path i) decoded
        itemsToMark itemType path endVal turns (i + 1) decoded

def decodeEntityMetadataLoop (turns : ℕ) (metadataJson path : Text) (decoded : Decoded) :
    Reader Decoded := do
  let endVal ← readJsonIntegerField metadataJson (txt "endVal")
  match readJsonValueField metadataJson (txt "type") with
  | none => throw "entityMetadataLoop item type not found"
  | some itemType =>
      itemsToMark collectFields decode itemType path (endVal.getD 0x7f) turns 0 decoded

/-- The text that an item of the metadata compares its cases with. -/
def metadataValue (compareTo path : Text) (context : ProtoDefContext) : Text :=
  let value := context.get (resolveComparePath path compareTo)
  let value := if value = [] then context.get compareTo else value
  if value = [] ∧ path ≠ [] then context.get (path ++ txt "." ++ compareTo) else value

def decodeEntityMetadataItem (metadataItemJson path : Text) (decoded : Decoded) :
    Reader Decoded :=
  let compareTo := (readJsonStringField metadataItemJson (txt "compareTo")).getD (txt "type")
  let value := metadataValue compareTo path decoded.context
  if value = [] then throw ("entityMetadataItem missing compare field: " ++ shown compareTo)
  else
    match typeJson (txt "entityMetadataItem") with
    | none => throw "entityMetadataItem schema not found"
    | some switchJson =>
        match switchBranch protoDefVariables switchJson value with
        | none => throw ("entityMetadataItem no branch for: " ++ shown value)
        | some branch => decode branch path decoded

/-- The path of a field of a container. -/
def fieldPath (path : Text) (name : Option Text) (anon : Bool) : Text :=
  match name with
  | some name => if anon then path else childPath path name
  | none => path

/-- The loop over the objects in the text of the fields, from `pos`; every turn moves on. -/
def containerFieldsFrom (fields path : Text) : ℕ → ℕ → Decoded → Reader Decoded
  | 0, _, decoded => pure decoded
  | turns + 1, pos, decoded =>
      match find fields 0x7b pos with
      | none => pure decoded
      | some objStart =>
          match findMatching fields objStart 0x7b 0x7d with
          | none => throw "container field object not closed"
          | some objEnd => do
              let fieldObj := substr fields objStart (objEnd - objStart + 1)
              let name := readJsonStringField fieldObj (txt "name")
              let anon := (readJsonBoolField fieldObj (txt "anon")).getD false
              let child := fieldPath path name anon
              let decoded ←
                (match readJsonValueField fieldObj (txt "type") with
                | none => pure decoded
                | some type =>
                    Reader.mapError (fun e ↦
                        "at " ++ (if child = [] then "$container" else shown child) ++ ": " ++ e)
                      (decode type child decoded))
              containerFieldsFrom fields path turns (objEnd + 1) decoded

def decodeContainer (containerJson path : Text) (decoded : Decoded) : Reader Decoded :=
  match readSecondElement containerJson with
  | none => throw "container fields array not found"
  | some fields =>
      if ¬startsWith (trim fields) (txt "[") then throw "container fields value is not an array"
      else containerFieldsFrom decode fields path (fields.length + 1) 0 decoded

/-- A type that is the name of an enumeration's size; a text that is no number counts as 0. -/
def decodeEnumSize (path : Text) (decoded : Decoded) : Reader Decoded := do
  let valuesLen := decoded.context.get (txt "values_len")
  if valuesLen = [] then throw missingValuesLen
  else
    let value := enumType (((stoullText valuesLen).toOption).getD 0)
    let offset ← Reader.offset
    let decoded := decoded.record collectFields
      { path, type := txt "enum_size_based_on_values_len", value, offset }
    pure (decoded.setContext (txt "_enum_type") value)

/-- One level of the recursion. -/
def decodeLevel (turns : ℕ) (json path : Text) (decoded : Decoded) : Reader Decoded :=
  let type := trim json
  if isJsonString type then
    decodeTypeName typeJson collectFields atEnd decode (unquote type) path decoded
  else if startsWith type (txt "[\"container\"") then decodeContainer decode type path decoded
  else if startsWith type (txt "[\"array\"") then
    decodeArray collectFields decode type path decoded
  else if startsWith type (txt "[\"endOfArray\"") then
    decodeEndOfArray decode turns type path decoded
  else if startsWith type (txt "[\"entityMetadataLoop\"") then
    decodeEntityMetadataLoop collectFields decode turns type path decoded
  else if startsWith type (txt "[\"count\"") then decodeCount decode type path decoded
  else if startsWith type (txt "[\"mapper\"") then
    decodeMapper collectFields atEnd type path decoded
  else if startsWith type (txt "[\"switch\"") then
    decodeSwitch protoDefVariables collectFields decode type path decoded
  else if startsWith type (txt "[\"option\"") then
    decodeOption collectFields atEnd decode type path decoded
  else if startsWith type (txt "[\"pstring\"") then decodePString collectFields type path decoded
  else if startsWith type (txt "[\"buffer\"") then decodeBuffer collectFields type path decoded
  else if startsWith type (txt "[\"encapsulated\"") then decodeEncapsulated decode type path decoded
  else if startsWith type (txt "[\"bitflags\"") then
    Bitflags.decodeBitflags collectFields type path decoded
  else if startsWith type (txt "[\"bitfield\"") then
    Bitfield.decodeBitfield collectFields type path decoded
  else if startsWith type (txt "[\"entityMetadataItem\"") then
    decodeEntityMetadataItem typeJson protoDefVariables decode type path decoded
  else if type = txt "[\"enum_size_based_on_values_len\"]" ∨
      type = txt "enum_size_based_on_values_len" then
    decodeEnumSize collectFields path decoded
  else throw ("ProtoDefDecoder unsupported type json: " ++ shown type)

end Decoding

section Levels

variable (typeJson : Text → Option Text) (protoDefVariables : List (Text × Text)) (collectFields : Bool)
  (atEnd : Except String Unit)

/-- The recursion with `fuel` levels and turns. -/
def decodeLevels : ℕ → Text → Text → Decoded → Reader Decoded
  | 0, _, _, _ => throw "out of fuel"
  | fuel + 1, json, path, decoded =>
      decodeLevel typeJson protoDefVariables collectFields atEnd (decodeLevels fuel) fuel json path decoded

/-- The decoder: the end of the input is no error where a text can say so. -/
def decode (fuel : ℕ) (json path : Text) (decoded : Decoded) : Reader Decoded :=
  decodeLevels typeJson protoDefVariables collectFields (.ok ()) fuel json path decoded

end Levels

end ProtoDefDecoder

end BedrockProtocol
