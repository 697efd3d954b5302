import BedrockProtocol.Protodef.ProtoDefDecoder

/-!
# The encoder

`ProtoDefEncoder.hpp`: a value is written by a type that is JSON text.  The encoder searches this
text with functions of its own: the branches of a switch and the names of a mapper are looked up
as quoted text anywhere in the object that holds them, where the decoder walks over the fields of
the object.  A type that compares itself with another field finds it in the value, where every
object has its parent as a field `..`.  Recursion through type names need not end, so the encoder
has fuel, as the decoder has.
-/

namespace BedrockProtocol

namespace ProtoDefEncoder

open ProtoDefValue ProtoDefTypes SchemaText

/-! ## Parents -/

mutual

/-- Every object of the value, elements of arrays included, gets its parent; an object inside an
object does not. -/
def withParent (parent : ProtoDefValue) : ProtoDefValue → ProtoDefValue
  | .object fields => .object (assign (txt "..") parent fields)
  | .array items => .array (withParentItems parent items)
  | value => value

def withParentItems (parent : ProtoDefValue) : List ProtoDefValue → List ProtoDefValue
  | [] => []
  | item :: items => withParent parent item :: withParentItems parent items

end

mutual

/-- From parent to parent up to a value without one. -/
def topmost : ProtoDefValue → ProtoDefValue
  | .object fields => (topmostParent fields).getD (.object fields)
  | value => value

def topmostParent : List (Text × ProtoDefValue) → Option ProtoDefValue
  | [] => none
  | (key, child) :: fields =>
      if key = txt ".." then some (topmost child) else topmostParent fields

end

/-- The parts of a path between its slashes; dots count as slashes. -/
def pathParts (path : Text) : List Text :=
  (path.map fun c ↦ if c = 0x2e then 0x2f else c).splitOn 0x2f

/-- A path that starts with a slash or a dot starts at the topmost value; empty parts are
skipped. -/
def getPath (object : ProtoDefValue) (path : Text) : Option ProtoDefValue :=
  let start := if path.head? ∈ [some 0x2e, some 0x2f] then topmost object else object
  ((pathParts path).filter (· ≠ [])).foldlM get start

/-! ## Discriminators -/

def valueToSwitchKey : ProtoDefValue → Except String Text
  | .string value => .ok value
  | .uint value => .ok (decimal value)
  | .int value => .ok (decimalInt value)
  | .bool value => .ok (if value then txt "true" else txt "false")
  | _ => .error "switch compare value unsupported kind"

/-- The loop over the operands of an expression: the first true one ends it. -/
def evaluateOr (object : ProtoDefValue) (expression : Text) : List Text → Except String Text
  | [] => .ok (txt "false")
  | operand :: operands =>
      if trim operand = [] then
        .error ("empty operand in ProtoDef compare expression: " ++ shown expression)
      else
        match getPath object (trim operand) with
        | none => evaluateOr object expression operands
        | some value => do
            let truthy ← asBool value
            if truthy then .ok (txt "true") else evaluateOr object expression operands

def resolveCompareValue (object : ProtoDefValue) (expression : Text) :
    Except String (Option Text) :=
  let expression := trim expression
  if expression = [] then .ok none
  else
    match ProtoDefDecoder.splitOr expression with
    | operands@(_ :: _ :: _) => some <$> evaluateOr object expression operands
    | _ =>
        match getPath object expression with
        | none => .ok none
        | some value => some <$> valueToSwitchKey value

/-- `s.find(needle, pos)`. -/
def findText (s needle : Text) (pos : ℕ) : Option ℕ :=
  ((s.drop pos).tails.findIdx? fun rest ↦ needle.isPrefixOf rest).map (· + pos)

def quoted (key : Text) : Text := txt "\"" ++ key ++ txt "\""

/-- The text of the first string, array or object after the first colon behind the quoted key. -/
def readSwitchObjectField (objectJson key : Text) : Option Text := do
  let k ← findText objectJson (quoted key) 0
  let colon ← find objectJson 0x3a (k + (quoted key).length)
  let start := skip isSpace objectJson (colon + 1)
  let last ← match objectJson[start]? with
    | some 0x22 => find objectJson 0x22 (start + 1)
    | some 0x5b => findMatching objectJson start 0x5b 0x5d
    | some 0x7b => findMatching objectJson start 0x7b 0x7d
    | _ => none
  some (substr objectJson start (last - start + 1))

/-- The first object behind the quoted key. -/
def objectBehind (json key : Text) : Option Text := do
  let f ← findText json (quoted key) 0
  let objStart ← find json 0x7b (f + (quoted key).length)
  let objEnd ← findMatching json objStart 0x7b 0x7d
  some (substr json objStart (objEnd - objStart + 1))

def findSwitchBranchType (protoDefVariables : List (Text × Text)) (switchJson key : Text) :
    Option Text := do
  let fields ← objectBehind switchJson (txt "fields")
  (protoDefVariables.findSome? fun entry ↦
      if ProtoDefDecoder.switchValuesEqual key entry.2 then
        readSwitchObjectField fields (txt "/" ++ entry.1)
      else none) <|>
    (ProtoDefDecoder.switchLookupKeys key).findSome? (readSwitchObjectField fields)

/-- The branch of a discriminator, or the default. -/
def switchBranch (protoDefVariables : List (Text × Text)) (switchJson key : Text) : Option Text :=
  findSwitchBranchType protoDefVariables switchJson key <|>
    readJsonValueField switchJson (txt "default")

/-! ## Mappers -/

/-- The loop over the quoted texts of the mappings, two in a turn; every turn moves on. -/
def mapperNumericFrom (mappings mappedName : Text) : ℕ → ℕ → Except String (Option ℕ)
  | 0, _ => .ok none
  | turns + 1, pos =>
      let entry : Option (Text × Text × ℕ) := do
        let k1 ← find mappings 0x22 pos
        let k2 ← find mappings 0x22 (k1 + 1)
        let colon ← find mappings 0x3a (k2 + 1)
        let v1 ← find mappings 0x22 (colon + 1)
        let v2 ← find mappings 0x22 (v1 + 1)
        some (substr mappings (k1 + 1) (k2 - k1 - 1), substr mappings (v1 + 1) (v2 - v1 - 1), v2)
      match entry with
      | none => .ok none
      | some (key, name, v2) =>
          if name = mappedName then some <$> ProtoDefDecoder.stoullText key
          else mapperNumericFrom mappings mappedName turns (v2 + 1)

def findMapperNumericByName (mapperJson mappedName : Text) : Except String (Option ℕ) :=
  match objectBehind mapperJson (txt "mappings") with
  | none => .ok none
  | some mappings => mapperNumericFrom mappings mappedName (mappings.length + 1) 0

/-! ## The remaining primitive types -/

/-- `std::stoi`. -/
def stoiText (text : Text) : Except String ℤ :=
  let text := text.dropWhile isSpace
  let unsigned := if text.head? = some 0x2d ∨ text.head? = some 0x2b then text.tail else text
  let digits := unsigned.takeWhile isDigit
  let z : ℤ := if text.head? = some 0x2d then -decimalValue digits else decimalValue digits
  if digits = [] ∨ ¬InSigned 32 z then .error "stoi" else .ok z

def asDouble : ProtoDefValue → Except String UInt64
  | .double bits => .ok bits
  | .int value => .ok (doubleOfInt value)
  | .uint value => .ok (doubleOfInt value)
  | .bool value => .ok (doubleOfInt (if value then 1 else 0))
  | _ => .error "expected numeric value"

def hexValue (c : UInt8) : Option ℕ :=
  if 0x30 ≤ c ∧ c ≤ 0x39 then some (c.toNat - 0x30)
  else if 0x61 ≤ c ∧ c ≤ 0x66 then some (c.toNat - 0x61 + 10)
  else if 0x41 ≤ c ∧ c ≤ 0x46 then some (c.toNat - 0x41 + 10)
  else none

/-- The bytes of pairs of hex digits. -/
def hexPairs : Text → Except String (List UInt8)
  | hi :: lo :: rest =>
      match hexValue hi, hexValue lo with
      | some hi, some lo => (UInt8.ofNat ((hi <<< 4) ||| lo) :: ·) <$> hexPairs rest
      | _, _ => .error "uuid encode invalid hex"
  | _ => .ok []

def writeUuid (value : Text) : Except String (List UInt8) :=
  let hex := value.filter (· ≠ 0x2d)
  if hex.length ≠ 32 then .error "uuid encode expects 32 hex digits" else hexPairs hex

/-- The octets that are still to be written, and the text after them. -/
def ipOctets : ℕ → Text → Except String (List UInt8 × Text)
  | 0, rest => .ok ([], rest)
  | more + 1, rest =>
      let part := rest.takeWhile (· ≠ 0x2e)
      if part = [] then .error "ipAddress encode invalid address"
      else do
        let octet ← stoiText part
        if octet < 0 ∨ 255 < octet then .error "ipAddress encode octet out of range"
        else
          let byte := UInt8.ofNat octet.toNat
          match rest.drop part.length with
          | [] => if more ≠ 0 then .error "ipAddress encode expects 4 octets" else .ok ([byte], [])
          | _ :: rest => do
              let (octets, rest) ← ipOctets more rest
              .ok (byte :: octets, rest)

def writeIpAddress (value : Text) : Except String (List UInt8) := do
  let (octets, rest) ← ipOctets 4 value
  if rest ≠ [] then .error "ipAddress encode expects 4 octets" else .ok octets

section Primitives

variable (undefinedCast : UInt64 → UInt64)

/-- The angle over 360 / 256, in double precision, cast to a byte. -/
def rotationByte (angle : UInt64) : UInt8 :=
  let (numerator, denominator) := magnitudeFraction angle
  let quotient := UInt64.ofNat (signBits (2 ^ 63 ≤ angle.toNat) +
    fractionBits (numerator * 32) (denominator * 45))
  let byte := if isFinite angle then truncateDouble quotient else none
  match byte with
  | some z => if 0 ≤ z ∧ z < 256 then UInt8.ofNat z.toNat else (undefinedCast quotient).toUInt8
  | none => (undefinedCast angle).toUInt8

def protoDefValueToNbtDocument (value : ProtoDefValue) : Except String NbtDocument :=
  match value with
  | .null => .ok ⟨[], {}⟩
  | value => do
      let name ← match value.get (txt "name") with
        | some name => ProtoDefNbt.stringValue name "NBT root name"
        | none => .ok []
      let root ← ProtoDefNbt.protoDefValueToNbtValue undefinedCast value
      .ok ⟨name, root⟩

def writeProtoDefNbt (encoding : BedrockNbtEncoding) (value : ProtoDefValue) :
    Except String (List UInt8) :=
  match value with
  | .bytes content => .ok content
  | value => do
      let document ← protoDefValueToNbtDocument undefinedCast value
      if document.root.type = .endTag then
        let name := leb128 4 (document.name.length % 2 ^ 32) ++ document.name
        .ok (0 :: if encoding = .littleVarInt then name else [])
      else BedrockNbt.write encoding {} document

/-- An element of `nbtLoop`; bytes are not looked at. -/
def writeNbtItem (item : ProtoDefValue) : Except String (List UInt8) :=
  match item with
  | .bytes content => .ok content
  | item => do
      let document ← protoDefValueToNbtDocument undefinedCast item
      if document.root.type = .endTag then .error "nbtLoop cannot contain TAG_End values"
      else writeProtoDefNbt undefinedCast .littleVarInt item

def writeNbtLoop (value : ProtoDefValue) : Except String (List UInt8) :=
  match value with
  | .array items => do
      let chunks ← items.mapM (writeNbtItem undefinedCast)
      .ok (chunks.flatten ++ [0])
  | _ => .error "nbtLoop encode expects array"

end Primitives

/-! ## The types -/

section Encoding

variable (typeJson : Text → Option Text) (protoDefVariables : List (Text × Text))
  (undefinedCast : UInt64 → UInt64) (encode : Text → ProtoDefValue → Except String (List UInt8))

/-- The names that `ProtoDefTypes.encodeTypeName` does not have. -/
def encodeNamed (typeName : Text) (value : ProtoDefValue) : Except String (List UInt8) :=
  if typeName = txt "uuid" then asString value >>= writeUuid
  else if typeName = txt "ipAddress" then asString value >>= writeIpAddress
  else if typeName ∈ [txt "restBuffer", txt "MapInfo"] then
    match value with
    | .bytes content => .ok content
    | _ => .error (shown typeName ++ " encode expects bytes")
  else if typeName = txt "byterot" then
    (fun angle ↦ [rotationByte undefinedCast angle]) <$> asDouble value
  else if typeName = txt "nbtLoop" then writeNbtLoop undefinedCast value
  else if typeName = txt "enum_size_based_on_values_len" then .ok []
  else if typeName ∈ [txt "native", txt "nbt"] then
    writeProtoDefNbt undefinedCast .littleVarInt value
  else if typeName = txt "lnbt" then writeProtoDefNbt undefinedCast .littleEndian value
  else if typeName = txt "f32" then (fun bits ↦ beBytes 4 (narrow bits).toNat) <$> asDouble value
  else if typeName = txt "lf32" then (fun bits ↦ leBytes 4 (narrow bits).toNat) <$> asDouble value
  else if typeName = txt "f64" then (fun bits ↦ beBytes 8 bits.toNat) <$> asDouble value
  else if typeName = txt "lf64" then (fun bits ↦ leBytes 8 bits.toNat) <$> asDouble value
  else
    match typeJson typeName with
    | some json => encode json value
    | none => .error ("ProtoDefEncoder unknown primitive type: " ++ shown typeName)

def encodeTypeName : Text → ProtoDefValue → Except String (List UInt8) :=
  ProtoDefTypes.encodeTypeName undefinedCast (encodeNamed typeJson undefinedCast encode)

def encodeMapper (mapperJson : Text) (value : ProtoDefValue) : Except String (List UInt8) :=
  match readJsonStringField mapperJson (txt "type") with
  | none => .error "mapper encode base type not found"
  | some baseType => do
      let numeric ← match value with
        | .string name => do
            let found ← findMapperNumericByName mapperJson name
            match found with
            | some numeric => .ok numeric
            | none => .error ("mapper encode unknown mapped value: " ++ shown name)
        | value => asUInt undefinedCast value
      encodeTypeName typeJson undefinedCast encode baseType (.uint numeric)

def encodeOption (optionJson : Text) (value : ProtoDefValue) : Except String (List UInt8) :=
  match value with
  | .null => .ok [0]
  | value =>
      match readSecondElement optionJson with
      | none => .error "option encode inner type not found"
      | some innerType => (1 :: ·) <$> encode innerType value

/-- The value under `$value` if there is one, else the context itself. -/
def directValue (context : ProtoDefValue) : ProtoDefValue := (context.get (txt "$value")).getD context

/-- The text that a switch compares its cases with. -/
def compareValue (switchJson : Text) (context : ProtoDefValue) : Except String Text :=
  match readJsonStringField switchJson (txt "compareToValue") with
  | some value => .ok value
  | none =>
      match readJsonStringField switchJson (txt "compareTo") with
      | none => .error "switch encode compareTo not found"
      | some compareTo => do
          let resolved ← resolveCompareValue context compareTo
          match resolved with
          | none => .error ("switch encode missing compare field: " ++ shown compareTo)
          | some value => .ok value

/-- Without a branch nothing is written. -/
def encodeSwitch (switchJson : Text) (context : ProtoDefValue) : Except String (List UInt8) :=
  match context with
  | .object _ => do
      let value ← compareValue switchJson context
      match switchBranch protoDefVariables switchJson value with
      | none => .ok []
      | some branch => encode branch (directValue context)
  | _ => .error "switch encode expects object context"

def valueLength : ProtoDefValue → Except String ℕ
  | .array items => .ok items.length
  | .bytes content => .ok content.length
  | .string text => .ok text.length
  | .object fields => .ok fields.length
  | _ => .error "count encode target has no length"

def encodeCount (countJson : Text) (value : ProtoDefValue) : Except String (List UInt8) :=
  match readJsonValueField countJson (txt "type") with
  | none => .error "count encode type not found"
  | some type => do
      let count ← match readJsonStringField countJson (txt "countFor") with
        | some countFor =>
            match getPath value countFor with
            | none => .error ("count encode missing countFor field: " ++ shown countFor)
            | some target => valueLength target
        | none => asUInt undefinedCast value
      encode type (.uint count)

def encodeEndOfArray (arrayJson : Text) (value : ProtoDefValue) : Except String (List UInt8) :=
  match value with
  | .array items =>
      match readJsonValueField arrayJson (txt "type") with
      | none => .error "endOfArray encode item type not found"
      | some itemType => List.flatten <$> items.mapM (encode itemType)
  | _ => .error "endOfArray encode expects array"

def encodeEntityMetadataLoop (metadataJson : Text) (value : ProtoDefValue) :
    Except String (List UInt8) :=
  match value with
  | .array items => do
      let endVal ← readJsonIntegerField metadataJson (txt "endVal")
      match readJsonValueField metadataJson (txt "type") with
      | none => .error "entityMetadataLoop encode item type not found"
      | some itemType =>
          let chunks ← items.mapM (encode itemType)
          .ok (chunks.flatten ++ [UInt8.ofNat (endVal.getD 0x7f)])
  | _ => .error "entityMetadataLoop encode expects array"

def encodeEntityMetadataItem (metadataItemJson : Text) (context : ProtoDefValue) :
    Except String (List UInt8) :=
  match context with
  | .object _ => do
      let compareTo := (readJsonStringField metadataItemJson (txt "compareTo")).getD (txt "type")
      let resolved ← resolveCompareValue context compareTo
      match resolved, typeJson (txt "entityMetadataItem") with
      | none, _ => .error ("entityMetadataItem missing compare field: " ++ shown compareTo)
      | some _, none => .error "entityMetadataItem schema not found"
      | some value, some switchJson =>
          match switchBranch protoDefVariables switchJson value with
          | none => .error ("entityMetadataItem no branch for: " ++ shown value)
          | some branch => encode branch (directValue context)
  | _ => .error "entityMetadataItem encode expects object context"

/-! ## Containers -/

/-- A branch sees the whole container, with its own value under `$value`. -/
def switchContext (name : Text) (value : ProtoDefValue) : ProtoDefValue :=
  match value.get name with
  | none => value
  | some child => .object (assign (txt "$value") (withParent value child) value.objectValue)

def choosesBranch (type : Text) : Bool :=
  startsWith (trim type) (txt "[\"switch\"") ∨
    startsWith (trim type) (txt "[\"entityMetadataItem\"")

/-- One field of a container. -/
def encodeField (name : Option Text) (anon : Bool) (type : Text) (value : ProtoDefValue) :
    Except String (List UInt8) :=
  match anon, name with
  | true, _ => encode type value
  | false, none => .error "container field missing name"
  | false, some name =>
      if choosesBranch type then encode type (switchContext name value)
      else
        match value.get name with
        | none => .error ("container missing field: " ++ shown name)
        | some child => encode type (withParent value child)

/-- What the message of an error says about the field. -/
def fieldLabel (name : Option Text) (anon : Bool) (type : Text) : String :=
  if anon then "<anonymous " ++ shown ((trim type).take 96) ++ ">"
  else (name.map shown).getD "<unnamed>"

/-- The body of the loop: an object without a type is no field. -/
def encodeObject (value : ProtoDefValue) (fieldObj : Text) : Except String (List UInt8) :=
  let name := readJsonStringField fieldObj (txt "name")
  let anon := (readJsonBoolField fieldObj (txt "anon")).getD false
  match readJsonValueField fieldObj (txt "type") with
  | none => .ok []
  | some type =>
      (encodeField encode name anon type value).mapError fun e ↦
        "at container field " ++ fieldLabel name anon type ++ ": " ++ e

/-- The loop over the objects in the text of the fields, from `pos`; every turn moves on. -/
def containerFieldsFrom (fields : Text) (value : ProtoDefValue) :
    ℕ → ℕ → Except String (List UInt8)
  | 0, _ => .ok []
  | turns + 1, pos =>
      match find fields 0x7b pos with
      | none => .ok []
      | some objStart =>
          match findMatching fields objStart 0x7b 0x7d with
          | none => .error "container field object not closed"
          | some objEnd => do
              let written ← encodeObject encode value (substr fields objStart (objEnd - objStart + 1))
              let rest ← containerFieldsFrom fields value turns (objEnd + 1)
              .ok (written ++ rest)

/-- The array after the first bracket of the text. -/
def findSecondArray (json : Text) : Option Text := do
  let first ← find json 0x5b 0
  let second ← find json 0x5b (first + 1)
  let last ← findMatching json second 0x5b 0x5d
  some (substr json second (last - second + 1))

def encodeContainer (containerJson : Text) (value : ProtoDefValue) : Except String (List UInt8) :=
  match value with
  | .object _ =>
      match findSecondArray containerJson with
      | none => .error "container fields array not found"
      | some fields => containerFieldsFrom encode fields value (fields.length + 1) 0
  | _ => .error "container encode expects object"

/-- One level of the recursion. -/
def encodeLevel (json : Text) (value : ProtoDefValue) : Except String (List UInt8) :=
  let type := trim json
  if isJsonString type then encodeTypeName typeJson undefinedCast encode (unquote type) value
  else if startsWith type (txt "[\"container\"") then encodeContainer encode type value
  else if startsWith type (txt "[\"mapper\"") then
    encodeMapper typeJson undefinedCast encode type value
  else if startsWith type (txt "[\"switch\"") then encodeSwitch protoDefVariables encode type value
  else if startsWith type (txt "[\"array\"") then ElementCounts.encodeArray encode type value
  else if startsWith type (txt "[\"endOfArray\"") then encodeEndOfArray encode type value
  else if startsWith type (txt "[\"entityMetadataLoop\"") then
    encodeEntityMetadataLoop encode type value
  else if startsWith type (txt "[\"count\"") then encodeCount undefinedCast encode type value
  else if startsWith type (txt "[\"option\"") then encodeOption encode type value
  else if startsWith type (txt "[\"pstring\"") then ElementCounts.encodePString type value
  else if startsWith type (txt "[\"buffer\"") then ElementCounts.encodeBuffer type value
  else if startsWith type (txt "[\"encapsulated\"") then
    ElementCounts.encodeEncapsulated encode type value
  else if startsWith type (txt "[\"bitflags\"") then
    Bitflags.encodeBitflags undefinedCast (encodeNamed typeJson undefinedCast encode) type value
  else if startsWith type (txt "[\"bitfield\"") then
    Bitfield.encodeBitfield undefinedCast type value
  else if startsWith type (txt "[\"entityMetadataItem\"") then
    encodeEntityMetadataItem typeJson protoDefVariables encode type value
  else .error ("ProtoDefEncoder unsupported type json: " ++ shown type)

end Encoding

section Levels

variable (typeJson : Text → Option Text) (protoDefVariables : List (Text × Text))
  (undefinedCast : UInt64 → UInt64)

/-- The recursion with `fuel` levels. -/
def encode : ℕ → Text → ProtoDefValue → Except String (List UInt8)
  | 0, _, _ => .error "out of fuel"
  | fuel + 1, json, value =>
      encodeLevel typeJson protoDefVariables undefinedCast (encode fuel) json value

end Levels

end ProtoDefEncoder

end BedrockProtocol
