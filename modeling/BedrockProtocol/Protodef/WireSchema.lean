import BedrockProtocol.Protodef.ProtoDefEncoder

/-!
# What a schema means

The formats that types describe, as trees, without their text: the bytes that stand for a value,
and what a decoder records when it reads them.  A value that the format cannot carry has no bytes.
A field of a container is of a fixed type, or its type is chosen by a field before it.  A chosen
type depends on a text that is still known: the decoder keeps one for every name, and a later
field that uses the name again replaces it.
-/

namespace BedrockProtocol

/-! ## Scalars -/

/-- A type of integers: the words that are written are two's complement. -/
structure IntegerType where
  width : ℕ
  signed : Bool
  write : ℕ → List UInt8

namespace IntegerType

def Holds (type : IntegerType) (z : ℤ) : Prop :=
  if type.signed then InSigned type.width z else 0 ≤ z ∧ z < 2 ^ type.width

instance (type : IntegerType) (z : ℤ) : Decidable (type.Holds z) :=
  inferInstanceAs (Decidable (if type.signed = true then _ else _))

def bytes (type : IntegerType) (z : ℤ) : List UInt8 := type.write (toUnsigned type.width z)

end IntegerType

/-- A `varint128` is written from 64 bits.  The encoder casts an `li8` to an unsigned word first,
and that is left open for some doubles. -/
def integerTypes : List (Text × IntegerType) :=
  [(txt "u8", ⟨8, false, leBytes 1⟩), (txt "lu8", ⟨8, false, leBytes 1⟩),
    (txt "byte", ⟨8, false, leBytes 1⟩), (txt "i8", ⟨8, true, leBytes 1⟩),
    (txt "u16", ⟨16, false, beBytes 2⟩), (txt "lu16", ⟨16, false, leBytes 2⟩),
    (txt "i16", ⟨16, true, beBytes 2⟩), (txt "li16", ⟨16, true, leBytes 2⟩),
    (txt "u32", ⟨32, false, beBytes 4⟩), (txt "lu32", ⟨32, false, leBytes 4⟩),
    (txt "i32", ⟨32, true, beBytes 4⟩), (txt "li32", ⟨32, true, leBytes 4⟩),
    (txt "u64", ⟨64, false, beBytes 8⟩), (txt "lu64", ⟨64, false, leBytes 8⟩),
    (txt "i64", ⟨64, true, beBytes 8⟩), (txt "li64", ⟨64, true, leBytes 8⟩),
    (txt "varint", ⟨32, false, leb128 4⟩), (txt "varuint", ⟨32, false, leb128 4⟩),
    (txt "varint64", ⟨64, false, leb128 9⟩), (txt "varuint64", ⟨64, false, leb128 9⟩),
    (txt "varlong", ⟨64, false, leb128 9⟩), (txt "entity_runtime_id", ⟨64, false, leb128 9⟩),
    (txt "actor_runtime_id", ⟨64, false, leb128 9⟩),
    (txt "runtime_entity_id", ⟨64, false, leb128 9⟩),
    (txt "zigzag32", ⟨32, true, fun n ↦ leb128 4 (encodeZigZag 32 n)⟩),
    (txt "zigzag64", ⟨64, true, fun n ↦ leb128 9 (encodeZigZag 64 n)⟩),
    (txt "varint128", ⟨64, false, leb128 18⟩)]

def integerType (typeName : Text) : Option IntegerType := integerTypes.lookup typeName

/-- The types of floating-point numbers: the word of a double, how it is written, and the double
that the word is read as. -/
structure FloatType where
  word : UInt64 → ℕ
  write : ℕ → List UInt8
  read : ℕ → UInt64

def floatTypes : List (Text × FloatType) :=
  [(txt "f32", ⟨fun bits ↦ (narrow bits).toNat, beBytes 4, fun word ↦ widen (UInt32.ofNat word)⟩),
    (txt "lf32", ⟨fun bits ↦ (narrow bits).toNat, leBytes 4, fun word ↦ widen (UInt32.ofNat word)⟩),
    (txt "f64", ⟨UInt64.toNat, beBytes 8, UInt64.ofNat⟩),
    (txt "lf64", ⟨UInt64.toNat, leBytes 8, UInt64.ofNat⟩)]

def floatType (typeName : Text) : Option FloatType := floatTypes.lookup typeName

/-- Three types of strings: where the length ends, and how it is written. -/
def stringTypes : List (Text × ℕ × (ℕ → List UInt8)) :=
  [(txt "string", 2 ^ 32, leb128 4), (txt "ShortString", 2 ^ 16, leBytes 2),
    (txt "lstring", 2 ^ 31, leBytes 4)]

def stringType (typeName : Text) : Option (ℕ × (ℕ → List UInt8)) := stringTypes.lookup typeName

/-- The bytes of a scalar and the text that they are decoded to. -/
def scalarCode (typeName : Text) (value : ProtoDefValue) : Option (List UInt8 × Text) :=
  match integerType typeName with
  | some type => do
      let z ← value.wholeNumber
      if type.Holds z then some (type.bytes z, decimalInt z) else none
  | none =>
      match floatType typeName with
      | some type =>
          match value with
          | .double bits =>
              some (type.write (type.word bits), ProtoDefDecoder.fixedText (type.read (type.word bits)))
          | _ => none
      | none =>
          match stringType typeName with
          | some (bound, write) =>
              match value with
              | .string text =>
                  if text.length < bound then some (write text.length ++ text, text) else none
              | _ => none
          | none =>
              if typeName = txt "void" then some ([], txt "<void>")
              else if typeName = txt "bool" then
                match value with
                | .bool b => some ([if b then 1 else 0], if b then txt "true" else txt "false")
                | _ => none
              else none

/-! ## Names -/

/-- A letter, a digit or an underscore. -/
def isNameByte (c : UInt8) : Bool :=
  isDigit c ∨ (0x41 ≤ c ∧ c ≤ 0x5a) ∨ (0x61 ≤ c ∧ c ≤ 0x7a) ∨ c = 0x5f

def PlainName (name : Text) : Prop := name ≠ [] ∧ name.all isNameByte

instance (name : Text) : Decidable (PlainName name) := inferInstanceAs (Decidable (_ ∧ _))

/-- A name of a type or of a field that no search takes for anything else. -/
abbrev WireName := {name : Text // PlainName name}

/-- The characters of names, blanks and `-`, `.`, `:`. -/
def isKeyByte (c : UInt8) : Bool := isNameByte c ∨ c ∈ [0x20, 0x2d, 0x2e, 0x3a]

def PlainKey (key : Text) : Prop :=
  key.all isKeyByte ∧ key.head?.any fun c ↦ isNameByte c ∨ c = 0x2d

instance (key : Text) : Decidable (PlainKey key) := inferInstanceAs (Decidable (_ ∧ _))

/-- A key of a switch or a name of a mapper; it begins like a name or a number. -/
abbrev WireKey := {key : Text // PlainKey key}

/-! ## Schemas -/

/-- What stands in front of the elements: their number, or nothing where it is fixed. -/
inductive WireSize
  | counted (countType : WireName)
  | fixed (count : ℕ)

mutual

/-- A type.  A name stands for the type that a resolver has for it. -/
inductive WireSchema
  | scalar (typeName : WireName)
  | pstring (countType : WireName)
  | buffer (size : WireSize)
  | array (size : WireSize) (item : WireSchema)
  | option (inner : WireSchema)
  | mapper (baseType : WireName) (mappings : List (ℕ × WireKey))
  | encapsulated (lengthType : WireName) (inner : WireSchema)
  | named (typeName : WireName) (schema : WireSchema)
  | container (fields : WireFields)

/-- The fields of a container; the type of a switch is chosen by the field `compareTo`. -/
inductive WireFields
  | nil
  | plain (name : WireName) (schema : WireSchema) (rest : WireFields)
  | switch (name compareTo : WireName) (cases : WireCases) (rest : WireFields)

inductive WireCases
  | nil
  | default (schema : WireSchema)
  | case (key : WireKey) (schema : WireSchema) (rest : WireCases)

end

mutual

/-- The names of the fields of the containers in the schema. -/
def WireSchema.names : WireSchema → List Text
  | .array _ item => item.names
  | .option inner => inner.names
  | .encapsulated _ inner => inner.names
  | .named _ schema => schema.names
  | .container fields => fields.names
  | _ => []

def WireFields.names : WireFields → List Text
  | .nil => []
  | .plain name schema rest => name.1 :: (schema.names ++ rest.names)
  | .switch name _ cases rest => name.1 :: (cases.names ++ rest.names)

def WireCases.names : WireCases → List Text
  | .nil => []
  | .default schema => schema.names
  | .case _ schema rest => schema.names ++ rest.names

end

def WireSize.strings : WireSize → List Text
  | .counted countType => [txt "countType", countType.1]
  | .fixed _ => [txt "count"]

mutual

/-- The texts that stand in quotes where the schema is written down. -/
def WireSchema.strings : WireSchema → List Text
  | .scalar typeName => [typeName.1]
  | .pstring countType => [txt "pstring", txt "countType", countType.1]
  | .buffer size => txt "buffer" :: size.strings
  | .array size item => txt "array" :: (size.strings ++ txt "type" :: item.strings)
  | .option inner => txt "option" :: inner.strings
  | .mapper baseType mappings =>
      [txt "mapper", txt "type", baseType.1, txt "mappings"] ++
        mappings.flatMap fun entry ↦ [decimal entry.1, entry.2.1]
  | .encapsulated lengthType inner =>
      [txt "encapsulated", txt "lengthType", lengthType.1, txt "type"] ++ inner.strings
  | .named typeName _ => [typeName.1]
  | .container fields => txt "container" :: fields.strings

def WireFields.strings : WireFields → List Text
  | .nil => []
  | .plain name schema rest =>
      [txt "name", name.1, txt "type"] ++ schema.strings ++ rest.strings
  | .switch name compareTo cases rest =>
      [txt "name", name.1, txt "type", txt "switch", txt "compareTo", compareTo.1, txt "fields"] ++
        cases.strings ++ rest.strings

def WireCases.strings : WireCases → List Text
  | .nil => []
  | .default schema => txt "default" :: schema.strings
  | .case k schema rest => k.1 :: (schema.strings ++ rest.strings)

end

mutual

/-- The levels of the encoder and of the decoder that the schema takes. -/
def WireSchema.depth : WireSchema → ℕ
  | .array _ item => item.depth + 1
  | .option inner => inner.depth + 1
  | .encapsulated _ inner => inner.depth + 1
  | .named _ schema => schema.depth + 1
  | .container fields => fields.depth + 1
  | _ => 1

/-- A branch of a switch is one level below it. -/
def WireFields.depth : WireFields → ℕ
  | .nil => 0
  | .plain _ schema rest => max schema.depth rest.depth
  | .switch _ _ cases rest => max (cases.depth + 1) rest.depth

def WireCases.depth : WireCases → ℕ
  | .nil => 0
  | .default schema => schema.depth
  | .case _ schema rest => max schema.depth rest.depth

end

/-! ## Bytes -/

/-- A number that its type gives back. -/
def countCode (countType : Text) (count : ℕ) : Option (List UInt8) :=
  if count < ElementCounts.countBound countType then
    (ElementCounts.writeCount countType count).toOption
  else none

def WireSize.code : WireSize → ℕ → Option (List UInt8)
  | .counted countType, count => countCode countType.1 count
  | .fixed expected, count => if count = expected ∧ expected < 2 ^ 63 then some [] else none

/-- The numbers that stand for names, the first entry of each name. -/
def numberOf (mappings : List (ℕ × WireKey)) (name : Text) : Option ℕ :=
  (mappings.find? fun entry ↦ entry.2.1 = name).map Prod.fst

def nameOf (mappings : List (ℕ × WireKey)) (n : ℕ) : Option Text :=
  (mappings.find? fun entry ↦ entry.1 = n).map fun entry ↦ entry.2.1

/-- The types that a mapper can be read from. -/
def mapperTypes : List Text :=
  [txt "u8", txt "lu8", txt "i8", txt "u16", txt "lu16", txt "i16", txt "li16", txt "u32",
    txt "lu32", txt "i32", txt "li32", txt "varint", txt "varuint", txt "varint64",
    txt "varuint64", txt "zigzag32"]

/-- The number of a value under a mapper; a name stands for the first number that has it. -/
def mapperNumber (mappings : List (ℕ × WireKey)) : ProtoDefValue → Option ℕ
  | .string name => numberOf mappings name
  | .uint n => some n
  | _ => none

def mapperCode (baseType : Text) (mappings : List (ℕ × WireKey)) (value : ProtoDefValue) :
    Option (ℕ × List UInt8) :=
  if baseType ∈ mapperTypes then do
    let type ← integerType baseType
    let n ← mapperNumber mappings value
    if type.Holds n then some (n, type.bytes n) else none
  else none

/-- The name that the decoder gives a number, or its digits. -/
def mapperName (mappings : List (ℕ × WireKey)) (n : ℕ) : Text := (nameOf mappings n).getD (decimal n)

/-- The text that the decoder knows under the path of a value, where later fields may look it up. -/
def WireSchema.known : WireSchema → ProtoDefValue → Option Text
  | .scalar typeName, value => (scalarCode typeName.1 value).map Prod.snd
  | .mapper baseType mappings, value =>
      (mapperCode baseType.1 mappings value).map fun code ↦ mapperName mappings code.1
  | .named _ schema, value => schema.known value
  | _, _ => none

/-- The known texts after a field that uses some names. -/
def forget (names : List Text) (env : List (Text × Text)) : List (Text × Text) :=
  env.filter fun entry ↦ entry.1 ∉ names

/-- What the branch of a switch is about: the field, or the whole container without it. -/
def branchValue (name : Text) (value : ProtoDefValue) : ProtoDefValue :=
  (value.get name <|> value.get (txt "$value")).getD value

/-- The text that a switch goes by: the one that the decoder knows, if the encoder sees it, too. -/
def discriminator (env : List (Text × Text)) (compareTo : Text) (value : ProtoDefValue) :
    Option Text := do
  let key ← env.lookup compareTo
  let compared ← value.get compareTo
  let seen ← (ProtoDefEncoder.valueToSwitchKey compared).toOption
  if seen = key ∧ PlainKey key then some key else none

mutual

def WireSchema.wire : WireSchema → ProtoDefValue → Option (List UInt8)
  | .scalar typeName, value => (scalarCode typeName.1 value).map Prod.fst
  | .pstring countType, value =>
      match value with
      | .string text => (· ++ text) <$> countCode countType.1 text.length
      | _ => none
  | .buffer size, value =>
      match value with
      | .bytes content => (· ++ content) <$> size.code content.length
      | _ => none
  | .array size item, value =>
      match value with
      | .array items => do
          let header ← size.code items.length
          let chunks ← items.mapM item.wire
          some (header ++ chunks.flatten)
      | _ => none
  | .option inner, value =>
      match value with
      | .null => some [0]
      | value => (1 :: ·) <$> inner.wire value
  | .mapper baseType mappings, value => (mapperCode baseType.1 mappings value).map Prod.snd
  | .encapsulated lengthType inner, value => do
      let payload ← inner.wire value
      let header ← countCode lengthType.1 payload.length
      some (header ++ payload)
  | .named _ schema, value => schema.wire value
  | .container fields, value =>
      match value with
      | .object _ => fields.wire [] value
      | _ => none

/-- The fields one after the other, each with the texts that are known before it. -/
def WireFields.wire : WireFields → List (Text × Text) → ProtoDefValue → Option (List UInt8)
  | .nil, _, _ => some []
  | .plain name schema rest, env, value => do
      let child ← value.get name.1
      let bytes ← schema.wire child
      let known := (schema.known child).toList.map fun text ↦ (name.1, text)
      let more ← rest.wire (known ++ forget (name.1 :: schema.names) env) value
      some (bytes ++ more)
  | .switch name compareTo cases rest, env, value => do
      let key ← discriminator env compareTo.1 value
      let bytes ← cases.wire key (branchValue name.1 value)
      let more ← rest.wire (forget (name.1 :: cases.names) env) value
      some (bytes ++ more)

/-- Without a branch there are no bytes.  The encoder searches the text of the branches for the
key, so no branch before that of the key may have it in quotes. -/
def WireCases.wire : WireCases → Text → ProtoDefValue → Option (List UInt8)
  | .nil, _, _ => some []
  | .default schema, _, value => schema.wire value
  | .case k schema rest, key, value =>
      if key = k.1 then schema.wire value
      else if key ∈ schema.strings then none
      else rest.wire key value

end

/-! ## Records -/

/-- A decoded field without its place in the bytes, and the text that is known for it. -/
structure Recorded where
  path : Text
  value : Text
  known : Text := value
  structuredValue : Option ProtoDefValue := none

/-- A path, or a name for the root. -/
def orName (path : Text) (name : String) : Text := if path = [] then txt name else path

/-- The record of the flag of an option. -/
def presentRecord (path : Text) (present : Bool) : Recorded where
  path := if path = [] then txt "$option" else path ++ txt ".$present"
  value := if present then txt "true" else txt "false"

/-- The record of the number of elements. -/
def countRecord (path : Text) (count : ℕ) : Recorded where
  path := if path = [] then txt "$count" else path ++ txt ".$count"
  value := decimal count

/-- The records of the elements from the index `i`. -/
def itemRecords (records : Text → ProtoDefValue → List Recorded) (path : Text) :
    ℕ → List ProtoDefValue → List Recorded
  | _, [] => []
  | i, item :: items =>
      records (ElementCounts.itemPath path i) item ++ itemRecords records path (i + 1) items

mutual

def WireSchema.records : WireSchema → Text → ProtoDefValue → List Recorded
  | .scalar typeName, path, value =>
      ((scalarCode typeName.1 value).map fun code ↦
        { path := orName path "$value", value := code.2 : Recorded }).toList
  | .pstring _, path, value =>
      match value with
      | .string text => [{ path := orName path "$string", value := text }]
      | _ => []
  | .buffer _, path, value =>
      match value with
      | .bytes content =>
          [{ path := orName path "$buffer", value := ProtoDefDecoder.bufferText content.length
             structuredValue := some (.bytes content) }]
      | _ => []
  | .array _ item, path, value =>
      match value with
      | .array items =>
          { path := if path = [] then txt "$count" else path ++ txt ".$count"
            value := decimal items.length } :: itemRecords item.records path 0 items
      | _ => []
  | .option inner, path, value =>
      let present (text : String) : Recorded :=
        { path := if path = [] then txt "$option" else path ++ txt ".$present", value := txt text }
      match value with
      | .null => [present "false"]
      | value => present "true" :: inner.records path value
  | .mapper baseType mappings, path, value =>
      ((mapperCode baseType.1 mappings value).map fun code ↦
        { path := orName path "$value"
          value := decimal code.1 ++ txt "/" ++ mapperName mappings code.1
          known := mapperName mappings code.1 : Recorded }).toList
  | .encapsulated _ inner, path, value => inner.records path value
  | .named _ schema, path, value => schema.records path value
  | .container fields, path, value => fields.records path value

def WireFields.records : WireFields → Text → ProtoDefValue → List Recorded
  | .nil, _, _ => []
  | .plain name schema rest, path, value =>
      ((value.get name.1).map (schema.records (childPath path name.1))).getD [] ++
        rest.records path value
  | .switch name compareTo cases rest, path, value =>
      let key := (value.get compareTo.1).bind fun compared ↦
        (ProtoDefEncoder.valueToSwitchKey compared).toOption
      cases.records (key.getD []) (childPath path name.1) (branchValue name.1 value) ++
        rest.records path value

/-- Without a branch the decoder says so. -/
def WireCases.records : WireCases → Text → Text → ProtoDefValue → List Recorded
  | .nil, key, path, _ =>
      [{ path := orName path "$switch", value := txt "<no_branch:" ++ key ++ txt ">" }]
  | .default schema, _, path, value => schema.records path value
  | .case k schema rest, key, path, value =>
      if key = k.1 then schema.records path value else rest.records key path value

end

end BedrockProtocol
