import BedrockProtocol.Protodef.JsonTypes

/-!
# Types without switches

Types whose meaning depends on no other field: integers, texts, identifiers, numbers with names,
options, arrays and containers.  There are three readings of such a type: the JSON texts that spell
it, the values that it has, and the fields that a decoder lists for a value.  Strings are taken as
they are written, and a name of a mapper has no quote in it.
-/

namespace BedrockProtocol

open SchemaText JsonPieces

open ProtoDefEncoder (quoted)

/-! ## Types -/

def flatTypes : List Text :=
  [txt "u8", txt "i8", txt "u16", txt "lu16", txt "i16", txt "li16", txt "u32", txt "lu32", txt "i32",
    txt "li32", txt "u64", txt "lu64", txt "i64", txt "li64", txt "varint", txt "varint64",
    txt "zigzag32", txt "zigzag64", txt "void", txt "bool", txt "string"]

/-- The integers that the decoder reads for a mapper. -/
def mapperBase (baseType : Text) : Option IntegerType :=
  if baseType = txt "li8" then some ⟨8, true, leBytes 1⟩
  else if baseType ∈ mapperTypes then integerType baseType
  else none

/-- Names for some numbers of a type, each number with one name. -/
structure NumberNames where
  baseType : Text
  type : IntegerType
  mappings : List (ℤ × Text)
  base : mapperBase baseType = some type
  holds : ∀ entry ∈ mappings, type.Holds entry.1
  numbers : (mappings.map Prod.fst).Nodup
  body : ∀ entry ∈ mappings, isBody entry.2 = true ∧ (0x22 : UInt8) ∉ entry.2

mutual

/-- Elements, byte strings and strings come with a varint in front for their number. -/
inductive FlatSchema
  | scalar (typeName : {name : Text // name ∈ flatTypes})
  | uuid
  | mapper (names : NumberNames)
  | option (inner : FlatSchema)
  | array (item : FlatSchema)
  | buffer
  | pstring
  | container (fields : FlatFields)

inductive FlatFields
  | nil
  | field (name : {name : Text // isBody name = true}) (schema : FlatSchema) (rest : FlatFields)

end

mutual

/-- The levels of the encoder and of the decoder that the type takes. -/
def FlatSchema.depth : FlatSchema → ℕ
  | .option inner => inner.depth + 1
  | .array item => item.depth + 1
  | .container fields => fields.depth + 1
  | _ => 1

def FlatFields.depth : FlatFields → ℕ
  | .nil => 0
  | .field _ schema rest => max schema.depth rest.depth

end

mutual

/-- The names of the fields. -/
def FlatSchema.names : FlatSchema → List Text
  | .option inner => inner.names
  | .array item => item.names
  | .container fields => fields.names
  | _ => []

def FlatFields.names : FlatFields → List Text
  | .nil => []
  | .field name schema rest => name.1 :: (schema.names ++ rest.names)

end

mutual

/-- The names of the fields of containers inside other containers.  The encoder gives each value of
such a container the value around it as a member `..`. -/
def FlatSchema.innerNames : FlatSchema → List Text
  | .option inner => inner.innerNames
  | .array item => item.innerNames
  | .container fields => fields.innerNames
  | _ => []

def FlatFields.innerNames : FlatFields → List Text
  | .nil => []
  | .field _ schema rest => schema.names ++ rest.innerNames

end

/-! ## Texts -/

/-- The number of elements is a varint. -/
def CountedByVarint (members : List Member) : Prop :=
  valueOf members (txt "count") = none ∧
    valueOf members (txt "countType") ∈ [none, some (quoted (txt "varint"))]

/-- The members of an object, with the blanks in it and around it. -/
structure ObjectSpelling where
  members : List Member
  blank : Text := []
  lead : Text := []
  rear : Text := []

namespace ObjectSpelling

def value (object : ObjectSpelling) : Text := spelledObject object.blank object.members

def element (object : ObjectSpelling) : Element :=
  { value := object.value, lead := object.lead, rear := object.rear }

structure Spelled (object : ObjectSpelling) : Prop where
  members : ∀ m ∈ object.members, m.Spelled
  blank : ∀ t ∈ [object.blank, object.lead, object.rear], isBlank t = true

end ObjectSpelling

/-- The text is the array of a kind of type and of an object. -/
def IsAbout (kind : String) (text : Text) (object : ObjectSpelling) : Prop :=
  object.Spelled ∧ ∃ gap, isBlank gap = true ∧ text = pairText (txt kind) gap object.element.text

/-- The two members of a mapper, in any order: its type, and the names under their numbers. -/
structure NumberNames.Spells (names : NumberNames) (members : List Member) : Prop where
  exists_members : ∃ typeMember mappingsMember, ∃ object : ObjectSpelling,
    (members = [typeMember, mappingsMember] ∨ members = [mappingsMember, typeMember]) ∧
      typeMember.key = txt "type" ∧ typeMember.value = quoted names.baseType ∧
      mappingsMember.key = txt "mappings" ∧ mappingsMember.value = object.value ∧ object.Spelled ∧
      object.members.map (fun m ↦ (m.key, m.value)) =
        names.mappings.map fun entry ↦ (decimalInt entry.1, quoted entry.2)

mutual

/-- The text spells the type; there is no blank between the bracket and the kind of the type. -/
def FlatSchema.Spells : FlatSchema → Text → Prop
  | .scalar typeName, text => text = quoted typeName.1
  | .uuid, text => text = quoted (txt "uuid")
  | .mapper names, text => ∃ object, IsAbout "mapper" text object ∧ names.Spells object.members
  | .option inner, text =>
      ∃ gap lead innerType rear, (∀ t ∈ [gap, lead, rear], isBlank t = true) ∧
        text = pairText (txt "option") gap (lead ++ (innerType ++ rear)) ∧ inner.Spells innerType
  | .array item, text =>
      ∃ object itemType, IsAbout "array" text object ∧ CountedByVarint object.members ∧
        valueOf object.members (txt "type") = some itemType ∧ item.Spells itemType
  | .buffer, text => ∃ object, IsAbout "buffer" text object ∧ CountedByVarint object.members
  | .pstring, text => ∃ object, IsAbout "pstring" text object ∧ CountedByVarint object.members
  | .container fields, text =>
      ∃ gap lead blank objects rear, (∀ t ∈ [gap, lead, blank, rear], isBlank t = true) ∧
        text = pairText (txt "container") gap
          (lead ++ (listText blank (objects.map ObjectSpelling.element) ++ rear)) ∧
        fields.Spells objects

/-- There is one object for each field. -/
def FlatFields.Spells : FlatFields → List ObjectSpelling → Prop
  | .nil, objects => objects = []
  | .field name schema rest, objects =>
      ∃ object others type, objects = object :: others ∧ object.Spelled ∧
        valueOf object.members (txt "name") = some (quoted name.1) ∧
        valueOf object.members (txt "anon") ∈ [none, some (txt "false")] ∧
        valueOf object.members (txt "type") = some type ∧ schema.Spells type ∧ rest.Spells others

end

/-- One way to write a type down, with the same blanks in front of everything. -/
def spaced (gap key value : Text) : Member := { key, value, lead := gap, after := gap }

def aboutText (kind : String) (object : ObjectSpelling) : Text :=
  pairText (txt kind) [] object.element.text

def NumberNames.mappingsObject (names : NumberNames) (gap : Text) : ObjectSpelling :=
  { members := names.mappings.map fun entry ↦ spaced gap (decimalInt entry.1) (quoted entry.2) }

mutual

def FlatSchema.text (gap : Text) : FlatSchema → Text
  | .scalar typeName => quoted typeName.1
  | .uuid => quoted (txt "uuid")
  | .mapper names =>
      aboutText "mapper"
        { members :=
            [spaced gap (txt "type") (quoted names.baseType),
              spaced gap (txt "mappings") (names.mappingsObject gap).value]
          lead := gap }
  | .option inner => pairText (txt "option") [] (gap ++ (inner.text gap ++ []))
  | .array item =>
      aboutText "array"
        { members :=
            [spaced gap (txt "countType") (quoted (txt "varint")), spaced gap (txt "type") (item.text gap)]
          lead := gap }
  | .buffer =>
      aboutText "buffer"
        { members := [spaced gap (txt "countType") (quoted (txt "varint"))], lead := gap }
  | .pstring =>
      aboutText "pstring"
        { members := [spaced gap (txt "countType") (quoted (txt "varint"))], lead := gap }
  | .container fields =>
      pairText (txt "container") []
        (gap ++ (listText [] ((fields.objects gap).map ObjectSpelling.element) ++ []))

def FlatFields.objects (gap : Text) : FlatFields → List ObjectSpelling
  | .nil => []
  | .field name schema rest =>
      { members :=
          [spaced gap (txt "name") (quoted name.1), spaced gap (txt "type") (schema.text gap)]
        lead := gap } :: rest.objects gap

end

/-! ## Values -/

def isHexDigit (c : UInt8) : Bool :=
  (0x30 ≤ c ∧ c ≤ 0x39) ∨ (0x61 ≤ c ∧ c ≤ 0x66) ∨ (0x41 ≤ c ∧ c ≤ 0x46)

/-- The digits of an identifier, wherever its dashes stand. -/
def uuidDigits (text : Text) : Text := text.filter (· ≠ 0x2d)

def IsUuid (text : Text) : Prop := (uuidDigits text).length = 32 ∧ (uuidDigits text).all isHexDigit = true

def lowerHex (c : UInt8) : UInt8 := if 0x41 ≤ c ∧ c ≤ 0x46 then c + 0x20 else c

/-- An identifier with small digits in groups of 8, 4, 4, 4 and 12. -/
def canonicalUuid (text : Text) : Text :=
  ((uuidDigits text).zipIdx.map fun digit ↦
    (if digit.2 ∈ [8, 12, 16, 20] then txt "-" else []) ++ [lowerHex digit.1]).flatten

/-- The number of a name, and the name of a number. -/
def numberNamed (mappings : List (ℤ × Text)) (name : Text) : Option ℤ :=
  (mappings.find? fun entry ↦ entry.2 = name).map Prod.fst

def nameGiven (mappings : List (ℤ × Text)) (z : ℤ) : Option Text :=
  (mappings.find? fun entry ↦ entry.1 = z).map Prod.snd

/-- A name stands for its number, and a number for itself. -/
def NumberNames.number (names : NumberNames) : ProtoDefValue → Option ℤ
  | .string name => numberNamed names.mappings name
  | .int z => some z
  | .uint n => some n
  | _ => none

mutual

/-- The value is of the type.  In an option `null` stands for no value. -/
def FlatSchema.HasType : FlatSchema → ProtoDefValue → Prop
  | .scalar typeName, value => (scalarCode typeName.1 value).isSome
  | .uuid, value => ∃ text, value = .string text ∧ IsUuid text
  | .mapper names, value => ∃ z, names.number value = some z ∧ names.type.Holds z
  | .option inner, value => value = .null ∨ inner.HasType value
  | .array item, value =>
      ∃ items, value = .array items ∧ items.length < 2 ^ 32 ∧ ∀ element ∈ items, item.HasType element
  | .buffer, value => ∃ content, value = .bytes content ∧ content.length < 2 ^ 32
  | .pstring, value => ∃ text, value = .string text ∧ text.length < 2 ^ 32
  | .container fields, value => ∃ members, value = .object members ∧ fields.HasTypes value

def FlatFields.HasTypes : FlatFields → ProtoDefValue → Prop
  | .nil, _ => True
  | .field name schema rest, value =>
      (∃ child, value.get name.1 = some child ∧ schema.HasType child) ∧ rest.HasTypes value

end

/-! ## Fields -/

/-- What a number is called, if the value does not say it. -/
def NumberNames.shown (names : NumberNames) (value : ProtoDefValue) (z : ℤ) : Text :=
  match value with
  | .string name => name
  | _ => (nameGiven names.mappings z).getD (decimalInt z)

mutual

/-- The decoded fields of a value, from the outside to the inside. -/
def FlatSchema.records : FlatSchema → Text → ProtoDefValue → List Recorded
  | .scalar typeName, path, value =>
      ((scalarCode typeName.1 value).map fun code ↦
        { path := orName path "$value", value := code.2 : Recorded }).toList
  | .uuid, path, value =>
      match value with
      | .string text => [{ path := orName path "$value", value := canonicalUuid text }]
      | _ => []
  | .mapper names, path, value =>
      ((names.number value).map fun z ↦
        { path := orName path "$value", value := decimalInt z ++ txt "/" ++ names.shown value z
          known := names.shown value z : Recorded }).toList
  | .option inner, path, value =>
      match value with
      | .null => [presentRecord path false]
      | value => presentRecord path true :: inner.records path value
  | .array item, path, value =>
      match value with
      | .array items => countRecord path items.length :: itemRecords item.records path 0 items
      | _ => []
  | .buffer, path, value =>
      match value with
      | .bytes content =>
          [{ path := orName path "$buffer", value := ProtoDefDecoder.bufferText content.length
             structuredValue := some (.bytes content) }]
      | _ => []
  | .pstring, path, value =>
      match value with
      | .string text => [{ path := orName path "$string", value := text }]
      | _ => []
  | .container fields, path, value => fields.records path value

def FlatFields.records : FlatFields → Text → ProtoDefValue → List Recorded
  | .nil, _, _ => []
  | .field name schema rest, path, value =>
      ((value.get name.1).map (schema.records (childPath path name.1))).getD [] ++
        rest.records path value

end

end BedrockProtocol
