import BedrockProtocol.Lib.LastWins
import BedrockProtocol.Nbt.BedrockNbt
import BedrockProtocol.Protodef.ProtoDefNumber

/-!
# NBT as a dynamic value

`ProtoDefNbt.cpp`: a tag becomes an object of its type and its value.  The
elements of a list have no type of their own, a compound becomes an object of
tags.  `BedrockNbt::equal` compares two compounds by the last child of every
name.
-/

namespace BedrockProtocol

namespace ProtoDefValue

mutual

/-- The levels of objects and arrays, and one for the leaves. -/
def height : ProtoDefValue → ℕ
  | .object fields => heightFields fields + 1
  | .array items => heightItems items + 1
  | _ => 1

def heightItems : List ProtoDefValue → ℕ
  | [] => 0
  | item :: items => max (height item) (heightItems items)

def heightFields : List (Text × ProtoDefValue) → ℕ
  | [] => 0
  | (_, child) :: fields => max (height child) (heightFields fields)

end

end ProtoDefValue

namespace ProtoDefNbt

open ProtoDefValue

/-! ## Names of tags -/

def protoDefNbtTagName : NbtTagType → Text
  | .endTag => txt "end"
  | .byte => txt "byte"
  | .short => txt "short"
  | .int => txt "int"
  | .long => txt "long"
  | .float => txt "float"
  | .double => txt "double"
  | .byteArray => txt "byteArray"
  | .string => txt "string"
  | .list => txt "list"
  | .compound => txt "compound"
  | .intArray => txt "intArray"
  | .longArray => txt "longArray"

def protoDefNbtTagType (name : Text) : Except String NbtTagType :=
  match NbtTagType.all.find? fun type ↦ protoDefNbtTagName type = name with
  | some type => .ok type
  | none => .error ("unknown NBT tag type: " ++ shown name)

def tagNode (type : Text) (payload : ProtoDefValue) : ProtoDefValue :=
  .object [(txt "type", .string type), (txt "value", payload)]

def requiredField (value : ProtoDefValue) (key : Text) : Except String ProtoDefValue :=
  match value with
  | .object fields =>
      match find key fields with
      | some child => .ok child
      | none => .error ("NBT tag is missing field: " ++ shown key)
  | _ => .error "NBT tag must be an object"

/-! ## From a tag to a value -/

mutual

def nbtValueToProtoDefValue : NbtValue → Except String ProtoDefValue
  | ⟨type, integerValue, floatingValue, stringValue, byteArrayValue, listElementType, listValue,
      compoundValue, intArrayValue, longArrayValue⟩ =>
    match type with
    | .endTag => .ok (tagNode (txt "end") .null)
    | .byte => .ok (tagNode (protoDefNbtTagName .byte) (.int integerValue.toInt))
    | .short => .ok (tagNode (protoDefNbtTagName .short) (.int integerValue.toInt))
    | .int => .ok (tagNode (protoDefNbtTagName .int) (.int integerValue.toInt))
    | .long => .ok (tagNode (protoDefNbtTagName .long) (.int integerValue.toInt))
    | .float => .ok (tagNode (protoDefNbtTagName .float) (.double floatingValue))
    | .double => .ok (tagNode (protoDefNbtTagName .double) (.double floatingValue))
    | .byteArray => .ok (tagNode (txt "byteArray")
        (.array (byteArrayValue.map fun b ↦ .int (toSigned 8 b.toNat))))
    | .string => .ok (tagNode (txt "string") (.string stringValue))
    | .list => do
        let values ← itemsToValues listValue
        .ok (tagNode (txt "list") (.object
          [(txt "type", .string (protoDefNbtTagName listElementType)), (txt "value", .array values)]))
    | .compound => do
        let values ← childrenToFields [] compoundValue
        .ok (tagNode (txt "compound") (.object values))
    | .intArray => .ok (tagNode (txt "intArray")
        (.array (intArrayValue.map fun item ↦ .int item.toInt)))
    | .longArray => .ok (tagNode (txt "longArray")
        (.array (longArrayValue.map fun item ↦ .int item.toInt)))

/-- The values of the elements, without their types. -/
def itemsToValues : List NbtValue → Except String (List ProtoDefValue)
  | [] => .ok []
  | item :: items => do
      let child ← nbtValueToProtoDefValue item
      let value ← requiredField child (txt "value")
      let values ← itemsToValues items
      .ok (value :: values)

/-- Every child is assigned under its name. -/
def childrenToFields (values : List (Text × ProtoDefValue)) :
    List (Text × NbtValue) → Except String (List (Text × ProtoDefValue))
  | [] => .ok values
  | (name, child) :: children => do
      let value ← nbtValueToProtoDefValue child
      childrenToFields (assign name value values) children

end

/-! ## From a value to a tag -/

section Conversion

variable (undefinedCast : UInt64 → UInt64)

def stringValue (value : ProtoDefValue) (what : String) : Except String Text :=
  match value with
  | .string text => .ok text
  | _ => .error (what ++ " must be a string")

def integerValue (value : ProtoDefValue) (what : String) : Except String ℤ :=
  match value with
  | .string text => (stoll text).mapError fun _ ↦ what ++ " is not a signed integer"
  | value => (asInt undefinedCast value).mapError fun _ ↦ what ++ " must be an integer"

/-- The number as a double. -/
def floatingValue (value : ProtoDefValue) (what : String) : Except String UInt64 :=
  match value with
  | .double bits => .ok bits
  | .int value => .ok (doubleOfInt value)
  | .uint value => .ok (doubleOfInt value)
  | .bool value => .ok (doubleOfInt (if value then 1 else 0))
  | _ => .error (what ++ " must be numeric")

def checkedInteger (bits : ℕ) (value : ProtoDefValue) (what : String) : Except String ℤ := do
  let number ← integerValue undefinedCast value what
  if InSigned bits number then .ok number else .error (what ++ " is out of range")

/-- A 64-bit integer, or its high and its low word. -/
def longValue (value : ProtoDefValue) (what : String) : Except String ℤ :=
  match value with
  | .array [high, low] => do
      let high ← checkedInteger undefinedCast 32 high what
      let low ← checkedInteger undefinedCast 32 low what
      .ok (toSigned 64 (toUnsigned 32 high * 2 ^ 32 + toUnsigned 32 low))
  | .array _ => .error (what ++ " word pair must contain [high, low]")
  | value => integerValue undefinedCast value what

def tagNameFromNode (value : ProtoDefValue) : Except String Text :=
  match value with
  | .object fields =>
      match find (txt "type") fields with
      | some type => stringValue type "NBT type"
      | none =>
          match find (txt "tag") fields with
          | some tag => stringValue tag "NBT tag"
          | none => .error "NBT tag is missing type"
  | _ => .error "NBT tag must be an object"

def listPayload (payload : ProtoDefValue) : Except String ProtoDefValue :=
  match payload with
  | .object _ => requiredField payload (txt "value")
  | _ => .error "NBT list value must be an object"

def listElementType (payload : ProtoDefValue) : Except String NbtTagType :=
  match payload.get (txt "type") with
  | some type => do
      let name ← stringValue type "NBT list type"
      protoDefNbtTagType name
  | none =>
      match payload.get (txt "childTag") with
      | some type => do
          let name ← stringValue type "NBT list childTag"
          protoDefNbtTagType name
      | none => .error "NBT list is missing element type"

def byteArrayValue (payload : ProtoDefValue) : Except String (List UInt8) :=
  match payload with
  | .bytes value => .ok value
  | .array items => items.mapM fun item ↦
      (fun z ↦ UInt8.ofNat (toUnsigned 8 z)) <$> checkedInteger undefinedCast 8 item "NBT byteArray item"
  | _ => .error "NBT byteArray value must be bytes or an array"

/-- The order of the names does not depend on that of the fields. -/
def sortedNames (fields : List (Text × ProtoDefValue)) : List Text :=
  (fields.map Prod.fst).mergeSort fun a b ↦ decide (a ≤ b)

def namedChild (convert : ProtoDefValue → Except String NbtValue)
    (fields : List (Text × ProtoDefValue)) (name : Text) : Except String (Text × NbtValue) := do
  let converted ← convert ((find name fields).getD .null)
  if converted.type = .endTag then throw "NBT compound cannot contain a named TAG_End"
  else pure (name, converted)

/-- The `switch` over the type of a tag; `convert` converts the tags inside it. -/
def payloadToNbtValue (convert : ProtoDefValue → Except String NbtValue) (type : NbtTagType)
    (payload : ProtoDefValue) : Except String NbtValue :=
  let integer (bits : ℕ) (what : String) : Except String NbtValue :=
    (fun z ↦ { type, integerValue := .ofInt z }) <$> checkedInteger undefinedCast bits payload what
  match type with
  | .endTag => .ok {}
  | .byte => integer 8 "NBT byte value"
  | .short => integer 16 "NBT short value"
  | .int => integer 32 "NBT int value"
  | .long => (fun z ↦ { type, integerValue := .ofInt z }) <$>
      longValue undefinedCast payload "NBT long value"
  | .float => (fun bits ↦ { type, floatingValue := widen (narrow bits) }) <$>
      floatingValue payload "NBT float value"
  | .double => (fun bits ↦ { type, floatingValue := bits }) <$>
      floatingValue payload "NBT double value"
  | .byteArray => (fun value ↦ { type, byteArrayValue := value }) <$>
      byteArrayValue undefinedCast payload
  | .string => (fun value ↦ { type, stringValue := value }) <$>
      stringValue payload "NBT string value"
  | .list => do
      let elementType ← listElementType payload
      let values ← listPayload payload
      match values with
      | .array items => do
          let out ← items.mapM fun item ↦ convert (tagNode (protoDefNbtTagName elementType) item)
          .ok { type, listElementType := elementType, listValue := out }
      | _ => .error "NBT list items must be an array"
  | .compound =>
      match payload with
      | .object fields => do
          let out ← (sortedNames fields).mapM (namedChild convert fields)
          .ok { type, compoundValue := out }
      | _ => .error "NBT compound value must be an object"
  | .intArray =>
      match payload with
      | .array items => do
          let out ← items.mapM fun item ↦
            Int32.ofInt <$> checkedInteger undefinedCast 32 item "NBT intArray item"
          .ok { type, intArrayValue := out }
      | _ => .error "NBT intArray value must be an array"
  | .longArray =>
      match payload with
      | .array items => do
          let out ← items.mapM fun item ↦
            Int64.ofInt <$> longValue undefinedCast item "NBT longArray item"
          .ok { type, longArrayValue := out }
      | _ => .error "NBT longArray value must be an array"

/-- One level of the recursion. -/
def convertNode (convert : ProtoDefValue → Except String NbtValue) (value : ProtoDefValue) :
    Except String NbtValue :=
  match value with
  | .null => .ok {}
  | value => do
      let name ← tagNameFromNode value
      let type ← protoDefNbtTagType name
      if type = .endTag then .ok {}
      else
        let payload ← requiredField value (txt "value")
        payloadToNbtValue undefinedCast convert type payload

/-- The recursion, as many levels deep as there are. -/
def convertLevels : ℕ → ProtoDefValue → Except String NbtValue
  | 0, _ => .error "unreachable NBT conversion"
  | levels + 1, value => convertNode undefinedCast (convertLevels levels) value

def protoDefValueToNbtValue (value : ProtoDefValue) : Except String NbtValue :=
  convertLevels undefinedCast value.height value

end Conversion

/-! ## The recursion -/

theorem height_pos (value : ProtoDefValue) : 0 < value.height := by
  cases value with
  | object fields => exact Nat.succ_pos _
  | array items => exact Nat.succ_pos _
  | _ => exact Nat.one_pos

theorem height_le_of_find {key : Text} {fields : List (Text × ProtoDefValue)}
    {value : ProtoDefValue} (h : find key fields = some value) :
    value.height ≤ heightFields fields := by
  induction fields with
  | nil => cases h
  | cons field fields ih =>
      obtain ⟨k, v⟩ := field
      rw [heightFields]
      rw [find] at h
      split at h
      · obtain rfl := Option.some.inj h
        exact le_max_left _ _
      · exact (ih h).trans (le_max_right _ _)

theorem height_le_of_mem {item : ProtoDefValue} {items : List ProtoDefValue} (h : item ∈ items) :
    item.height ≤ heightItems items := by
  induction items with
  | nil => cases h
  | cons first items ih =>
      rw [heightItems]
      rcases List.mem_cons.mp h with rfl | hmem
      · exact le_max_left _ _
      · exact (ih hmem).trans (le_max_right _ _)

theorem height_tagNode (type : Text) (payload : ProtoDefValue) :
    (tagNode type payload).height = payload.height + 1 := by
  have hpos := height_pos payload
  have hstring : (ProtoDefValue.string type).height = 1 := rfl
  rw [tagNode, height, heightFields, heightFields, heightFields, hstring]
  omega

theorem find_isSome {key : Text} {fields : List (Text × ProtoDefValue)} :
    (find key fields).isSome ↔ key ∈ fields.map Prod.fst := by
  induction fields with
  | nil => exact iff_of_false Bool.false_ne_true (by simp)
  | cons field fields ih =>
      obtain ⟨k, v⟩ := field
      rw [find, List.map_cons, List.mem_cons]
      by_cases hk : k = key
      · rw [if_pos hk]
        exact iff_of_true rfl (.inl hk.symm)
      · rw [if_neg hk, ih, or_iff_right (Ne.symm hk)]

theorem mapM_congr {α β ε : Type} {f g : α → Except ε β} {as : List α} (h : ∀ a ∈ as, f a = g a) :
    as.mapM f = as.mapM g := by
  induction as with
  | nil => rfl
  | cons a as ih =>
      rw [List.mapM_cons, List.mapM_cons, h a (by simp), ih fun b hb ↦ h b (by simp [hb])]

section Recursion

variable {undefinedCast : UInt64 → UInt64}

/-- The tags inside a payload have fewer levels. -/
theorem payloadToNbtValue_congr {convert convert' : ProtoDefValue → Except String NbtValue}
    {payload : ProtoDefValue}
    (h : ∀ value : ProtoDefValue, value.height < payload.height → convert value = convert' value)
    (type : NbtTagType) :
    payloadToNbtValue undefinedCast convert type payload =
      payloadToNbtValue undefinedCast convert' type payload := by
  cases type with
  | list =>
      cases payload with
      | object fields =>
          have hitems {items : List ProtoDefValue}
              (hvalue : find (txt "value") fields = some (.array items)) (name : Text) :
              (items.mapM fun item ↦ convert (tagNode name item)) =
                items.mapM fun item ↦ convert' (tagNode name item) := by
            refine mapM_congr fun item hitem ↦ h _ ?_
            have hlow := height_le_of_mem hitem
            have hhigh := height_le_of_find hvalue
            rw [height] at hhigh
            rw [height_tagNode, height]
            omega
          simp only [payloadToNbtValue, listPayload, requiredField]
          cases listElementType (.object fields) with
          | error e => rfl
          | ok elementType =>
              rw [ok_bind, ok_bind]
              cases hvalue : find (txt "value") fields with
              | none => rfl
              | some value =>
                  cases value with
                  | array items =>
                      rw [ok_bind, ok_bind]
                      simp only [hitems hvalue]
                  | _ => rfl
      | _ => rfl
  | compound =>
      cases payload with
      | object fields =>
          have hnames : (sortedNames fields).mapM (namedChild convert fields) =
              (sortedNames fields).mapM (namedChild convert' fields) := by
            refine mapM_congr fun name hname ↦ ?_
            rw [sortedNames, List.mem_mergeSort] at hname
            obtain ⟨value, hvalue⟩ := Option.isSome_iff_exists.mp (find_isSome.mpr hname)
            rw [namedChild, namedChild, hvalue, Option.getD_some, h value]
            have hlow := height_le_of_find hvalue
            rw [height]
            omega
          simp only [payloadToNbtValue]
          rw [hnames]
      | _ => rfl
  | _ => rfl

theorem convertNode_congr {convert convert' : ProtoDefValue → Except String NbtValue}
    {value : ProtoDefValue}
    (h : ∀ child : ProtoDefValue, child.height < value.height → convert child = convert' child) :
    convertNode undefinedCast convert value = convertNode undefinedCast convert' value := by
  cases value with
  | object fields =>
      change (tagNameFromNode (.object fields) >>= _) = (tagNameFromNode (.object fields) >>= _)
      cases tagNameFromNode (.object fields) with
      | error e => rfl
      | ok name =>
          rw [ok_bind, ok_bind]
          cases protoDefNbtTagType name with
          | error e => rfl
          | ok type =>
              rw [ok_bind, ok_bind]
              cases hpayload : find (txt "value") fields with
              | none => simp only [requiredField, hpayload]; rfl
              | some payload =>
                  simp only [requiredField, hpayload]
                  rw [ok_bind, ok_bind, payloadToNbtValue_congr fun child hchild ↦ h child ?_]
                  have hlow := height_le_of_find hpayload
                  rw [height]
                  omega
  | _ => rfl

/-- Levels beyond the height of the value change nothing. -/
theorem convertLevels_eq {m n : ℕ} {value : ProtoDefValue} (hm : value.height ≤ m)
    (hn : value.height ≤ n) :
    convertLevels undefinedCast m value = convertLevels undefinedCast n value := by
  induction m generalizing n value with
  | zero => exact absurd (height_pos value) (by omega)
  | succ m ih =>
      have hpos := height_pos value
      obtain ⟨n, rfl⟩ : ∃ k, n = k + 1 := ⟨n - 1, by omega⟩
      exact convertNode_congr fun child hchild ↦ ih (by omega) (by omega)

/-- The conversion without levels. -/
theorem protoDefValueToNbtValue_eq (value : ProtoDefValue) :
    protoDefValueToNbtValue undefinedCast value =
      convertNode undefinedCast (protoDefValueToNbtValue undefinedCast) value := by
  obtain ⟨levels, hlevels⟩ : ∃ levels, value.height = levels + 1 :=
    ⟨value.height - 1, by have hpos := height_pos value; omega⟩
  rw [protoDefValueToNbtValue, hlevels]
  exact convertNode_congr fun child hchild ↦ convertLevels_eq (by omega) le_rfl

theorem protoDefNbtTagType_tagName (type : NbtTagType) :
    protoDefNbtTagType (protoDefNbtTagName type) = .ok type := by
  cases type <;> rfl

/-- The conversion of a tag. -/
theorem protoDefValueToNbtValue_tagNode (type : NbtTagType) (payload : ProtoDefValue) :
    protoDefValueToNbtValue undefinedCast (tagNode (protoDefNbtTagName type) payload) =
      payloadToNbtValue undefinedCast (protoDefValueToNbtValue undefinedCast) type payload := by
  rw [protoDefValueToNbtValue_eq]
  change (protoDefNbtTagType (protoDefNbtTagName type) >>= _) = _
  rw [protoDefNbtTagType_tagName, ok_bind]
  cases type <;> rfl

/-- A payload is converted to a value of its type. -/
theorem type_payloadToNbtValue {convert : ProtoDefValue → Except String NbtValue}
    {type : NbtTagType} {payload : ProtoDefValue} {value : NbtValue}
    (h : payloadToNbtValue undefinedCast convert type payload = .ok value) : value.type = type := by
  cases type with
  | endTag => exact Except.ok.inj h ▸ rfl
  | list =>
      obtain ⟨elementType, -, h⟩ := bind_eq_ok.mp h
      obtain ⟨values, -, h⟩ := bind_eq_ok.mp h
      cases values with
      | array items =>
          obtain ⟨out, -, h⟩ := bind_eq_ok.mp h
          exact Except.ok.inj h ▸ rfl
      | _ => cases h
  | compound =>
      cases payload with
      | object fields =>
          obtain ⟨out, -, h⟩ := bind_eq_ok.mp h
          exact Except.ok.inj h ▸ rfl
      | _ => cases h
  | intArray =>
      cases payload with
      | array items =>
          obtain ⟨out, -, h⟩ := bind_eq_ok.mp h
          exact Except.ok.inj h ▸ rfl
      | _ => cases h
  | longArray =>
      cases payload with
      | array items =>
          obtain ⟨out, -, h⟩ := bind_eq_ok.mp h
          exact Except.ok.inj h ▸ rfl
      | _ => cases h
  | _ =>
      obtain ⟨out, -, rfl⟩ := map_eq_ok.mp h
      rfl

end Recursion

end ProtoDefNbt

end BedrockProtocol
