import BedrockProtocol.Protodef.NbtConversion

/-!
# Items and the item registry

`BedrockItem.cpp`: the registry's indexes, items as the application sees them, as
`BedrockNetworkItem` and as packet values.  A packet value has one of two formats; the
older one packs count and metadata into one integer.
-/

namespace BedrockProtocol

namespace NbtValue

def list (elementType : NbtTagType) (value : List NbtValue) : NbtValue :=
  { type := .list, listElementType := elementType, listValue := value }

/-- `compoundValue` with the first child of the name replaced, or a new child at the end. -/
def setChild (name : List UInt8) (value : NbtValue) :
    List (List UInt8 × NbtValue) → List (List UInt8 × NbtValue)
  | [] => [(name, value)]
  | child :: children =>
      if child.1 = name then (child.1, value) :: children else child :: setChild name value children

def set (parent : NbtValue) (name : List UInt8) (value : NbtValue) : Except String NbtValue :=
  if parent.type ≠ .compound then .error "NbtValue::set requires a compound value"
  else .ok { parent with compoundValue := setChild name value parent.compoundValue }

end NbtValue

structure BedrockItemVariation where
  metadata : Int32
  id : Int32
  name : Text
  displayName : Text
  stackSize : UInt32

structure BedrockItemDefinition where
  id : Int32 := 0
  name : Text := []
  displayName : Text := []
  stackSize : UInt32 := 0
  metadata : Option Int32 := none
  maxDurability : Option Int32 := none
  enchantCategories : List Text := []
  repairWith : List Text := []
  variations : List BedrockItemVariation := []

structure BedrockItemState where
  name : Text
  runtimeId : Int32 := 0
  componentBased : Bool := false
  version : Option ProtoDefValue := none
  nbt : Option ProtoDefValue := none

/-- The indexes of a registry; a name's index is one of the array. -/
structure ItemIndexes where
  itemsById : Int32 → Option BedrockItemDefinition := fun _ ↦ none
  itemIndicesByName : Text → Option ℕ := fun _ ↦ none
  itemsArray : List BedrockItemDefinition := []
  itemStates : List BedrockItemState := []
  index_lt : ∀ name index, itemIndicesByName name = some index → index < itemsArray.length := by
    simp

structure BedrockItemRegistryData extends ItemIndexes where
  usesAuxValue : Bool := false
  nextStackId : Int32 := 0

structure BedrockItem where
  type : Int32 := 0
  count : UInt16 := 0
  metadata : Int32 := 0
  nbt : Option NbtDocument := none
  stackId : Option Int32 := none
  name : Text := []
  displayName : Text := []
  stackSize : UInt32 := 1
  maxDurability : Option Int32 := none

structure BedrockNetworkItem where
  networkId : Int32 := 0
  count : UInt16 := 0
  metadata : Int32 := 0
  stackId : Option Int32 := none
  blockRuntimeId : Int32 := 0
  nbt : Option NbtDocument := none
  canPlaceOn : List Text := []
  canDestroy : List Text := []
  blockingTick : ℤ := 0

/-! ## NBT of items -/

def isIntegerTag (value : NbtValue) : Bool :=
  value.type = .byte ∨ value.type = .short ∨ value.type = .int ∨ value.type = .long

def eraseNbtChild (parent : NbtValue) (name : Text) : NbtValue :=
  if parent.type ≠ .compound then parent
  else { parent with compoundValue := parent.compoundValue.filter fun child ↦ child.1 ≠ name }

def nbtStringList : Option NbtValue → List Text
  | none => []
  | some value =>
      if value.type = .string then [value.stringValue]
      else if value.type ≠ .list ∨ value.listElementType ≠ .string then []
      else (value.listValue.filter fun item ↦ item.type = .string).map NbtValue.stringValue

def namespacedBlock (value : Text) : Text :=
  if (0x3a : UInt8) ∈ value then value else txt "minecraft:" ++ value

def setNbtStringList (root : NbtValue) (name : Text) (values : List Text) : Except String NbtValue :=
  if values = [] then .ok (eraseNbtChild root name)
  else root.set name (.list .string (values.map fun value ↦ .string (namespacedBlock value)))

namespace BedrockItem

def hasNbtPayload (item : BedrockItem) : Bool :=
  match item.nbt with
  | none => false
  | some document =>
      if document.root.type = .endTag then false
      else if document.root.type = .compound then !document.root.compoundValue.isEmpty
      else true

/-- The item's document; its root is a compound. -/
def ensureNbtRoot (item : BedrockItem) : Except String NbtDocument :=
  let document := item.nbt.getD ⟨[], .compound []⟩
  if document.root.type ≠ .compound then .error "item NBT root must be a compound"
  else .ok document

/-- A change of the root of the document. -/
def updateNbtRoot (item : BedrockItem) (update : NbtValue → Except String NbtValue) :
    Except String BedrockItem := do
  let document ← item.ensureNbtRoot
  let root ← update document.root
  pure { item with nbt := some { document with root } }

def durabilityUsed (item : BedrockItem) : Option Int32 :=
  let unset := if item.maxDurability.isSome then some 0 else none
  match item.nbt.bind fun document ↦ document.root.find (txt "Damage") with
  | some value => if isIntegerTag value then some (.ofInt value.integerValue.toInt) else unset
  | none => unset

def setDurabilityUsed (item : BedrockItem) (value : Int32) : Except String BedrockItem :=
  item.updateNbtRoot fun root ↦ root.set (txt "Damage") (.integer value)

def blocksCanPlaceOn (item : BedrockItem) : List Text :=
  match item.nbt with
  | none => []
  | some document => nbtStringList (document.root.find (txt "CanPlaceOn"))

def setBlocksCanPlaceOn (item : BedrockItem) (value : List Text) : Except String BedrockItem :=
  if value = [] ∧ item.nbt.isNone then .ok item
  else item.updateNbtRoot fun root ↦ setNbtStringList root (txt "CanPlaceOn") value

def blocksCanDestroy (item : BedrockItem) : List Text :=
  match item.nbt with
  | none => []
  | some document => nbtStringList (document.root.find (txt "CanDestroy"))

def setBlocksCanDestroy (item : BedrockItem) (value : List Text) : Except String BedrockItem :=
  if value = [] ∧ item.nbt.isNone then .ok item
  else item.updateNbtRoot fun root ↦ setNbtStringList root (txt "CanDestroy") value

end BedrockItem

/-! ## Packet values -/

namespace ProtoDefValue

def checkedInt32 (value : ℤ) (context : String) : Except String Int32 :=
  if InSigned 32 value then .ok (.ofInt value)
  else .error ("minecraft-data " ++ context ++ " is out of int32 range")

/-- `std::from_chars` of a signed 64-bit integer that takes the whole text. -/
def fromChars (text : Text) : Option ℤ :=
  let negative := text.head? = some 0x2d
  let digits := if negative then text.tail else text
  if digits = [] ∨ ¬digits.all isDigit then none
  else
    let value : ℤ := if negative then -decimalValue digits else decimalValue digits
    if InSigned 64 value then some value else none

def protoBool : ProtoDefValue → Bool
  | .bool value => value
  | .int value => value ≠ 0
  | .uint value => value ≠ 0
  | .string value => value = txt "true" ∨ value = txt "1" ∨ value = txt "65535"
  | _ => false

def protoInteger (value : ProtoDefValue) (context : String) : Except String ℤ :=
  let refused : Except String ℤ := .error (context ++ " must be an integer")
  match value with
  | .int value => .ok value
  | .uint value => if value < 2 ^ 63 then .ok value else refused
  | .bool value => .ok (if value then 1 else 0)
  | .string value =>
      match fromChars value with
      | some value => .ok value
      | none => refused
  | _ => refused

/-- `protoStringArray` of a value. -/
def protoStrings : Option ProtoDefValue → List Text
  | some (.array items) => items.filterMap fun item ↦
      match item with
      | .string value => some value
      | .array (.string value :: _) => some value
      | _ => none
  | _ => []

/-- `protoStringArray` of strings. -/
def protoStringArray (values : List Text) : ProtoDefValue := .array (values.map .string)

end ProtoDefValue

namespace ProtoDefNbt

def protoDefValueToNbtDocument (undefinedCast : UInt64 → UInt64) (value : ProtoDefValue) :
    Except String NbtDocument :=
  match value with
  | .null => .ok ⟨[], {}⟩
  | value => do
      let name ← match value.get (txt "name") with
        | some nodeName => stringValue nodeName "NBT root name"
        | none => pure []
      let root ← protoDefValueToNbtValue undefinedCast value
      pure ⟨name, root⟩

end ProtoDefNbt

open ProtoDefNbt in
def protoNbt (undefinedCast : UInt64 → UInt64) (wrapper : Option ProtoDefValue)
    (encoding : BedrockNbtEncoding) : Except String (Option NbtDocument) :=
  match wrapper.bind fun wrapper ↦ wrapper.get (txt "nbt") with
  | none => .ok none
  | some .null => .ok none
  | some (.bytes value) => do
      let (document, cursor) ← BedrockNbt.read encoding {} (Cursor.start value)
      if cursor.rest ≠ [] then throw "item NBT contains trailing bytes" else pure (some document)
  | some value => some <$> protoDefValueToNbtDocument undefinedCast value

def protoNbtWrapper (document : NbtDocument) (encoding : BedrockNbtEncoding) :
    Except String ProtoDefValue := do
  let bytes ← BedrockNbt.write encoding {} document
  pure (.object [(txt "version", .uint 1), (txt "nbt", .bytes bytes)])

/-! ## The registry -/

/-- The result of an operation on `int`s; an overflow is not defined. -/
def intResult (undefinedInt : ℤ → Int32) (value : ℤ) : Int32 :=
  if InSigned 32 value then .ofInt value else undefinedInt value

namespace BedrockItemRegistryData

variable (data : BedrockItemRegistryData)

/-- A `minecraft:` in front is dropped. -/
def normalizeName (name : Text) : Text :=
  if txt "minecraft:" <+: name then name.drop 10 else name

/-- The item, and the registry with its next stack id. -/
def create (type : Int32) (count : UInt16) (metadata : Int32) (nbt : Option NbtDocument)
    (stackId : Option Int32) (sentByServer : Bool) :
    Except String (BedrockItem × BedrockItemRegistryData) := do
  let takesId := stackId.isNone && !sentByServer
  let after := if takesId then { data with nextStackId := data.nextStackId + 1 } else data
  let stackId := if takesId then some data.nextStackId else stackId
  match data.itemsById type with
  | none =>
      pure ({ type, count, metadata, nbt, stackId, name := txt "unknown"
              displayName := txt "unknown", stackSize := 1 }, after)
  | some definition =>
      let displayName :=
        match definition.variations.find? fun variation ↦ variation.metadata = metadata with
        | some variation => variation.displayName
        | none => definition.displayName
      let out : BedrockItem :=
        { type, count, metadata, nbt, stackId, name := definition.name, displayName
          stackSize := definition.stackSize, maxDurability := definition.maxDurability }
      if !sentByServer && out.maxDurability.isSome && out.durabilityUsed.getD 0 = 0 then
        let out ← out.setDurabilityUsed 0
        pure (out, after)
      else pure (out, after)

def fromNetwork (value : BedrockNetworkItem) (legacyStackId : Option Int32) :
    Except String (Option BedrockItem) :=
  if value.networkId = 0 then .ok none
  else do
    let stackId := if data.usesAuxValue then legacyStackId else value.stackId
    let (item, _) ← data.create value.networkId value.count value.metadata value.nbt stackId true
    let item ←
      (if value.canPlaceOn ≠ [] then item.setBlocksCanPlaceOn value.canPlaceOn else pure item)
    let item ←
      (if value.canDestroy ≠ [] then item.setBlocksCanDestroy value.canDestroy else pure item)
    pure (some item)

def toNetwork (item : Option BedrockItem) (serverAuthoritative : Bool) : BedrockNetworkItem :=
  match item with
  | none => {}
  | some item =>
      if item.type = 0 then {}
      else
        { networkId := item.type, count := item.count, metadata := item.metadata
          stackId := if !data.usesAuxValue && serverAuthoritative then item.stackId else none
          nbt := if item.hasNbtPayload then item.nbt else none
          canPlaceOn := item.blocksCanPlaceOn, canDestroy := item.blocksCanDestroy }

open ProtoDefValue

/-- An optional field that is an integer. -/
def optionalInteger (value : Option ProtoDefValue) (context : String) : Except String ℤ :=
  match value with
  | some value => protoInteger value context
  | none => .ok 0

/-- The format with an auxiliary value. -/
def auxNetworkItem (undefinedCast : UInt64 → UInt64) (networkId : Int32) (value : ProtoDefValue) :
    Except String BedrockNetworkItem :=
  match value.get (txt "auxiliary_value") with
  | none => .error "Bedrock Item is missing auxiliary_value"
  | some auxiliary => do
      let integer ← protoInteger auxiliary "auxiliary_value"
      let packed ← checkedInt32 integer "auxiliary_value"
      let nbt ← protoNbt undefinedCast (value.get (txt "nbt")) .littleVarInt
      let blockingTick ← optionalInteger (value.get (txt "blocking_tick")) "blocking_tick"
      pure
        { networkId, nbt, blockingTick
          count := .ofNat (toUnsigned 8 packed.toInt)
          metadata := .ofInt (packed.toInt >>> (8 : ℕ))
          canPlaceOn := protoStrings (value.get (txt "can_place_on"))
          canDestroy := protoStrings (value.get (txt "can_destroy")) }

/-- The format with separate fields. -/
def plainNetworkItem (undefinedCast : UInt64 → UInt64) (networkId : Int32)
    (value : ProtoDefValue) : Except String BedrockNetworkItem :=
  match value.get (txt "count"), value.get (txt "metadata") with
  | some count, some metadata => do
      let countValue ← protoInteger count "count"
      if countValue < 0 ∨ 2 ^ 16 ≤ countValue then throw "Bedrock Item count is out of range"
      else
        let integer ← protoInteger metadata "metadata"
        let metadata ← checkedInt32 integer "metadata"
        let stackId ←
          (if ((value.get (txt "has_stack_id")).map protoBool).getD false then
            match value.get (txt "stack_id") with
            | some stackId => do
                let integer ← protoInteger stackId "stack_id"
                some <$> checkedInt32 integer "stack_id"
            | none => pure none
          else pure none)
        let integer ← optionalInteger (value.get (txt "block_runtime_id")) "block_runtime_id"
        let blockRuntimeId ← checkedInt32 integer "block_runtime_id"
        let network : BedrockNetworkItem :=
          { networkId, count := .ofNat countValue.toNat, metadata, stackId, blockRuntimeId }
        match value.get (txt "extra") with
        | none => pure network
        | some extra =>
            let nbt ← protoNbt undefinedCast (extra.get (txt "nbt")) .littleEndian
            let blockingTick ← optionalInteger (extra.get (txt "blocking_tick")) "blocking_tick"
            pure
              { network with
                nbt, blockingTick
                canPlaceOn := protoStrings (extra.get (txt "can_place_on"))
                canDestroy := protoStrings (extra.get (txt "can_destroy")) }
  | _, _ => .error "Bedrock Item is missing count or metadata"

def fromProtoDefValue (undefinedCast : UInt64 → UInt64) (value : ProtoDefValue)
    (legacyStackId : Option Int32) : Except String (Option BedrockItem) :=
  match value with
  | .object _ =>
      match value.get (txt "network_id") with
      | none => .error "Bedrock Item is missing network_id"
      | some networkId => do
          let integer ← protoInteger networkId "network_id"
          let networkId ← checkedInt32 integer "network_id"
          if networkId = 0 then pure none
          else
            let network ←
              (if data.usesAuxValue then auxNetworkItem undefinedCast networkId value
              else plainNetworkItem undefinedCast networkId value)
            data.fromNetwork network legacyStackId
  | _ => .error "Bedrock Item packet value must be an object"

/-- The fields that both formats end with. -/
def extraFields (network : BedrockNetworkItem) (encoding : BedrockNbtEncoding) :
    Except String (List (Text × ProtoDefValue)) := do
  let fields : List (Text × ProtoDefValue) :=
    [(txt "has_nbt", .string (if network.nbt.isSome then txt "true" else txt "false")),
      (txt "can_place_on", protoStringArray network.canPlaceOn),
      (txt "can_destroy", protoStringArray network.canDestroy),
      (txt "blocking_tick", .int network.blockingTick)]
  match network.nbt with
  | none => pure fields
  | some document =>
      let wrapper ← protoNbtWrapper document encoding
      pure (fields ++ [(txt "nbt", wrapper)])

def toProtoDefValue (undefinedInt : ℤ → Int32) (item : Option BedrockItem)
    (serverAuthoritative : Bool) : Except String ProtoDefValue :=
  let network := data.toNetwork item serverAuthoritative
  if network.networkId = 0 then .ok (.object [(txt "network_id", .int 0)])
  else if data.usesAuxValue then do
    let auxiliary := intResult undefinedInt
      ((intResult undefinedInt (network.metadata.toInt * 256)).toInt + network.count.toNat % 256)
    let extra ← extraFields network .littleVarInt
    pure (.object
      ((txt "network_id", .int network.networkId.toInt) ::
        (txt "auxiliary_value", .int auxiliary.toInt) :: extra))
  else do
    let extra ← extraFields network .littleEndian
    let stackId :=
      match network.stackId with
      | some stackId => [(txt "stack_id", ProtoDefValue.int stackId.toInt)]
      | none => []
    pure (.object
      ([(txt "network_id", .int network.networkId.toInt), (txt "count", .uint network.count.toNat),
        (txt "metadata", .int network.metadata.toInt),
        (txt "has_stack_id", .uint (if network.stackId.isSome then 1 else 0)),
        (txt "block_runtime_id", .int network.blockRuntimeId.toInt),
        (txt "extra", .object extra)] ++ stackId))

/-! ## The states of all items -/

/-- The definition under which an entry is indexed: what is known of its name, and its id. -/
def definitionOf (state : BedrockItemState) : BedrockItemDefinition :=
  let known : BedrockItemDefinition :=
    match h : data.itemIndicesByName state.name with
    | some index => data.itemsArray.get ⟨index, data.index_lt _ _ h⟩
    | none => {}
  { known with name := state.name, id := state.runtimeId }

/-- One turn of `loadItemStates`. -/
def loadItemState (indexes : ItemIndexes) (supplied : BedrockItemState) : ItemIndexes :=
  let state := { supplied with name := normalizeName supplied.name }
  let definition := data.definitionOf state
  { itemsById := fun id ↦ if id = definition.id then some definition else indexes.itemsById id
    itemIndicesByName := fun name ↦
      if name = definition.name then some indexes.itemsArray.length
      else indexes.itemIndicesByName name
    itemsArray := indexes.itemsArray ++ [definition]
    itemStates := indexes.itemStates ++ [state]
    index_lt := by
      intro name index h
      rw [List.length_append, List.length_singleton]
      split at h
      · obtain rfl := Option.some.inj h
        exact Nat.lt_succ_self _
      · exact Nat.lt_succ_of_lt (indexes.index_lt name index h) }

def loadItemStates (itemStates : List BedrockItemState) : BedrockItemRegistryData :=
  { data with toItemIndexes := itemStates.foldl data.loadItemState {} }

/-- The entry written for the item at an index. -/
def writeItemState (index : ℕ) (item : BedrockItemDefinition) : BedrockItemState :=
  let name := if (0x3a : UInt8) ∈ item.name then item.name else txt "minecraft:" ++ item.name
  { name
    runtimeId := item.id
    componentBased := (0x3a : UInt8) ∈ name ∧ name.takeWhile (· ≠ 0x3a) ≠ txt "minecraft"
    version := data.itemStates[index]?.bind BedrockItemState.version
    nbt := data.itemStates[index]?.bind BedrockItemState.nbt }

def writeItemStates : List BedrockItemState :=
  data.itemsArray.mapIdx data.writeItemState

end BedrockItemRegistryData

end BedrockProtocol
