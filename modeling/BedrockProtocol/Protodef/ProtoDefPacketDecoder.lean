import BedrockProtocol.Protodef.DecoderSimulation

/-!
# Decoding whole packets

`ProtoDefPacketDecoder.hpp`: the strict decoder of a packet takes the schema of its name and
rejects a payload with bytes left.  It decodes with the decoder that can do without a byte,
so it accepts some payloads that are cut short.  Decoding also learns a variable from the
two packets that carry the item palette.
-/

namespace BedrockProtocol

namespace ProtoDefPacketDecoder

open ProtoDefDecoder SchemaText

/-! ## The item palette -/

def packetCarriesItemPalette (packetName : Text) : Bool :=
  packetName = txt "item_registry" ∨ packetName = txt "start_game"

/-- A text that is no number is true if it is not empty. -/
def isTruthyVariableKey (value : Text) : Bool :=
  match value, stoll value with
  | [], _ => false
  | _, .ok number => number ≠ 0
  | _, .error _ => true

structure DecodedItemState where
  name : Option Text := none
  runtimeId : Option Text := none

/-- The entry of a map by index, created where there is none. -/
def atIndex (index : ℕ) (change : DecodedItemState → DecodedItemState) :
    List (ℕ × DecodedItemState) → List (ℕ × DecodedItemState)
  | [] => [(index, change {})]
  | (i, state) :: states =>
      if index < i then (index, change {}) :: (i, state) :: states
      else if index = i then (i, change state) :: states
      else (i, state) :: atIndex index change states

/-- What one field says about an item. -/
def itemStateField (states : List (ℕ × DecodedItemState)) (field : ProtoDefField) :
    List (ℕ × DecodedItemState) :=
  let start := txt "itemstates["
  if ¬start.isPrefixOf field.path then states
  else
    match find field.path 0x5d start.length with
    | none => states
    | some close =>
        match stoullText (substr field.path start.length (close - start.length)) with
        | .error _ => states
        | .ok index =>
            let suffix := field.path.drop (close + 1)
            if suffix = txt ".name" then
              atIndex index (fun state ↦ { state with name := some field.value }) states
            else if suffix = txt ".runtime_id" then
              atIndex index (fun state ↦ { state with runtimeId := some field.value }) states
            else states

/-- The first shield decides, whether its id is usable or not. -/
def shieldItemId (states : List (ℕ × DecodedItemState)) : Option Text := do
  let (_, state) ← states.find? fun state ↦ state.2.name = some (txt "minecraft:shield")
  let runtimeId ← state.runtimeId
  if isTruthyVariableKey runtimeId then some runtimeId else none

/-- `setVariable` of the store. -/
def setVariable (key value : Text) : List (Text × Text) → List (Text × Text)
  | [] => [(key, value)]
  | (k, v) :: store =>
      if k = key then (k, value) :: store else (k, v) :: setVariable key value store

def updateItemPaletteFromFields (packetName : Text) (fields : List ProtoDefField)
    (store : List (Text × Text)) : List (Text × Text) :=
  if ¬packetCarriesItemPalette packetName then store
  else
    match shieldItemId (fields.foldl itemStateField []) with
    | none => store
    | some runtimeId => setVariable (txt "ShieldItemID") runtimeId store

/-! ## The strict decoder -/

section Strict

/- `resolveType` is the index of type texts, and then the generated table of the version.  For a
name inside a schema the decoder goes on to the generated table without a version; one parameter
stands for both, as no schema of a packet names a packet. -/
variable (resolveType : Text → Option Text) (fuel : ℕ)

/-- `decodePacketImpl` without best effort: the fields, and the variables afterwards. -/
def decodePacketImpl (collectFields : Bool) (packetName : Text) (payload : List UInt8)
    (store : List (Text × Text)) : Except String (List ProtoDefField × List (Text × Text)) :=
  match resolveType (txt "packet_" ++ packetName) with
  | none => .error ("packet schema not found: " ++ shown packetName)
  | some typeJson => do
      let (decoded, c) ← ProtoDefDecoder.decode resolveType store collectFields fuel typeJson []
        {} (Cursor.start payload)
      if c.remaining ≠ 0 then
        .error ("packet " ++ shown packetName ++ " has " ++ toString c.remaining ++ " unread byte(s)")
      else
        .ok (decoded.out,
          if collectFields then updateItemPaletteFromFields packetName decoded.out store
          else store)

def decodePacketStrict : Text → List UInt8 → List (Text × Text) →
    Except String (List ProtoDefField × List (Text × Text)) :=
  decodePacketImpl resolveType fuel true

def validatePacketStrict (packetName : Text) (payload : List UInt8) (store : List (Text × Text)) :
    Except String (List (Text × Text)) :=
  Prod.snd <$> decodePacketImpl resolveType fuel false packetName payload store

end Strict

end ProtoDefPacketDecoder

end BedrockProtocol
