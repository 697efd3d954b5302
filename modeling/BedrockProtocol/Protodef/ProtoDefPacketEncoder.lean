import BedrockProtocol.Protodef.ProtoDefEncoder
import BedrockProtocol.Protodef.ProtoDefPacketDecoder

/-!
# Encoding whole packets

`ProtoDefPacketEncoder.hpp`: the value of a packet is encoded by the schema of its name.  Before
that the encoder learns the id of shields from a packet that carries the item palette; it looks it
up in the value, where the decoder puts it together from the fields it has decoded.
-/

namespace BedrockProtocol

namespace ProtoDefPacketEncoder

open ProtoDefPacketDecoder

section Encoding

variable (undefinedCast : UInt64 → UInt64)

/-! ## The item palette -/

/-- The text of a number; a double is cast to 64 bits. -/
def variableKey : ProtoDefValue → Option Text
  | .int value => some (decimalInt value)
  | .uint value => some (decimal value)
  | .double bits =>
      if isFinite bits then
        decimalInt <$> (ProtoDefValue.asInt undefinedCast (.double bits)).toOption
      else none
  | .bool value => some (if value then txt "true" else txt "false")
  | .string value => some value
  | _ => none

def isTruthyVariableValue : ProtoDefValue → Bool
  | .bool value => value
  | .int value => value ≠ 0
  | .uint value => value ≠ 0
  | .double bits =>
      -- neither a zero nor a NaN
      bits.toNat % 2 ^ 63 ≠ 0 ∧ (isFinite bits ∨ bits.toNat % 2 ^ 52 = 0)
  | .string value => value ≠ []
  | .null => false
  | _ => true

/-- The loop over the palette; the first shield ends it, whether its id is usable or not. -/
def updateFromStates : List ProtoDefValue → List (Text × Text) → List (Text × Text)
  | [], store => store
  | state :: states, store =>
      match state.get (txt "name") with
      | some (.string name) =>
          if name = txt "minecraft:shield" then
            match state.get (txt "runtime_id") with
            | none => store
            | some runtimeId =>
                match isTruthyVariableValue runtimeId, variableKey undefinedCast runtimeId with
                | true, some key => setVariable (txt "ShieldItemID") key store
                | _, _ => store
          else updateFromStates states store
      | _ => updateFromStates states store

def updateItemPaletteVariables (palette : ProtoDefValue) (store : List (Text × Text)) :
    List (Text × Text) :=
  match palette with
  | .array states => updateFromStates undefinedCast states store
  | _ => store

def updateItemPaletteFromValue (packetName : Text) (packet : ProtoDefValue)
    (store : List (Text × Text)) : List (Text × Text) :=
  if ¬packetCarriesItemPalette packetName then store
  else
    match packet.get (txt "itemstates") with
    | none => store
    | some itemstates => updateItemPaletteVariables undefinedCast itemstates store

/-! ## Packets -/

variable (resolveType : Text → Option Text) (fuel : ℕ)

/-- The bytes, and the variables afterwards, which have changed even if the encoder throws. -/
def encodePacket (packetName : Text) (value : ProtoDefValue) (store : List (Text × Text)) :
    Except String (List UInt8) × List (Text × Text) :=
  let store := updateItemPaletteFromValue undefinedCast packetName value store
  match resolveType (txt "packet_" ++ packetName) with
  | none => (.error ("packet schema not found: " ++ shown packetName), store)
  | some typeJson =>
      (ProtoDefEncoder.encode resolveType store undefinedCast fuel typeJson value, store)

end Encoding

end ProtoDefPacketEncoder

end BedrockProtocol
