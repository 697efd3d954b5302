import BedrockProtocol.Protocol.VersionedBatchCodec
import BedrockProtocol.Protodef.DecoderSimulation

/-!
# Validation of a player's packets

`BedrockServer::validatePlayerPacket` decodes a packet with the schema of its type and
rejects it if a decoded text contains the marker for a missing byte.  The marker is not
escaped in the texts that come from the player, so a packet with such a text is rejected
although nothing is missing.
-/

namespace BedrockProtocol

namespace BedrockServer

open ProtoDefDecoder

section Validation

variable (definition : ProtocolVersionInfo)
  (playerProtocolTypes generatedProtocolTypes : Text → Option Text)

def resolvePlayerProtocolType (typeName : Text) : Option Text :=
  playerProtocolTypes typeName <|> generatedProtocolTypes typeName

/-- The name of the type of a packet's parameters. -/
def paramsTypeName (packet : VersionedGamePacket) : Text :=
  if packet.paramsType = "" then txt ("packet_" ++ packet.name) else txt packet.paramsType

/-- `protoDefVariables` are the variables of the player's session, if there is one. -/
def validatePlayerPacket (protoDefVariables : Option (List (Text × Text))) (fuel : ℕ)
    (packet : VersionedGamePacket) : Except String Unit :=
  if (definition.packetById packet.packetId).isNone then .error "unknown packet id"
  else
    match resolvePlayerProtocolType playerProtocolTypes generatedProtocolTypes
        (paramsTypeName packet) with
    | none => .error ("packet schema not found: " ++ packet.name)
    | some typeJson =>
        match protoDefVariables with
        | none => .error "player session not found"
        | some protoDefVariables => do
            let (decoded, _) ←
              decode (resolvePlayerProtocolType playerProtocolTypes generatedProtocolTypes)
                protoDefVariables true fuel typeJson [] {} (Cursor.start packet.payload)
            if decoded.out.any fun field ↦ txt "<missing:" <:+: field.value then
              .error "packet field missing"
            else .ok ()

end Validation

variable {definition : ProtocolVersionInfo}
  {playerProtocolTypes generatedProtocolTypes : Text → Option Text}

/-- A packet of a known type that is decoded without meeting the end of its payload is
accepted, whatever the fuel above what this takes, if and only if the marker is in none of
its texts. -/
theorem validatePlayerPacket_accepts_iff {packet : VersionedGamePacket}
    {protoDefVariables : List (Text × Text)} {fuel fuel' : ℕ} {typeJson : Text} {decoded : Decoded}
    (hfuel : fuel ≤ fuel') (hknown : (definition.packetById packet.packetId).isSome = true)
    (hschema : resolvePlayerProtocolType playerProtocolTypes generatedProtocolTypes
      (paramsTypeName packet) = some typeJson)
    (hreads : ReadsWithoutEnd (resolvePlayerProtocolType playerProtocolTypes generatedProtocolTypes)
      protoDefVariables fuel typeJson packet.payload decoded) :
    validatePlayerPacket definition playerProtocolTypes generatedProtocolTypes
        (some protoDefVariables) fuel' packet = .ok () ↔
      ∀ field ∈ decoded.out, CarriesText field.type → ¬txt "<missing:" <:+: field.value := by
  obtain ⟨⟨c, hrun⟩, hrecorded⟩ := hreads.decode_eq hfuel
  have hidentified : ¬(definition.packetById packet.packetId).isNone = true := by
    rw [Option.isNone_iff_eq_none]
    intro hnone
    rw [hnone] at hknown
    cases hknown
  have hvalidated : validatePlayerPacket definition playerProtocolTypes generatedProtocolTypes
      (some protoDefVariables) fuel' packet =
        if decoded.out.any fun field ↦ txt "<missing:" <:+: field.value then
          .error "packet field missing"
        else .ok () := by
    rw [validatePlayerPacket, if_neg hidentified, hschema]
    dsimp only
    rw [hrun]
    rfl
  rw [hvalidated]
  split
  · rename_i hany
    obtain ⟨field, hfield, hmarker⟩ := List.any_eq_true.mp hany
    have hmarked : txt "<missing:" <:+: field.value := of_decide_eq_true hmarker
    refine iff_of_false (fun h ↦ by cases h) fun hall ↦ ?_
    rcases hrecorded field hfield with htext | hunmarked
    · exact hall field hfield htext hmarked
    · exact hunmarked hmarked
  · rename_i hany
    refine iff_of_true rfl fun field hfield _ hmarked ↦ hany ?_
    exact List.any_eq_true.mpr ⟨field, hfield, decide_eq_true hmarked⟩

/-- A table with one packet, whose parameters are a string. -/
def chatDefinition : ProtocolVersionInfo where
  minecraftVersion := "1.21.0"
  packets := [⟨9, "chat", "packet_chat"⟩]
  id_lt := by decide
  ids_nodup := by decide

def chatTypes (typeName : Text) : Option Text :=
  if typeName = txt "packet_chat" then
    some (txt "[\"container\",[\x7b\"name\":\"message\",\"type\":\"string\"\x7d]]")
  else none

def chatPacket (message : Text) : VersionedGamePacket :=
  ⟨9, "chat", "packet_chat", [], UInt8.ofNat message.length :: message⟩

theorem validatePlayerPacket_accepts_message :
    validatePlayerPacket chatDefinition chatTypes (fun _ ↦ none) (some []) 5
      (chatPacket (txt "hello")) = .ok () :=
  (validatePlayerPacket_accepts_iff le_rfl (by decide) rfl ⟨_, rfl⟩).mpr (by decide)

/-- A whole message that contains the marker is rejected. -/
theorem validatePlayerPacket_rejects_message :
    ¬∀ (definition : ProtocolVersionInfo)
      (playerProtocolTypes generatedProtocolTypes : Text → Option Text)
      (protoDefVariables : List (Text × Text)) (fuel : ℕ) (packet : VersionedGamePacket)
      (typeJson : Text) (decoded : Decoded),
      (definition.packetById packet.packetId).isSome = true →
      resolvePlayerProtocolType playerProtocolTypes generatedProtocolTypes
        (paramsTypeName packet) = some typeJson →
      ReadsWithoutEnd (resolvePlayerProtocolType playerProtocolTypes generatedProtocolTypes)
        protoDefVariables fuel typeJson packet.payload decoded →
      validatePlayerPacket definition playerProtocolTypes generatedProtocolTypes
        (some protoDefVariables) fuel packet = .ok () := by
  intro h
  have haccepted := h chatDefinition chatTypes (fun _ ↦ none) [] 5 (chatPacket (txt "<missing:"))
    _ _ (by decide) rfl ⟨_, rfl⟩
  have hrejected : validatePlayerPacket chatDefinition chatTypes (fun _ ↦ none) (some []) 5
      (chatPacket (txt "<missing:")) = .error "packet field missing" := rfl
  rw [hrejected] at haccepted
  cases haccepted

end BedrockServer

end BedrockProtocol
