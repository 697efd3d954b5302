import BedrockProtocol.Lib.Attempt
import BedrockProtocol.Lib.Interleaving
import BedrockProtocol.Protocol.VersionedBatchCodec

/-!
# The packet client

`BedrockClient.hpp` over `VersionedClientSession.hpp`: packets of the user wait in one
queue and those of the session, its automatic responses among them, in another.  A take
returns the second queue and then the first.  Handlers run between the arrival of a packet
and the automatic response to it; what they call counts like any other call.
-/

namespace BedrockProtocol

structure VersionedClientSessionOptions where
  autoResourcePackResponses : Bool := true
  autoStartGameInit : Bool := true
  clientCacheEnabled : Bool := false
  chunkRadius : Int32 := 20
  localPlayerRuntimeEntityId : List UInt8 := [0xff, 0xff, 0xff, 0xff, 0xff, 0xff, 0xff, 0xff, 0x7f]

/-- The members that change, those of the session among them. -/
structure BedrockClientState where
  outgoing : List VersionedGamePacket := []
  seenStartGame : Bool := false
  sentPostStartGameInit : Bool := false
  extraOutgoing : List VersionedGamePacket := []
  deriving DecidableEq

/-- The members that stay as they are. -/
structure BedrockClient where
  options : VersionedClientSessionOptions := {}
  definition : ProtocolVersionInfo

namespace VersionedPacketCodec

def makePacketById (definition : ProtocolVersionInfo) (packetId : ℕ) (payload : List UInt8) :
    VersionedGamePacket where
  packetId := packetId
  name := definition.packetName packetId
  paramsType := definition.packetParamsType packetId
  fullPacket := encodeFullPacketById packetId payload
  payload := payload

end VersionedPacketCodec

namespace BedrockClient

open VersionedPacketCodec

variable (client : BedrockClient)

/-! ## The session -/

def writePacketByName (packetName : String) (payload : List UInt8) :
    Attempt BedrockClientState Unit := do
  let packet ← Attempt.ofExcept (makePacketByName client.definition packetName payload)
  modify fun s ↦ { s with outgoing := s.outgoing ++ [packet] }

def writeNetworkSettingsRequest (protocolVersion : UInt32) : Attempt BedrockClientState Unit :=
  client.writePacketByName "request_network_settings" (beBytes 4 protocolVersion.toNat)

def writeClientToServerHandshake : Attempt BedrockClientState Unit :=
  client.writePacketByName "client_to_server_handshake" []

def writeResourcePackCompleted : Attempt BedrockClientState Unit :=
  client.writePacketByName "resource_pack_client_response" [0x04, 0x00, 0x00]

def writeClientCacheStatus (enabled : Bool) : Attempt BedrockClientState Unit :=
  client.writePacketByName "client_cache_status" [if enabled then 1 else 0]

/-- The radius as a zigzag varint, and `max_radius = false`. -/
def writeRequestChunkRadius (radius : Int32) : Attempt BedrockClientState Unit :=
  if radius < 0 then throw "request_chunk_radius radius must be non-negative"
  else
    let value := (radius.toUInt32 <<< 1) ^^^ (radius >>> 31).toUInt32
    client.writePacketByName "request_chunk_radius" (leb128 4 value.toNat ++ [0x00])

def writeSetLocalPlayerAsInitialized (runtimeEntityIdVarLong : List UInt8) :
    Attempt BedrockClientState Unit :=
  client.writePacketByName "set_local_player_as_initialized" runtimeEntityIdVarLong

/-- The first line of `handlePacket`. -/
def receive (packet : VersionedGamePacket) : Attempt BedrockClientState Unit :=
  modify fun s ↦ if packet.name = "start_game" then { s with seenStartGame := true } else s

/-- The last line of `handlePacket`. -/
def autoRespond (packet : VersionedGamePacket) : Attempt BedrockClientState Unit := do
  let s ← get
  if client.options.autoResourcePackResponses ∧
      (packet.name = "resource_packs_info" ∨ packet.name = "resource_pack_stack") then
    client.writeResourcePackCompleted
  else if client.options.autoStartGameInit ∧ packet.name = "start_game" ∧
      s.sentPostStartGameInit = false then
    client.writeClientCacheStatus client.options.clientCacheEnabled
    client.writeRequestChunkRadius client.options.chunkRadius
    client.writeSetLocalPlayerAsInitialized client.options.localPlayerRuntimeEntityId
    modify fun s ↦ { s with sentPostStartGameInit := true }
  else pure ()

/-! ## The client -/

/-- `write` with the name of a packet. -/
def write (packetName : String) (payload : List UInt8) : Attempt BedrockClientState Unit := do
  let packet ← Attempt.ofExcept (makePacketByName client.definition packetName payload)
  modify fun s ↦ { s with extraOutgoing := s.extraOutgoing ++ [packet] }

/-- `write` with the id of a packet. -/
def writeById (packetId : ℕ) (payload : List UInt8) : Attempt BedrockClientState Unit :=
  modify fun s ↦ { s with
    extraOutgoing := s.extraOutgoing ++ [makePacketById client.definition packetId payload] }

def takeOutgoingPackets : Attempt BedrockClientState (List VersionedGamePacket) := do
  let s ← get
  modify fun s ↦ { s with outgoing := [], extraOutgoing := [] }
  pure (s.outgoing ++ s.extraOutgoing)

/-- What may happen to the queues.  A packet is handled by `receive`, the calls that handlers
make, and `autoRespond`. -/
inductive Call
  | write (packetName : String) (payload : List UInt8)
  | writeById (packetId : ℕ) (payload : List UInt8)
  | writeNetworkSettingsRequest (protocolVersion : UInt32)
  | writeClientToServerHandshake
  | writeRequestChunkRadius (radius : Int32)
  | receive (packet : VersionedGamePacket)
  | autoRespond (packet : VersionedGamePacket)
  | takeOutgoingPackets

def exec : Call → Attempt BedrockClientState Unit
  | .write packetName payload => client.write packetName payload
  | .writeById packetId payload => client.writeById packetId payload
  | .writeNetworkSettingsRequest protocolVersion =>
      client.writeNetworkSettingsRequest protocolVersion
  | .writeClientToServerHandshake => client.writeClientToServerHandshake
  | .writeRequestChunkRadius radius => client.writeRequestChunkRadius radius
  | .receive packet => receive packet
  | .autoRespond packet => client.autoRespond packet
  | .takeOutgoingPackets => do
      let _ ← takeOutgoingPackets
      pure ()

/-! ## What a call does to the queues -/

/-- Packets were added to the queue of the session and nowhere else. -/
def AddsToSession (s s' : BedrockClientState) : Prop :=
  s.outgoing <+: s'.outgoing ∧ s'.extraOutgoing = s.extraOutgoing

/-- Packets were added to the queue of the user and nowhere else. -/
def AddsToExtra (s s' : BedrockClientState) : Prop :=
  s'.outgoing = s.outgoing ∧ s.extraOutgoing <+: s'.extraOutgoing

section Adds

variable {client}

theorem addsToSession_refl (s : BedrockClientState) : AddsToSession s s :=
  ⟨List.prefix_refl _, rfl⟩

theorem addsToSession_trans (s s' s'' : BedrockClientState) (h : AddsToSession s s')
    (h' : AddsToSession s' s'') : AddsToSession s s'' :=
  ⟨h.1.trans h'.1, h'.2.trans h.2⟩

theorem writePacketByName_adds (packetName : String) (payload : List UInt8) :
    Attempt.Keeps AddsToSession (client.writePacketByName packetName payload) :=
  .bind addsToSession_trans (.ofExcept addsToSession_refl _) fun _ ↦
    .modify fun _ ↦ ⟨List.prefix_append _ _, rfl⟩

theorem writeRequestChunkRadius_adds (radius : Int32) :
    Attempt.Keeps AddsToSession (client.writeRequestChunkRadius radius) := by
  rw [writeRequestChunkRadius]
  split
  · exact .throw addsToSession_refl _
  · exact writePacketByName_adds _ _

theorem autoRespond_adds (packet : VersionedGamePacket) :
    Attempt.Keeps AddsToSession (client.autoRespond packet) := by
  refine .bind addsToSession_trans (.get addsToSession_refl) fun s ↦ ?_
  split
  · exact writePacketByName_adds _ _
  split
  · refine .bind addsToSession_trans (writePacketByName_adds _ _) fun _ ↦ ?_
    refine .bind addsToSession_trans (writeRequestChunkRadius_adds _) fun _ ↦ ?_
    refine .bind addsToSession_trans (writePacketByName_adds _ _) fun _ ↦ ?_
    exact .modify fun _ ↦ ⟨List.prefix_refl _, rfl⟩
  · exact .pure addsToSession_refl ()

theorem write_adds (packetName : String) (payload : List UInt8) (s : BedrockClientState) :
    AddsToExtra s (client.write packetName payload s).2 := by
  cases hmade : makePacketByName client.definition packetName payload with
  | error message =>
      have hrun : client.write packetName payload s = (.error message, s) :=
        Attempt.bind_error (by rw [hmade]; rfl)
      rw [hrun]
      exact ⟨rfl, List.prefix_refl _⟩
  | ok packet =>
      have hrun : client.write packetName payload s =
          (.ok (), { s with extraOutgoing := s.extraOutgoing ++ [packet] }) :=
        Attempt.bind_run (show _ = (Except.ok packet, s) by rw [hmade]; rfl)
      rw [hrun]
      exact ⟨rfl, List.prefix_append _ _⟩

/-- A call that takes nothing adds to one of the queues. -/
theorem exec_adds (call : Call) (s : BedrockClientState) :
    AddsToSession s (client.exec call s).2 ∨ AddsToExtra s (client.exec call s).2 ∨
      call = .takeOutgoingPackets := by
  cases call with
  | write packetName payload => exact .inr (.inl (write_adds packetName payload s))
  | writeById packetId payload => exact .inr (.inl ⟨rfl, List.prefix_append _ _⟩)
  | writeNetworkSettingsRequest protocolVersion => exact .inl (writePacketByName_adds _ _ s)
  | writeClientToServerHandshake => exact .inl (writePacketByName_adds _ _ s)
  | writeRequestChunkRadius radius => exact .inl (writeRequestChunkRadius_adds radius s)
  | receive packet =>
      refine .inl ?_
      change AddsToSession s (if packet.name = "start_game" then _ else s)
      split <;> exact ⟨List.prefix_refl _, rfl⟩
  | autoRespond packet => exact .inl (autoRespond_adds packet s)
  | takeOutgoingPackets => exact .inr (.inr rfl)

end Adds

/-! ## Runs -/

/-- The client and the packets that were queued since the last take, in the order in which
they were queued. -/
structure History where
  state : BedrockClientState := {}
  queued : List VersionedGamePacket := []

/-- The packets that a call adds to the queue of the session. -/
def sessionPackets (s : BedrockClientState) (call : Call) : List VersionedGamePacket :=
  (client.exec call s).2.outgoing.drop s.outgoing.length

/-- The packets that a call adds to the queue of the user. -/
def userPackets (s : BedrockClientState) (call : Call) : List VersionedGamePacket :=
  (client.exec call s).2.extraOutgoing.drop s.extraOutgoing.length

def step (h : History) (call : Call) : History where
  state := (client.exec call h.state).2
  queued :=
    match call with
    | .takeOutgoingPackets => []
    | _ => h.queued ++ (client.sessionPackets h.state call ++ client.userPackets h.state call)

/-- A take would return all packets queued since the last one, in their order. -/
def InOrder (h : History) : Prop := (takeOutgoingPackets h.state).1 = .ok h.queued

/-- What the call adds to the queue of the session may as well stand behind the packets of
the user that wait. -/
def Commutes (h : History) (call : Call) : Prop :=
  client.sessionPackets h.state call ++ h.state.extraOutgoing =
    h.state.extraOutgoing ++ client.sessionPackets h.state call

theorem inOrder_iff {h : History} :
    InOrder h ↔ h.state.outgoing ++ h.state.extraOutgoing = h.queued := by
  change Except.ok _ = Except.ok _ ↔ _
  rw [Except.ok.injEq]

theorem drop_length_of_prefix {α : Type} {as bs : List α} (h : as <+: bs) :
    as ++ bs.drop as.length = bs := by
  obtain ⟨rest, rfl⟩ := h
  rw [List.drop_left' rfl]

variable {client}

theorem step_inOrder_iff {h : History} (hh : InOrder h) (call : Call) :
    InOrder (client.step h call) ↔ client.Commutes h call := by
  rw [inOrder_iff] at hh
  rw [inOrder_iff, Commutes]
  by_cases htake : call = .takeOutgoingPackets
  · subst htake
    have hnone : client.sessionPackets h.state .takeOutgoingPackets = [] := List.drop_nil
    rw [hnone, List.append_nil]
    exact ⟨fun _ ↦ rfl, fun _ ↦ rfl⟩
  have hqueued : (client.step h call).queued = h.queued ++
      (client.sessionPackets h.state call ++ client.userPackets h.state call) := by
    cases call <;> first | rfl | exact absurd rfl htake
  rw [hqueued, ← hh]
  rcases client.exec_adds call h.state with ⟨hfront, hsame⟩ | ⟨hsame, hfront⟩ | hcall
  · have hsession : h.state.outgoing ++ client.sessionPackets h.state call =
        (client.step h call).state.outgoing := drop_length_of_prefix hfront
    have huser : client.userPackets h.state call = [] := by
      rw [userPackets, hsame, List.drop_length]
    have hextra : (client.step h call).state.extraOutgoing = h.state.extraOutgoing := hsame
    rw [← hsession, hextra, huser, List.append_nil, List.append_assoc, List.append_assoc,
      List.append_cancel_left_eq]
  · have hsession : client.sessionPackets h.state call = [] := by
      rw [sessionPackets, hsame, List.drop_length]
    have huser : h.state.extraOutgoing ++ client.userPackets h.state call =
        (client.step h call).state.extraOutgoing := drop_length_of_prefix hfront
    have hout : (client.step h call).state.outgoing = h.state.outgoing := hsame
    rw [hsession, ← huser, hout, List.append_nil, List.nil_append, List.append_assoc]
    exact ⟨fun _ ↦ rfl, fun _ ↦ rfl⟩
  · exact absurd hcall htake

/-- In every state of a run a take returns what was queued, in order, exactly when no call of
the run makes the session queue packets that pass packets of the user. -/
theorem takeOutgoing_inOrder_iff (client : BedrockClient) (calls : List Call) :
    (∀ seen, seen <+: calls → InOrder (run client.step {} seen)) ↔
      AllSteps client.step client.Commutes {} calls := by
  have hstart : InOrder {} := rfl
  rw [← allSteps_reached_iff calls hstart]
  exact allSteps_iff (fun h call hh ↦ step_inOrder_iff hh call)
    (fun h call hh hcommutes ↦ (step_inOrder_iff hh call).mpr hcommutes) calls hstart

/-! ## A response that passes a packet of the user -/

def sampleClient : BedrockClient where
  definition := ⟨"1.21.0", [⟨9, "text", "packet_text"⟩,
    ⟨8, "resource_pack_client_response", "packet_resource_pack_client_response"⟩],
    by decide, by decide⟩

def packsInfo : VersionedGamePacket :=
  ⟨6, "resource_packs_info", "packet_resource_packs_info", [6], []⟩

/-- The response to the packet that comes after the user's write is returned before it. -/
theorem response_passes_write :
    ¬ (∀ (client : BedrockClient) (calls seen : List Call), seen <+: calls →
      InOrder (run client.step {} seen)) := by
  intro hall
  have horder := hall sampleClient [.write "text" [1], .receive packsInfo, .autoRespond packsInfo]
    [.write "text" [1], .receive packsInfo, .autoRespond packsInfo] (List.prefix_refl _)
  rw [inOrder_iff] at horder
  revert horder
  decide

end BedrockClient

end BedrockProtocol
