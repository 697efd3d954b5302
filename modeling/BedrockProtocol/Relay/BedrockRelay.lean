import BedrockProtocol.Protocol.VersionedMcpeCodec

/-!
# The packet relay

`BedrockRelay.hpp`: batches of either side are decoded, shown to handlers and
encoded again, or passed on as they are when nothing raised `changed`.  Handlers
are any code over a world of their own; what a call changes stays changed when it
throws.
-/

namespace BedrockProtocol

inductive BedrockRelayDirection
  | clientbound
  | serverbound
  deriving DecidableEq, Repr

/-- Code that changes a state and may throw. -/
abbrev Code (σ α : Type) := σ → Except String α × σ

structure BedrockRelayOptions where
  /-- Part of `clientOptions`. -/
  outgoingCompression : VersionedMcpeCompression := .deflateRaw
  forwardServerbound : Bool := true
  forwardClientbound : Bool := true
  enableChunkCaching : Bool := false
  forceClientCacheStatus : Bool := true
  skipClientboundLoginSuccess : Bool := true
  queueClientboundLevelChunksUntilStartGame : Bool := true
  forwardClientToServer : Bool := true
  forwardServerToClient : Bool := true

structure BedrockRelayPacketEvent where
  direction : BedrockRelayDirection
  packet : VersionedGamePacket
  canceled : Bool := false
  replacements : List VersionedGamePacket := []
  deriving DecidableEq

namespace BedrockRelayPacketEvent

variable (event : BedrockRelayPacketEvent)

def cancel : BedrockRelayPacketEvent := { event with canceled := true, replacements := [] }

def replace (replacementPackets : List VersionedGamePacket) : BedrockRelayPacketEvent :=
  { event with canceled := false, replacements := replacementPackets }

/-- The end of `applyHandlers`: what is forwarded, and whether `changed` is
raised. -/
def outcome : List VersionedGamePacket × Bool :=
  if event.canceled then ([], true)
  else if event.replacements ≠ [] then (event.replacements, true)
  else ([event.packet], false)

end BedrockRelayPacketEvent

structure BedrockRelayFrame where
  packets : List VersionedGamePacket := []
  forwardedPackets : List VersionedGamePacket := []
  forwardedMcpe : List UInt8 := []
  mutated : Bool := false
  queued : Bool := false
  deriving DecidableEq

/-- The members of a relay that change, and the world of its handlers. -/
structure RelayState (σ : Type) where
  queuedClientboundPackets : List VersionedGamePacket := []
  downQueue : List (List UInt8) := []
  upQueue : List (List UInt8) := []
  startRelaying : Bool := false
  upstreamReady : Bool := false
  sentClientboundStartGame : Bool := false
  world : σ

/-- The locals of `handleDecodedBatch` beside the members. -/
structure Forwarding (σ : Type) extends RelayState σ where
  forwardedPackets : List VersionedGamePacket := []
  changed : Bool := false

/-- The members of a relay that stay as they are. -/
structure BedrockRelay (σ : Type) where
  options : BedrockRelayOptions
  zlib : Zlib
  mcpeCodec : VersionedMcpeCodec
  clientboundHandlers : List (BedrockRelayPacketEvent → Code σ BedrockRelayPacketEvent) := []
  serverboundHandlers : List (BedrockRelayPacketEvent → Code σ BedrockRelayPacketEvent) := []
  /-- `VersionedClientSession::handleBatch` of `upstream_` and `downstream_`: their
  handlers and automatic responses. -/
  handleBatch : BedrockRelayDirection → List VersionedGamePacket → Code σ Unit

namespace BedrockRelay

variable {σ : Type} (relay : BedrockRelay σ)

def isPlayStatusLoginSuccess (packet : VersionedGamePacket) : Bool :=
  packet.payload.head? = some 0x00

def shouldSkipPacket (direction : BedrockRelayDirection) (packet : VersionedGamePacket) : Bool :=
  direction = .clientbound && relay.options.skipClientboundLoginSuccess &&
    packet.name = "play_status" && isPlayStatusLoginSuccess packet

/-- The event that handlers get to see. -/
def eventOf (direction : BedrockRelayDirection) (packet : VersionedGamePacket) :
    Except String BedrockRelayPacketEvent :=
  if direction = .serverbound ∧ relay.options.forceClientCacheStatus ∧
      packet.name = "client_cache_status" ∧
      relay.mcpeCodec.definition.hasPacket "client_cache_status" then do
    let forced ← VersionedPacketCodec.makePacketByName relay.mcpeCodec.definition
      "client_cache_status" [if relay.options.enableChunkCaching then 1 else 0]
    pure (BedrockRelayPacketEvent.replace { direction, packet } [forced])
  else pure { direction, packet }

def handlers : BedrockRelayDirection → List (BedrockRelayPacketEvent → Code σ BedrockRelayPacketEvent)
  | .clientbound => relay.clientboundHandlers
  | .serverbound => relay.serverboundHandlers

/-- Handlers run one after the other on the same event. -/
def runHandlers : List (BedrockRelayPacketEvent → Code σ BedrockRelayPacketEvent) →
    BedrockRelayPacketEvent → Code σ BedrockRelayPacketEvent
  | [], event, world => (.ok event, world)
  | handler :: handlers, event, world =>
      match handler event world with
      | (.error message, world) => (.error message, world)
      | (.ok event, world) => runHandlers handlers event world

/-- `applyHandlers` up to the event that the handlers leave. -/
def handledEvent (direction : BedrockRelayDirection) (packet : VersionedGamePacket) :
    Code σ BedrockRelayPacketEvent := fun world ↦
  match relay.eventOf direction packet with
  | .error message => (.error message, world)
  | .ok event => runHandlers (relay.handlers direction) event world

def appendClientboundPacket (f : Forwarding σ) (packet : VersionedGamePacket) : Forwarding σ :=
  if packet.name = "start_game" then
    if f.queuedClientboundPackets = [] then
      { f with
        sentClientboundStartGame := true, forwardedPackets := f.forwardedPackets ++ [packet] }
    else
      { f with
        sentClientboundStartGame := true
        changed := true
        forwardedPackets := f.forwardedPackets ++ [packet] ++ f.queuedClientboundPackets
        queuedClientboundPackets := [] }
  else if relay.options.queueClientboundLevelChunksUntilStartGame ∧
      f.sentClientboundStartGame = false ∧ packet.name = "level_chunk" then
    { f with
      changed := true, queuedClientboundPackets := f.queuedClientboundPackets ++ [packet] }
  else { f with forwardedPackets := f.forwardedPackets ++ [packet] }

def appendServerboundPacket (f : Forwarding σ) (packet : VersionedGamePacket) : Forwarding σ :=
  { f with forwardedPackets := f.forwardedPackets ++ [packet] }

def appendPacket (direction : BedrockRelayDirection) (f : Forwarding σ)
    (packet : VersionedGamePacket) : Forwarding σ :=
  match direction with
  | .clientbound => relay.appendClientboundPacket f packet
  | .serverbound => appendServerboundPacket f packet

/-- One turn of the loop of `handleDecodedBatch`. -/
def forwardPacket (direction : BedrockRelayDirection) (packet : VersionedGamePacket) :
    Code (Forwarding σ) Unit := fun f ↦
  if relay.shouldSkipPacket direction packet then (.ok (), { f with changed := true })
  else
    match relay.handledEvent direction packet f.world with
    | (.error message, world) => (.error message, { f with world })
    | (.ok event, world) =>
        let (candidates, raised) := event.outcome
        (.ok (), candidates.foldl (relay.appendPacket direction)
          { f with world, changed := f.changed || raised })

def forwardPackets (direction : BedrockRelayDirection) :
    List VersionedGamePacket → Code (Forwarding σ) Unit
  | [], f => (.ok (), f)
  | packet :: packets, f =>
      match relay.forwardPacket direction packet f with
      | (.error message, f) => (.error message, f)
      | (.ok (), f) => forwardPackets direction packets f

/-- `handleDecodedBatch` after the loop. -/
def finishFrame (packets : List VersionedGamePacket) (originalMcpePayload : List UInt8)
    (f : Forwarding σ) : Except String BedrockRelayFrame :=
  if f.changed = false ∧ f.forwardedPackets.length = packets.length then
    .ok { packets, forwardedPackets := f.forwardedPackets, forwardedMcpe := originalMcpePayload }
  else if f.forwardedPackets = [] then .ok { packets, mutated := true }
  else do
    let forwardedMcpe ← VersionedMcpeCodec.encodeMcpePayload relay.zlib relay.mcpeCodec
      f.forwardedPackets relay.options.outgoingCompression 7
    pure { packets, forwardedPackets := f.forwardedPackets, forwardedMcpe, mutated := true }

def handleDecodedBatch (direction : BedrockRelayDirection) (packets : List VersionedGamePacket)
    (originalMcpePayload : List UInt8) (shouldForward : Bool) :
    Code (RelayState σ) BedrockRelayFrame := fun s ↦
  if !shouldForward then (.ok { packets, mutated := true }, s)
  else
    match relay.forwardPackets direction packets { toRelayState := s } with
    | (.error message, f) => (.error message, f.toRelayState)
    | (.ok (), f) => (relay.finishFrame packets originalMcpePayload f, f.toRelayState)

def shouldForward : BedrockRelayDirection → Bool
  | .clientbound => relay.options.forwardClientbound && relay.options.forwardServerToClient
  | .serverbound => relay.options.forwardServerbound && relay.options.forwardClientToServer

/-- The part of `handleClientboundMcpe` and `handleServerboundMcpe` after the
queues. -/
def handleMcpe (direction : BedrockRelayDirection) (mcpePayload : List UInt8) :
    Code (RelayState σ) BedrockRelayFrame := fun s ↦
  match VersionedMcpeCodec.decodeMcpePayload relay.zlib relay.mcpeCodec mcpePayload "deflate" with
  | .error message => (.error message, s)
  | .ok decoded =>
      match relay.handleBatch direction decoded.batch s.world with
      | (.error message, world) => (.error message, { s with world })
      | (.ok (), world) =>
          relay.handleDecodedBatch direction decoded.batch mcpePayload
            (relay.shouldForward direction) { s with world }

def handleClientboundMcpe (mcpePayload : List UInt8) : Code (RelayState σ) BedrockRelayFrame :=
  fun s ↦
    if !s.startRelaying then
      (.ok { queued := true }, { s with downQueue := s.downQueue ++ [mcpePayload] })
    else relay.handleMcpe .clientbound mcpePayload s

def handleServerboundMcpe (mcpePayload : List UInt8) : Code (RelayState σ) BedrockRelayFrame :=
  fun s ↦
    if s.startRelaying && !s.upstreamReady then
      (.ok { queued := true }, { s with upQueue := s.upQueue ++ [mcpePayload] })
    else relay.handleMcpe .serverbound mcpePayload s

/-- The loops of `flushDownQueue` and `flushUpQueue`: frames of payloads before the
one that throws are lost. -/
def handleAll (handle : List UInt8 → Code (RelayState σ) BedrockRelayFrame) :
    List (List UInt8) → Code (RelayState σ) (List BedrockRelayFrame)
  | [], s => (.ok [], s)
  | mcpePayload :: queued, s =>
      match handle mcpePayload s with
      | (.error message, s) => (.error message, s)
      | (.ok frame, s) =>
          match handleAll handle queued s with
          | (.error message, s) => (.error message, s)
          | (.ok frames, s) => (.ok (frame :: frames), s)

def flushDownQueue : Code (RelayState σ) (List BedrockRelayFrame) := fun s ↦
  handleAll relay.handleClientboundMcpe s.downQueue { s with downQueue := [] }

def flushUpQueue : Code (RelayState σ) (List BedrockRelayFrame) := fun s ↦
  handleAll relay.handleServerboundMcpe s.upQueue { s with upQueue := [] }

def markDownstreamJoined : Code (RelayState σ) (List BedrockRelayFrame) := fun s ↦
  relay.flushDownQueue { s with startRelaying := true }

def markUpstreamJoined : Code (RelayState σ) (List BedrockRelayFrame) := fun s ↦
  relay.flushUpQueue { s with upstreamReady := true }

end BedrockRelay

end BedrockProtocol
