import BedrockProtocol.Encryption
import BedrockProtocol.Lib.Interleaving
import BedrockProtocol.Protocol.VersionedMcpeCodec
import BedrockProtocol.Server.BedrockLoginVerifier

/-!
# One session of the server

`BedrockServer.hpp` for one connected player.  The RakNet worker hands inbound
packets to `handleBuiltInPacket`; the outbound-queue scheduler, the lifecycle
scheduler and any thread of the application call the public methods, and so do
listeners, on whatever thread they run.  What a session does is an interleaving
of all of these.

A thread is a list of instructions that are still to run.  An instruction is a
piece of a method that runs undisturbed: the body of one critical section of
`session->mutex`, one look at the player maps, one call of `sendReliable`.
Running it changes the shared state and puts the instructions that follow it in
front of the rest.  The outbound mutex is explicit; instructions between
acquiring it and `unlock` run inside it.
-/

namespace BedrockProtocol

inductive BedrockServerClientStatus
  | disconnected
  | connecting
  | authenticating
  | initializing
  | initialized
  deriving DecidableEq, Repr

/-- The options that no method changes. -/
structure BedrockServerOptions where
  version : String
  offline : Bool
  autoLogin : Bool
  autoResourcePacks : Bool

/-- The options that `setCompressor` changes. -/
structure CompressorOptions where
  compressionAlgorithm : String
  compressionLevel : ℤ
  compressionThreshold : ℕ

structure DerivedKeyResult where
  secretKeyBytes : List UInt8
  iv16 : List UInt8

namespace BedrockServer

/-- The server's configuration, and the code outside this file that a session
calls: OpenSSL and zlib, the key exchange with the session's own key pair, and
the ProtoDef codec over the session's variables. -/
structure Context (σ Key ν : Type) where
  options : BedrockServerOptions
  mcpeCodec : VersionedMcpeCodec
  configuredServerProtocolVersion : ℕ
  evp : Evp σ
  sha256 : List UInt8 → List UInt8
  zlib : Zlib
  openssl : OpenSsl Key
  /-- The keys shared with the owner of a public key. -/
  deriveKeys : Text → Except String DerivedKeyResult
  /-- The signed token that tells the client the salt and the server's key. -/
  handshakeToken : Except String Text
  encodePacket : ν → String → ProtoDefValue → Except String (List UInt8)
  /-- Decoding an outbound `start_game` or `item_registry` updates the variables. -/
  decodePacket : ν → VersionedGamePacket → Except String ν
  updateItemPaletteVariables : ν → ProtoDefValue → Except String ν

/-! ## Shared state -/

/-- Which code sends a payload: the handshake of `handleLogin`, any other use of
`sendPacketsInternal`, or `sendPreCompression`. -/
inductive SendPath
  | login
  | packets
  | preCompression
  deriving DecidableEq, Repr

/-- A payload for `sendReliable`. -/
structure WirePayload where
  path : SendPath
  bytes : List UInt8
  deriving DecidableEq, Repr

structure QueuedPacket where
  packet : VersionedGamePacket
  compression : VersionedMcpeCompression

inductive PlayerEvent
  | join
  | spawn
  deriving DecidableEq, Repr

/-- The fields of `SessionState`, the player's entries in the server's maps, and
what left the session so far. -/
structure Session (σ ν : Type) where
  outboundMutex : RecursiveMutex
  encryptionKeys : DerivedKeyResult
  encryptStream : Option (BedrockCipherStream σ)
  hasEncryptionKeys : Bool
  encryptionEnabled : Bool
  compressionReady : Bool
  networkSettingsSent : Bool
  resourcePacksInfoSent : Bool
  resourcePackStackSent : Bool
  loginVerification : Option BedrockLoginVerificationResult
  status : BedrockServerClientStatus
  compressionLevel : ℤ
  sendCounter : ℕ
  protoDefVariables : ν
  queuedPackets : List QueuedPacket
  /-- The server's options as `setCompressor` left them. -/
  compressor : CompressorOptions
  /-- `sessionSnapshot` finds the session. -/
  attached : Bool
  /-- The player is in `closedPlayers_`. -/
  closed : Bool
  /-- The endpoint was opened again under the same GUID after the session was
  dropped, and that later session can be written to. -/
  successorWritable : Bool
  /-- What was handed to `sendReliable`, in order. -/
  wire : List WirePayload
  /-- The listeners of joining and spawning that were called. -/
  events : List PlayerEvent

/-! ## Instructions -/

/-- The methods that run inside the outbound mutex. -/
inductive Critical
  | send (path : SendPath) (packetName : String) (value : ProtoDefValue)
      (compression : VersionedMcpeCompression)
  | sendPacketsInternal (path : SendPath) (packets : List VersionedGamePacket)
      (compression : VersionedMcpeCompression) (processOutbound : Bool)
  | queue (packetName : String) (value : ProtoDefValue) (compression : VersionedMcpeCompression)
  | queuePackets (packets : List VersionedGamePacket) (compression : VersionedMcpeCompression)
  | sendQueued

inductive Instr
  /-- Listeners run: code of the application, which may call any public method. -/
  | listeners
  /-- Look the session up; without one the method returns. -/
  | enter (critical : Critical)
  /-- Wait for the outbound mutex. -/
  | acquire (critical : Critical)
  /-- Leave the outbound mutex. -/
  | unlock
  | encode (path : SendPath) (packetName : String) (value : ProtoDefValue)
      (compression : VersionedMcpeCompression)
  | processOutboundPacket (packet : VersionedGamePacket)
  /-- The critical section of `sendPacketsInternal`. -/
  | build (path : SendPath) (packets : List VersionedGamePacket)
      (compression : VersionedMcpeCompression)
  | checkWritable (payload : WirePayload)
  | sendReliable (payload : WirePayload)
  | encodeQueued (packetName : String) (value : ProtoDefValue)
      (compression : VersionedMcpeCompression)
  | enqueue (packets : List VersionedGamePacket) (compression : VersionedMcpeCompression)
  | takeQueued
  | sendPreCompression (packetName : String) (value : ProtoDefValue)
  | encodePreCompression (packetName : String) (value : ProtoDefValue)
  | markNetworkSettings (preLoginRequest : Bool)
  | disconnect (reason : String)
  | sendDisconnectStatus (playStatus : String)
  | closeConnection
  | closePlayer
  | markDisconnected
  | handlePeerClosed
  | detach
  | badPacket
  | storeStatus (nextStatus : BedrockServerClientStatus)
  | emitJoin
  | emitSpawn
  | packetListeners
  | handleBuiltInPacket (packet : VersionedGamePacket)
  | handleLogin (packet : VersionedGamePacket)
  | verifyLogin (login : LoginPacketData)
  | installKeys (verifiedLogin : BedrockLoginVerificationResult)
  | enableEncryption (verifiedLogin : BedrockLoginVerificationResult)
  | startEncryption (verifiedLogin : BedrockLoginVerificationResult)
  | publishLogin (verifiedLogin : BedrockLoginVerificationResult)
  | storeLogin (verifiedLogin : BedrockLoginVerificationResult)
  | loginNetworkSettings
  | sendEmptyResourcePacksInfo
  | markResourcePacksInfo
  | handleResourcePackClientResponse (packet : VersionedGamePacket)
  | markResourcePackStack
  | updateItemPalette (palette : ProtoDefValue)
  | setCompressor (algorithm : String) (level : ℤ) (threshold : ℕ)

/-! ## Packets of the server's own -/

/-- An object value with the given fields. -/
def objectOf (fields : List (String × ProtoDefValue)) : ProtoDefValue :=
  .object (fields.map fun field ↦ (txt field.1, field.2))

def playStatusValue (playStatus : String) : ProtoDefValue :=
  objectOf [("status", .string (txt playStatus))]

def disconnectValue (reason : String) : ProtoDefValue :=
  objectOf [
    ("reason", .string (txt "unknown")),
    ("hide_disconnect_reason", .bool false),
    ("message", .string (txt reason)),
    ("filtered_message", .string [])]

def networkSettingsValue (compressor : CompressorOptions) : ProtoDefValue :=
  objectOf [
    ("compression_threshold", .uint compressor.compressionThreshold),
    ("compression_algorithm", .string (txt compressor.compressionAlgorithm)),
    ("client_throttle", .bool false),
    ("client_throttle_threshold", .uint 0),
    ("client_throttle_scalar", .double 0)]

def handshakeValue (token : Text) : ProtoDefValue := objectOf [("token", .string token)]

def resourcePacksInfoValue : ProtoDefValue :=
  objectOf [
    ("must_accept", .bool false),
    ("has_addons", .bool false),
    ("has_scripts", .bool false),
    ("disable_vibrant_visuals", .bool false),
    ("force_server_packs", .bool false),
    ("world_template", objectOf [
      ("uuid", .string (txt "00000000-0000-0000-0000-000000000000")),
      ("version", .string [])]),
    ("behaviour_packs", .array []),
    ("texture_packs", .array []),
    ("resource_pack_links", .array [])]

def resourcePackStackValue (version : String) : ProtoDefValue :=
  objectOf [
    ("must_accept", .bool false),
    ("behavior_packs", .array []),
    ("resource_packs", .array []),
    ("game_version", .string (txt version)),
    ("experiments", .array []),
    ("experiments_previously_used", .bool false),
    ("has_editor_packs", .bool false)]

/-! ## Methods as instruction lists -/

/-- `send` with the default compression. -/
def sendDefault (packetName : String) (value : ProtoDefValue) : Instr :=
  .enter (.send .packets packetName value .automatic)

/-- `sendPacketsInternal` and `queuePackets` return at once for no packets. -/
def sendPackets (packets : List VersionedGamePacket) (compression : VersionedMcpeCompression) :
    List Instr :=
  if packets = [] then [] else [.enter (.sendPacketsInternal .packets packets compression true)]

def queuePackets (packets : List VersionedGamePacket) (compression : VersionedMcpeCompression) :
    List Instr :=
  if packets = [] then [] else [.enter (.queuePackets packets compression)]

/-- What a method does inside the outbound mutex. -/
def Critical.body : Critical → List Instr
  | .send path packetName value compression => [.encode path packetName value compression]
  | .sendPacketsInternal path packets compression processOutbound =>
      (if processOutbound then packets.map .processOutboundPacket else []) ++
        [.build path packets compression]
  | .queue packetName value compression => [.encodeQueued packetName value compression]
  | .queuePackets packets compression =>
      packets.map .processOutboundPacket ++ [.enqueue packets compression]
  | .sendQueued => [.takeQueued]

/-- Queued packets in maximal runs of one compression. -/
def batches : List QueuedPacket → List (VersionedMcpeCompression × List VersionedGamePacket)
  | [] => []
  | ⟨packet, compression⟩ :: queued =>
      match batches queued with
      | [] => [(compression, [packet])]
      | (compression', packets) :: rest =>
          if compression = compression' then (compression, packet :: packets) :: rest
          else (compression, [packet]) :: (compression', packets) :: rest

def sendBatch (batch : VersionedMcpeCompression × List VersionedGamePacket) : Instr :=
  .enter (.sendPacketsInternal .packets batch.2 batch.1 false)

/-- Status listeners run before the status is stored. -/
def transitionStatus (nextStatus : BedrockServerClientStatus) : List Instr :=
  [.listeners, .storeStatus nextStatus]

/-- The public methods that an application calls, and the work of the two
schedulers. -/
inductive Call
  | send (packetName : String) (value : ProtoDefValue) (compression : VersionedMcpeCompression)
  | queue (packetName : String) (value : ProtoDefValue) (compression : VersionedMcpeCompression)
  | sendPackets (packets : List VersionedGamePacket) (compression : VersionedMcpeCompression)
  | queuePackets (packets : List VersionedGamePacket) (compression : VersionedMcpeCompression)
  | sendQueued
  | disconnect (reason : String)
  | sendDisconnectStatus (playStatus : String)
  | closeConnection
  | scheduledClose
  | close (disconnectReason : String)
  | setStatus (status : BedrockServerClientStatus)
  | updateItemPalette (palette : ProtoDefValue)
  | setCompressor (algorithm : String) (level : ℤ) (threshold : ℕ)

def Call.body : Call → List Instr
  | .send packetName value compression => [.enter (.send .packets packetName value compression)]
  | .queue packetName value compression => [.enter (.queue packetName value compression)]
  | .sendPackets packets compression => BedrockServer.sendPackets packets compression
  | .queuePackets packets compression => BedrockServer.queuePackets packets compression
  | .sendQueued => [.enter .sendQueued]
  | .disconnect reason => [.disconnect reason]
  | .sendDisconnectStatus playStatus => [.sendDisconnectStatus playStatus]
  | .closeConnection => [.closeConnection]
  | .scheduledClose => [.closePlayer]
  | .close disconnectReason => [.disconnect disconnectReason, .detach]
  | .setStatus status => transitionStatus status
  | .updateItemPalette palette => [.updateItemPalette palette]
  | .setCompressor algorithm level threshold => [.setCompressor algorithm level threshold]

/-! ## Running one instruction -/

section Semantics

variable {σ Key ν : Type}

def Session.hasWritablePlayer (s : Session σ ν) : Bool :=
  if s.attached then s.status ≠ .disconnected else s.successorWritable

def Session.hasActivePlayer (s : Session σ ν) : Bool :=
  s.attached && s.status ≠ .disconnected && !s.closed

/-- An instruction waits, goes on with further instructions, or throws. -/
inductive Action (σ ν : Type)
  | waits
  | next (session : Session σ ν) (instrs : List Instr)
  | throws (session : Session σ ν)

variable (ctx : Context σ Key ν)

def Context.hasPacket (packetName : String) : Bool := ctx.mcpeCodec.definition.hasPacket packetName

def sendNetworkSettings (compressor : CompressorOptions) (preLoginRequest : Bool) : List Instr :=
  let value := networkSettingsValue compressor
  [if preLoginRequest then .sendPreCompression "network_settings" value
    else sendDefault "network_settings" value,
   .markNetworkSettings preLoginRequest]

def requestNetworkSettingsProtocol (packet : VersionedGamePacket) : Except String ℤ :=
  match packet.payload with
  | a :: b :: c :: d :: _ => .ok (toSigned 32 (leValue [d, c, b, a]))
  | _ => .error "request_network_settings client_protocol is truncated"

/-- The configured version is older than the client's. -/
def refusesProtocolVersion (clientVersion : ℤ) : Bool :=
  (ctx.configuredServerProtocolVersion : ℤ) < clientVersion

/-- The unencrypted branch of `sendPacketsInternal`. -/
def unencryptedCompressionPacket (s : Session σ ν) (packets : List VersionedGamePacket)
    (compression : VersionedMcpeCompression) : Except String (List UInt8) := do
  let compressionPacket ←
    if compression = .automatic then
      VersionedMcpeCodec.encodeCompressionPacketByAlgorithm ctx.zlib ctx.mcpeCodec packets
        s.compressor.compressionAlgorithm s.compressor.compressionLevel
        s.compressor.compressionThreshold
    else
      VersionedMcpeCodec.encodeCompressionPacket ctx.zlib ctx.mcpeCodec packets compression
        s.compressor.compressionLevel
  if compression = .automatic && ctx.mcpeCodec.compressorInPacketHeader && !s.compressionReady then
    match compressionPacket with
    | [] => throw "modern compression packet missing mode byte"
    | _ :: rest => pure rest
  else pure compressionPacket

/-- The counter is taken before the cipher stream runs. -/
def buildPayload (s : Session σ ν) (path : SendPath) (packets : List VersionedGamePacket)
    (compression : VersionedMcpeCompression) : Action σ ν :=
  if s.status = .disconnected then .next s []
  else if s.encryptionEnabled && s.hasEncryptionKeys then
    match s.encryptStream with
    | none => .throws s
    | some stream =>
        match VersionedMcpeCodec.encodeEncryptedCompressionPacket ctx.zlib ctx.mcpeCodec packets
            s.compressionLevel with
        | .error _ => .throws s
        | .ok compressionPacket =>
            match BedrockEncryption.send ctx.sha256 ctx.evp s.encryptionKeys.secretKeyBytes
                ⟨stream, s.sendCounter⟩ compressionPacket with
            | .error _ =>
                .throws { s with sendCounter := BedrockEncryption.nextCounter s.sendCounter }
            | .ok (encryptedOnly, sender) =>
                .next { s with encryptStream := some sender.stream, sendCounter := sender.counter }
                  [.checkWritable ⟨path, 0xfe :: encryptedOnly⟩]
  else
    match unencryptedCompressionPacket ctx s packets compression with
    | .error _ => .throws s
    | .ok compressionPacket => .next s [.checkWritable ⟨path, 0xfe :: compressionPacket⟩]

/-- The critical section of `handleLogin`, and the handshake after it. -/
def installSessionKeys (s : Session σ ν) (verifiedLogin : BedrockLoginVerificationResult) :
    Action σ ν :=
  match ctx.deriveKeys verifiedLogin.key with
  | .error _ => .throws s
  | .ok keys =>
      let s := { s with encryptionKeys := keys }
      let createCipherStream := BedrockEncryption.createCipherStream ctx.evp
        ctx.configuredServerProtocolVersion keys.secretKeyBytes keys.iv16
      match createCipherStream .encrypt with
      | .error _ => .throws s
      | .ok encryptStream =>
          let s := { s with encryptStream := some encryptStream }
          match createCipherStream .decrypt with
          | .error _ => .throws s
          | .ok _ =>
              let s := { s with hasEncryptionKeys := true }
              match ctx.handshakeToken with
              | .error _ => .throws s
              | .ok token => .next s
                  [.enter (.send .login "server_to_client_handshake" (handshakeValue token)
                    .automatic),
                   .enableEncryption verifiedLogin]

/-- `handleLogin` from the version check on. -/
def verifyLoginData (s : Session σ ν) (login : LoginPacketData) : Action σ ν :=
  if refusesProtocolVersion ctx (toSigned 32 login.protocolVersion) then
    .next s [.sendDisconnectStatus "failed_spawn"]
  else
    match BedrockLoginVerifier.verify ctx.openssl login ctx.options.offline with
    | .error _ => .next s [.disconnect "Server authentication error"]
    | .ok verifiedLogin => .next s
        ((if verifiedLogin.disconnectNotAuthenticated then
            [.disconnect "disconnectionScreen.notAuthenticated"] else []) ++
          [.installKeys verifiedLogin])

/-- `handleBuiltInPacket` and what its caller does with the packet afterwards. -/
def dispatchPacket (s : Session σ ν) (packet : VersionedGamePacket) : Action σ ν :=
  if packet.name = "request_network_settings" then
    match requestNetworkSettingsProtocol packet with
    | .error _ => .throws s
    | .ok clientVersion =>
        if refusesProtocolVersion ctx clientVersion then
          .next s [.sendDisconnectStatus "failed_spawn"]
        else if ctx.hasPacket "network_settings" then
          .next s (sendNetworkSettings s.compressor true)
        else .next s []
  else if packet.name = "login" then
    .next s
      ((if ctx.options.autoLogin && ctx.hasPacket "server_to_client_handshake" then
          [.handleLogin packet] else []) ++
        [.loginNetworkSettings])
  else if packet.name = "client_to_server_handshake" && ctx.hasPacket "play_status" then
    .next s
      (sendDefault "play_status" (playStatusValue "login_success") ::
        transitionStatus .initializing ++
        [if ctx.options.autoResourcePacks && ctx.hasPacket "resource_packs_info" then
            .sendEmptyResourcePacksInfo else .emitJoin,
         .packetListeners])
  else if packet.name = "set_local_player_as_initialized" then
    .next s (transitionStatus .initialized ++ [.emitSpawn, .packetListeners])
  else if ctx.options.autoResourcePacks && packet.name = "resource_pack_client_response" then
    .next s [.handleResourcePackClientResponse packet, .packetListeners]
  else .next s [.packetListeners]

/-- The statuses 3 (have all packs) and 4 (completed) of a client's response. -/
def answerResourcePacks (s : Session σ ν) (packet : VersionedGamePacket) : List Instr :=
  let status := packet.payload.headD 0xff
  if (status = 0x03 ∨ status = 0x04) ∧ !s.resourcePackStackSent then
    [sendDefault "resource_pack_stack" (resourcePackStackValue ctx.options.version),
     .markResourcePackStack]
  else if status = 0x04 then [.emitJoin]
  else []

/-- Run one instruction on thread `t`. -/
def perform (t : ℕ) (s : Session σ ν) : Instr → Action σ ν
  | .listeners => .next s []
  | .enter critical => .next s (if s.attached then [.acquire critical] else [])
  | .acquire critical =>
      match s.outboundMutex.lock t with
      | none => .waits
      | some outboundMutex => .next { s with outboundMutex } (critical.body ++ [.unlock])
  | .unlock => .next { s with outboundMutex := s.outboundMutex.unlock } []
  | .encode path packetName value compression =>
      match ctx.encodePacket s.protoDefVariables packetName value >>=
          VersionedPacketCodec.makePacketByName ctx.mcpeCodec.definition packetName with
      | .error _ => .throws s
      | .ok packet => .next s [.enter (.sendPacketsInternal path [packet] compression true)]
  | .processOutboundPacket packet =>
      if packet.name ≠ "start_game" ∧ packet.name ≠ "item_registry" then .next s []
      else
        match ctx.decodePacket s.protoDefVariables packet with
        | .error _ => .throws s
        | .ok protoDefVariables => .next { s with protoDefVariables } []
  | .build path packets compression => buildPayload ctx s path packets compression
  | .checkWritable payload =>
      .next s (if s.hasWritablePlayer then [.sendReliable payload] else [])
  | .sendReliable payload => .next { s with wire := s.wire ++ [payload] } []
  | .encodeQueued packetName value compression =>
      match ctx.encodePacket s.protoDefVariables packetName value >>=
          VersionedPacketCodec.makePacketByName ctx.mcpeCodec.definition packetName with
      | .error _ => .throws s
      | .ok packet => .next s [.enter (.queuePackets [packet] compression)]
  | .enqueue packets compression =>
      if s.status = .disconnected then .next s []
      else .next { s with
        queuedPackets := s.queuedPackets ++ packets.map fun packet ↦ ⟨packet, compression⟩ } []
  | .takeQueued =>
      if s.status = .disconnected then .next s []
      else .next { s with queuedPackets := [] } ((batches s.queuedPackets).map sendBatch)
  | .sendPreCompression packetName value =>
      .next s (if s.hasActivePlayer then [.encodePreCompression packetName value] else [])
  | .encodePreCompression packetName value =>
      match ctx.encodePacket s.protoDefVariables packetName value >>=
          VersionedPacketCodec.makePacketByName ctx.mcpeCodec.definition packetName >>=
          fun packet ↦ VersionedBatchCodec.encodeFramedBatch [packet] with
      | .error _ => .throws s
      | .ok framed => .next s [.checkWritable ⟨.preCompression, 0xfe :: framed⟩]
  | .markNetworkSettings preLoginRequest =>
      if s.attached then
        .next { s with
          networkSettingsSent := true
          compressionReady := true
          compressionLevel :=
            if preLoginRequest then s.compressor.compressionLevel else s.compressionLevel } []
      else .next s []
  | .disconnect reason =>
      -- the delayed close is the native transport's: it arrives as a closed peer
      .next s (if s.hasWritablePlayer && ctx.hasPacket "disconnect" then
        [sendDefault "disconnect" (disconnectValue reason)] else [])
  | .sendDisconnectStatus playStatus =>
      .next s (if s.hasWritablePlayer && ctx.hasPacket "play_status" then
        [sendDefault "play_status" (playStatusValue playStatus), .closePlayer] else [])
  | .closeConnection => .next s (if s.hasActivePlayer then [.closePlayer] else [])
  | .closePlayer =>
      if s.closed then .next s []
      else .next { s with closed := true } [.listeners, .markDisconnected]
  | .markDisconnected =>
      if s.attached then .next { s with status := .disconnected } [] else .next s []
  | .handlePeerClosed =>
      if s.attached then
        .next { s with closed := true } ((if s.closed then [] else [.listeners]) ++ [.detach])
      else .next s []
  | .detach => .next { s with attached := false } []
  | .badPacket =>
      .next s (if s.hasActivePlayer then [.disconnect "disconnectionScreen.badPacket"] else [])
  | .storeStatus nextStatus =>
      if s.attached then .next { s with status := nextStatus } [] else .next s []
  | .emitJoin => .next { s with events := s.events ++ [.join] } [.listeners]
  | .emitSpawn => .next { s with events := s.events ++ [.spawn] } [.listeners]
  | .packetListeners =>
      .next s (if s.status = .disconnected ∨ s.status = .authenticating then [] else [.listeners])
  | .handleBuiltInPacket packet => dispatchPacket ctx s packet
  | .handleLogin packet =>
      match LoginPacketCodec.decode packet.fullPacket with
      | .error _ => .next s [.disconnect "Server authentication error"]
      | .ok login => .next s [.listeners, .verifyLogin login]
  | .verifyLogin login => verifyLoginData ctx s login
  | .installKeys verifiedLogin =>
      if s.attached then installSessionKeys ctx s verifiedLogin else .next s []
  | .enableEncryption verifiedLogin =>
      .next s (if s.hasWritablePlayer then [.startEncryption verifiedLogin] else [])
  | .startEncryption verifiedLogin =>
      .next { s with encryptionEnabled := true, sendCounter := 0 }
        [.listeners, .publishLogin verifiedLogin]
  | .publishLogin verifiedLogin =>
      .next s (if s.hasWritablePlayer then [.storeLogin verifiedLogin] else [])
  | .storeLogin verifiedLogin =>
      .next { s with loginVerification := some verifiedLogin } [.listeners]
  | .loginNetworkSettings =>
      .next s (if s.attached && !s.networkSettingsSent && ctx.hasPacket "network_settings" then
        sendNetworkSettings s.compressor false else [])
  | .sendEmptyResourcePacksInfo =>
      .next s (if s.attached then
        [sendDefault "resource_packs_info" resourcePacksInfoValue, .markResourcePacksInfo] else [])
  | .markResourcePacksInfo =>
      if s.attached then .next { s with resourcePacksInfoSent := true } [] else .next s []
  | .handleResourcePackClientResponse packet =>
      .next s (if s.attached then answerResourcePacks ctx s packet else [])
  | .markResourcePackStack =>
      if s.hasActivePlayer then .next { s with resourcePackStackSent := true } [] else .next s []
  | .updateItemPalette palette =>
      if s.attached then
        match ctx.updateItemPaletteVariables s.protoDefVariables palette with
        | .error _ => .throws s
        | .ok protoDefVariables => .next { s with protoDefVariables } []
      else .throws s
  | .setCompressor algorithm level threshold =>
      if algorithm = "none" then
        .next { s with compressor := { s.compressor with
          compressionAlgorithm := "none"
          compressionLevel := 0 } } []
      else if algorithm = "deflate" ∨ algorithm = "snappy" then
        .next { s with compressor := ⟨algorithm, level, threshold⟩ } []
      else .throws s

/-! ## Threads -/

/-- What is left of a thread when an exception reaches the application: the
scopes of the outbound mutex that it leaves on the way. -/
def unwind : List Instr → List Instr
  | [] => []
  | .listeners :: rest => .listeners :: rest
  | .unlock :: rest => .unlock :: unwind rest
  | _ :: rest => unwind rest

structure State (σ ν : Type) where
  session : Session σ ν
  todo : ℕ → List Instr

/-- The RakNet worker. -/
def worker : ℕ := 0

inductive Label
  /-- The worker takes the next packet of an inbound batch. -/
  | receive (packet : VersionedGamePacket)
  /-- A packet of the batch cannot be decoded. -/
  | undecodable
  /-- An encrypted payload has a wrong checksum. -/
  | wrongChecksum
  /-- The native transport reports the peer closed. -/
  | peerClosed
  /-- The endpoint is opened again, under the same GUID, or the session opened
  then changes. -/
  | reopened (writable : Bool)
  /-- The application calls a method on thread `t`, or a scheduler does. -/
  | call (t : ℕ) (call : Call)
  /-- Thread `t` runs its next instruction. -/
  | exec (t : ℕ)
  /-- A listener on thread `t` throws. -/
  | throwing (t : ℕ)

def State.setTodo (s : State σ ν) (t : ℕ) (instrs : List Instr) : State σ ν :=
  { s with todo := Function.update s.todo t instrs }

/-- Thread `t` is in code of the application. -/
def inApplication (t : ℕ) : List Instr → Bool
  | [] => t ≠ worker
  | .listeners :: _ => true
  | _ :: _ => false

/-- A label that is not possible changes nothing. -/
def step (s : State σ ν) : Label → State σ ν
  | .receive packet =>
      if (s.todo worker).isEmpty && s.session.hasActivePlayer then
        s.setTodo worker [.handleBuiltInPacket packet]
      else s
  | .undecodable =>
      if (s.todo worker).isEmpty then s.setTodo worker [.disconnect "Server error"] else s
  | .wrongChecksum =>
      if (s.todo worker).isEmpty then s.setTodo worker [.listeners, .badPacket] else s
  | .peerClosed =>
      if (s.todo worker).isEmpty then s.setTodo worker [.handlePeerClosed] else s
  | .reopened writable => { s with session := { s.session with successorWritable := writable } }
  | .call t call =>
      if inApplication t (s.todo t) then s.setTodo t (call.body ++ s.todo t) else s
  | .exec t =>
      match s.todo t with
      | [] => s
      | instr :: rest =>
          match perform ctx t s.session instr with
          | .waits => s
          | .next session instrs => State.setTodo { s with session } t (instrs ++ rest)
          | .throws session => State.setTodo { s with session } t (unwind rest)
  | .throwing t =>
      match s.todo t with
      | .listeners :: rest => s.setTodo t (unwind rest)
      | _ => s

/-- A session that was just opened; the connect listeners run on the worker. -/
def opened (compressor : CompressorOptions) (protoDefVariables : ν) : State σ ν where
  session := {
    outboundMutex := .free
    encryptionKeys := ⟨[], []⟩
    encryptStream := none
    hasEncryptionKeys := false
    encryptionEnabled := false
    compressionReady := false
    networkSettingsSent := false
    resourcePacksInfoSent := false
    resourcePackStackSent := false
    loginVerification := none
    status := .authenticating
    compressionLevel := compressor.compressionLevel
    sendCounter := 0
    protoDefVariables
    queuedPackets := []
    compressor
    attached := true
    closed := false
    successorWritable := false
    wire := []
    events := [] }
  todo := Function.update (fun _ ↦ []) worker [.listeners]

end Semantics

end BedrockServer

end BedrockProtocol
