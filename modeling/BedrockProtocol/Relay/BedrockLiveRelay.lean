import BedrockProtocol.Lib.Interleaving
import BedrockProtocol.Relay.BedrockRelay

/-!
# A session of the live relay

`BedrockLiveRelay.cpp` as far as it keeps the state of one session: login, join,
packets of either side, the callbacks of the upstream client, and every way to
end the session.  A thread runs them in pieces, one critical section of
`Session::mutex` at a time; the forwarding functions are inside
`handlerDispatchMutex_` all the while.  Where callbacks and handlers run, the
application may call the relay.
-/

namespace BedrockProtocol.BedrockLiveRelay

/-! ## The state of a session -/

inductive RelaySessionLifecycle
  | opened
  | resetting
  | closing
  | closed
  deriving DecidableEq, Repr

inductive RelayDownstreamPhase
  | negotiating
  | game
  | closed
  deriving DecidableEq, Repr

inductive RelayUpstreamPhase
  | idle
  | negotiating
  | game
  | closed
  deriving DecidableEq, Repr

/-- Upstream clients are numbered in the order in which they are made. -/
structure Session where
  upstream : Option ℕ := none
  pendingServerbound : List VersionedGamePacket := []
  pendingPostSpawnServerbound : List VersionedGamePacket := []
  pendingClientbound : List VersionedGamePacket := []
  heldClientboundLevelChunks : List VersionedGamePacket := []
  /-- In milliseconds. -/
  clientboundChunkReleaseAt : ℤ := 0
  lifecycle : RelaySessionLifecycle := .opened
  downstreamPhase : RelayDownstreamPhase := .negotiating
  upstreamPhase : RelayUpstreamPhase := .idle
  clientboundStartGameSent : Bool := false
  clientboundPlayerSpawnSeen : Bool := false
  upstreamDisconnectRequested : Bool := false
  deriving DecidableEq

namespace Session

variable (session : Session)

/-- `relaySessionAcceptsPackets`. -/
def acceptsPackets : Bool := session.lifecycle = .opened

/-- `relaySessionIsClosing`. -/
def isClosing : Bool := session.lifecycle = .closing ∨ session.lifecycle = .closed

/-- `relayUpstreamStarted`. -/
def upstreamStarted : Bool := session.upstreamPhase = .negotiating ∨ session.upstreamPhase = .game

/-- `relayUpstreamReady`. -/
def upstreamReady : Bool := session.upstreamPhase = .game

end Session

structure BedrockLiveRelayOptions where
  forwardServerbound : Bool := true
  forwardClientbound : Bool := true
  skipClientboundLoginSuccess : Bool := true
  skipClientboundResourcePacks : Bool := false
  queueClientboundLevelChunksUntilStartGame : Bool := true
  /-- The packet that stands for every `client_cache_status`. -/
  clientCacheStatus : VersionedGamePacket
  clientCacheStatus_name : clientCacheStatus.name = "client_cache_status"

/-- A packet that an upstream client got: to be sent at once, or with the next
batch. -/
structure Sent where
  upstream : ℕ
  packet : VersionedGamePacket
  immediate : Bool
  deriving DecidableEq

/-- What the threads share.  The counter is the part of `finalSessionResetCount_`
that is due to the session. -/
structure Relay where
  session : Session := {}
  handlerDispatchMutex : RecursiveMutex := .free
  /-- `sessions_` has the session. -/
  registered : Bool := true
  closed : Bool := false
  finalSessionResetCount : ℕ := 0
  clients : ℕ := 0
  /-- What was queued for the player. -/
  queuedDownstream : List VersionedGamePacket := []
  /-- What was given to upstream clients. -/
  sentUpstream : List Sent := []

/-! ## Kinds of packets -/

def isDownstreamHandshakePacket (name : String) : Bool :=
  name = "request_network_settings" ∨ name = "login" ∨ name = "client_to_server_handshake"

def isClientboundHandshakePacket (name : String) : Bool :=
  name = "network_settings" ∨ name = "server_to_client_handshake"

def isClientboundResourcePackPacket (name : String) : Bool :=
  name = "resource_packs_info" ∨ name = "resource_pack_stack" ∨
    name = "resource_pack_data_info" ∨ name = "resource_pack_chunk_data"

/-- `readPlayStatus`: the first four bytes, big-endian. -/
def playStatus (packet : VersionedGamePacket) : Option ℕ :=
  if packet.name ≠ "play_status" ∨ packet.payload.length < 4 then none
  else some (leValue (packet.payload.take 4).reverse)

def isPlayStatusLoginSuccess (packet : VersionedGamePacket) : Bool := playStatus packet = some 0

def isPlayStatusPlayerSpawn (packet : VersionedGamePacket) : Bool := playStatus packet = some 3

/-! ## Instructions -/

inductive Instr
  /-- Callbacks run: code of the application, which may call the relay. -/
  | application
  | lockDispatch
  | unlockDispatch
  /-- `findSession`, and what is done if there is one. -/
  | findSession (found : Instr)
  /-- The `onLogin` callback. -/
  | login
  | reset (retainDownstream : Bool)
  | closeUpstream (upstream : ℕ)
  | finishReset (retainDownstream : Bool) (upstream : Option ℕ)
  | removeSession
  | startUpstream
  | resolveUpstreamRealm
  | realmFailed
  | checkClosed
  | closeUpstreamPhase
  | keepUpstreamOptions
  | publishUpstream
  /-- The callbacks of an upstream client. -/
  | upstreamError (upstream : ℕ)
  | upstreamClosed (upstream : ℕ)
  | upstreamFailed (upstream : ℕ)
  | upstreamJoin (upstream : ℕ)
  | writeCacheStatus (upstream : ℕ)
  | flushServerbound (upstream : ℕ)
  | finishUpstreamJoin (upstream : ℕ)
  | upstreamPacket (upstream : ℕ) (packet : VersionedGamePacket)
  | disconnectUnlessClosed
  | handleUpstreamPacket (packet : VersionedGamePacket)
  | handleDownstreamPacket (packet : VersionedGamePacket)
  /-- `applyHandlers`: the check before the handlers, the handlers, and the check
  after them. -/
  | enterHandlers (direction : BedrockRelayDirection) (packet : VersionedGamePacket)
  | handlers (direction : BedrockRelayDirection) (packet : VersionedGamePacket)
  | leaveHandlers (direction : BedrockRelayDirection) (packet : VersionedGamePacket)
      (packets : List VersionedGamePacket)
  | deliver (direction : BedrockRelayDirection) (packet : VersionedGamePacket)
      (packets : List VersionedGamePacket)
  /-- The loop of `handleDownstreamPacket`. -/
  | candidates (packets : List VersionedGamePacket)
  | routeServerbound (packet : VersionedGamePacket) (candidates : List VersionedGamePacket)
  | parkServerbound (packet : VersionedGamePacket)
  | forwardServerbound (packet : VersionedGamePacket) (immediate : Bool)
  | sendUpstream (upstream : ℕ) (packet : VersionedGamePacket) (immediate : Bool)
  /-- The part of `handleUpstreamPacket` after the loop. -/
  | playerSpawned
  | handleDownstreamJoin
  | flushClientbound
  | forwardClientbound (packet : VersionedGamePacket)
  | queuePacket (packet : VersionedGamePacket) (heldChunks : List VersionedGamePacket)
  | queuePackets (heldChunks : List VersionedGamePacket)
  | closeUpstreamConnection
  | close
  | closeSessions
  | clearSessions

/-- What the outside answers to an instruction: the clock, the packets that the
handlers leave, and whether a call fails. -/
structure Answer where
  now : ℤ := 0
  packets : List VersionedGamePacket := []
  fails : Bool := false

/-- `forwardServerbound` takes the mutex first. -/
def forwardServerboundCall (immediate : Bool) (packet : VersionedGamePacket) : List Instr :=
  [.lockDispatch, .forwardServerbound packet immediate, .unlockDispatch]

def forwardClientboundCall (packet : VersionedGamePacket) : List Instr :=
  [.lockDispatch, .forwardClientbound packet, .unlockDispatch]

def applyHandlersCall (direction : BedrockRelayDirection) (packet : VersionedGamePacket) :
    List Instr :=
  [.lockDispatch, .enterHandlers direction packet]

namespace Session

variable (session : Session)

/-- The first critical section of `resetRelaySession`, if the session can be
reset. -/
def reset (retainDownstream : Bool) : Option Session :=
  let cleared : Session :=
    { session with
      upstreamPhase := .closed
      upstreamDisconnectRequested := true
      pendingServerbound := []
      pendingPostSpawnServerbound := []
      pendingClientbound := []
      heldClientboundLevelChunks := []
      clientboundChunkReleaseAt := 0
      clientboundStartGameSent := false
      clientboundPlayerSpawnSeen := false }
  if retainDownstream then
    if session.lifecycle ≠ .opened then none else some { cleared with lifecycle := .resetting }
  else if session.isClosing then none
  else some { cleared with lifecycle := .closing, downstreamPhase := .closed }

/-- The second one. -/
def finishReset (retainDownstream : Bool) (upstream : Option ℕ) : Session :=
  let session :=
    if session.upstream = upstream then { session with upstream := none } else session
  if retainDownstream ∧ session.lifecycle = .resetting then
    { session with
      lifecycle := .opened, upstreamPhase := .idle, upstreamDisconnectRequested := false }
  else if !retainDownstream ∧ session.lifecycle = .closing then
    { session with lifecycle := .closed }
  else session

/-- The first critical section of `forwardClientbound`, and the held chunks to be
queued after the packet if it gets that far. -/
def routeClientbound (options : BedrockLiveRelayOptions) (now : ℤ) (packet : VersionedGamePacket) :
    Session × Option (List VersionedGamePacket) :=
  if !session.acceptsPackets then (session, none)
  else if session.downstreamPhase ≠ .game then
    ({ session with pendingClientbound := session.pendingClientbound ++ [packet] }, none)
  else if options.queueClientboundLevelChunksUntilStartGame ∧ packet.name = "level_chunk" ∧
      (session.clientboundStartGameSent = false ∨ now < session.clientboundChunkReleaseAt) then
    ({ session with
      heldClientboundLevelChunks := session.heldClientboundLevelChunks ++ [packet] }, none)
  else
    let session :=
      if packet.name = "start_game" then
        { session with clientboundStartGameSent := true, clientboundChunkReleaseAt := now + 500 }
      else session
    if session.clientboundStartGameSent ∧ session.clientboundChunkReleaseAt ≤ now then
      ({ session with heldClientboundLevelChunks := [] }, some session.heldClientboundLevelChunks)
    else (session, some [])

/-- `queuePacket` and `queuePackets` are called only then. -/
def acceptsClientbound : Bool := session.acceptsPackets ∧ session.downstreamPhase = .game

end Session

variable (options : BedrockLiveRelayOptions)

/-- Packets that handlers get to see. -/
def passesUpstreamFilter (packet : VersionedGamePacket) : Bool :=
  !isClientboundHandshakePacket packet.name &&
    !(options.skipClientboundLoginSuccess && isPlayStatusLoginSuccess packet) &&
    !(options.skipClientboundResourcePacks && isClientboundResourcePackPacket packet.name) &&
    options.forwardClientbound

def passesDownstreamFilter (packet : VersionedGamePacket) : Bool :=
  options.forwardServerbound && !isDownstreamHandshakePacket packet.name

/-- One instruction of thread `t`, and what follows it; `none` if the thread has
to wait.  Every instruction but those of the mutex is one critical section. -/
def perform (answer : Answer) (t : ℕ) (s : Relay) : Instr → Option (Relay × List Instr)
  | .application => some (s, [])
  | .lockDispatch =>
      (s.handlerDispatchMutex.lock t).map fun handlerDispatchMutex ↦
        ({ s with handlerDispatchMutex }, [])
  | .unlockDispatch =>
      some ({ s with handlerDispatchMutex := s.handlerDispatchMutex.unlock }, [])
  | .findSession found => some (s, if s.registered then [found] else [])
  | .login =>
      let alreadyStarted := s.session.upstreamStarted || s.session.upstream.isSome
      some ({ s with session := { s.session with downstreamPhase := .negotiating } },
        if alreadyStarted then [.reset true, .startUpstream] else [.startUpstream])
  | .reset retainDownstream =>
      match s.session.reset retainDownstream with
      | none => some (s, [])
      | some session =>
          some ({ s with
              session
              finalSessionResetCount :=
                if retainDownstream then s.finalSessionResetCount else s.finalSessionResetCount + 1 },
            [.lockDispatch, .unlockDispatch] ++ s.session.upstream.toList.map .closeUpstream ++
              [.finishReset retainDownstream s.session.upstream])
  | .closeUpstream upstream => some (s, [.upstreamClosed upstream])
  | .finishReset retainDownstream upstream =>
      some ({ s with session := s.session.finishReset retainDownstream upstream }, [])
  | .removeSession =>
      some ({ s with registered := false }, if s.registered then [.reset false] else [])
  | .startUpstream =>
      if !s.session.acceptsPackets || s.session.upstreamStarted then some (s, [])
      else
        some ({ s with session := { s.session with upstreamPhase := .negotiating } },
          [.application, .resolveUpstreamRealm])
  | .resolveUpstreamRealm => some (s, if answer.fails then [.realmFailed] else [.checkClosed])
  | .realmFailed =>
      some ({ s with
          session :=
            if s.session.acceptsPackets then { s.session with upstreamPhase := .idle }
            else s.session },
        [.application])
  | .checkClosed =>
      some (s, if s.closed then [.closeUpstreamPhase] else [.keepUpstreamOptions])
  | .closeUpstreamPhase =>
      some ({ s with session := { s.session with upstreamPhase := .closed } }, [])
  | .keepUpstreamOptions =>
      if s.session.acceptsPackets then some (s, [.publishUpstream])
      else some ({ s with session := { s.session with upstreamPhase := .closed } }, [])
  | .publishUpstream =>
      if s.session.acceptsPackets then
        some ({ s with
          session := { s.session with upstream := some s.clients }, clients := s.clients + 1 }, [])
      else
        some ({ s with
          session := { s.session with upstreamPhase := .closed }, clients := s.clients + 1 }, [])
  | .upstreamError upstream =>
      if s.session.acceptsPackets ∧ s.session.upstream = some upstream ∧
          s.session.upstreamDisconnectRequested = false then
        some ({ s with session := { s.session with upstreamDisconnectRequested := true } },
          [.disconnectUnlessClosed])
      else some (s, [])
  | .upstreamClosed upstream =>
      let active := s.session.acceptsPackets && s.session.upstream = some upstream
      let requestDisconnect := active && !s.session.upstreamDisconnectRequested
      let session := if active then { s.session with upstreamPhase := .idle } else s.session
      if requestDisconnect then
        some ({ s with session := { session with upstreamDisconnectRequested := true } },
          [.disconnectUnlessClosed])
      else some ({ s with session }, [])
  | .upstreamFailed upstream =>
      some (s, if s.session.acceptsPackets ∧ s.session.upstream = some upstream then
        [.disconnectUnlessClosed] else [])
  | .disconnectUnlessClosed =>
      some (s, if s.closed then [] else [.application, .findSession (.reset false)])
  | .upstreamJoin upstream =>
      some (s, if s.session.acceptsPackets ∧ s.session.upstream = some upstream ∧
          s.session.upstreamPhase = .negotiating then
        [.writeCacheStatus upstream, .flushServerbound upstream] else [])
  | .writeCacheStatus upstream =>
      if answer.fails then some (s, [.application])
      else
        some ({ s with
          sentUpstream := s.sentUpstream ++ [⟨upstream, options.clientCacheStatus, true⟩] }, [])
  | .flushServerbound upstream =>
      if s.session.acceptsPackets ∧ s.session.upstream = some upstream then
        some ({ s with
            session := { s.session with upstreamPhase := .game, pendingServerbound := [] } },
          s.session.pendingServerbound.flatMap (forwardServerboundCall true) ++
            [.finishUpstreamJoin upstream])
      else some (s, [])
  | .finishUpstreamJoin upstream =>
      some (s, if s.session.acceptsPackets ∧ s.session.upstreamReady ∧
          s.session.upstream = some upstream then
        [.lockDispatch, .application, .unlockDispatch] else [])
  | .upstreamPacket upstream packet =>
      some (s, if s.session.acceptsPackets ∧ s.session.upstream = some upstream then
        [.handleUpstreamPacket packet] else [])
  | .handleUpstreamPacket packet =>
      some (s, if s.session.acceptsPackets ∧ passesUpstreamFilter options packet then
        applyHandlersCall .clientbound packet else [])
  | .handleDownstreamPacket packet =>
      some (s, if s.session.acceptsPackets ∧ passesDownstreamFilter options packet then
        applyHandlersCall .serverbound packet else [])
  | .enterHandlers direction packet =>
      some (s, if s.session.acceptsPackets then [.handlers direction packet]
        else [.unlockDispatch, .deliver direction packet []])
  | .handlers direction packet => some (s, [.leaveHandlers direction packet answer.packets])
  | .leaveHandlers direction packet packets =>
      some (s, [.unlockDispatch,
        .deliver direction packet (if s.session.acceptsPackets then packets else [])])
  | .deliver .clientbound packet packets =>
      some (s, packets.flatMap forwardClientboundCall ++
        if isPlayStatusPlayerSpawn packet then [.playerSpawned] else [])
  | .deliver .serverbound _ packets => some (s, [.candidates packets])
  | .candidates [] => some (s, [])
  | .candidates (packet :: packets) =>
      if packet.name = "client_cache_status" then
        some (s, if s.session.acceptsPackets ∧ s.session.upstream.isSome ∧
            s.session.upstreamReady then
          forwardServerboundCall false options.clientCacheStatus ++ [.candidates packets]
          else [.candidates packets])
      else if packet.name = "request_chunk_radius" then
        if !s.session.acceptsPackets then some (s, [])
        else if !s.session.clientboundPlayerSpawnSeen then
          some ({ s with
              session := { s.session with
                pendingPostSpawnServerbound :=
                  s.session.pendingPostSpawnServerbound ++ [packet] } },
            [.candidates packets])
        else some (s, [.routeServerbound packet packets])
      else some (s, [.routeServerbound packet packets])
  | .routeServerbound packet packets =>
      some (s, if !s.session.acceptsPackets then []
        else if s.session.upstream.isSome ∧ s.session.upstreamReady then
          forwardServerboundCall false packet ++ [.candidates packets]
        else [.parkServerbound packet, .candidates packets])
  | .parkServerbound packet =>
      some ({ s with
        session :=
          if s.session.acceptsPackets then
            { s.session with pendingServerbound := s.session.pendingServerbound ++ [packet] }
          else s.session }, [])
  | .forwardServerbound packet immediate =>
      if !s.session.acceptsPackets then some (s, [])
      else
        match s.session.upstream.filter fun _ ↦ s.session.upstreamReady with
        | none =>
            some ({ s with
              session := { s.session with
                pendingServerbound := s.session.pendingServerbound ++ [packet] } }, [])
        | some upstream => some (s, [.sendUpstream upstream packet immediate])
  | .sendUpstream upstream packet immediate =>
      some ({ s with sentUpstream := s.sentUpstream ++ [⟨upstream, packet, immediate⟩] }, [])
  | .playerSpawned =>
      if !s.session.acceptsPackets then some (s, [])
      else
        some ({ s with
            session := { s.session with
              clientboundPlayerSpawnSeen := true, pendingPostSpawnServerbound := [] } },
          s.session.pendingPostSpawnServerbound.flatMap (forwardServerboundCall false))
  | .handleDownstreamJoin =>
      if !s.session.acceptsPackets then some (s, [])
      else
        some ({ s with session := { s.session with downstreamPhase := .game } },
          [.application, .flushClientbound])
  | .flushClientbound =>
      some ({ s with session := { s.session with pendingClientbound := [] } },
        s.session.pendingClientbound.flatMap forwardClientboundCall)
  | .forwardClientbound packet =>
      let (session, heldChunks) := s.session.routeClientbound options answer.now packet
      some ({ s with session }, heldChunks.toList.map (.queuePacket packet))
  | .queuePacket packet heldChunks =>
      if s.session.acceptsClientbound then
        some ({ s with queuedDownstream := s.queuedDownstream ++ [packet] },
          if heldChunks = [] then [] else [.queuePackets heldChunks])
      else some (s, [])
  | .queuePackets heldChunks =>
      some ({ s with
        queuedDownstream :=
          if s.session.acceptsClientbound then s.queuedDownstream ++ heldChunks
          else s.queuedDownstream }, [])
  | .closeUpstreamConnection =>
      some (s, if s.session.upstream.isSome then [.reset false] else [])
  | .close =>
      some ({ s with closed := true }, if s.closed then [] else [.closeSessions])
  | .closeSessions =>
      some (s, if s.registered then [.reset false, .clearSessions] else [.clearSessions])
  | .clearSessions => some ({ s with registered := false }, [])

/-! ## Runs -/

/-- What other code calls. -/
inductive Call
  | login
  | downstreamJoin
  | downstreamPacket (packet : VersionedGamePacket)
  | downstreamDisconnected
  | upstreamPacket (upstream : ℕ) (packet : VersionedGamePacket)
  | upstreamJoin (upstream : ℕ)
  | upstreamClosed (upstream : ℕ)
  | upstreamError (upstream : ℕ)
  | upstreamFailed (upstream : ℕ)
  | disconnectDownstream
  | closeUpstreamConnection
  | close

def Call.body : Call → List Instr
  | .login => [.findSession .login]
  | .downstreamJoin => [.handleDownstreamJoin]
  | .downstreamPacket packet => [.findSession (.handleDownstreamPacket packet)]
  | .downstreamDisconnected => [.findSession .removeSession]
  | .upstreamPacket upstream packet => [.upstreamPacket upstream packet]
  | .upstreamJoin upstream => [.upstreamJoin upstream]
  | .upstreamClosed upstream => [.upstreamClosed upstream]
  | .upstreamError upstream => [.upstreamError upstream]
  | .upstreamFailed upstream => [.upstreamFailed upstream]
  | .disconnectDownstream => [.findSession (.reset false)]
  | .closeUpstreamConnection => [.findSession .closeUpstreamConnection]
  | .close => [.close]

abbrev State := Threads Relay Instr

inductive Label
  /-- Thread `t` calls the relay, from its own loop or from the application. -/
  | call (t : ℕ) (call : Call)
  /-- Thread `t` runs its next instruction. -/
  | exec (t : ℕ) (answer : Answer)
  /-- Code of the application on thread `t` throws; the mutex is unlocked on the
  way out. -/
  | throwing (t : ℕ)

/-- Thread `t` is in code of the application. -/
def inApplication : List Instr → Bool
  | [] => true
  | .application :: _ => true
  | .handlers _ _ :: _ => true
  | _ => false

/-- What is left to run of an instruction that an exception passes. -/
def Instr.unwind : Instr → List Instr
  | .unlockDispatch => [.unlockDispatch]
  | .handlers _ _ => [.unlockDispatch]
  | _ => []

/-- A label that is not possible changes nothing. -/
def step (s : State) : Label → State
  | .call t call => if inApplication (s.todo t) then s.call t call.body else s
  | .exec t answer => s.exec (perform options answer) t
  | .throwing t =>
      if inApplication (s.todo t) then s.resume t s.shared ((s.todo t).flatMap Instr.unwind)
      else s

/-- The session that the `onConnect` callback makes. -/
def connected : State where
  shared := {}
  todo := fun _ ↦ []

end BedrockProtocol.BedrockLiveRelay
