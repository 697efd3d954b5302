import BedrockProtocol.Server.BedrockServer

/-!
# The outgoing queue of the client

The part of `BedrockNetworkClient.cpp` that queues, sends and closes.  The
application and the RakNet worker call the public methods, and so do listeners and
the transport on whatever thread they run; `startQueue` creates threads that run
`queueLoop`.

A thread is a list of instructions that are still to run, each the body of one
critical section.  Waiting for a condition variable is an instruction that does
not run before its predicate holds.  `sendMutex_` and `queueLifecycleMutex_` are
explicit, because other code runs while they are held.

Left out are the exits where the lifetime provider returns null, and of `connect` the
call of `resetLifecycle`, which puts `compressionReady_` back, and the reset of
`raknet_`.  `tick_` is an `int64_t` in the code and an integer here.
-/

namespace BedrockProtocol

inductive BedrockNetworkClientStatus
  | disconnected
  | connecting
  | authenticating
  | initializing
  | initialized
  deriving DecidableEq, Repr

namespace BedrockNetworkClient

/-- The options that queueing and sending read. -/
structure QueueOptions where
  version : String
  protocolVersion : ℕ
  compressionLevel : ℤ
  batchingIntervalMs : ℤ
  chunkRadius : ℤ

/-- The configuration, and the code outside this file: OpenSSL and zlib, and the
ProtoDef codec over the client's variables. -/
structure Context (σ ν : Type) where
  options : QueueOptions
  mcpeCodec : VersionedMcpeCodec
  evp : Evp σ
  sha256 : List UInt8 → List UInt8
  zlib : Zlib
  encodePacket : ν → String → ProtoDefValue → Except String (List UInt8)
  decodePacket : ν → VersionedGamePacket → Except String ν

/-- `callbackThread` is the thread of a RakNet worker. -/
inductive ThreadId
  | caller (n : ℕ)
  | callbackThread (n : ℕ)
  | pump (n : ℕ)
  deriving DecidableEq, Repr

inductive CloseOrigin
  | publicClose
  | transport
  deriving DecidableEq, Repr

/-- A payload that was handed to the transport, with the packets that it carries;
`queued` tells whether they come from the queue. -/
structure SentPayload where
  packets : List VersionedGamePacket
  queued : Bool
  payload : List UInt8

structure Shared (σ ν : Type) where
  closing : Bool
  closingThreadId : Option ThreadId
  closingDepth : ℕ
  closingCommitted : Bool
  rakNetStopRequested : Bool
  status : BedrockNetworkClientStatus
  queuedPackets : List VersionedGamePacket
  stopQueue : Bool
  queuePumpRequested : Bool
  queuePumpEnabled : Bool
  queuePumpInFlight : Bool
  queuePumpResumeDue : Option ℕ
  chunkRadiusDue : Option ℕ
  keepAliveDue : Option ℕ
  tick : ℤ
  queueLifecycleMutex : Option ThreadId
  /-- The joinable queue thread. -/
  queueThread : Option ℕ
  /-- How many queue threads were created, and which of them returned. -/
  pumps : ℕ
  finishedPumps : List ℕ
  sendMutex : Option ThreadId
  raknet : Bool
  reliableSendOverride : Bool
  encryptionEnabled : Bool
  encryptStream : Option (BedrockCipherStream σ)
  secretKeyBytes : List UInt8
  sendCounter : ℕ
  compressionReady : Bool
  compressionAlgorithm : String
  compressionThreshold : ℕ
  protoDefVariables : ν
  /-- What was handed to the transport, in order. -/
  sent : List SentPayload
  /-- An exception left a queue thread. -/
  terminated : Bool

/-! ## Instructions -/

inductive Instr
  /-- Code of the application or of the transport runs. -/
  | listeners
  | encodeQueued (packetName : String) (value : ProtoDefValue)
  | enqueue (packet : VersionedGamePacket)
  | decodeBuffer (buffer : List UInt8) (immediate : Bool)
  | encode (packetName : String) (value : ProtoDefValue)
  | takeQueued
  | decodePacket (packet : VersionedGamePacket)
  | lockSend
  | sendPacketsLocked (packets : List VersionedGamePacket) (queued : Bool)
  | unlockSend
  | startEncryption (keys : DerivedKeyResult) (handshake : VersionedGamePacket)
  | enableEncryption (keys : DerivedKeyResult)
  | networkSettings (algorithm : String) (threshold : ℕ)
  | installTransport
  | admitClose (closeTransport : Bool) (origin : CloseOrigin)
  /-- The two halves of `pauseQueuePump`. -/
  | pauseQueuePump
  | awaitPump
  | closeListeners
  | requestRakNetStop
  | commitClose
  | moveTransport (closeTransport : Bool)
  | storeStatus (status : BedrockNetworkClientStatus)
  | closingReset (closeCommitted : Bool)
  | lockLifecycle
  | unlockLifecycle
  | stopQueueIfRunning
  | stopQueueLocked (preserveRollbackDeadline : Bool)
  | joinPump
  | startQueue (pumpEnabled allowAfterTransportStop : Bool)
  | armPump (pumpEnabled allowAfterTransportStop : Bool)
  | spawnPump
  | resumeQueuePump
  | armChunkRadius
  | armKeepAlive
  | storeTick (responseTime : ℤ)
  | runPump (n : ℕ)
  /-- One turn of the loop of `queueLoop`. -/
  | queueLoop (nextTick : ℕ)
  | pumpSent
  | exitPump (n : ℕ)
  | terminate
  deriving Inhabited

/-! ## Methods as instruction lists -/

/-- Outbound `start_game` and `item_registry` update the variables. -/
def isDecodedWhenSent (packet : VersionedGamePacket) : Bool :=
  packet.name = "start_game" || packet.name = "item_registry"

def sendPackets (packets : List VersionedGamePacket) (queued : Bool) : List Instr :=
  (packets.filter isDecodedWhenSent).map .decodePacket ++
    [.lockSend, .sendPacketsLocked packets queued, .unlockSend]

def stopQueue : List Instr := [.lockLifecycle, .stopQueueLocked false, .joinPump, .unlockLifecycle]

/-- Status listeners run before the status is stored. -/
def setStatus (status : BedrockNetworkClientStatus) : List Instr :=
  [.listeners, .storeStatus status]

/-- `emitClose` once it holds the latch. -/
def closeFrame (closeTransport : Bool) : List Instr :=
  [.pauseQueuePump, .awaitPump, .closeListeners, .requestRakNetStop] ++ stopQueue ++
    [.commitClose, .moveTransport closeTransport] ++ setStatus .disconnected ++
    [.closingReset true]

/-- The public methods, and what the handlers of inbound packets do to the queue. -/
inductive Call
  | queue (packetName : String) (value : ProtoDefValue)
  | sendBuffer (buffer : List UInt8) (immediate : Bool)
  | sendPackets (packets : List VersionedGamePacket)
  | send (packetName : String) (value : ProtoDefValue)
  | sendQueued
  | startQueue (pumpEnabled allowAfterTransportStop : Bool)
  | resumeQueuePump
  | stopQueue
  | stopQueueIfRunning
  | emitClose (closeTransport : Bool) (origin : CloseOrigin)
  | requestRakNetStop
  | setStatus (status : BedrockNetworkClientStatus)
  | installTransport
  | networkSettings (algorithm : String) (threshold : ℕ)
  | startEncryption (keys : DerivedKeyResult) (handshake : VersionedGamePacket)
  | decodePacket (packet : VersionedGamePacket)
  | armChunkRadius
  | armKeepAlive
  | storeTick (responseTime : ℤ)

def Call.body : Call → List Instr
  | .queue packetName value => [.encodeQueued packetName value]
  | .sendBuffer buffer immediate => [.decodeBuffer buffer immediate]
  | .sendPackets packets => BedrockNetworkClient.sendPackets packets false
  | .send packetName value => [.encode packetName value]
  | .sendQueued => [.takeQueued]
  | .startQueue pumpEnabled allowAfterTransportStop =>
      [.lockLifecycle, .startQueue pumpEnabled allowAfterTransportStop, .unlockLifecycle]
  | .resumeQueuePump => [.resumeQueuePump]
  | .stopQueue => BedrockNetworkClient.stopQueue
  | .stopQueueIfRunning => [.lockLifecycle, .stopQueueIfRunning, .unlockLifecycle]
  | .emitClose closeTransport origin => [.admitClose closeTransport origin]
  | .requestRakNetStop => [.requestRakNetStop]
  | .setStatus status => BedrockNetworkClient.setStatus status
  | .installTransport => [.installTransport]
  | .networkSettings algorithm threshold => [.networkSettings algorithm threshold]
  | .startEncryption keys handshake => [.startEncryption keys handshake]
  | .decodePacket packet => [.decodePacket packet]
  | .armChunkRadius => [.armChunkRadius]
  | .armKeepAlive => [.armKeepAlive]
  | .storeTick responseTime => [.storeTick responseTime]

/-! ## Running one instruction -/

section Semantics

variable {σ ν : Type} (ctx : Context σ ν)

/-- An instruction waits, goes on with further instructions, or throws. -/
inductive Action (σ ν : Type)
  | waits
  | next (shared : Shared σ ν) (instrs : List Instr)
  | throws (shared : Shared σ ν)

/-- The interval of the pump in milliseconds. -/
def Context.interval : ℕ :=
  if 0 < ctx.options.batchingIntervalMs then ctx.options.batchingIntervalMs.toNat else 20

/-- `encodePacket`, then `makePacketByName`. -/
def makePacket (s : Shared σ ν) (packetName : String) (value : ProtoDefValue) :
    Except String VersionedGamePacket := do
  let payload ← ctx.encodePacket s.protoDefVariables packetName value
  VersionedPacketCodec.makePacketByName ctx.mcpeCodec.definition packetName payload

def choosePlainCompression (s : Shared σ ν) (packets : List VersionedGamePacket) :
    Except String VersionedMcpeCompression := do
  if s.compressionAlgorithm = "none" then return .uncompressed
  let modern ← if !s.compressionReady then versionAtLeast ctx.options.version 1 19 30
    else pure false
  if modern then return .uncompressed
  let framed ← VersionedBatchCodec.encodeFramedBatch packets
  if s.compressionThreshold < framed.length then
    return if s.compressionAlgorithm = "snappy" then .snappy else .deflateRaw
  return .uncompressed

/-- The two branches of `sendPacketsLocked` without encryption. -/
def plainPayload (s : Shared σ ν) (packets : List VersionedGamePacket) :
    Except String (List UInt8) :=
  if ctx.mcpeCodec.compressorInPacketHeader && !s.compressionReady then do
    let framed ← VersionedBatchCodec.encodeFramedBatch packets
    pure (0xfe :: framed)
  else do
    let compression ← choosePlainCompression ctx s packets
    VersionedMcpeCodec.encodeMcpePayload ctx.zlib ctx.mcpeCodec packets compression
      ctx.options.compressionLevel

/-- The payload of a batch, and the state that its encryption leaves. -/
def buildPayload (s : Shared σ ν) (packets : List VersionedGamePacket) :
    Except String (List UInt8) × Shared σ ν :=
  if s.encryptionEnabled then
    match s.encryptStream with
    | none => (.error "encrypt stream is not initialized", s)
    | some stream =>
        match VersionedMcpeCodec.encodeEncryptedCompressionPacket ctx.zlib ctx.mcpeCodec packets
            ctx.options.compressionLevel with
        | .error message => (.error message, s)
        | .ok compressionPacket =>
            -- the counter is taken before the cipher stream runs
            match BedrockEncryption.send ctx.sha256 ctx.evp s.secretKeyBytes
                ⟨stream, s.sendCounter⟩ compressionPacket with
            | .error message =>
                (.error message,
                  { s with sendCounter := BedrockEncryption.nextCounter s.sendCounter })
            | .ok (encryptedOnly, sender) =>
                (.ok (0xfe :: encryptedOnly),
                  { s with encryptStream := some sender.stream, sendCounter := sender.counter })
  else (plainPayload ctx s packets, s)

def sendPacketsLocked (s : Shared σ ν) (packets : List VersionedGamePacket) (queued : Bool) :
    Action σ ν :=
  if packets = [] ∨ (!s.raknet && !s.reliableSendOverride) then .next s []
  else
    match buildPayload ctx s packets with
    | (.error _, s) => .throws s
    | (.ok payload, s) => .next { s with sent := s.sent ++ [⟨packets, queued, payload⟩] } [.listeners]

def createCipherStream (keys : DerivedKeyResult) (mode : BedrockCipherMode) :
    Except String (BedrockCipherStream σ) :=
  BedrockEncryption.createCipherStream ctx.evp ctx.options.protocolVersion keys.secretKeyBytes
    keys.iv16 mode

def pushChunkRadius (now : ℕ) (s : Shared σ ν) : Except String (Shared σ ν) :=
  match s.chunkRadiusDue with
  | none => .ok s
  | some due =>
      if now < due then .ok s
      else do
        let packet ← makePacket ctx s "request_chunk_radius" (BedrockServer.objectOf [
          ("chunk_radius", .int ctx.options.chunkRadius),
          ("max_radius", .uint 0)])
        pure { s with queuedPackets := s.queuedPackets ++ [packet], chunkRadiusDue := none }

def pushKeepAlive (now : ℕ) (s : Shared σ ν) : Except String (Shared σ ν) :=
  match s.keepAliveDue with
  | none => .ok s
  | some due =>
      if now < due then .ok s
      else do
        let packet ← makePacket ctx s "tick_sync" (BedrockServer.objectOf [
          ("request_time", .int s.tick),
          ("response_time", .int 0)])
        pure { s with
          queuedPackets := s.queuedPackets ++ [packet]
          tick := s.tick + 10
          keepAliveDue := some (now + 500) }

/-- One turn of `queueLoop`. -/
def queueLoop (now : ℕ) (s : Shared σ ν) (nextTick : ℕ) : Action σ ν :=
  if s.stopQueue then .next s []
  else if !s.queuePumpEnabled then
    match s.queuePumpResumeDue with
    | none => .waits
    | some resumeDue =>
        if now < resumeDue then .waits
        else .next { s with
          queuePumpEnabled := s.queuePumpRequested && !s.closing
          queuePumpResumeDue := none } [.queueLoop nextTick]
  else if now < nextTick then .waits
  else
    match pushChunkRadius ctx now s >>= pushKeepAlive ctx now with
    | .error _ => .next s [.terminate]
    | .ok s => .next { s with queuedPackets := [], queuePumpInFlight := true }
        (sendPackets s.queuedPackets true ++ [.pumpSent, .queueLoop (now + ctx.interval)])

/-- The first critical section of `emitClose`. -/
def admitClose (t : ThreadId) (s : Shared σ ν) (closeTransport : Bool) (origin : CloseOrigin) :
    Action σ ν :=
  if origin = .transport ∧ s.closing ∧ s.closingThreadId = some t then .next s []
  else if origin = .transport ∧ s.closing then
    if s.closingCommitted then .next s [] else .waits
  else if s.closing ∧ s.closingThreadId = some t then
    .next { s with closingDepth := s.closingDepth + 1 } (closeFrame closeTransport)
  else if s.closing then .waits
  else
    .next { s with
      closing := true
      closingThreadId := some t
      closingDepth := 1
      closingCommitted := false } (closeFrame closeTransport)

/-- What `emitClose` does when it is left, normally or by an exception. -/
def closingReset (now : ℕ) (s : Shared σ ν) (closeCommitted : Bool) : Shared σ ν :=
  if s.closingDepth - 1 = 0 then
    { s with
      closingDepth := 0
      queuePumpEnabled :=
        if !closeCommitted && !s.closingCommitted then false else s.queuePumpEnabled
      queuePumpResumeDue :=
        if !closeCommitted && !s.closingCommitted then some (now + ctx.interval)
        else s.queuePumpResumeDue
      closingThreadId := none
      closing := false
      closingCommitted := false }
  else { s with closingDepth := s.closingDepth - 1 }

def stopQueueLocked (s : Shared σ ν) (preserveRollbackDeadline : Bool) : Shared σ ν :=
  { s with
    stopQueue := true
    queuePumpRequested := false
    queuePumpEnabled := false
    queuePumpResumeDue := if preserveRollbackDeadline then s.queuePumpResumeDue else none
    queuedPackets := []
    chunkRadiusDue := none
    keepAliveDue := none }

/-- The flags of `startQueue`. -/
def armPump (s : Shared σ ν) (pumpEnabled : Bool) : Shared σ ν :=
  { s with
    stopQueue := false
    queuePumpRequested := pumpEnabled
    queuePumpEnabled := pumpEnabled && !s.closing && s.queuePumpResumeDue.isNone
    queuePumpInFlight := false
    queuePumpResumeDue := if s.closing then none else s.queuePumpResumeDue
    tick := 0 }

/-- No thread could be created. -/
def disarmPump (s : Shared σ ν) : Shared σ ν :=
  { s with
    stopQueue := true
    queuePumpRequested := false
    queuePumpEnabled := false
    queuePumpInFlight := false }

def resumeQueuePump (s : Shared σ ν) : Shared σ ν :=
  if s.stopQueue then s
  else { s with
    queuePumpRequested := true
    queuePumpEnabled := !(s.closing || s.queuePumpResumeDue.isSome) }

/-- A queue thread joins itself by letting itself go. -/
def joinPump (t : ThreadId) (s : Shared σ ν) : Action σ ν :=
  match s.queueThread with
  | none => .next s []
  | some n =>
      if t = .pump n ∨ n ∈ s.finishedPumps then .next { s with queueThread := none } []
      else .waits

def onRakNetCallbackThread : ThreadId → Bool
  | .callbackThread _ => true
  | _ => false

/-- Run one instruction on thread `t` at time `now`. -/
def perform (t : ThreadId) (now : ℕ) (s : Shared σ ν) : Instr → Action σ ν
  | .listeners => .next s []
  | .encodeQueued packetName value =>
      match makePacket ctx s packetName value with
      | .error _ => .throws s
      | .ok packet => .next s [.enqueue packet]
  | .enqueue packet => .next { s with queuedPackets := s.queuedPackets ++ [packet] } []
  | .decodeBuffer buffer immediate =>
      match VersionedPacketCodec.decodeFullPacket ctx.mcpeCodec.definition buffer with
      | .error _ => .throws s
      | .ok packet => .next s
          ((if isDecodedWhenSent packet then [.decodePacket packet] else []) ++
            if immediate then sendPackets [packet] false else [.enqueue packet])
  | .encode packetName value =>
      match makePacket ctx s packetName value with
      | .error _ => .throws s
      | .ok packet => .next s (sendPackets [packet] false)
  | .takeQueued => .next { s with queuedPackets := [] } (sendPackets s.queuedPackets true)
  | .decodePacket packet =>
      match ctx.decodePacket s.protoDefVariables packet with
      | .error _ => .throws s
      | .ok protoDefVariables => .next { s with protoDefVariables } []
  | .lockSend => if s.sendMutex.isSome then .waits else .next { s with sendMutex := some t } []
  | .sendPacketsLocked packets queued => sendPacketsLocked ctx s packets queued
  | .unlockSend => .next { s with sendMutex := none } []
  | .startEncryption keys handshake =>
      match createCipherStream ctx keys .encrypt, createCipherStream ctx keys .decrypt with
      | .ok _, .ok _ => .next s
          [.lockSend, .enableEncryption keys, .sendPacketsLocked [handshake] false, .unlockSend]
      | _, _ => .throws s
  | .enableEncryption keys =>
      .next { s with
        secretKeyBytes := keys.secretKeyBytes
        -- the stream that was made before the mutex was taken
        encryptStream := (createCipherStream ctx keys .encrypt).toOption
        sendCounter := 0
        encryptionEnabled := true } []
  | .networkSettings algorithm threshold =>
      if s.sendMutex.isSome then .waits
      else .next { s with
        compressionThreshold := threshold
        compressionAlgorithm := if algorithm = "" then "deflate" else algorithm
        compressionReady := true } []
  | .installTransport =>
      if s.sendMutex.isSome then .waits
      else .next { s with raknet := s.raknet || !s.rakNetStopRequested } []
  | .admitClose closeTransport origin => admitClose t s closeTransport origin
  | .pauseQueuePump => .next { s with queuePumpEnabled := false, queuePumpResumeDue := none } []
  | .awaitPump => if s.queuePumpInFlight then .waits else .next s []
  | .closeListeners => .next s (if s.status = .disconnected then [] else [.listeners])
  | .requestRakNetStop => .next { s with rakNetStopRequested := true } []
  | .commitClose => .next { s with closingCommitted := true } []
  | .moveTransport closeTransport =>
      if !closeTransport then .next s []
      else if s.sendMutex.isSome then .waits
      else if !s.raknet then .next s []
      else .next { s with raknet := onRakNetCallbackThread t } [.listeners]
  | .storeStatus status =>
      if s.rakNetStopRequested ∧ s.status = .disconnected ∧ status ≠ .disconnected then .next s []
      else .next { s with status } []
  | .closingReset closeCommitted => .next (closingReset ctx now s closeCommitted) []
  | .lockLifecycle =>
      if s.queueLifecycleMutex.isSome then .waits
      else .next { s with queueLifecycleMutex := some t } []
  | .unlockLifecycle => .next { s with queueLifecycleMutex := none } []
  | .stopQueueIfRunning =>
      .next s (if s.stopQueue then [] else [.stopQueueLocked false, .joinPump])
  | .stopQueueLocked preserveRollbackDeadline =>
      .next (stopQueueLocked s preserveRollbackDeadline) []
  | .joinPump => joinPump t s
  | .startQueue pumpEnabled allowAfterTransportStop =>
      .next s (if s.rakNetStopRequested && !allowAfterTransportStop then []
        else [.stopQueueLocked true, .joinPump, .armPump pumpEnabled allowAfterTransportStop])
  | .armPump pumpEnabled allowAfterTransportStop =>
      if s.rakNetStopRequested && !allowAfterTransportStop then .next s []
      else .next (armPump s pumpEnabled) [.spawnPump]
  | .spawnPump => .next { s with pumps := s.pumps + 1, queueThread := some s.pumps } []
  | .resumeQueuePump => .next (resumeQueuePump s) []
  | .armChunkRadius => .next { s with chunkRadiusDue := some (now + 500) } []
  | .armKeepAlive => .next { s with tick := 0, keepAliveDue := some (now + 500) } []
  | .storeTick responseTime => .next { s with tick := responseTime } []
  | .runPump n =>
      if n < s.pumps then .next s [.queueLoop (now + ctx.interval), .exitPump n] else .waits
  | .queueLoop nextTick => queueLoop ctx now s nextTick
  | .pumpSent => .next { s with queuePumpInFlight := false } []
  | .exitPump n => .next { s with finishedPumps := n :: s.finishedPumps } []
  | .terminate => .next { s with terminated := true } []

/-! ## Threads -/

/-- What is left of a thread when an exception reaches the application: the scopes
that it leaves on the way.  A close that had not got to its commit is left
uncommitted, and a queue thread ends the process. -/
def unwind : Bool → List Instr → List Instr
  | _, [] => []
  | _, .listeners :: rest => .listeners :: rest
  | closeCommitted, .unlockSend :: rest => .unlockSend :: unwind closeCommitted rest
  | closeCommitted, .unlockLifecycle :: rest => .unlockLifecycle :: unwind closeCommitted rest
  | closeCommitted, .pumpSent :: rest => .pumpSent :: unwind closeCommitted rest
  | closeCommitted, .queueLoop _ :: rest => .terminate :: unwind closeCommitted rest
  | _, .commitClose :: rest => unwind false rest
  | closeCommitted, .closingReset _ :: rest => .closingReset closeCommitted :: unwind true rest
  | closeCommitted, _ :: rest => unwind closeCommitted rest

structure State (σ ν : Type) where
  shared : Shared σ ν
  todo : ThreadId → List Instr

def State.setTodo (s : State σ ν) (t : ThreadId) (instrs : List Instr) : State σ ν :=
  { s with todo := Function.update s.todo t instrs }

/-- Thread `t` is in code of the application or of the transport. -/
def inApplication : ThreadId → List Instr → Bool
  | .pump _, [] => false
  | _, [] => true
  | _, .listeners :: _ => true
  | _, _ :: _ => false

inductive Label
  | call (t : ThreadId) (call : Call)
  /-- Thread `t` runs its next instruction, and the clock says `now`. -/
  | exec (t : ThreadId) (now : ℕ)
  /-- A listener on thread `t` throws, or no queue thread can be created. -/
  | throwing (t : ThreadId)

/-- A label that is not possible changes nothing. -/
def step (s : State σ ν) : Label → State σ ν
  | .call t call =>
      if inApplication t (s.todo t) && !s.shared.terminated then
        s.setTodo t (call.body ++ s.todo t)
      else s
  | .exec t now =>
      if s.shared.terminated then s
      else
        match s.todo t with
        | [] => s
        | instr :: rest =>
            match perform ctx t now s.shared instr with
            | .waits => s
            | .next shared instrs => State.setTodo { s with shared } t (instrs ++ rest)
            | .throws shared => State.setTodo { s with shared } t (unwind true rest)
  | .throwing t =>
      if s.shared.terminated then s
      else
        match s.todo t with
        | .listeners :: rest => s.setTodo t (unwind true rest)
        | .spawnPump :: rest =>
            State.setTodo { s with shared := disarmPump s.shared } t (unwind true rest)
        | _ => s

/-- What a step can do. -/
inductive StepCase (s : State σ ν) (label : Label) (s' : State σ ν) : Prop
  | same (hs : s' = s)
  | call (t : ThreadId) (call : Call) (hlabel : label = .call t call)
      (happ : inApplication t (s.todo t) = true) (hs : s' = s.setTodo t (call.body ++ s.todo t))
  | next (t : ThreadId) (now : ℕ) (i : Instr) (rest instrs : List Instr) (shared : Shared σ ν)
      (hlabel : label = .exec t now) (htodo : s.todo t = i :: rest)
      (hperform : perform ctx t now s.shared i = .next shared instrs)
      (hs : s' = State.setTodo { s with shared } t (instrs ++ rest))
  | throws (t : ThreadId) (now : ℕ) (i : Instr) (rest : List Instr) (shared : Shared σ ν)
      (hlabel : label = .exec t now) (htodo : s.todo t = i :: rest)
      (hperform : perform ctx t now s.shared i = .throws shared)
      (hs : s' = State.setTodo { s with shared } t (unwind true rest))
  | listener (t : ThreadId) (rest : List Instr) (hlabel : label = .throwing t)
      (htodo : s.todo t = .listeners :: rest) (hs : s' = s.setTodo t (unwind true rest))
  | noThread (t : ThreadId) (rest : List Instr) (hlabel : label = .throwing t)
      (htodo : s.todo t = .spawnPump :: rest)
      (hs : s' = State.setTodo { s with shared := disarmPump s.shared } t (unwind true rest))

theorem stepCase (s : State σ ν) (label : Label) : StepCase ctx s label (step ctx s label) := by
  cases label with
  | call t call =>
      by_cases h : (inApplication t (s.todo t) && !s.shared.terminated) = true
      · refine .call t call rfl (Bool.and_eq_true_iff.mp h).1 ?_
        simp only [step, h, if_true]
      · exact .same (if_neg h)
  | exec t now =>
      by_cases hterminated : s.shared.terminated = true
      · exact .same (if_pos hterminated)
      cases htodo : s.todo t with
      | nil => exact .same (by simp [step, htodo])
      | cons i rest =>
          cases hperform : perform ctx t now s.shared i with
          | waits => exact .same (by simp [step, htodo, hperform])
          | next shared instrs =>
              exact .next t now i rest instrs shared rfl htodo hperform
                (by simp [step, hterminated, htodo, hperform])
          | throws shared =>
              exact .throws t now i rest shared rfl htodo hperform
                (by simp [step, hterminated, htodo, hperform])
  | throwing t =>
      by_cases hterminated : s.shared.terminated = true
      · exact .same (if_pos hterminated)
      cases htodo : s.todo t with
      | nil => exact .same (by simp [step, htodo])
      | cons i rest =>
          by_cases hlisteners : i = .listeners
          · subst hlisteners
            exact .listener t rest rfl htodo (by simp [step, hterminated, htodo])
          by_cases hspawn : i = .spawnPump
          · subst hspawn
            exact .noThread t rest rfl htodo (by simp [step, hterminated, htodo])
          · refine .same ?_
            simp only [step, hterminated, htodo]
            cases i <;> simp_all

@[simp] theorem setTodo_shared (s : State σ ν) (t : ThreadId) (instrs : List Instr) :
    (s.setTodo t instrs).shared = s.shared := rfl

@[simp] theorem setTodo_self (s : State σ ν) (t : ThreadId) (instrs : List Instr) :
    (s.setTodo t instrs).todo t = instrs := by
  simp [State.setTodo]

theorem setTodo_of_ne (s : State σ ν) {t u : ThreadId} (h : u ≠ t) (instrs : List Instr) :
    (s.setTodo t instrs).todo u = s.todo u := by
  simp [State.setTodo, h]

/-- What holds of the state and of the instructions that an instruction leaves. -/
def Action.Leaves (stays : Shared σ ν → Prop) (adds : List Instr → Prop) : Action σ ν → Prop
  | .waits => True
  | .next shared instrs => stays shared ∧ adds instrs
  | .throws shared => stays shared

/-- A client that was just constructed; a queue thread waits until it is created. -/
def constructed (compressionAlgorithm : String) (reliableSendOverride : Bool)
    (protoDefVariables : ν) : State σ ν where
  shared := {
    closing := false
    closingThreadId := none
    closingDepth := 0
    closingCommitted := false
    rakNetStopRequested := false
    status := .disconnected
    queuedPackets := []
    stopQueue := true
    queuePumpRequested := false
    queuePumpEnabled := false
    queuePumpInFlight := false
    queuePumpResumeDue := none
    chunkRadiusDue := none
    keepAliveDue := none
    tick := 0
    queueLifecycleMutex := none
    queueThread := none
    pumps := 0
    finishedPumps := []
    sendMutex := none
    raknet := false
    reliableSendOverride
    encryptionEnabled := false
    encryptStream := none
    secretKeyBytes := []
    sendCounter := 0
    compressionReady := false
    compressionAlgorithm
    compressionThreshold := 512
    protoDefVariables
    sent := []
    terminated := false }
  todo := fun t ↦
    match t with
    | .pump n => [.runPump n]
    | _ => []

end Semantics

/-- A client of one packet, whose value is its payload. -/
def textContext : Context Unit Unit where
  options := ⟨"1.21.0", 685, 7, 20, 10⟩
  mcpeCodec := VersionedMcpeCodec.textCodec
  evp := ⟨fun _ _ _ _ ↦ .ok (), fun _ input ↦ .ok (input, ())⟩
  sha256 := fun _ ↦ List.replicate 32 0
  zlib := Zlib.stored
  encodePacket := fun _ _ value ↦
    match value with
    | .bytes payload => .ok payload
    | _ => .error "no payload"
  decodePacket := fun _ _ ↦ .ok ()

end BedrockNetworkClient

end BedrockProtocol
