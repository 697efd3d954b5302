import BedrockProtocol.Lib.Handover
import BedrockProtocol.Relay.ClientboundOrder

/-!
# The order of serverbound packets

Packets that come before the upstream client has joined are parked, and the
callback of the join sends them.  All packets stay in order unless one passes the
parked ones while that goes on, or is parked when it is over.
-/

namespace BedrockProtocol.BedrockLiveRelay

variable {options : BedrockLiveRelayOptions}

/-! ## The way of a packet -/

/-- Packets that are neither replaced nor kept until the player has spawned. -/
def isPlainServerbound (packet : VersionedGamePacket) : Bool :=
  packet.name ≠ "client_cache_status" ∧ packet.name ≠ "request_chunk_radius"

/-- The packets that an instruction still has to bring to the upstream client. -/
def Instr.serverbound (options : BedrockLiveRelayOptions) : Instr → List VersionedGamePacket
  | .findSession (.handleDownstreamPacket packet) | .handleDownstreamPacket packet =>
      [packet].filter (passesDownstreamFilter options)
  | .enterHandlers .serverbound packet | .handlers .serverbound packet | .parkServerbound packet
  | .forwardServerbound packet _ | .sendUpstream _ packet _ => [packet]
  | .leaveHandlers .serverbound _ packets | .deliver .serverbound _ packets
  | .candidates packets => packets
  | .routeServerbound packet packets => packet :: packets
  | _ => []

/-- How an instruction forwards a plain packet. -/
def Instr.forwards : Instr → Option Bool
  | .forwardServerbound packet immediate | .sendUpstream _ packet immediate =>
      if isPlainServerbound packet then some immediate else none
  | _ => none

def Instr.sends : Instr → Bool
  | .sendUpstream _ packet _ => isPlainServerbound packet
  | _ => false

def Instr.joinsUpstream : Instr → Bool
  | .upstreamJoin _ | .flushServerbound _ => true
  | _ => false

def waitingServerbound (options : BedrockLiveRelayOptions) (instrs : List Instr) :
    List VersionedGamePacket :=
  (instrs.flatMap (Instr.serverbound options)).filter isPlainServerbound

def Relay.sentPlain (s : Relay) : List Sent :=
  s.sentUpstream.filter fun sent ↦ isPlainServerbound sent.packet

/-- Where the packets are while the threads have to run `downstream` and
`upstream`. -/
def serverboundLine (options : BedrockLiveRelayOptions) (s : Relay)
    (downstream upstream : List Instr) : Handover VersionedGamePacket where
  delivered := s.sentPlain.map Sent.packet
  flushing := waitingServerbound options upstream
  parked := s.session.pendingServerbound.filter isPlainServerbound
  coming := waitingServerbound options downstream

/-- Nothing that the player has to spawn for is plain. -/
def KeepsPostSpawn (s : Relay) : Prop :=
  ∀ packet ∈ s.session.pendingPostSpawnServerbound, isPlainServerbound packet = false

/-- What is the same for plain packets. -/
structure SameServerbound (s s' : Relay) : Prop where
  sent : s'.sentPlain = s.sentPlain
  pending : s'.session.pendingServerbound = s.session.pendingServerbound
  phase : s'.session.upstreamPhase = s.session.upstreamPhase
  postSpawn : KeepsPostSpawn s'

theorem KeepsPostSpawn.same {s : Relay} (h : KeepsPostSpawn s) : SameServerbound s s :=
  ⟨rfl, rfl, rfl, h⟩

/-- The instruction neither forwards plain packets nor joins the upstream
client. -/
def Instr.Passive (instr : Instr) : Prop := instr.forwards = none ∧ instr.joinsUpstream = false

/-- What an instruction does to plain packets. -/
inductive ServerboundEffect (options : BedrockLiveRelayOptions) (s : Relay) (instr : Instr)
    (s' : Relay) (instrs : List Instr) : Prop
  | goesOn (same : SameServerbound s s') (before : instr.Passive)
      (waiting : waitingServerbound options instrs = waitingServerbound options [instr])
      (after : ∀ i ∈ instrs, i.Passive)
  | parks (packet : VersionedGamePacket)
      (before : instr = .parkServerbound packet ∨
        s.session.upstreamPhase ≠ .game ∧ ∃ immediate, instr = .forwardServerbound packet immediate)
      (state : s' = { s with session := { s.session with
        pendingServerbound := s.session.pendingServerbound ++ [packet] } })
      (after : instrs = [])
  | routes (packet : VersionedGamePacket) (packets : List VersionedGamePacket)
      (before : instr = .routeServerbound packet packets)
      (phase : s.session.upstreamPhase = .game) (state : s' = s)
      (after : instrs = forwardServerboundCall false packet ++ [.candidates packets])
  | forwards (packet : VersionedGamePacket) (immediate : Bool) (upstream : ℕ)
      (before : instr = .forwardServerbound packet immediate)
      (phase : s.session.upstreamPhase = .game) (state : s' = s)
      (after : instrs = [.sendUpstream upstream packet immediate])
  | sends (upstream : ℕ) (packet : VersionedGamePacket) (immediate : Bool)
      (before : instr = .sendUpstream upstream packet immediate)
      (state : s' = { s with sentUpstream := s.sentUpstream ++ [⟨upstream, packet, immediate⟩] })
      (after : instrs = [])
  | joins (upstream : ℕ) (before : instr = .upstreamJoin upstream) (state : s' = s)
      (after : instrs = if s.session.upstreamPhase = .negotiating then
        [.writeCacheStatus upstream, .flushServerbound upstream] else [])
  | flushes (upstream : ℕ) (before : instr = .flushServerbound upstream)
      (state : s' = { s with session := { s.session with
        upstreamPhase := .game, pendingServerbound := [] } })
      (after : instrs = s.session.pendingServerbound.flatMap (forwardServerboundCall true) ++
        [.finishUpstreamJoin upstream])

theorem waitingServerbound_append (instrs instrs' : List Instr) :
    waitingServerbound options (instrs ++ instrs') =
      waitingServerbound options instrs ++ waitingServerbound options instrs' := by
  rw [waitingServerbound, List.flatMap_append, List.filter_append]
  rfl

theorem waitingServerbound_cons (instr : Instr) (instrs : List Instr) :
    waitingServerbound options (instr :: instrs) =
      waitingServerbound options [instr] ++ waitingServerbound options instrs :=
  waitingServerbound_append [instr] instrs

theorem waitingServerbound_flatMap (immediate : Bool) (packets : List VersionedGamePacket) :
    waitingServerbound options (packets.flatMap (forwardServerboundCall immediate)) =
      packets.filter isPlainServerbound := by
  induction packets with
  | nil => rfl
  | cons packet packets ih =>
      rw [List.flatMap_cons, waitingServerbound_append, ih, ← List.singleton_append,
        List.filter_append]
      rfl

theorem waitingServerbound_clientbound (packets : List VersionedGamePacket) :
    waitingServerbound options (packets.flatMap forwardClientboundCall) = [] := by
  induction packets with
  | nil => rfl
  | cons packet packets ih =>
      rw [List.flatMap_cons, waitingServerbound_append, ih]
      rfl

theorem passive_forwardClientboundCall (packet : VersionedGamePacket) :
    ∀ instr ∈ forwardClientboundCall packet, instr.Passive := by
  simp [forwardClientboundCall, Instr.Passive, Instr.forwards, Instr.joinsUpstream]

theorem passive_forwardServerboundCall {immediate : Bool} {packet : VersionedGamePacket}
    (h : isPlainServerbound packet = false) :
    ∀ instr ∈ forwardServerboundCall immediate packet, instr.Passive := by
  simp [forwardServerboundCall, Instr.Passive, Instr.forwards, Instr.joinsUpstream, h]

theorem passive_flatMap {packets : List VersionedGamePacket} {f : VersionedGamePacket → List Instr}
    (h : ∀ packet ∈ packets, ∀ instr ∈ f packet, instr.Passive) :
    ∀ instr ∈ packets.flatMap f, instr.Passive := by
  intro instr hinstr
  obtain ⟨packet, hpacket, hinstr⟩ := List.mem_flatMap.mp hinstr
  exact h packet hpacket instr hinstr

theorem isPlainServerbound_clientCacheStatus :
    isPlainServerbound options.clientCacheStatus = false := by
  simp [isPlainServerbound, options.clientCacheStatus_name]

theorem serverbound_routeClientbound {session : Session} {now : ℤ} {packet : VersionedGamePacket} :
    (session.routeClientbound options now packet).1.pendingServerbound =
        session.pendingServerbound ∧
      (session.routeClientbound options now packet).1.upstreamPhase = session.upstreamPhase ∧
      (session.routeClientbound options now packet).1.pendingPostSpawnServerbound =
        session.pendingPostSpawnServerbound := by
  unfold Session.routeClientbound
  dsimp only
  split_ifs <;> exact ⟨rfl, rfl, rfl⟩

/-! ## What the instructions do -/

section Instructions

variable {answer : Answer} {t : ℕ} {s s' : Relay} {instrs : List Instr}

theorem serverboundEffect_handleDownstreamPacket {packet : VersionedGamePacket}
    (haccepts : s.session.acceptsPackets = true) (hpost : KeepsPostSpawn s)
    (h : perform options answer t s (.handleDownstreamPacket packet) = some (s', instrs)) :
    ServerboundEffect options s (.handleDownstreamPacket packet) s' instrs := by
  simp only [perform, haccepts, true_and, Option.some.injEq, Prod.mk.injEq] at h
  obtain ⟨rfl, rfl⟩ := h
  refine .goesOn hpost.same ⟨rfl, rfl⟩ ?_ ?_
  · by_cases hpasses : passesDownstreamFilter options packet = true <;>
      simp [hpasses, waitingServerbound, applyHandlersCall, Instr.serverbound]
  · split <;> simp [applyHandlersCall, Instr.Passive, Instr.forwards, Instr.joinsUpstream]

theorem serverboundEffect_writeCacheStatus {upstream : ℕ} (hpost : KeepsPostSpawn s)
    (h : perform options answer t s (.writeCacheStatus upstream) = some (s', instrs)) :
    ServerboundEffect options s (.writeCacheStatus upstream) s' instrs := by
  simp only [perform] at h
  split at h
  · cases h
    exact .goesOn hpost.same ⟨rfl, rfl⟩ rfl
      (by simp [Instr.Passive, Instr.forwards, Instr.joinsUpstream])
  · cases h
    refine .goesOn ⟨?_, rfl, rfl, hpost⟩ ⟨rfl, rfl⟩ rfl (by simp)
    simp [Relay.sentPlain, isPlainServerbound_clientCacheStatus]

theorem serverboundEffect_deliver {direction : BedrockRelayDirection} {packet : VersionedGamePacket}
    {packets : List VersionedGamePacket} (hpost : KeepsPostSpawn s)
    (h : perform options answer t s (.deliver direction packet packets) = some (s', instrs)) :
    ServerboundEffect options s (.deliver direction packet packets) s' instrs := by
  cases direction with
  | clientbound =>
      cases h
      refine .goesOn hpost.same ⟨rfl, rfl⟩ ?_ (List.forall_mem_append.mpr ⟨?_, ?_⟩)
      · rw [waitingServerbound_append, waitingServerbound_clientbound]
        split <;> rfl
      · exact passive_flatMap fun packet _ ↦ passive_forwardClientboundCall packet
      · split <;> simp [Instr.Passive, Instr.forwards, Instr.joinsUpstream]
  | serverbound =>
      cases h
      exact .goesOn hpost.same ⟨rfl, rfl⟩ rfl
        (by simp [Instr.Passive, Instr.forwards, Instr.joinsUpstream])

theorem serverboundEffect_candidates {packets : List VersionedGamePacket}
    (haccepts : s.session.acceptsPackets = true)
    (hupstream : s.session.upstream = some onlyUpstream) (hpost : KeepsPostSpawn s)
    (h : perform options answer t s (.candidates packets) = some (s', instrs)) :
    ServerboundEffect options s (.candidates packets) s' instrs := by
  cases packets with
  | nil =>
      cases h
      exact .goesOn hpost.same ⟨rfl, rfl⟩ rfl (by simp)
  | cons packet packets =>
      have hpassive : ∀ i ∈ [Instr.candidates packets], i.Passive := by
        simp [Instr.Passive, Instr.forwards, Instr.joinsUpstream]
      have hskip (hplain : isPlainServerbound packet = false) :
          waitingServerbound options [.candidates packets] =
            waitingServerbound options [.candidates (packet :: packets)] := by
        simp [waitingServerbound, Instr.serverbound, hplain]
      simp only [perform, haccepts, hupstream, Option.isSome_some, true_and, Bool.not_true,
        Bool.false_eq_true, if_false] at h
      split at h
      · rename_i hname
        have hplain : isPlainServerbound packet = false := by simp [isPlainServerbound, hname]
        cases h
        refine .goesOn hpost.same ⟨rfl, rfl⟩ ?_ ?_
        · rw [← hskip hplain]
          split
          · rw [waitingServerbound_append]
            simp [waitingServerbound, forwardServerboundCall, Instr.serverbound,
              isPlainServerbound_clientCacheStatus]
          · rfl
        · split
          · exact List.forall_mem_append.mpr
              ⟨passive_forwardServerboundCall isPlainServerbound_clientCacheStatus, hpassive⟩
          · exact hpassive
      split at h
      · rename_i hname
        have hplain : isPlainServerbound packet = false := by simp [isPlainServerbound, hname]
        split at h
        · cases h
          refine .goesOn ⟨rfl, rfl, rfl, ?_⟩ ⟨rfl, rfl⟩ (hskip hplain) hpassive
          exact List.forall_mem_append.mpr ⟨hpost, by simp [hplain]⟩
        · cases h
          exact .goesOn hpost.same ⟨rfl, rfl⟩ rfl
            (by simp [Instr.Passive, Instr.forwards, Instr.joinsUpstream])
      · cases h
        exact .goesOn hpost.same ⟨rfl, rfl⟩ rfl
          (by simp [Instr.Passive, Instr.forwards, Instr.joinsUpstream])

theorem serverboundEffect_routeServerbound {packet : VersionedGamePacket}
    {packets : List VersionedGamePacket}
    (haccepts : s.session.acceptsPackets = true)
    (hupstream : s.session.upstream = some onlyUpstream) (hpost : KeepsPostSpawn s)
    (h : perform options answer t s (.routeServerbound packet packets) = some (s', instrs)) :
    ServerboundEffect options s (.routeServerbound packet packets) s' instrs := by
  simp only [perform, haccepts, hupstream, Option.isSome_some, true_and, Bool.not_true,
    Bool.false_eq_true, if_false, Option.some.injEq, Prod.mk.injEq] at h
  obtain ⟨rfl, rfl⟩ := h
  by_cases hready : s.session.upstreamReady = true
  · exact .routes packet packets rfl (of_decide_eq_true hready) rfl (if_pos hready)
  · rw [if_neg hready]
    exact .goesOn hpost.same ⟨rfl, rfl⟩ rfl
      (by simp [Instr.Passive, Instr.forwards, Instr.joinsUpstream])

theorem serverboundEffect_forwardServerbound {packet : VersionedGamePacket} {immediate : Bool}
    (haccepts : s.session.acceptsPackets = true)
    (hupstream : s.session.upstream = some onlyUpstream)
    (h : perform options answer t s (.forwardServerbound packet immediate) = some (s', instrs)) :
    ServerboundEffect options s (.forwardServerbound packet immediate) s' instrs := by
  have hfilter : (s.session.upstream.filter fun _ ↦ s.session.upstreamReady) =
      if s.session.upstreamReady then some onlyUpstream else none := by
    rw [hupstream, Option.filter_some]
  simp only [perform, haccepts, hfilter, Bool.not_true, Bool.false_eq_true, if_false] at h
  by_cases hready : s.session.upstreamReady = true
  · rw [if_pos hready] at h
    cases h
    exact .forwards packet immediate onlyUpstream rfl (of_decide_eq_true hready) rfl rfl
  · rw [if_neg hready] at h
    cases h
    exact .parks packet (.inr ⟨fun hgame ↦ hready (decide_eq_true hgame), immediate, rfl⟩)
      rfl rfl

theorem serverboundEffect_playerSpawned (haccepts : s.session.acceptsPackets = true)
    (hpost : KeepsPostSpawn s)
    (h : perform options answer t s .playerSpawned = some (s', instrs)) :
    ServerboundEffect options s .playerSpawned s' instrs := by
  simp only [perform, haccepts, Bool.not_true, Bool.false_eq_true, if_false, Option.some.injEq,
    Prod.mk.injEq] at h
  obtain ⟨rfl, rfl⟩ := h
  refine .goesOn ⟨rfl, rfl, rfl, by simp [KeepsPostSpawn]⟩ ⟨rfl, rfl⟩ ?_ ?_
  · rw [waitingServerbound_flatMap, List.filter_eq_nil_iff.mpr]
    · rfl
    · exact fun packet hpacket ↦ by simp [hpost packet hpacket]
  · exact passive_flatMap fun packet hpacket ↦
      passive_forwardServerboundCall (hpost packet hpacket)

theorem serverboundEffect_handleDownstreamJoin (hpost : KeepsPostSpawn s)
    (h : perform options answer t s .handleDownstreamJoin = some (s', instrs)) :
    ServerboundEffect options s .handleDownstreamJoin s' instrs := by
  simp only [perform] at h
  split at h
  · cases h
    exact .goesOn hpost.same ⟨rfl, rfl⟩ rfl (by simp)
  · cases h
    exact .goesOn ⟨rfl, rfl, rfl, hpost⟩ ⟨rfl, rfl⟩ rfl
      (by simp [Instr.Passive, Instr.forwards, Instr.joinsUpstream])

theorem serverboundEffect_forwardClientbound {packet : VersionedGamePacket}
    (hpost : KeepsPostSpawn s)
    (h : perform options answer t s (.forwardClientbound packet) = some (s', instrs)) :
    ServerboundEffect options s (.forwardClientbound packet) s' instrs := by
  simp only [perform, Option.some.injEq, Prod.mk.injEq] at h
  obtain ⟨rfl, rfl⟩ := h
  obtain ⟨hpending, hphase, hpost'⟩ :=
    @serverbound_routeClientbound options s.session answer.now packet
  refine .goesOn ⟨rfl, hpending, hphase, ?_⟩ ⟨rfl, rfl⟩ ?_ ?_
  · rw [KeepsPostSpawn, hpost']
    exact hpost
  · cases (s.session.routeClientbound options answer.now packet).2 <;> rfl
  · cases (s.session.routeClientbound options answer.now packet).2 <;>
      simp [Instr.Passive, Instr.forwards, Instr.joinsUpstream]

theorem serverboundEffect_queuePacket {packet : VersionedGamePacket}
    {heldChunks : List VersionedGamePacket} (hpost : KeepsPostSpawn s)
    (h : perform options answer t s (.queuePacket packet heldChunks) = some (s', instrs)) :
    ServerboundEffect options s (.queuePacket packet heldChunks) s' instrs := by
  simp only [perform] at h
  split at h
  · cases h
    refine .goesOn ⟨rfl, rfl, rfl, hpost⟩ ⟨rfl, rfl⟩ ?_ ?_
    · split <;> rfl
    · split <;> simp [Instr.Passive, Instr.forwards, Instr.joinsUpstream]
  · cases h
    exact .goesOn hpost.same ⟨rfl, rfl⟩ rfl (by simp)

end Instructions

theorem perform_serverbound {answer : Answer} {t : ℕ} {s s' : Relay} {instr : Instr}
    {instrs : List Instr} (hordinary : instr.ordinary t)
    (haccepts : s.session.acceptsPackets = true)
    (hupstream : s.session.upstream = some onlyUpstream) (hregistered : s.registered = true)
    (hpost : KeepsPostSpawn s)
    (hkept : ∀ direction packet, instr = .handlers direction packet → answer.packets = [packet])
    (h : perform options answer t s instr = some (s', instrs)) :
    ServerboundEffect options s instr s' instrs := by
  cases instr with
  | findSession found =>
      cases found with
      | handleDownstreamPacket packet =>
          simp only [perform, hregistered, if_true, Option.some.injEq, Prod.mk.injEq] at h
          obtain ⟨rfl, rfl⟩ := h
          exact .goesOn hpost.same ⟨rfl, rfl⟩ rfl
            (by simp [Instr.Passive, Instr.forwards, Instr.joinsUpstream])
      | _ => simp [Instr.ordinary] at hordinary
  | lockDispatch =>
      simp only [perform] at h
      obtain ⟨mutex, -, hs⟩ := Option.map_eq_some_iff.mp h
      cases hs
      exact .goesOn ⟨rfl, rfl, rfl, hpost⟩ ⟨rfl, rfl⟩ rfl (by simp)
  | application | unlockDispatch | queuePackets =>
      cases h
      exact .goesOn ⟨rfl, rfl, rfl, hpost⟩ ⟨rfl, rfl⟩ rfl (by simp)
  | upstreamJoin upstream =>
      have honly : upstream = onlyUpstream := (of_decide_eq_true hordinary).2
      simp only [perform, haccepts, hupstream, honly, true_and, Option.some.injEq,
        Prod.mk.injEq] at h
      obtain ⟨rfl, rfl⟩ := h
      subst honly
      exact .joins onlyUpstream rfl rfl rfl
  | finishUpstreamJoin | upstreamPacket =>
      cases h
      refine .goesOn hpost.same ⟨rfl, rfl⟩ ?_ ?_
      · split <;> rfl
      · split <;> simp [Instr.Passive, Instr.forwards, Instr.joinsUpstream]
  | handleUpstreamPacket packet =>
      cases h
      refine .goesOn hpost.same ⟨rfl, rfl⟩ ?_ ?_
      · split <;> rfl
      · split <;> simp [applyHandlersCall, Instr.Passive, Instr.forwards, Instr.joinsUpstream]
  | handleDownstreamPacket packet =>
      exact serverboundEffect_handleDownstreamPacket haccepts hpost h
  | enterHandlers direction packet =>
      simp only [perform, haccepts, if_true, Option.some.injEq, Prod.mk.injEq] at h
      obtain ⟨rfl, rfl⟩ := h
      refine .goesOn hpost.same ⟨rfl, rfl⟩ ?_
        (by simp [Instr.Passive, Instr.forwards, Instr.joinsUpstream])
      cases direction <;> rfl
  | handlers direction packet =>
      simp only [perform, hkept direction packet rfl, Option.some.injEq, Prod.mk.injEq] at h
      obtain ⟨rfl, rfl⟩ := h
      refine .goesOn hpost.same ⟨rfl, rfl⟩ ?_
        (by simp [Instr.Passive, Instr.forwards, Instr.joinsUpstream])
      cases direction <;> rfl
  | leaveHandlers direction packet packets =>
      simp only [perform, haccepts, if_true, Option.some.injEq, Prod.mk.injEq] at h
      obtain ⟨rfl, rfl⟩ := h
      refine .goesOn hpost.same ⟨rfl, rfl⟩ ?_
        (by simp [Instr.Passive, Instr.forwards, Instr.joinsUpstream])
      cases direction <;> simp [waitingServerbound, Instr.serverbound]
  | writeCacheStatus upstream => exact serverboundEffect_writeCacheStatus hpost h
  | flushServerbound upstream =>
      have honly : upstream = onlyUpstream := (of_decide_eq_true hordinary).2
      subst honly
      simp only [perform] at h
      rw [if_pos ⟨haccepts, hupstream⟩] at h
      cases h
      exact .flushes onlyUpstream rfl rfl rfl
  | deliver direction packet packets => exact serverboundEffect_deliver hpost h
  | candidates packets => exact serverboundEffect_candidates haccepts hupstream hpost h
  | routeServerbound packet packets =>
      exact serverboundEffect_routeServerbound haccepts hupstream hpost h
  | parkServerbound packet =>
      simp only [perform, haccepts, if_true, Option.some.injEq, Prod.mk.injEq] at h
      exact .parks packet (.inl rfl) h.1.symm h.2.symm
  | forwardServerbound packet immediate =>
      exact serverboundEffect_forwardServerbound haccepts hupstream h
  | sendUpstream upstream packet immediate =>
      cases h
      exact .sends upstream packet immediate rfl rfl rfl
  | playerSpawned => exact serverboundEffect_playerSpawned haccepts hpost h
  | handleDownstreamJoin => exact serverboundEffect_handleDownstreamJoin hpost h
  | flushClientbound =>
      cases h
      exact .goesOn ⟨rfl, rfl, rfl, hpost⟩ ⟨rfl, rfl⟩ (waitingServerbound_clientbound _)
        (passive_flatMap fun packet _ ↦ passive_forwardClientboundCall packet)
  | forwardClientbound packet => exact serverboundEffect_forwardClientbound hpost h
  | queuePacket packet heldChunks => exact serverboundEffect_queuePacket hpost h
  | _ => simp [Instr.ordinary] at hordinary

/-! ## The invariant -/

/-- All packets that arrived are in line, and none passes another one. -/
structure ServerboundOrder (options : BedrockLiveRelayOptions) (s : Relay)
    (downstream upstream : List Instr) (arrived : List VersionedGamePacket) : Prop where
  items : (serverboundLine options s downstream upstream).items = arrived
  postSpawn : KeepsPostSpawn s
  parked : s.session.upstreamPhase = .game → s.session.pendingServerbound = []
  downstreamForwards : ∀ instr ∈ downstream, instr.forwards ≠ none →
    s.session.upstreamPhase = .game ∧ instr.forwards = some false
  upstreamForwards : ∀ instr ∈ upstream, instr.forwards ≠ none →
    s.session.upstreamPhase = .game ∧ instr.forwards = some true
  before : s.session.upstreamPhase ≠ .game → waitingServerbound options upstream = []
  direct : (∃ instr ∈ downstream, instr.sends) → waitingServerbound options upstream = []
  flushing : ∀ client, .flushServerbound client ∈ upstream → s.session.upstreamPhase ≠ .game
  join : upstream.countP Instr.joinsUpstream ≤ 1
  /-- What waits for the next batch is not overtaken by what is sent at once. -/
  batches : s.sentPlain.Pairwise fun sent sent' ↦ sent'.immediate → sent.immediate
  batched : (∃ sent ∈ s.sentPlain, sent.immediate = false) →
    s.session.upstreamPhase = .game ∧ waitingServerbound options upstream = []

namespace ServerboundOrder

variable {s s' : Relay} {instr : Instr} {instrs rest downstream upstream : List Instr}
  {arrived packets : List VersionedGamePacket} {packet : VersionedGamePacket} {immediate : Bool}
  {client : ℕ}

theorem sends_forwards {i : Instr} (h : i.sends) : i.forwards ≠ none := by
  cases i <;> simp_all [Instr.sends, Instr.forwards]

theorem waiting_mono (hwaiting : waitingServerbound options instrs = waitingServerbound options [instr])
    (rest : List Instr) :
    waitingServerbound options (instrs ++ rest) = waitingServerbound options (instr :: rest) := by
  rw [waitingServerbound_append, waitingServerbound_cons, hwaiting]

theorem sentPlain_append_of_plain (s : Relay) (sent : Sent)
    (h : isPlainServerbound sent.packet = true) :
    ({ s with sentUpstream := s.sentUpstream ++ [sent] } : Relay).sentPlain =
      s.sentPlain ++ [sent] := by
  simp [Relay.sentPlain, h]

theorem sentPlain_append_of_not_plain (s : Relay) (sent : Sent)
    (h : isPlainServerbound sent.packet = false) :
    ({ s with sentUpstream := s.sentUpstream ++ [sent] } : Relay).sentPlain = s.sentPlain := by
  simp [Relay.sentPlain, h]

theorem same_of_not_plain {sent : Sent} (hpost : KeepsPostSpawn s)
    (h : isPlainServerbound sent.packet = false) :
    SameServerbound s { s with sentUpstream := s.sentUpstream ++ [sent] } :=
  ⟨sentPlain_append_of_not_plain s sent h, rfl, rfl, hpost⟩

theorem waiting_of_not_plain (hserverbound : instr.serverbound options = [packet])
    (hplain : isPlainServerbound packet = false) : waitingServerbound options [instr] = [] := by
  rw [waitingServerbound, List.flatMap_singleton, hserverbound, List.filter_singleton, hplain]
  rfl

/-- The thread of the player goes on, and keeps the packets in line. -/
theorem downstream_of_items {downstream' : List Instr}
    (h : ServerboundOrder options s downstream upstream arrived)
    (hitems : (serverboundLine options s' downstream' upstream).items = arrived)
    (hpost : KeepsPostSpawn s') (hphase : s'.session.upstreamPhase = s.session.upstreamPhase)
    (hpending : s.session.upstreamPhase = .game →
      s'.session.pendingServerbound = s.session.pendingServerbound)
    (hforwards : ∀ i ∈ downstream', i.forwards ≠ none →
      s.session.upstreamPhase = .game ∧ i.forwards = some false)
    (hsends : (∃ i ∈ downstream', i.sends) → waitingServerbound options upstream = [])
    (hbatches : s'.sentPlain.Pairwise fun sent sent' ↦ sent'.immediate → sent.immediate)
    (hbatched : (∃ sent ∈ s'.sentPlain, sent.immediate = false) →
      s.session.upstreamPhase = .game ∧ waitingServerbound options upstream = []) :
    ServerboundOrder options s' downstream' upstream arrived where
  items := hitems
  postSpawn := hpost
  parked hgame := by
    rw [hphase] at hgame
    rw [hpending hgame, h.parked hgame]
  downstreamForwards := by
    rw [hphase]
    exact hforwards
  upstreamForwards := by
    rw [hphase]
    exact h.upstreamForwards
  before := by
    rw [hphase]
    exact h.before
  direct := hsends
  flushing := by
    rw [hphase]
    exact h.flushing
  join := h.join
  batches := hbatches
  batched := by
    rw [hphase]
    exact hbatched

theorem downstream_rest_forwards (h : ServerboundOrder options s (instr :: rest) upstream arrived) :
    ∀ i ∈ rest, i.forwards ≠ none → s.session.upstreamPhase = .game ∧ i.forwards = some false :=
  fun i hi ↦ h.downstreamForwards i (List.mem_cons_of_mem _ hi)

theorem downstream_rest_sends (h : ServerboundOrder options s (instr :: rest) upstream arrived) :
    (∃ i ∈ rest, i.sends) → waitingServerbound options upstream = [] := by
  rintro ⟨i, hi, hsends⟩
  exact h.direct ⟨i, List.mem_cons_of_mem _ hi, hsends⟩

theorem downstream_goesOn (h : ServerboundOrder options s (instr :: rest) upstream arrived)
    (same : SameServerbound s s')
    (waiting : waitingServerbound options instrs = waitingServerbound options [instr])
    (after : ∀ i ∈ instrs, i.Passive) :
    ServerboundOrder options s' (instrs ++ rest) upstream arrived := by
  obtain ⟨hsent, hpending, hphase, hpost⟩ := same
  refine h.downstream_of_items ?_ hpost hphase (fun _ ↦ hpending) ?_ ?_ ?_ ?_
  · rw [← h.items]
    simp only [serverboundLine, hsent, hpending, waiting_mono waiting]
  · intro i hi hforwards
    rcases List.mem_append.mp hi with hi | hi
    · exact absurd (after i hi).1 hforwards
    · exact h.downstream_rest_forwards i hi hforwards
  · rintro ⟨i, hi, hsends⟩
    rcases List.mem_append.mp hi with hi | hi
    · exact absurd (after i hi).1 (sends_forwards hsends)
    · exact h.downstream_rest_sends ⟨i, hi, hsends⟩
  · rw [hsent]
    exact h.batches
  · rw [hsent]
    exact h.batched

theorem downstream_parks (h : ServerboundOrder options s (instr :: rest) upstream arrived)
    (hphase : s.session.upstreamPhase ≠ .game)
    (hwaiting : waitingServerbound options [instr] = [packet].filter isPlainServerbound) :
    ServerboundOrder options { s with session := { s.session with
      pendingServerbound := s.session.pendingServerbound ++ [packet] } } rest upstream arrived := by
  refine h.downstream_of_items ?_ h.postSpawn rfl (fun hgame ↦ absurd hgame hphase)
    h.downstream_rest_forwards h.downstream_rest_sends h.batches h.batched
  rw [← h.items, serverboundLine, serverboundLine, waitingServerbound_cons instr rest, hwaiting,
    List.filter_append]
  exact (Handover.Step.park _ _ _ _ _).items_unchanged

theorem downstream_routes
    (h : ServerboundOrder options s (.routeServerbound packet packets :: rest) upstream arrived)
    (hphase : s.session.upstreamPhase = .game) :
    ServerboundOrder options s
      (forwardServerboundCall false packet ++ [.candidates packets] ++ rest) upstream arrived := by
  refine h.downstream_of_items ?_ h.postSpawn rfl (fun _ ↦ rfl) ?_ ?_ h.batches h.batched
  · have hsame : waitingServerbound options
        (forwardServerboundCall false packet ++ [.candidates packets] ++ rest) =
          waitingServerbound options (.routeServerbound packet packets :: rest) := by
      refine waiting_mono ?_ rest
      simp [waitingServerbound, forwardServerboundCall, Instr.serverbound]
    rw [← h.items, serverboundLine, hsame]
    rfl
  · intro i hi hforwards
    rcases List.mem_append.mp hi with hi | hi
    · refine ⟨hphase, ?_⟩
      simp only [forwardServerboundCall, List.mem_append, List.mem_cons, List.not_mem_nil,
        or_false] at hi
      rcases hi with (rfl | rfl | rfl) | rfl <;> simp_all [Instr.forwards]
    · exact h.downstream_rest_forwards i hi hforwards
  · rintro ⟨i, hi, hsends⟩
    rcases List.mem_append.mp hi with hi | hi
    · simp only [forwardServerboundCall, List.mem_append, List.mem_cons, List.not_mem_nil,
        or_false] at hi
      rcases hi with (rfl | rfl | rfl) | rfl <;> simp [Instr.sends] at hsends
    · exact h.downstream_rest_sends ⟨i, hi, hsends⟩

theorem downstream_forwards
    (h : ServerboundOrder options s (.forwardServerbound packet immediate :: rest) upstream arrived)
    (hdirect : isPlainServerbound packet → waitingServerbound options upstream = []) :
    ServerboundOrder options s (.sendUpstream client packet immediate :: rest) upstream
      arrived := by
  have hforward := h.downstreamForwards _ List.mem_cons_self
  refine h.downstream_of_items ?_ h.postSpawn rfl (fun _ ↦ rfl) ?_ ?_ h.batches h.batched
  · rw [← h.items]
    rfl
  · intro i hi hforwards
    rcases List.mem_cons.mp hi with rfl | hi
    · exact hforward hforwards
    · exact h.downstream_rest_forwards i hi hforwards
  · rintro ⟨i, hi, hsends⟩
    rcases List.mem_cons.mp hi with rfl | hi
    · exact hdirect hsends
    · exact h.downstream_rest_sends ⟨i, hi, hsends⟩

theorem downstream_sends
    (h : ServerboundOrder options s (.sendUpstream client packet immediate :: rest) upstream
      arrived)
    (hplain : isPlainServerbound packet = true) :
    ServerboundOrder options
      { s with sentUpstream := s.sentUpstream ++ [⟨client, packet, immediate⟩] } rest upstream
      arrived := by
  have hforwards : (Instr.sendUpstream client packet immediate).forwards = some immediate :=
    if_pos hplain
  obtain ⟨hgame, himmediate⟩ := h.downstreamForwards _ List.mem_cons_self (by simp [hforwards])
  obtain rfl : immediate = false := Option.some.inj (hforwards.symm.trans himmediate)
  have hwaiting := h.direct ⟨_, List.mem_cons_self, hplain⟩
  have hsent := sentPlain_append_of_plain s ⟨client, packet, false⟩ hplain
  have hfilter : waitingServerbound options [.sendUpstream client packet false] = [packet] := by
    simp [waitingServerbound, Instr.serverbound, hplain]
  refine h.downstream_of_items ?_ h.postSpawn rfl (fun _ ↦ rfl) h.downstream_rest_forwards
    h.downstream_rest_sends ?_ fun _ ↦ ⟨hgame, hwaiting⟩
  · rw [← h.items]
    simp only [serverboundLine, hsent, hwaiting, h.parked hgame]
    rw [waitingServerbound_cons, hfilter, List.map_append]
    exact (Handover.Step.deliverDirectly _ [packet] _).items_unchanged
  · rw [hsent, List.pairwise_append]
    refine ⟨h.batches, List.pairwise_singleton _ _, ?_⟩
    simp

/-- The thread of the player runs an instruction. -/
theorem downstream_step (h : ServerboundOrder options s (instr :: rest) upstream arrived)
    (hordinary : instr.ordinary downstreamWorker)
    (hpark : (∃ packet, instr = .parkServerbound packet) → s.session.upstreamPhase ≠ .game)
    (hdirect : ∀ packet immediate, instr = .forwardServerbound packet immediate →
      isPlainServerbound packet → waitingServerbound options upstream = [])
    (heffect : ServerboundEffect options s instr s' instrs) :
    ServerboundOrder options s' (instrs ++ rest) upstream arrived := by
  cases heffect with
  | goesOn same before waiting after => exact h.downstream_goesOn same waiting after
  | parks packet before state after =>
      subst state after
      rcases before with rfl | ⟨hphase, immediate, rfl⟩
      · exact h.downstream_parks (hpark ⟨packet, rfl⟩) rfl
      · exact h.downstream_parks hphase rfl
  | routes packet packets before phase state after =>
      subst before state after
      exact h.downstream_routes phase
  | forwards packet immediate client before phase state after =>
      subst before state after
      exact h.downstream_forwards (hdirect packet immediate rfl)
  | sends client packet immediate before state after =>
      subst before state after
      cases hplain : isPlainServerbound packet with
      | true => exact h.downstream_sends hplain
      | false =>
          exact h.downstream_goesOn (same_of_not_plain h.postSpawn hplain)
            (waiting_of_not_plain rfl hplain).symm (by simp)
  | joins client before =>
      subst before
      simp [Instr.ordinary, upstreamWorker, downstreamWorker] at hordinary
  | flushes client before =>
      subst before
      simp [Instr.ordinary, upstreamWorker, downstreamWorker] at hordinary

/-- The thread of the upstream client goes on, and keeps the packets in line. -/
theorem upstream_of_items {upstream' : List Instr}
    (h : ServerboundOrder options s downstream upstream arrived)
    (hitems : (serverboundLine options s' downstream upstream').items = arrived)
    (hpost : KeepsPostSpawn s') (hphase : s'.session.upstreamPhase = s.session.upstreamPhase)
    (hpending : s.session.upstreamPhase = .game →
      s'.session.pendingServerbound = s.session.pendingServerbound)
    (hforwards : ∀ i ∈ upstream', i.forwards ≠ none →
      s.session.upstreamPhase = .game ∧ i.forwards = some true)
    (hwaiting : waitingServerbound options upstream = [] →
      waitingServerbound options upstream' = [])
    (hflushing : ∀ client, .flushServerbound client ∈ upstream' → s.session.upstreamPhase ≠ .game)
    (hjoin : upstream'.countP Instr.joinsUpstream ≤ 1)
    (hbatches : s'.sentPlain.Pairwise fun sent sent' ↦ sent'.immediate → sent.immediate)
    (hbatched : (∃ sent ∈ s'.sentPlain, sent.immediate = false) →
      ∃ sent ∈ s.sentPlain, sent.immediate = false) :
    ServerboundOrder options s' downstream upstream' arrived where
  items := hitems
  postSpawn := hpost
  parked hgame := by
    rw [hphase] at hgame
    rw [hpending hgame, h.parked hgame]
  downstreamForwards := by
    rw [hphase]
    exact h.downstreamForwards
  upstreamForwards := by
    rw [hphase]
    exact hforwards
  before := by
    rw [hphase]
    exact fun hgame ↦ hwaiting (h.before hgame)
  direct hsends := hwaiting (h.direct hsends)
  flushing := by
    rw [hphase]
    exact hflushing
  join := hjoin
  batches := hbatches
  batched hsent := by
    rw [hphase]
    exact (h.batched (hbatched hsent)).imp_right hwaiting

theorem only_join (h : ServerboundOrder options s downstream (instr :: rest) arrived)
    (hjoins : instr.joinsUpstream) : rest.countP Instr.joinsUpstream = 0 := by
  have hjoin := h.join
  rw [List.countP_cons, if_pos hjoins] at hjoin
  omega

theorem forwards_flatMap :
    ∀ i ∈ packets.flatMap (forwardServerboundCall immediate), i.forwards ≠ none →
      i.forwards = some immediate := by
  intro i hi hforwards
  obtain ⟨packet, -, hi⟩ := List.mem_flatMap.mp hi
  simp only [forwardServerboundCall, List.mem_cons, List.not_mem_nil, or_false] at hi
  rcases hi with rfl | rfl | rfl <;> simp_all [Instr.forwards]

theorem joins_flatMap :
    ∀ i ∈ packets.flatMap (forwardServerboundCall true), i.joinsUpstream = false := by
  intro i hi
  obtain ⟨packet, -, hi⟩ := List.mem_flatMap.mp hi
  simp only [forwardServerboundCall, List.mem_cons, List.not_mem_nil, or_false] at hi
  rcases hi with rfl | rfl | rfl <;> rfl

theorem upstream_rest_forwards
    (h : ServerboundOrder options s downstream (instr :: rest) arrived) :
    ∀ i ∈ rest, i.forwards ≠ none → s.session.upstreamPhase = .game ∧ i.forwards = some true :=
  fun i hi ↦ h.upstreamForwards i (List.mem_cons_of_mem _ hi)

theorem upstream_rest_flushing
    (h : ServerboundOrder options s downstream (instr :: rest) arrived) :
    ∀ client, .flushServerbound client ∈ rest → s.session.upstreamPhase ≠ .game :=
  fun client hi ↦ h.flushing client (List.mem_cons_of_mem _ hi)

theorem upstream_rest_join (h : ServerboundOrder options s downstream (instr :: rest) arrived) :
    rest.countP Instr.joinsUpstream ≤ 1 :=
  (List.Sublist.countP_le (List.sublist_cons_self instr rest)).trans h.join

theorem waiting_rest (h : waitingServerbound options (instr :: rest) = []) :
    waitingServerbound options rest = [] := by
  rw [waitingServerbound_cons] at h
  exact (List.append_eq_nil_iff.mp h).2

theorem upstream_goesOn (h : ServerboundOrder options s downstream (instr :: rest) arrived)
    (same : SameServerbound s s')
    (waiting : waitingServerbound options instrs = waitingServerbound options [instr])
    (after : ∀ i ∈ instrs, i.Passive) :
    ServerboundOrder options s' downstream (instrs ++ rest) arrived := by
  obtain ⟨hsent, hpending, hphase, hpost⟩ := same
  refine h.upstream_of_items ?_ hpost hphase (fun _ ↦ hpending) ?_ ?_ ?_ ?_ ?_ ?_
  · rw [← h.items]
    simp only [serverboundLine, hsent, hpending, waiting_mono waiting]
  · intro i hi hforwards
    rcases List.mem_append.mp hi with hi | hi
    · exact absurd (after i hi).1 hforwards
    · exact h.upstream_rest_forwards i hi hforwards
  · rw [waiting_mono waiting]
    exact id
  · intro client hi
    rcases List.mem_append.mp hi with hi | hi
    · exact absurd (after _ hi).2 (by simp [Instr.joinsUpstream])
    · exact h.upstream_rest_flushing client hi
  · rw [List.countP_append, List.countP_eq_zero.mpr, Nat.zero_add]
    · exact h.upstream_rest_join
    · exact fun i hi ↦ by simp [(after i hi).2]
  · rw [hsent]
    exact h.batches
  · rw [hsent]
    exact id

/-- Only a packet that is not plain is parked by this thread. -/
theorem upstream_parks
    (h : ServerboundOrder options s downstream (.forwardServerbound packet immediate :: rest)
      arrived)
    (hphase : s.session.upstreamPhase ≠ .game) :
    ServerboundOrder options { s with session := { s.session with
      pendingServerbound := s.session.pendingServerbound ++ [packet] } } downstream rest
      arrived := by
  have hplain : isPlainServerbound packet = false := by
    rw [← Bool.not_eq_true]
    intro hplain
    have hforwards : (Instr.forwardServerbound packet immediate).forwards = some immediate :=
      if_pos hplain
    exact hphase (h.upstreamForwards _ List.mem_cons_self (by simp [hforwards])).1
  refine h.upstream_of_items ?_ h.postSpawn rfl (fun hgame ↦ absurd hgame hphase)
    h.upstream_rest_forwards waiting_rest h.upstream_rest_flushing h.upstream_rest_join h.batches id
  rw [← h.items, serverboundLine, serverboundLine, waitingServerbound_cons,
    waiting_of_not_plain rfl hplain, List.filter_append, List.filter_singleton, hplain]
  simp only [List.nil_append, cond_false, List.append_nil]
  rfl

theorem upstream_forwards
    (h : ServerboundOrder options s downstream (.forwardServerbound packet immediate :: rest)
      arrived) :
    ServerboundOrder options s downstream (.sendUpstream client packet immediate :: rest)
      arrived := by
  have hforward := h.upstreamForwards _ List.mem_cons_self
  refine h.upstream_of_items ?_ h.postSpawn rfl (fun _ ↦ rfl) ?_ id ?_ h.join h.batches id
  · rw [← h.items]
    rfl
  · intro i hi hforwards
    rcases List.mem_cons.mp hi with rfl | hi
    · exact hforward hforwards
    · exact h.upstream_rest_forwards i hi hforwards
  · intro client' hi
    rcases List.mem_cons.mp hi with hi | hi
    · cases hi
    · exact h.upstream_rest_flushing client' hi

theorem upstream_sends
    (h : ServerboundOrder options s downstream (.sendUpstream client packet immediate :: rest)
      arrived)
    (hplain : isPlainServerbound packet = true) :
    ServerboundOrder options
      { s with sentUpstream := s.sentUpstream ++ [⟨client, packet, immediate⟩] } downstream rest
      arrived := by
  have hforwards : (Instr.sendUpstream client packet immediate).forwards = some immediate :=
    if_pos hplain
  obtain ⟨hgame, himmediate⟩ := h.upstreamForwards _ List.mem_cons_self (by simp [hforwards])
  obtain rfl : immediate = true := Option.some.inj (hforwards.symm.trans himmediate)
  have hsent := sentPlain_append_of_plain s ⟨client, packet, true⟩ hplain
  have hfilter : waitingServerbound options [.sendUpstream client packet true] = [packet] := by
    simp [waitingServerbound, Instr.serverbound, hplain]
  have hbatched : ¬ ∃ sent ∈ s.sentPlain, sent.immediate = false := by
    intro hbatched
    have hnil := (h.batched hbatched).2
    rw [waitingServerbound_cons, hfilter] at hnil
    cases hnil
  refine h.upstream_of_items ?_ h.postSpawn rfl (fun _ ↦ rfl) h.upstream_rest_forwards waiting_rest
    h.upstream_rest_flushing h.upstream_rest_join ?_ ?_
  · rw [← h.items, serverboundLine, serverboundLine, hsent, waitingServerbound_cons, hfilter,
      List.map_append]
    exact (Handover.Step.deliverFlushed _ [packet] _ _ _).items_unchanged
  · rw [hsent, List.pairwise_append]
    refine ⟨h.batches, List.pairwise_singleton _ _, fun sent hsent sent' hsent' _ ↦ ?_⟩
    by_contra hnot
    exact hbatched ⟨sent, hsent, by simpa using hnot⟩
  · rw [hsent]
    rintro ⟨sent, hsent, hfalse⟩
    rcases List.mem_append.mp hsent with hsent | hsent
    · exact ⟨sent, hsent, hfalse⟩
    · rw [List.mem_singleton.mp hsent] at hfalse
      cases hfalse

theorem upstream_joins
    (h : ServerboundOrder options s downstream (.upstreamJoin client :: rest) arrived) :
    ServerboundOrder options s downstream
      ((if s.session.upstreamPhase = .negotiating then
        [.writeCacheStatus client, .flushServerbound client] else []) ++ rest) arrived := by
  have hnone := h.only_join rfl
  refine h.upstream_of_items ?_ h.postSpawn rfl (fun _ ↦ rfl) ?_ ?_ ?_ ?_ h.batches id
  · rw [← h.items]
    split <;> rfl
  · intro i hi hforwards
    rcases List.mem_append.mp hi with hi | hi
    · split at hi <;> simp only [List.mem_cons, List.not_mem_nil, or_false] at hi
      rcases hi with rfl | rfl <;> exact absurd rfl hforwards
    · exact h.upstream_rest_forwards i hi hforwards
  · split <;> exact id
  · intro client' hi
    rcases List.mem_append.mp hi with hi | hi
    · split at hi
      · rename_i hnegotiating
        simp [hnegotiating]
      · cases hi
    · exact h.upstream_rest_flushing client' hi
  · rw [List.countP_append, hnone]
    split
    · exact Nat.le_refl 1
    · exact Nat.zero_le 1

/-- The parked packets are on their way, and no other one is. -/
theorem upstream_flushes
    (h : ServerboundOrder options s downstream (.flushServerbound client :: rest) arrived) :
    ServerboundOrder options
      { s with session := { s.session with upstreamPhase := .game, pendingServerbound := [] } }
      downstream
      (s.session.pendingServerbound.flatMap (forwardServerboundCall true) ++
        [.finishUpstreamJoin client] ++ rest) arrived := by
  have hnone := h.only_join rfl
  have hgame := h.flushing client List.mem_cons_self
  have hidle : ∀ i ∈ downstream, i.forwards = none := by
    intro i hi
    by_contra hforwards
    exact hgame (h.downstreamForwards i hi hforwards).1
  have hjoins : (s.session.pendingServerbound.flatMap (forwardServerboundCall true) ++
      [Instr.finishUpstreamJoin client] ++ rest).countP Instr.joinsUpstream = 0 := by
    rw [List.countP_append, List.countP_append, hnone, List.countP_eq_zero.mpr]
    · rfl
    · exact fun i hi ↦ by simp [joins_flatMap i hi]
  refine
    { items := ?_
      postSpawn := h.postSpawn
      parked := fun _ ↦ rfl
      downstreamForwards := fun i hi hforwards ↦ absurd (hidle i hi) hforwards
      upstreamForwards := ?_
      before := fun hnot ↦ absurd rfl hnot
      direct := ?_
      flushing := ?_
      join := hjoins.le.trans zero_le_one
      batches := h.batches
      batched := ?_ }
  · have hwaiting := waiting_rest (h.before hgame)
    have hfinish : waitingServerbound options [.finishUpstreamJoin client] = [] := rfl
    have hitems := h.items
    rw [serverboundLine, h.before hgame] at hitems
    rw [← hitems, serverboundLine, waitingServerbound_append, waitingServerbound_append,
      waitingServerbound_flatMap, hwaiting, List.append_nil, hfinish, List.append_nil]
    exact (Handover.Step.flush _ _ _).items_unchanged
  · intro i hi hforwards
    refine ⟨rfl, ?_⟩
    rcases List.mem_append.mp hi with hi | hi
    · rcases List.mem_append.mp hi with hi | hi
      · exact forwards_flatMap i hi hforwards
      · rw [List.mem_singleton.mp hi] at hforwards
        exact absurd rfl hforwards
    · exact (h.upstream_rest_forwards i hi hforwards).2
  · rintro ⟨i, hi, hsends⟩
    exact absurd (hidle i hi) (sends_forwards hsends)
  · intro client' hi
    exact absurd rfl (List.countP_eq_zero.mp hjoins _ hi)
  · intro hbatched
    exact absurd (h.batched hbatched).1 hgame

/-- The thread of the upstream client runs an instruction. -/
theorem upstream_step (h : ServerboundOrder options s downstream (instr :: rest) arrived)
    (hordinary : instr.ordinary upstreamWorker)
    (heffect : ServerboundEffect options s instr s' instrs) :
    ServerboundOrder options s' downstream (instrs ++ rest) arrived := by
  cases heffect with
  | goesOn same before waiting after => exact h.upstream_goesOn same waiting after
  | parks packet before state after =>
      subst state after
      rcases before with rfl | ⟨hphase, immediate, rfl⟩
      · simp [Instr.ordinary, upstreamWorker, downstreamWorker] at hordinary
      · exact h.upstream_parks hphase
  | routes packet packets before =>
      subst before
      simp [Instr.ordinary, upstreamWorker, downstreamWorker] at hordinary
  | forwards packet immediate client before phase state after =>
      subst before state after
      exact h.upstream_forwards
  | sends client packet immediate before state after =>
      subst before state after
      cases hplain : isPlainServerbound packet with
      | true => exact h.upstream_sends hplain
      | false =>
          exact h.upstream_goesOn (same_of_not_plain h.postSpawn hplain)
            (waiting_of_not_plain rfl hplain).symm (by simp)
  | joins client before state after =>
      subst before state after
      exact h.upstream_joins
  | flushes client before state after =>
      subst before state after
      exact h.upstream_flushes

/-- The idle thread of the player is called. -/
theorem downstream_call (h : ServerboundOrder options s [] upstream arrived)
    (hforwards : ∀ i ∈ instrs, i.forwards = none) :
    ServerboundOrder options s instrs upstream (arrived ++ waitingServerbound options instrs) where
  items := by
    rw [← h.items]
    exact (Handover.Step.arrive _ _ _ [] _).items_eq
  postSpawn := h.postSpawn
  parked := h.parked
  downstreamForwards i hi hforward := absurd (hforwards i hi) hforward
  upstreamForwards := h.upstreamForwards
  before := h.before
  direct := by
    rintro ⟨i, hi, hsends⟩
    exact absurd (hforwards i hi) (sends_forwards hsends)
  flushing := h.flushing
  join := h.join
  batches := h.batches
  batched := h.batched

/-- The idle thread of the upstream client is called. -/
theorem upstream_call (h : ServerboundOrder options s downstream [] arrived)
    (hwaiting : waitingServerbound options instrs = [])
    (hforwards : ∀ i ∈ instrs, i.forwards = none)
    (hflushing : ∀ client, .flushServerbound client ∉ instrs)
    (hjoin : instrs.countP Instr.joinsUpstream ≤ 1) :
    ServerboundOrder options s downstream instrs arrived where
  items := by
    rw [← h.items, serverboundLine, hwaiting]
    rfl
  postSpawn := h.postSpawn
  parked := h.parked
  downstreamForwards := h.downstreamForwards
  upstreamForwards i hi hforward := absurd (hforwards i hi) hforward
  before _ := hwaiting
  direct _ := hwaiting
  flushing client hi := absurd hi (hflushing client)
  join := hjoin
  batches := h.batches
  batched hbatched := ⟨(h.batched hbatched).1, hwaiting⟩

end ServerboundOrder

/-! ## Runs -/

/-- The packets that have to reach the upstream client. -/
def serverboundArrivals (options : BedrockLiveRelayOptions) : Label → List VersionedGamePacket
  | .call _ (.downstreamPacket packet) =>
      ([packet].filter (passesDownstreamFilter options)).filter isPlainServerbound
  | _ => []

theorem serverboundArrivals_eq_nil {label : Label}
    (h : ∀ t packet, label ≠ .call t (.downstreamPacket packet)) :
    serverboundArrivals options label = [] := by
  unfold serverboundArrivals
  split
  · exact absurd rfl (h _ _)
  · rfl

/-- Once the upstream client has joined, no packet is parked any more, and one
from the player is forwarded only when all the parked ones are sent. -/
def serverboundInTurn (options : BedrockLiveRelayOptions) (s : State) : Label → Bool
  | .exec t _ =>
      match s.todo t with
      | .parkServerbound _ :: _ => s.shared.session.upstreamPhase ≠ .game
      | .forwardServerbound packet _ :: _ =>
          t = downstreamWorker → isPlainServerbound packet →
            waitingServerbound options (s.todo upstreamWorker) = []
      | _ => true
  | _ => true

/-- Anything may happen but packets out of turn. -/
def KeepsServerboundOrder (options : BedrockLiveRelayOptions) (s : State) (label : Label) : Prop :=
  arrives s label ∧ serverboundInTurn options s label

instance (s : State) (label : Label) : Decidable (KeepsServerboundOrder options s label) :=
  inferInstanceAs (Decidable (_ ∧ _))

structure ServerboundInOrder (options : BedrockLiveRelayOptions) (s : State)
    (arrived : List VersionedGamePacket) : Prop where
  undisturbed : Undisturbed s
  order : ServerboundOrder options s.shared (s.todo downstreamWorker) (s.todo upstreamWorker)
    arrived

namespace ServerboundInOrder

variable {s : State} {arrived : List VersionedGamePacket}

theorem exec (h : ServerboundInOrder options s arrived) {t : ℕ} {answer : Answer}
    (harrives : arrives s (.exec t answer)) (hturn : serverboundInTurn options s (.exec t answer)) :
    ServerboundInOrder options (s.exec (perform options answer) t) arrived := by
  cases htodo : s.todo t with
  | nil => rwa [Threads.exec_of_idle htodo]
  | cons instr rest =>
      cases hperform : perform options answer t s.shared instr with
      | none => rwa [Threads.exec_of_waits htodo hperform]
      | some result =>
          obtain ⟨shared, instrs⟩ := result
          have hundisturbed := h.undisturbed
          have heffect : ServerboundEffect options s.shared instr shared instrs := by
            refine perform_serverbound (hundisturbed.head_ordinary htodo)
              hundisturbed.acceptsPackets hundisturbed.upstream hundisturbed.registered
              h.order.postSpawn ?_ hperform
            rintro direction packet rfl
            simpa [arrives, htodo] using harrives
          refine ⟨hundisturbed.exec, ?_⟩
          rw [Threads.exec_of_performs htodo hperform]
          have horder := h.order
          have hordinary := hundisturbed.head_ordinary htodo
          rcases hundisturbed.worker (List.ne_nil_of_mem (htodo ▸ List.mem_cons_self)) with
            rfl | rfl
          · rw [htodo] at horder
            rw [Threads.resume_todo_self, Threads.resume_todo_of_ne _ (by decide)]
            refine horder.downstream_step hordinary ?_ ?_ heffect
            · rintro ⟨packet, rfl⟩
              simpa [serverboundInTurn, htodo] using hturn
            · rintro packet immediate rfl hplain
              simpa [serverboundInTurn, htodo, hplain] using hturn
          · rw [htodo] at horder
            rw [Threads.resume_todo_self, Threads.resume_todo_of_ne _ (by decide)]
            exact horder.upstream_step hordinary heffect

theorem call (h : ServerboundInOrder options s arrived) {t : ℕ} {call : Call}
    (harrives : arrives s (.call t call)) :
    ServerboundInOrder options (s.resume t s.shared call.body)
      (arrived ++ serverboundArrivals options (.call t call)) := by
  obtain ⟨hidle, -, hundisturbed⟩ := @Undisturbed.step_call options _ h.undisturbed _ _ harrives
  refine ⟨hundisturbed, ?_⟩
  have horder := h.order
  cases call with
  | downstreamJoin =>
      obtain ⟨rfl, -⟩ := of_decide_eq_true harrives
      rw [hidle] at horder
      rw [Threads.resume_todo_self, Threads.resume_todo_of_ne _ (by decide)]
      exact horder.downstream_call (by simp [Call.body, Instr.forwards])
  | downstreamPacket packet =>
      obtain ⟨rfl, -⟩ := of_decide_eq_true harrives
      have hwaiting : waitingServerbound options (Call.downstreamPacket packet).body =
          serverboundArrivals options (.call downstreamWorker (.downstreamPacket packet)) := by
        simp [waitingServerbound, Call.body, Instr.serverbound, serverboundArrivals]
      rw [hidle] at horder
      rw [Threads.resume_todo_self, Threads.resume_todo_of_ne _ (by decide), ← hwaiting]
      exact horder.downstream_call (by simp [Call.body, Instr.forwards])
  | upstreamJoin upstream | upstreamPacket upstream packet =>
      obtain ⟨rfl, -, -⟩ := of_decide_eq_true harrives
      rw [hidle] at horder
      rw [Threads.resume_todo_self, Threads.resume_todo_of_ne _ (by decide),
        serverboundArrivals_eq_nil (by simp), List.append_nil]
      exact horder.upstream_call rfl (by simp [Call.body, Instr.forwards]) (by simp [Call.body])
        List.countP_le_length
  | _ => simp [arrives] at harrives

theorem step (h : ServerboundInOrder options s arrived) {label : Label}
    (hkeeps : KeepsServerboundOrder options s label) :
    ServerboundInOrder options (step options s label)
      (arrived ++ serverboundArrivals options label) := by
  obtain ⟨harrives, hturn⟩ := hkeeps
  cases label with
  | call t call =>
      rw [(h.undisturbed.step_call harrives).2.1]
      exact h.call harrives
  | exec t answer =>
      rw [serverboundArrivals_eq_nil (by simp), List.append_nil]
      exact h.exec harrives hturn
  | throwing t => simp [arrives] at harrives

end ServerboundInOrder

theorem serverboundInOrder_loggedIn (options : BedrockLiveRelayOptions) :
    ServerboundInOrder options (loggedIn options) [] := by
  refine ⟨undisturbed_loggedIn options, ?_⟩
  rw [loggedIn_shared, loggedIn_todo, loggedIn_todo]
  exact
    { items := rfl
      postSpawn := by simp [KeepsPostSpawn]
      parked := fun _ ↦ rfl
      downstreamForwards := by simp
      upstreamForwards := by simp
      before := fun _ ↦ rfl
      direct := by simp
      flushing := by simp
      join := Nat.zero_le 1
      batches := List.Pairwise.nil
      batched := by simp [Relay.sentPlain] }

theorem serverbound_in_order (options : BedrockLiveRelayOptions) (labels : List Label)
    (h : AllSteps (step options) (KeepsServerboundOrder options) (loggedIn options) labels) :
    let s := run (step options) (loggedIn options) labels
    let arrived := labels.flatMap (serverboundArrivals options)
    s.shared.sentPlain.map Sent.packet <+: arrived ∧
      s.shared.sentPlain.Pairwise (fun sent sent' ↦ sent'.immediate → sent.immediate) ∧
      (s.shared.session.upstreamPhase = .game → s.shared.session.pendingServerbound = []) ∧
      (s.todo downstreamWorker = [] → s.todo upstreamWorker = [] →
        s.shared.session.upstreamPhase = .game →
        s.shared.sentPlain.map Sent.packet = arrived) := by
  intro s arrived
  have horder := (invariant_run_collected (fun _ _ _ hs ↦ hs.step)
    (serverboundInOrder_loggedIn options) h).order
  rw [List.nil_append] at horder
  refine ⟨?_, horder.batches, horder.parked, fun hdownstream hupstream hgame ↦ ?_⟩
  · have hahead := Handover.delivered_prefix (serverboundLine options s.shared
      (s.todo downstreamWorker) (s.todo upstreamWorker))
    rwa [horder.items] at hahead
  · have hitems := horder.items
    rw [serverboundLine, hdownstream, hupstream, horder.parked hgame] at hitems
    simpa [Handover.items, waitingServerbound] using hitems

/-! ## Parked after the flush -/

def downstreamSends (packet : VersionedGamePacket) (steps : ℕ) : List Label :=
  .call downstreamWorker (.downstreamPacket packet) ::
    List.replicate steps (.exec downstreamWorker { packets := [packet] })

def upstreamJoins : List Label :=
  .call upstreamWorker (.upstreamJoin onlyUpstream) ::
    List.replicate 12 (.exec upstreamWorker {})

theorem serverbound_in_order_upstreamJoins :
    (run (step defaultOptions) (loggedIn defaultOptions)
      (downstreamSends (chat [1]) 12 ++ upstreamJoins ++
        downstreamSends (chat [2]) 15)).shared.sentPlain.map Sent.packet = [chat [1], chat [2]] :=
  (serverbound_in_order defaultOptions _ (by decide +kernel)).2.2.2
    (by decide +kernel) (by decide +kernel) (by decide +kernel)

/-- The upstream client joins between the check that it has not and the parking
of the packet, which then stays there. -/
theorem serverbound_parked_after_flush :
    let s := run (step defaultOptions) (loggedIn defaultOptions)
      (downstreamSends (chat [1]) 10 ++ upstreamJoins ++
        List.replicate 2 (.exec downstreamWorker {}))
    (s.shared.session.upstreamPhase = .game ∧ s.todo downstreamWorker = [] ∧
        s.todo upstreamWorker = [] ∧ s.shared.session.pendingServerbound = [chat [1]] ∧
        s.shared.sentPlain = []) ∧
      ¬ ∀ (options : BedrockLiveRelayOptions) (labels : List Label),
        AllSteps (step options) (fun s label ↦ arrives s label) (loggedIn options) labels →
        (run (step options) (loggedIn options) labels).shared.session.upstreamPhase = .game →
        (run (step options) (loggedIn options) labels).todo upstreamWorker = [] →
        (run (step options) (loggedIn options)
          labels).shared.session.pendingServerbound = [] := by
  intro s
  have hstuck : s.shared.session.upstreamPhase = .game ∧ s.todo downstreamWorker = [] ∧
      s.todo upstreamWorker = [] ∧ s.shared.session.pendingServerbound = [chat [1]] ∧
      s.shared.sentPlain = [] := by decide +kernel
  refine ⟨hstuck, fun hall ↦ ?_⟩
  obtain ⟨hgame, -, hidle, hpending, -⟩ := hstuck
  have hempty := hall defaultOptions _ (by decide +kernel) hgame hidle
  rw [hpending] at hempty
  cases hempty

end BedrockProtocol.BedrockLiveRelay
