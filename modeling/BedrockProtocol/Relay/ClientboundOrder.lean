import BedrockProtocol.Lib.Handover
import BedrockProtocol.Relay.HeldChunks
import BedrockProtocol.Relay.UndisturbedSession

/-!
# The order of clientbound packets

Packets that come before the player has joined are parked, and the thread that
brings the join delivers them.  All packets stay in order unless one passes the
parked ones while that goes on.
-/

namespace BedrockProtocol.BedrockLiveRelay

variable {options : BedrockLiveRelayOptions}

/-! ## The way of a packet -/

/-- The packets that an instruction still has to bring to the player. -/
def Instr.clientbound (options : BedrockLiveRelayOptions) : Instr → List VersionedGamePacket
  | .upstreamPacket _ packet | .handleUpstreamPacket packet =>
      [packet].filter (passesUpstreamFilter options)
  | .enterHandlers .clientbound packet | .handlers .clientbound packet
  | .forwardClientbound packet => [packet]
  | .leaveHandlers .clientbound _ packets | .deliver .clientbound _ packets => packets
  | .queuePacket packet heldChunks => packet :: heldChunks
  | .queuePackets heldChunks => heldChunks
  | _ => []

def Instr.queuesClientbound : Instr → Bool
  | .queuePacket _ _ | .queuePackets _ => true
  | _ => false

def Instr.joinsDownstream : Instr → Bool
  | .handleDownstreamJoin | .flushClientbound => true
  | _ => false

def waitingClientbound (options : BedrockLiveRelayOptions) (instrs : List Instr) :
    List VersionedGamePacket :=
  instrs.flatMap (Instr.clientbound options)

/-- Where the packets are while the threads have to run `downstream` and
`upstream`. -/
def clientboundLine (options : BedrockLiveRelayOptions) (s : Relay)
    (downstream upstream : List Instr) : Handover VersionedGamePacket where
  delivered := s.queuedDownstream
  flushing := waitingClientbound options downstream
  parked := s.session.pendingClientbound
  coming := waitingClientbound options upstream

/-- The instruction neither queues packets nor joins the player. -/
def Instr.Quiet (instr : Instr) : Prop :=
  instr.queuesClientbound = false ∧ instr.joinsDownstream = false

/-- What is the same for clientbound packets. -/
structure SameClientbound (s s' : Relay) : Prop where
  queued : s'.queuedDownstream = s.queuedDownstream
  pending : s'.session.pendingClientbound = s.session.pendingClientbound
  held : s'.session.heldClientboundLevelChunks = s.session.heldClientboundLevelChunks
  phase : s'.session.downstreamPhase = s.session.downstreamPhase

theorem sameClientbound_refl (s : Relay) : SameClientbound s s := ⟨rfl, rfl, rfl, rfl⟩

/-- What an instruction does to clientbound packets. -/
inductive ClientboundEffect (options : BedrockLiveRelayOptions) (s : Relay) (instr : Instr)
    (s' : Relay) (instrs : List Instr) : Prop
  | goesOn (same : SameClientbound s s') (before : instr.Quiet)
      (waiting : waitingClientbound options instrs = instr.clientbound options)
      (after : ∀ i ∈ instrs, i.Quiet)
  | parks (packet : VersionedGamePacket) (before : instr = .forwardClientbound packet)
      (phase : s.session.downstreamPhase ≠ .game)
      (state : s' = { s with session := { s.session with
        pendingClientbound := s.session.pendingClientbound ++ [packet] } })
      (after : instrs = [])
  | routes (packet : VersionedGamePacket) (before : instr = .forwardClientbound packet)
      (phase : s.session.downstreamPhase = .game) (same : SameClientbound s s')
      (after : instrs = [.queuePacket packet []])
  | queues (packet : VersionedGamePacket) (heldChunks : List VersionedGamePacket)
      (before : instr = .queuePacket packet heldChunks)
      (state : s' = { s with queuedDownstream := s.queuedDownstream ++ [packet] })
      (after : instrs = if heldChunks = [] then [] else [.queuePackets heldChunks])
  | queuesAll (heldChunks : List VersionedGamePacket) (before : instr = .queuePackets heldChunks)
      (state : s' = { s with queuedDownstream := s.queuedDownstream ++ heldChunks })
      (after : instrs = [])
  | joins (before : instr = .handleDownstreamJoin)
      (state : s' = { s with session := { s.session with downstreamPhase := .game } })
      (after : instrs = [.application, .flushClientbound])
  | flushes (before : instr = .flushClientbound)
      (state : s' = { s with session := { s.session with pendingClientbound := [] } })
      (after : instrs = s.session.pendingClientbound.flatMap forwardClientboundCall)

theorem waitingClientbound_append (instrs instrs' : List Instr) :
    waitingClientbound options (instrs ++ instrs') =
      waitingClientbound options instrs ++ waitingClientbound options instrs' :=
  List.flatMap_append

theorem waitingClientbound_cons (instr : Instr) (instrs : List Instr) :
    waitingClientbound options (instr :: instrs) =
      instr.clientbound options ++ waitingClientbound options instrs :=
  List.flatMap_cons

theorem waitingClientbound_flatMap (packets : List VersionedGamePacket) :
    waitingClientbound options (packets.flatMap forwardClientboundCall) = packets := by
  induction packets with
  | nil => rfl
  | cons packet packets ih =>
      rw [List.flatMap_cons, waitingClientbound_append, ih]
      rfl

theorem quiet_forwardClientboundCall (packet : VersionedGamePacket) :
    ∀ instr ∈ forwardClientboundCall packet, instr.Quiet := by
  simp [forwardClientboundCall, Instr.Quiet, Instr.queuesClientbound, Instr.joinsDownstream]

theorem quiet_forwardServerboundCall (immediate : Bool) (packet : VersionedGamePacket) :
    ∀ instr ∈ forwardServerboundCall immediate packet, instr.Quiet := by
  simp [forwardServerboundCall, Instr.Quiet, Instr.queuesClientbound, Instr.joinsDownstream]

theorem quiet_flatMap {packets : List VersionedGamePacket} {f : VersionedGamePacket → List Instr}
    (h : ∀ packet, ∀ instr ∈ f packet, instr.Quiet) : ∀ instr ∈ packets.flatMap f, instr.Quiet := by
  intro instr hinstr
  obtain ⟨packet, -, hinstr⟩ := List.mem_flatMap.mp hinstr
  exact h packet instr hinstr

theorem waitingClientbound_serverbound (immediate : Bool) (packets : List VersionedGamePacket) :
    waitingClientbound options (packets.flatMap (forwardServerboundCall immediate)) = [] := by
  induction packets with
  | nil => rfl
  | cons packet packets ih =>
      rw [List.flatMap_cons, waitingClientbound_append, ih]
      rfl

theorem routeClientbound_of_not_levelChunk {session : Session} {now : ℤ}
    {packet : VersionedGamePacket} (haccepts : session.acceptsPackets = true)
    (hheld : session.heldClientboundLevelChunks = []) (hchunk : isLevelChunk packet = false) :
    (session.downstreamPhase ≠ .game ∧ session.routeClientbound options now packet =
      ({ session with pendingClientbound := session.pendingClientbound ++ [packet] }, none)) ∨
    (session.downstreamPhase = .game ∧
      (session.routeClientbound options now packet).2 = some [] ∧
      (session.routeClientbound options now packet).1.pendingClientbound =
        session.pendingClientbound ∧
      (session.routeClientbound options now packet).1.heldClientboundLevelChunks = [] ∧
      (session.routeClientbound options now packet).1.downstreamPhase = .game) := by
  have hname : packet.name ≠ "level_chunk" := by simpa [isLevelChunk] using hchunk
  unfold Session.routeClientbound
  by_cases hgame : session.downstreamPhase = .game
  · refine .inr ⟨hgame, ?_⟩
    simp only [haccepts, hgame, hname, hheld, Bool.not_true, Bool.false_eq_true, ne_eq,
      not_true_eq_false, ↓reduceIte, false_and, and_false]
    split_ifs <;> simp [hgame, hheld]
  · refine .inl ⟨hgame, ?_⟩
    simp [haccepts, hgame]

/-! ## What the instructions do -/

section Instructions

variable {answer : Answer} {t : ℕ} {s s' : Relay} {instrs : List Instr}

theorem clientboundEffect_handleUpstreamPacket {packet : VersionedGamePacket}
    (haccepts : s.session.acceptsPackets = true)
    (h : perform options answer t s (.handleUpstreamPacket packet) = some (s', instrs)) :
    ClientboundEffect options s (.handleUpstreamPacket packet) s' instrs := by
  simp only [perform, haccepts, true_and, Option.some.injEq, Prod.mk.injEq] at h
  obtain ⟨rfl, rfl⟩ := h
  refine .goesOn (sameClientbound_refl s) ⟨rfl, rfl⟩ ?_ ?_
  · by_cases hpasses : passesUpstreamFilter options packet = true <;>
      simp [hpasses, waitingClientbound, applyHandlersCall, Instr.clientbound]
  · split <;> simp [applyHandlersCall, Instr.Quiet, Instr.queuesClientbound,
      Instr.joinsDownstream]

theorem clientboundEffect_writeCacheStatus {upstream : ℕ}
    (h : perform options answer t s (.writeCacheStatus upstream) = some (s', instrs)) :
    ClientboundEffect options s (.writeCacheStatus upstream) s' instrs := by
  simp only [perform] at h
  split at h
  · cases h
    exact .goesOn ⟨rfl, rfl, rfl, rfl⟩ ⟨rfl, rfl⟩ rfl
      (by simp [Instr.Quiet, Instr.queuesClientbound, Instr.joinsDownstream])
  · cases h
    exact .goesOn ⟨rfl, rfl, rfl, rfl⟩ ⟨rfl, rfl⟩ rfl (by simp)

theorem clientboundEffect_flushServerbound {upstream : ℕ}
    (h : perform options answer t s (.flushServerbound upstream) = some (s', instrs)) :
    ClientboundEffect options s (.flushServerbound upstream) s' instrs := by
  simp only [perform] at h
  split at h
  · cases h
    refine .goesOn ⟨rfl, rfl, rfl, rfl⟩ ⟨rfl, rfl⟩ ?_ (List.forall_mem_append.mpr ⟨?_, ?_⟩)
    · rw [waitingClientbound_append, waitingClientbound_serverbound]
      rfl
    · exact quiet_flatMap (quiet_forwardServerboundCall true)
    · simp [Instr.Quiet, Instr.queuesClientbound, Instr.joinsDownstream]
  · cases h
    exact .goesOn ⟨rfl, rfl, rfl, rfl⟩ ⟨rfl, rfl⟩ rfl (by simp)

theorem clientboundEffect_deliver {direction : BedrockRelayDirection} {packet : VersionedGamePacket}
    {packets : List VersionedGamePacket}
    (h : perform options answer t s (.deliver direction packet packets) = some (s', instrs)) :
    ClientboundEffect options s (.deliver direction packet packets) s' instrs := by
  cases direction with
  | clientbound =>
      cases h
      refine .goesOn (sameClientbound_refl s) ⟨rfl, rfl⟩ ?_
        (List.forall_mem_append.mpr ⟨?_, ?_⟩)
      · rw [waitingClientbound_append, waitingClientbound_flatMap]
        split <;> exact List.append_nil _
      · exact quiet_flatMap quiet_forwardClientboundCall
      · split <;> simp [Instr.Quiet, Instr.queuesClientbound, Instr.joinsDownstream]
  | serverbound =>
      cases h
      exact .goesOn (sameClientbound_refl s) ⟨rfl, rfl⟩ rfl
        (by simp [Instr.Quiet, Instr.queuesClientbound, Instr.joinsDownstream])

theorem clientboundEffect_candidates {packets : List VersionedGamePacket}
    (h : perform options answer t s (.candidates packets) = some (s', instrs)) :
    ClientboundEffect options s (.candidates packets) s' instrs := by
  cases packets with
  | nil =>
      cases h
      exact .goesOn (sameClientbound_refl s) ⟨rfl, rfl⟩ rfl (by simp)
  | cons packet packets =>
      have hquiet : ∀ i ∈ [Instr.candidates packets], i.Quiet := by
        simp [Instr.Quiet, Instr.queuesClientbound, Instr.joinsDownstream]
      simp only [perform] at h
      split at h
      · cases h
        refine .goesOn (sameClientbound_refl s) ⟨rfl, rfl⟩ ?_ ?_
        · split <;> rfl
        · split
          · exact List.forall_mem_append.mpr ⟨quiet_forwardServerboundCall false _, hquiet⟩
          · exact hquiet
      split at h
      · split at h
        · cases h
          exact .goesOn (sameClientbound_refl s) ⟨rfl, rfl⟩ rfl (by simp)
        split at h
        · cases h
          exact .goesOn ⟨rfl, rfl, rfl, rfl⟩ ⟨rfl, rfl⟩ rfl hquiet
        · cases h
          exact .goesOn (sameClientbound_refl s) ⟨rfl, rfl⟩ rfl
            (by simp [Instr.Quiet, Instr.queuesClientbound, Instr.joinsDownstream])
      · cases h
        exact .goesOn (sameClientbound_refl s) ⟨rfl, rfl⟩ rfl
          (by simp [Instr.Quiet, Instr.queuesClientbound, Instr.joinsDownstream])

theorem clientboundEffect_routeServerbound {packet : VersionedGamePacket}
    {packets : List VersionedGamePacket}
    (h : perform options answer t s (.routeServerbound packet packets) = some (s', instrs)) :
    ClientboundEffect options s (.routeServerbound packet packets) s' instrs := by
  cases h
  refine .goesOn (sameClientbound_refl s) ⟨rfl, rfl⟩ ?_ ?_
  · split
    · rfl
    · split <;> rfl
  split
  · simp
  split
  · exact List.forall_mem_append.mpr ⟨quiet_forwardServerboundCall false _,
      by simp [Instr.Quiet, Instr.queuesClientbound, Instr.joinsDownstream]⟩
  · simp [Instr.Quiet, Instr.queuesClientbound, Instr.joinsDownstream]

theorem clientboundEffect_forwardServerbound {packet : VersionedGamePacket} {immediate : Bool}
    (h : perform options answer t s (.forwardServerbound packet immediate) = some (s', instrs)) :
    ClientboundEffect options s (.forwardServerbound packet immediate) s' instrs := by
  simp only [perform] at h
  split at h
  · cases h
    exact .goesOn (sameClientbound_refl s) ⟨rfl, rfl⟩ rfl (by simp)
  split at h
  · cases h
    exact .goesOn ⟨rfl, rfl, rfl, rfl⟩ ⟨rfl, rfl⟩ rfl (by simp)
  · cases h
    exact .goesOn (sameClientbound_refl s) ⟨rfl, rfl⟩ rfl
      (by simp [Instr.Quiet, Instr.queuesClientbound, Instr.joinsDownstream])

theorem clientboundEffect_playerSpawned
    (h : perform options answer t s .playerSpawned = some (s', instrs)) :
    ClientboundEffect options s .playerSpawned s' instrs := by
  simp only [perform] at h
  split at h
  · cases h
    exact .goesOn (sameClientbound_refl s) ⟨rfl, rfl⟩ rfl (by simp)
  · cases h
    exact .goesOn ⟨rfl, rfl, rfl, rfl⟩ ⟨rfl, rfl⟩ (waitingClientbound_serverbound false _)
      (quiet_flatMap (quiet_forwardServerboundCall false))

theorem clientboundEffect_forwardClientbound {packet : VersionedGamePacket}
    (haccepts : s.session.acceptsPackets = true)
    (hheld : s.session.heldClientboundLevelChunks = []) (hchunk : isLevelChunk packet = false)
    (h : perform options answer t s (.forwardClientbound packet) = some (s', instrs)) :
    ClientboundEffect options s (.forwardClientbound packet) s' instrs := by
  simp only [perform, Option.some.injEq, Prod.mk.injEq] at h
  obtain ⟨rfl, rfl⟩ := h
  rcases @routeClientbound_of_not_levelChunk options _ answer.now packet haccepts hheld hchunk with
    ⟨hgame, hroute⟩ | ⟨hgame, hqueue, hpending, hheld', hgame'⟩
  · exact .parks packet rfl hgame (by rw [hroute]) (by rw [hroute]; rfl)
  · exact .routes packet rfl hgame ⟨rfl, hpending, hheld'.trans hheld.symm,
      hgame'.trans hgame.symm⟩ (by rw [hqueue]; rfl)

end Instructions

theorem perform_clientbound {answer : Answer} {t : ℕ} {s s' : Relay} {instr : Instr}
    {instrs : List Instr} (hordinary : instr.ordinary t)
    (haccepts : s.session.acceptsPackets = true)
    (hupstream : s.session.upstream = some onlyUpstream)
    (hheld : s.session.heldClientboundLevelChunks = [])
    (hchunk : ∀ packet ∈ instr.clientbound options, isLevelChunk packet = false)
    (hphase : instr.queuesClientbound → s.session.downstreamPhase = .game)
    (hkept : ∀ direction packet, instr = .handlers direction packet → answer.packets = [packet])
    (h : perform options answer t s instr = some (s', instrs)) :
    ClientboundEffect options s instr s' instrs := by
  cases instr with
  | findSession found =>
      cases found with
      | handleDownstreamPacket packet =>
          cases h
          refine .goesOn (sameClientbound_refl s) ⟨rfl, rfl⟩ ?_ ?_
          · split <;> rfl
          · split <;> simp [Instr.Quiet, Instr.queuesClientbound, Instr.joinsDownstream]
      | _ => simp [Instr.ordinary] at hordinary
  | lockDispatch =>
      simp only [perform] at h
      obtain ⟨mutex, -, hs⟩ := Option.map_eq_some_iff.mp h
      cases hs
      exact .goesOn ⟨rfl, rfl, rfl, rfl⟩ ⟨rfl, rfl⟩ rfl (by simp)
  | parkServerbound packet =>
      cases h
      refine .goesOn ?_ ⟨rfl, rfl⟩ rfl (by simp)
      dsimp only
      split <;> exact ⟨rfl, rfl, rfl, rfl⟩
  | application | unlockDispatch | sendUpstream =>
      cases h
      exact .goesOn ⟨rfl, rfl, rfl, rfl⟩ ⟨rfl, rfl⟩ rfl (by simp)
  | upstreamJoin | finishUpstreamJoin =>
      cases h
      refine .goesOn (sameClientbound_refl s) ⟨rfl, rfl⟩ ?_ ?_
      · split <;> rfl
      · split <;> simp [Instr.Quiet, Instr.queuesClientbound, Instr.joinsDownstream]
  | upstreamPacket upstream packet =>
      have honly : upstream = onlyUpstream := (of_decide_eq_true hordinary).2
      simp only [perform, haccepts, hupstream, honly, and_self, if_true, Option.some.injEq,
        Prod.mk.injEq] at h
      obtain ⟨rfl, rfl⟩ := h
      exact .goesOn (sameClientbound_refl s) ⟨rfl, rfl⟩ (List.append_nil _)
        (by simp [Instr.Quiet, Instr.queuesClientbound, Instr.joinsDownstream])
  | handleUpstreamPacket packet => exact clientboundEffect_handleUpstreamPacket haccepts h
  | handleDownstreamPacket packet =>
      cases h
      refine .goesOn (sameClientbound_refl s) ⟨rfl, rfl⟩ ?_ ?_
      · split <;> rfl
      · split <;> simp [applyHandlersCall, Instr.Quiet, Instr.queuesClientbound,
          Instr.joinsDownstream]
  | enterHandlers direction packet =>
      simp only [perform, haccepts, if_true, Option.some.injEq, Prod.mk.injEq] at h
      obtain ⟨rfl, rfl⟩ := h
      refine .goesOn (sameClientbound_refl s) ⟨rfl, rfl⟩ ?_
        (by simp [Instr.Quiet, Instr.queuesClientbound, Instr.joinsDownstream])
      cases direction <;> rfl
  | handlers direction packet =>
      simp only [perform, hkept direction packet rfl, Option.some.injEq, Prod.mk.injEq] at h
      obtain ⟨rfl, rfl⟩ := h
      refine .goesOn (sameClientbound_refl s) ⟨rfl, rfl⟩ ?_
        (by simp [Instr.Quiet, Instr.queuesClientbound, Instr.joinsDownstream])
      cases direction <;> rfl
  | leaveHandlers direction packet packets =>
      simp only [perform, haccepts, if_true, Option.some.injEq, Prod.mk.injEq] at h
      obtain ⟨rfl, rfl⟩ := h
      refine .goesOn (sameClientbound_refl s) ⟨rfl, rfl⟩ ?_
        (by simp [Instr.Quiet, Instr.queuesClientbound, Instr.joinsDownstream])
      cases direction <;> simp [waitingClientbound, Instr.clientbound]
  | writeCacheStatus upstream => exact clientboundEffect_writeCacheStatus h
  | flushServerbound upstream => exact clientboundEffect_flushServerbound h
  | deliver direction packet packets => exact clientboundEffect_deliver h
  | candidates packets => exact clientboundEffect_candidates h
  | routeServerbound packet packets => exact clientboundEffect_routeServerbound h
  | forwardServerbound packet immediate => exact clientboundEffect_forwardServerbound h
  | playerSpawned => exact clientboundEffect_playerSpawned h
  | handleDownstreamJoin =>
      simp only [perform, haccepts, Bool.not_true, Bool.false_eq_true, if_false] at h
      cases h
      exact .joins rfl rfl rfl
  | flushClientbound =>
      cases h
      exact .flushes rfl rfl rfl
  | forwardClientbound packet =>
      exact clientboundEffect_forwardClientbound haccepts hheld
        (hchunk packet (List.mem_singleton_self packet)) h
  | queuePacket packet heldChunks =>
      have haccepted : s.session.acceptsClientbound = true := by
        simp [Session.acceptsClientbound, haccepts, hphase rfl]
      simp only [perform, haccepted, if_true, Option.some.injEq, Prod.mk.injEq] at h
      exact .queues packet heldChunks rfl h.1.symm h.2.symm
  | queuePackets heldChunks =>
      have haccepted : s.session.acceptsClientbound = true := by
        simp [Session.acceptsClientbound, haccepts, hphase rfl]
      simp only [perform, haccepted, if_true, Option.some.injEq, Prod.mk.injEq] at h
      exact .queuesAll heldChunks rfl h.1.symm h.2.symm
  | _ => simp [Instr.ordinary] at hordinary

/-! ## The invariant -/

/-- All packets that arrived are in line, and none passes another one. -/
structure ClientboundOrder (options : BedrockLiveRelayOptions) (s : Relay)
    (downstream upstream : List Instr) (arrived : List VersionedGamePacket) : Prop where
  items : (clientboundLine options s downstream upstream).items = arrived
  chunks : ∀ packet ∈ arrived, isLevelChunk packet = false
  held : s.session.heldClientboundLevelChunks = []
  before : s.session.downstreamPhase ≠ .game →
    waitingClientbound options downstream = [] ∧ .flushClientbound ∉ downstream
  queuing : ∀ instr ∈ downstream ++ upstream, instr.queuesClientbound →
    s.session.downstreamPhase = .game
  parked : s.session.downstreamPhase = .game →
    .flushClientbound ∈ downstream ∨ s.session.pendingClientbound = []
  direct : (∃ instr ∈ upstream, instr.queuesClientbound) →
    waitingClientbound options downstream = [] ∧ s.session.pendingClientbound = []
  join : downstream.countP Instr.joinsDownstream = 0 ∨
    downstream.countP Instr.joinsDownstream = 1 ∧ waitingClientbound options downstream = []

namespace ClientboundOrder

variable {s s' : Relay} {instr : Instr} {instrs rest downstream upstream : List Instr}
  {arrived : List VersionedGamePacket}

theorem countP_joins_eq_zero (h : ∀ i ∈ instrs, i.joinsDownstream = false) :
    instrs.countP Instr.joinsDownstream = 0 := by
  rw [List.countP_eq_zero]
  intro i hi
  simp [h i hi]

theorem flush_notMem (h : rest.countP Instr.joinsDownstream = 0) :
    .flushClientbound ∉ rest := by
  intro hflush
  exact List.countP_eq_zero.mp h _ hflush rfl

/-- While the player joins, that is all that is left to do for its packets. -/
theorem only_join (h : ClientboundOrder options s (instr :: rest) upstream arrived)
    (hjoins : instr.joinsDownstream) :
    rest.countP Instr.joinsDownstream = 0 ∧ waitingClientbound options rest = [] := by
  have hjoin := h.join
  rw [List.countP_cons, if_pos hjoins, waitingClientbound_cons] at hjoin
  obtain hnone | ⟨hone, hwaiting⟩ := hjoin
  · omega
  · exact ⟨by omega, (List.append_eq_nil_iff.mp hwaiting).2⟩

/-- The packets stay where they are. -/
theorem downstream_of_same (h : ClientboundOrder options s (instr :: rest) upstream arrived)
    (same : SameClientbound s s') (hjoins : instr.joinsDownstream = false)
    (hinstrs : ∀ i ∈ instrs, i.joinsDownstream = false)
    (hwaiting : waitingClientbound options instrs = instr.clientbound options)
    (hqueues : ∀ i ∈ instrs, i.queuesClientbound → s.session.downstreamPhase = .game) :
    ClientboundOrder options s' (instrs ++ rest) upstream arrived := by
  obtain ⟨hqueued, hpending, hheld, hphase⟩ := same
  have hsame : waitingClientbound options (instrs ++ rest) =
      waitingClientbound options (instr :: rest) := by
    rw [waitingClientbound_append, waitingClientbound_cons, hwaiting]
  have hne : instr ≠ .flushClientbound := by
    rintro rfl
    cases hjoins
  have hflush : Instr.flushClientbound ∈ instrs ++ rest ↔
      Instr.flushClientbound ∈ instr :: rest := by
    have hnotMem := flush_notMem (countP_joins_eq_zero hinstrs)
    simp [hnotMem, hne.symm]
  have hcount : (instrs ++ rest).countP Instr.joinsDownstream =
      (instr :: rest).countP Instr.joinsDownstream := by
    rw [List.countP_append, countP_joins_eq_zero hinstrs]
    simp [hjoins]
  constructor
  · rw [← h.items]
    simp only [clientboundLine, hqueued, hpending, hsame]
  · exact h.chunks
  · exact hheld.trans h.held
  · rw [hphase, hsame, hflush]
    exact h.before
  · intro i hi hqueue
    rw [hphase]
    rcases List.mem_append.mp hi with hi | hi
    · rcases List.mem_append.mp hi with hi | hi
      · exact hqueues i hi hqueue
      · exact h.queuing i (by simp [hi]) hqueue
    · exact h.queuing i (by simp [hi]) hqueue
  · rw [hphase, hpending, hflush]
    exact h.parked
  · rw [hsame, hpending]
    exact h.direct
  · rw [hcount, hsame]
    exact h.join

/-- A packet that the join had taken is queued. -/
theorem downstream_of_queued (h : ClientboundOrder options s (instr :: rest) upstream arrived)
    (hjoins : instr.joinsDownstream = false) (hqueues : instr.queuesClientbound)
    {first later : List VersionedGamePacket} (hbefore : instr.clientbound options = first ++ later)
    (hafter : waitingClientbound options instrs = later)
    (hinstrs : ∀ i ∈ instrs, i.joinsDownstream = false) :
    ClientboundOrder options { s with queuedDownstream := s.queuedDownstream ++ first }
      (instrs ++ rest) upstream arrived := by
  have hgame := h.queuing instr (by simp) hqueues
  have hempty (hnil : waitingClientbound options (instr :: rest) = []) :
      waitingClientbound options (instrs ++ rest) = [] := by
    rw [waitingClientbound_cons, hbefore] at hnil
    simp_all [waitingClientbound_append]
  have hcount : (instrs ++ rest).countP Instr.joinsDownstream =
      (instr :: rest).countP Instr.joinsDownstream := by
    rw [List.countP_append, countP_joins_eq_zero hinstrs]
    simp [hjoins]
  have hne : instr ≠ .flushClientbound := by
    rintro rfl
    cases hjoins
  constructor
  · rw [← h.items]
    simp [clientboundLine, Handover.items, waitingClientbound_append, waitingClientbound_cons,
      hbefore, hafter]
  · exact h.chunks
  · exact h.held
  · exact fun hnot ↦ absurd hgame hnot
  · exact fun i hi hqueue ↦ hgame
  · intro _
    refine (h.parked hgame).imp_left fun hflush ↦ ?_
    simpa [hne.symm] using List.mem_append_right instrs ((List.mem_cons.mp hflush).resolve_left hne.symm)
  · intro hqueue
    exact ⟨hempty (h.direct hqueue).1, (h.direct hqueue).2⟩
  · rw [hcount]
    exact h.join.imp_right (And.imp_right hempty)

/-- The thread of the player runs an instruction. -/
theorem downstream_step (h : ClientboundOrder options s (instr :: rest) upstream arrived)
    (heffect : ClientboundEffect options s instr s' instrs) :
    ClientboundOrder options s' (instrs ++ rest) upstream arrived := by
  cases heffect with
  | goesOn same before waiting after =>
      exact h.downstream_of_same same before.2 (fun i hi ↦ (after i hi).2) waiting
        fun i hi hqueue ↦ absurd hqueue (by simp [(after i hi).1])
  | parks packet before phase state after =>
      subst before
      have hwaiting := (h.before phase).1
      rw [waitingClientbound_cons] at hwaiting
      cases hwaiting
  | routes packet before phase same after =>
      subst before after
      exact h.downstream_of_same same rfl (by simp [Instr.joinsDownstream]) rfl
        fun i hi hqueue ↦ phase
  | queues packet heldChunks before state after =>
      subst before state after
      refine h.downstream_of_queued rfl rfl (show _ = [packet] ++ heldChunks from rfl) ?_ ?_
      · split
        · rename_i hnil
          exact hnil.symm
        · exact List.append_nil _
      · split <;> simp [Instr.joinsDownstream]
  | queuesAll heldChunks before state after =>
      subst before state after
      exact h.downstream_of_queued rfl rfl (List.append_nil _).symm rfl (by simp)
  | joins before state after =>
      subst before state after
      obtain ⟨hcount, hwaiting⟩ := h.only_join rfl
      exact
        { items := h.items
          chunks := h.chunks
          held := h.held
          before := fun hnot ↦ absurd rfl hnot
          queuing := fun _ _ _ ↦ rfl
          parked := fun _ ↦ .inl (by simp)
          direct := h.direct
          join := .inr ⟨by rw [List.countP_append, hcount]; rfl, hwaiting⟩ }
  | flushes before state after =>
      subst before state after
      obtain ⟨hcount, hwaiting⟩ := h.only_join rfl
      have hgame : s.session.downstreamPhase = .game := by
        by_contra hnot
        exact (h.before hnot).2 (by simp)
      have hflushed : waitingClientbound options
          (s.session.pendingClientbound.flatMap forwardClientboundCall ++ rest) =
            s.session.pendingClientbound := by
        rw [waitingClientbound_append, waitingClientbound_flatMap, hwaiting, List.append_nil]
      have hitems := h.items
      simp only [clientboundLine, waitingClientbound_cons, Instr.clientbound, hwaiting] at hitems
      have hjoins : (s.session.pendingClientbound.flatMap forwardClientboundCall ++ rest).countP
          Instr.joinsDownstream = 0 := by
        rw [List.countP_append, hcount, countP_joins_eq_zero]
        exact fun i hi ↦ (quiet_flatMap quiet_forwardClientboundCall i hi).2
      exact
        { items := by
            rw [← hitems, clientboundLine, hflushed]
            exact (Handover.Step.flush _ _ _).items_unchanged
          chunks := h.chunks
          held := h.held
          before := fun hnot ↦ absurd hgame hnot
          queuing := fun _ _ _ ↦ hgame
          parked := fun _ ↦ .inr rfl
          direct := fun hqueue ↦ by
            rw [hflushed]
            exact ⟨(h.direct hqueue).2, rfl⟩
          join := .inl hjoins }

/-- The thread of the upstream client goes on, and keeps the packets in line. -/
theorem upstream_of_items {upstream' : List Instr}
    (h : ClientboundOrder options s downstream upstream arrived)
    (hitems : (clientboundLine options s' downstream upstream').items = arrived)
    (hheld : s'.session.heldClientboundLevelChunks = [])
    (hphase : s'.session.downstreamPhase = s.session.downstreamPhase)
    (hqueuing : ∀ i ∈ upstream', i.queuesClientbound → s.session.downstreamPhase = .game ∧
      waitingClientbound options downstream = [] ∧ s.session.pendingClientbound = [])
    (hpending : s.session.downstreamPhase = .game →
      s'.session.pendingClientbound = s.session.pendingClientbound) :
    ClientboundOrder options s' downstream upstream' arrived where
  items := hitems
  chunks := h.chunks
  held := hheld
  before := by
    rw [hphase]
    exact h.before
  queuing i hi hqueue := by
    rw [hphase]
    rcases List.mem_append.mp hi with hi | hi
    · exact h.queuing i (List.mem_append_left _ hi) hqueue
    · exact (hqueuing i hi hqueue).1
  parked hgame := by
    rw [hphase] at hgame
    rw [hpending hgame]
    exact h.parked hgame
  direct := by
    rintro ⟨i, hi, hqueue⟩
    obtain ⟨hgame, hwaiting, hnil⟩ := hqueuing i hi hqueue
    exact ⟨hwaiting, (hpending hgame).trans hnil⟩
  join := h.join

theorem queuing_upstream (h : ClientboundOrder options s downstream (instr :: rest) arrived)
    {i : Instr} (hi : i ∈ instr :: rest) (hqueue : i.queuesClientbound) :
    s.session.downstreamPhase = .game ∧ waitingClientbound options downstream = [] ∧
      s.session.pendingClientbound = [] :=
  ⟨h.queuing i (List.mem_append_right _ hi) hqueue, h.direct ⟨i, hi, hqueue⟩⟩

/-- The thread of the upstream client runs an instruction. -/
theorem upstream_step (h : ClientboundOrder options s downstream (instr :: rest) arrived)
    (hordinary : instr.ordinary upstreamWorker)
    (hturn : (∃ packet, instr = .forwardClientbound packet) →
      s.session.downstreamPhase = .game →
        waitingClientbound options downstream = [] ∧ s.session.pendingClientbound = [])
    (heffect : ClientboundEffect options s instr s' instrs) :
    ClientboundOrder options s' downstream (instrs ++ rest) arrived := by
  cases heffect with
  | goesOn same before waiting after =>
      obtain ⟨hqueued, hpending, hheld, hphase⟩ := same
      refine h.upstream_of_items ?_ (hheld.trans h.held) hphase ?_ fun _ ↦ hpending
      · rw [← h.items]
        simp only [clientboundLine, hqueued, hpending, waitingClientbound_append,
          waitingClientbound_cons, waiting]
      · intro i hi hqueue
        rcases List.mem_append.mp hi with hi | hi
        · simp [(after i hi).1] at hqueue
        · exact h.queuing_upstream (by simp [hi]) hqueue
  | parks packet before phase state after =>
      subst before state after
      refine h.upstream_of_items ?_ h.held rfl ?_ fun hgame ↦ absurd hgame phase
      · rw [← h.items]
        exact (Handover.Step.park _ _ _ [packet] _).items_unchanged
      · exact fun i hi hqueue ↦ h.queuing_upstream (List.mem_cons_of_mem _ hi) hqueue
  | routes packet before phase same after =>
      subst before after
      obtain ⟨hqueued, hpending, hheld, hphase⟩ := same
      refine h.upstream_of_items ?_ (hheld.trans h.held) hphase ?_ fun _ ↦ hpending
      · rw [← h.items]
        simp only [clientboundLine, hqueued, hpending]
        rfl
      · exact fun _ _ _ ↦ ⟨phase, hturn ⟨packet, rfl⟩ phase⟩
  | queues packet heldChunks before state after =>
      subst before state after
      obtain ⟨hgame, hwaiting, hnil⟩ := h.queuing_upstream List.mem_cons_self rfl
      refine h.upstream_of_items ?_ h.held rfl (fun _ _ _ ↦ ⟨hgame, hwaiting, hnil⟩) fun _ ↦ rfl
      have hafter : waitingClientbound options
          (if heldChunks = [] then [] else [.queuePackets heldChunks]) = heldChunks := by
        split
        · rename_i hempty
          exact hempty.symm
        · exact List.append_nil _
      rw [← h.items]
      simp only [clientboundLine, waitingClientbound_append, hafter, hwaiting, hnil]
      exact (Handover.Step.deliverDirectly _ [packet] _).items_unchanged
  | queuesAll heldChunks before state after =>
      subst before state after
      obtain ⟨hgame, hwaiting, hnil⟩ := h.queuing_upstream List.mem_cons_self rfl
      refine h.upstream_of_items ?_ h.held rfl (fun _ _ _ ↦ ⟨hgame, hwaiting, hnil⟩) fun _ ↦ rfl
      rw [← h.items]
      simp only [clientboundLine, hwaiting, hnil]
      exact (Handover.Step.deliverDirectly _ heldChunks _).items_unchanged
  | joins before =>
      subst before
      simp [Instr.ordinary, upstreamWorker, downstreamWorker] at hordinary
  | flushes before =>
      subst before
      simp [Instr.ordinary, upstreamWorker, downstreamWorker] at hordinary

/-- The idle thread of the player is called. -/
theorem downstream_call (h : ClientboundOrder options s [] upstream arrived)
    (hwaiting : waitingClientbound options instrs = [])
    (hqueues : ∀ i ∈ instrs, i.queuesClientbound = false)
    (hflush : .flushClientbound ∉ instrs) (hjoins : instrs.countP Instr.joinsDownstream ≤ 1) :
    ClientboundOrder options s instrs upstream arrived where
  items := by
    rw [← h.items, clientboundLine, hwaiting]
    rfl
  chunks := h.chunks
  held := h.held
  before _ := ⟨hwaiting, hflush⟩
  queuing i hi hqueue := by
    rcases List.mem_append.mp hi with hi | hi
    · simp [hqueues i hi] at hqueue
    · exact h.queuing i hi hqueue
  parked hgame := (h.parked hgame).imp_left fun hnil ↦ absurd hnil List.not_mem_nil
  direct hqueue := ⟨hwaiting, (h.direct hqueue).2⟩
  join := by
    rcases Nat.le_one_iff_eq_zero_or_eq_one.mp hjoins with hzero | hone
    · exact .inl hzero
    · exact .inr ⟨hone, hwaiting⟩

/-- The idle thread of the upstream client is called. -/
theorem upstream_call (h : ClientboundOrder options s downstream [] arrived)
    (hqueues : ∀ i ∈ instrs, i.queuesClientbound = false)
    (hchunks : ∀ packet ∈ waitingClientbound options instrs, isLevelChunk packet = false) :
    ClientboundOrder options s downstream instrs
      (arrived ++ waitingClientbound options instrs) where
  items := by
    rw [← h.items]
    exact (Handover.Step.arrive _ _ _ [] _).items_eq
  chunks := List.forall_mem_append.mpr ⟨h.chunks, hchunks⟩
  held := h.held
  before := h.before
  queuing i hi hqueue := by
    rcases List.mem_append.mp hi with hi | hi
    · exact h.queuing i (List.mem_append_left _ hi) hqueue
    · simp [hqueues i hi] at hqueue
  parked := h.parked
  direct := by
    rintro ⟨i, hi, hqueue⟩
    simp [hqueues i hi] at hqueue
  join := h.join

end ClientboundOrder

/-! ## Runs -/

/-- The packets that `handleUpstreamPacket` passes on. -/
def clientboundArrivals (options : BedrockLiveRelayOptions) : Label → List VersionedGamePacket
  | .call _ (.upstreamPacket _ packet) => [packet].filter (passesUpstreamFilter options)
  | _ => []

theorem clientboundArrivals_eq_nil {label : Label}
    (h : ∀ t upstream packet, label ≠ .call t (.upstreamPacket upstream packet)) :
    clientboundArrivals options label = [] := by
  unfold clientboundArrivals
  split
  · exact absurd rfl (h _ _ _)
  · rfl

/-- Once the player has joined, a packet from upstream is forwarded only when all
the parked ones are queued. -/
def clientboundInTurn (options : BedrockLiveRelayOptions) (s : State) : Label → Bool
  | .exec t _ =>
      match s.todo t with
      | .forwardClientbound _ :: _ =>
          t = upstreamWorker → s.shared.session.downstreamPhase = .game →
            waitingClientbound options (s.todo downstreamWorker) = [] ∧
              s.shared.session.pendingClientbound = []
      | _ => true
  | _ => true

/-- Anything may happen but level chunks and packets out of turn. -/
def KeepsClientboundOrder (options : BedrockLiveRelayOptions) (s : State) (label : Label) : Prop :=
  arrives s label ∧ (∀ packet ∈ clientboundArrivals options label, isLevelChunk packet = false) ∧
    clientboundInTurn options s label

instance (s : State) (label : Label) : Decidable (KeepsClientboundOrder options s label) :=
  inferInstanceAs (Decidable (_ ∧ _ ∧ _))

structure ClientboundInOrder (options : BedrockLiveRelayOptions) (s : State)
    (arrived : List VersionedGamePacket) : Prop where
  undisturbed : Undisturbed s
  order : ClientboundOrder options s.shared (s.todo downstreamWorker) (s.todo upstreamWorker)
    arrived

namespace ClientboundInOrder

variable {s : State} {arrived : List VersionedGamePacket}

theorem not_levelChunk (h : ClientboundInOrder options s arrived) {t : ℕ} {instr : Instr}
    (hinstr : instr ∈ s.todo t) {packet : VersionedGamePacket}
    (hpacket : packet ∈ instr.clientbound options) : isLevelChunk packet = false := by
  have hwaiting : packet ∈ waitingClientbound options (s.todo t) :=
    List.mem_flatMap.mpr ⟨instr, hinstr, hpacket⟩
  refine h.order.chunks packet ?_
  rw [← h.order.items]
  rcases h.undisturbed.worker (List.ne_nil_of_mem hinstr) with rfl | rfl <;>
    simp [clientboundLine, Handover.items, hwaiting]

theorem exec (h : ClientboundInOrder options s arrived) {t : ℕ} {answer : Answer}
    (harrives : arrives s (.exec t answer)) (hturn : clientboundInTurn options s (.exec t answer)) :
    ClientboundInOrder options (s.exec (perform options answer) t) arrived := by
  cases htodo : s.todo t with
  | nil => rwa [Threads.exec_of_idle htodo]
  | cons instr rest =>
      cases hperform : perform options answer t s.shared instr with
      | none => rwa [Threads.exec_of_waits htodo hperform]
      | some result =>
          obtain ⟨shared, instrs⟩ := result
          have hundisturbed := h.undisturbed
          have hmem : instr ∈ s.todo t := by simp [htodo]
          have hworker := hundisturbed.worker (List.ne_nil_of_mem hmem)
          have heffect : ClientboundEffect options s.shared instr shared instrs := by
            refine perform_clientbound (hundisturbed.head_ordinary htodo)
              hundisturbed.acceptsPackets hundisturbed.upstream h.order.held
              (fun packet ↦ h.not_levelChunk hmem) (h.order.queuing instr ?_) ?_ hperform
            · rcases hworker with rfl | rfl <;> simp [hmem]
            · rintro direction packet rfl
              simpa [arrives, htodo] using harrives
          refine ⟨hundisturbed.exec, ?_⟩
          rw [Threads.exec_of_performs htodo hperform]
          have horder := h.order
          rcases hworker with rfl | rfl
          · rw [htodo] at horder
            rw [Threads.resume_todo_self, Threads.resume_todo_of_ne _ (by decide)]
            exact horder.downstream_step heffect
          · rw [htodo] at horder
            rw [Threads.resume_todo_self, Threads.resume_todo_of_ne _ (by decide)]
            refine horder.upstream_step (hundisturbed.head_ordinary htodo) ?_ heffect
            rintro ⟨packet, rfl⟩ hgame
            simpa [clientboundInTurn, htodo, hgame] using hturn

theorem call (h : ClientboundInOrder options s arrived) {t : ℕ} {call : Call}
    (harrives : arrives s (.call t call))
    (hchunks : ∀ packet ∈ clientboundArrivals options (.call t call), isLevelChunk packet = false) :
    ClientboundInOrder options (s.resume t s.shared call.body)
      (arrived ++ clientboundArrivals options (.call t call)) := by
  obtain ⟨hidle, -, hundisturbed⟩ := @Undisturbed.step_call options _ h.undisturbed _ _ harrives
  refine ⟨hundisturbed, ?_⟩
  have horder := h.order
  cases call with
  | downstreamJoin | downstreamPacket packet =>
      obtain ⟨rfl, -⟩ := of_decide_eq_true harrives
      rw [hidle] at horder
      rw [Threads.resume_todo_self, Threads.resume_todo_of_ne _ (by decide)]
      rw [clientboundArrivals_eq_nil (by simp), List.append_nil]
      exact horder.downstream_call rfl (by simp [Call.body, Instr.queuesClientbound])
        (by simp [Call.body]) List.countP_le_length
  | upstreamJoin upstream =>
      obtain ⟨rfl, -, -⟩ := of_decide_eq_true harrives
      rw [hidle] at horder
      rw [Threads.resume_todo_self, Threads.resume_todo_of_ne _ (by decide)]
      exact horder.upstream_call (by simp [Call.body, Instr.queuesClientbound]) hchunks
  | upstreamPacket upstream packet =>
      obtain ⟨rfl, -, -⟩ := of_decide_eq_true harrives
      have hwaiting : waitingClientbound options (Call.upstreamPacket upstream packet).body =
          clientboundArrivals options (.call upstreamWorker (.upstreamPacket upstream packet)) :=
        List.append_nil _
      rw [hidle] at horder
      rw [Threads.resume_todo_self, Threads.resume_todo_of_ne _ (by decide)]
      rw [← hwaiting] at hchunks ⊢
      exact horder.upstream_call (by simp [Call.body, Instr.queuesClientbound]) hchunks
  | _ => simp [arrives] at harrives

theorem step (h : ClientboundInOrder options s arrived) {label : Label}
    (hkeeps : KeepsClientboundOrder options s label) :
    ClientboundInOrder options (step options s label)
      (arrived ++ clientboundArrivals options label) := by
  obtain ⟨harrives, hchunks, hturn⟩ := hkeeps
  cases label with
  | call t call =>
      rw [(h.undisturbed.step_call harrives).2.1]
      exact h.call harrives hchunks
  | exec t answer =>
      rw [clientboundArrivals_eq_nil (by simp), List.append_nil]
      exact h.exec harrives hturn
  | throwing t => simp [arrives] at harrives

end ClientboundInOrder

theorem clientboundInOrder_loggedIn (options : BedrockLiveRelayOptions) :
    ClientboundInOrder options (loggedIn options) [] := by
  refine ⟨undisturbed_loggedIn options, ?_⟩
  rw [loggedIn_shared, loggedIn_todo, loggedIn_todo]
  exact
    { items := rfl
      chunks := by simp
      held := rfl
      before := by simp [waitingClientbound]
      queuing := by simp
      parked := fun _ ↦ .inr rfl
      direct := by simp
      join := .inl rfl }

theorem clientbound_in_order (options : BedrockLiveRelayOptions) (labels : List Label)
    (h : AllSteps (step options) (KeepsClientboundOrder options) (loggedIn options) labels) :
    let s := run (step options) (loggedIn options) labels
    let arrived := labels.flatMap (clientboundArrivals options)
    s.shared.queuedDownstream <+: arrived ∧
      (s.todo downstreamWorker = [] → s.todo upstreamWorker = [] →
        s.shared.session.downstreamPhase = .game → s.shared.queuedDownstream = arrived) := by
  intro s arrived
  have horder := (invariant_run_collected (fun _ _ _ hs ↦ hs.step)
    (clientboundInOrder_loggedIn options) h).order
  rw [List.nil_append] at horder
  have hahead := Handover.delivered_prefix (clientboundLine options s.shared
    (s.todo downstreamWorker) (s.todo upstreamWorker))
  rw [horder.items] at hahead
  refine ⟨hahead, fun hdownstream hupstream hgame ↦ ?_⟩
  have hparked := horder.parked hgame
  rw [hdownstream] at hparked
  have hpending := hparked.resolve_left List.not_mem_nil
  have hitems := horder.items
  rw [clientboundLine, hdownstream, hupstream, hpending] at hitems
  simpa [Handover.items, waitingClientbound] using hitems

/-! ## Overtaken while the player joins -/

def chat (payload : List UInt8) : VersionedGamePacket :=
  ⟨9, "text", "packet_text", 9 :: payload, payload⟩

def upstreamSends (packet : VersionedGamePacket) : List Label :=
  .call upstreamWorker (.upstreamPacket onlyUpstream packet) ::
    List.replicate 12 (.exec upstreamWorker { packets := [packet] })

def joinInBetween : List Label :=
  upstreamSends (chat [1]) ++
    .call downstreamWorker .downstreamJoin :: List.replicate 7 (.exec downstreamWorker {}) ++
    upstreamSends (chat [2])

theorem clientbound_in_order_joinInBetween :
    (run (step defaultOptions) (loggedIn defaultOptions) joinInBetween).shared.queuedDownstream =
      [chat [1], chat [2]] :=
  (clientbound_in_order defaultOptions joinInBetween (by decide +kernel)).2 (by decide +kernel)
    (by decide +kernel) (by decide +kernel)

def packetDuringJoin : List Label :=
  upstreamSends (chat [1]) ++
    .call downstreamWorker .downstreamJoin :: .exec downstreamWorker {} ::
    upstreamSends (chat [2]) ++ List.replicate 6 (.exec downstreamWorker {})

/-- The second packet comes before the join handlers have returned. -/
theorem clientbound_overtakes :
    (run (step defaultOptions) (loggedIn defaultOptions) packetDuringJoin).shared.queuedDownstream =
        [chat [2], chat [1]] ∧
      ¬ ∀ (options : BedrockLiveRelayOptions) (labels : List Label),
        AllSteps (step options)
          (fun s label ↦ arrives s label ∧
            ∀ packet ∈ clientboundArrivals options label, isLevelChunk packet = false)
          (loggedIn options) labels →
        (run (step options) (loggedIn options) labels).shared.queuedDownstream <+:
          labels.flatMap (clientboundArrivals options) := by
  have hqueued : (run (step defaultOptions) (loggedIn defaultOptions)
      packetDuringJoin).shared.queuedDownstream = [chat [2], chat [1]] := by decide +kernel
  refine ⟨hqueued, fun hall ↦ ?_⟩
  have hahead := hall defaultOptions packetDuringJoin (by decide +kernel)
  rw [hqueued] at hahead
  exact absurd hahead (by decide +kernel)

end BedrockProtocol.BedrockLiveRelay
