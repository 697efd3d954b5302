import BedrockProtocol.Relay.BedrockLiveRelay
import Mathlib.Data.List.TakeWhile

/-!
# Level chunks before the start of the game

Level chunks are held until half a second after `start_game`, and whatever comes
next takes them along, behind itself.  A level chunk that does so overtakes them;
without one, the player is queued the level chunks in their order.
-/

namespace BedrockProtocol.BedrockLiveRelay

variable {options : BedrockLiveRelayOptions}

/-- `forwardClientbound` at a time, on a thread that is not disturbed. -/
def forwardClientbound (options : BedrockLiveRelayOptions) (s : Relay)
    (arrival : ℤ × VersionedGamePacket) : Relay :=
  match s.session.routeClientbound options arrival.1 arrival.2 with
  | (session, none) => { s with session }
  | (session, some heldChunks) =>
      if session.acceptsClientbound then
        { s with session, queuedDownstream := s.queuedDownstream ++ arrival.2 :: heldChunks }
      else { s with session }

/-- It is what the instructions do. -/
theorem finishes_forwardClientboundCall {s : Relay} (t : ℕ) (arrival : ℤ × VersionedGamePacket)
    (hfree : s.handlerDispatchMutex = .free) :
    Threads.Finishes (perform options { now := arrival.1 } t) s (forwardClientboundCall arrival.2)
      (forwardClientbound options s arrival) := by
  obtain ⟨session, mutex, registered, closed, resets, clients, queued, sent⟩ := s
  obtain rfl : mutex = .free := hfree
  have hunlock (shared : Relay) (hmutex : shared.handlerDispatchMutex = .held t 0) :
      perform options { now := arrival.1 } t shared .unlockDispatch =
        some ({ shared with handlerDispatchMutex := .free }, []) := by
    simp [perform, hmutex, RecursiveMutex.unlock]
  have hforward (shared : Relay) : perform options { now := arrival.1 } t shared
      (.forwardClientbound arrival.2) =
        some ({ shared with
            session := (shared.session.routeClientbound options arrival.1 arrival.2).1 },
          (shared.session.routeClientbound options arrival.1 arrival.2).2.toList.map
            (.queuePacket arrival.2)) := rfl
  have hrefuse (shared : Relay) (heldChunks : List VersionedGamePacket)
      (h : shared.session.acceptsClientbound = false) :
      perform options { now := arrival.1 } t shared (.queuePacket arrival.2 heldChunks) =
        some (shared, []) := by
    simp [perform, h]
  have hqueue (shared : Relay) (heldChunks : List VersionedGamePacket)
      (h : shared.session.acceptsClientbound = true) :
      perform options { now := arrival.1 } t shared (.queuePacket arrival.2 heldChunks) =
        some ({ shared with queuedDownstream := shared.queuedDownstream ++ [arrival.2] },
          if heldChunks = [] then [] else [.queuePackets heldChunks]) := by
    simp [perform, h]
  have hqueueAll (shared : Relay) (heldChunks : List VersionedGamePacket)
      (h : shared.session.acceptsClientbound = true) :
      perform options { now := arrival.1 } t shared (.queuePackets heldChunks) =
        some ({ shared with queuedDownstream := shared.queuedDownstream ++ heldChunks }, []) := by
    simp [perform, h]
  refine .next rfl (.next (hforward _) ?_)
  unfold forwardClientbound
  dsimp only
  generalize session.routeClientbound options arrival.1 arrival.2 = routed
  obtain ⟨session', _ | heldChunks⟩ := routed
  · exact .next (hunlock _ rfl) (.done _)
  · dsimp only [Option.toList_some, List.map_cons, List.map_nil, List.singleton_append]
    cases haccepts : session'.acceptsClientbound with
    | false =>
        rw [if_neg (by decide)]
        exact .next (hrefuse _ _ haccepts) (.next (hunlock _ rfl) (.done _))
    | true =>
        rw [if_pos rfl]
        refine .next (hqueue _ _ haccepts) ?_
        dsimp only
        by_cases hnone : heldChunks = []
        · subst hnone
          exact .next (hunlock _ rfl) (.done _)
        · rw [if_neg hnone, List.append_cons queued arrival.2 heldChunks]
          exact .next (hqueueAll _ _ haccepts) (.next (hunlock _ rfl) (.done _))

def isLevelChunk (packet : VersionedGamePacket) : Bool := packet.name = "level_chunk"

/-- A level chunk arrives only while none is held, unless it is to be held. -/
def Unhurried (s : Relay) (arrival : ℤ × VersionedGamePacket) : Prop :=
  isLevelChunk arrival.2 → s.session.clientboundStartGameSent →
    s.session.clientboundChunkReleaseAt ≤ arrival.1 → s.session.heldClientboundLevelChunks = []

instance (s : Relay) (arrival : ℤ × VersionedGamePacket) : Decidable (Unhurried s arrival) :=
  inferInstanceAs (Decidable (_ → _ → _ → _))

/-- The player is in the game, and nothing was sent to it yet. -/
structure Joined (s : Relay) : Prop where
  accepts : s.session.acceptsClientbound
  held : s.session.heldClientboundLevelChunks = []
  startGame : s.session.clientboundStartGameSent = false
  queued : s.queuedDownstream = []

theorem Session.acceptsClientbound_iff {session : Session} :
    session.acceptsClientbound ↔ session.acceptsPackets ∧ session.downstreamPhase = .game := by
  simp [Session.acceptsClientbound]

/-- The session once it has seen a packet that it does not hold. -/
def Session.noteStartGame (session : Session) (now : ℤ) (packet : VersionedGamePacket) : Session :=
  if packet.name = "start_game" then
    { session with clientboundStartGameSent := true, clientboundChunkReleaseAt := now + 500 }
  else session

/-- In the game a packet is held, or it takes what is held along, or neither. -/
theorem routeClientbound_cases (hoption : options.queueClientboundLevelChunksUntilStartGame = true)
    {session : Session} (haccepts : session.acceptsClientbound) (now : ℤ)
    (packet : VersionedGamePacket) :
    (isLevelChunk packet ∧ session.routeClientbound options now packet =
      ({ session with
        heldClientboundLevelChunks := session.heldClientboundLevelChunks ++ [packet] }, none)) ∨
    (isLevelChunk packet ∧ session.clientboundStartGameSent = true ∧
      session.clientboundChunkReleaseAt ≤ now ∧ session.routeClientbound options now packet =
        ({ session with heldClientboundLevelChunks := [] },
          some session.heldClientboundLevelChunks)) ∨
    (isLevelChunk packet = false ∧ ∃ session' heldChunks,
      session.routeClientbound options now packet = (session', some heldChunks) ∧
        session'.acceptsClientbound ∧
        session'.clientboundStartGameSent =
          (session.clientboundStartGameSent || decide (packet.name = "start_game")) ∧
        heldChunks ++ session'.heldClientboundLevelChunks =
          session.heldClientboundLevelChunks ∧
        (heldChunks ≠ [] → session.clientboundStartGameSent = true)) := by
  obtain ⟨hopened, hgame⟩ := Session.acceptsClientbound_iff.mp haccepts
  have hroute : session.routeClientbound options now packet =
      if isLevelChunk packet ∧ (session.clientboundStartGameSent = false ∨
          now < session.clientboundChunkReleaseAt) then
        ({ session with
          heldClientboundLevelChunks := session.heldClientboundLevelChunks ++ [packet] }, none)
      else if (session.noteStartGame now packet).clientboundStartGameSent ∧
          (session.noteStartGame now packet).clientboundChunkReleaseAt ≤ now then
        ({ session.noteStartGame now packet with heldClientboundLevelChunks := [] },
          some (session.noteStartGame now packet).heldClientboundLevelChunks)
      else (session.noteStartGame now packet, some []) := by
    simp [Session.routeClientbound, hopened, hgame, hoption, isLevelChunk, Session.noteStartGame]
  by_cases hchunk : isLevelChunk packet = true
  · have hname : packet.name ≠ "start_game" := by
      rw [isLevelChunk, decide_eq_true_iff] at hchunk
      rw [hchunk]
      decide
    have hnote : session.noteStartGame now packet = session := if_neg hname
    rw [hnote] at hroute
    by_cases hhold : session.clientboundStartGameSent = false ∨ now < session.clientboundChunkReleaseAt
    · rw [if_pos ⟨hchunk, hhold⟩] at hroute
      exact .inl ⟨hchunk, hroute⟩
    · obtain ⟨hsent, hpast⟩ : session.clientboundStartGameSent = true ∧
          session.clientboundChunkReleaseAt ≤ now := by
        rw [not_or, Bool.not_eq_false, not_lt] at hhold
        exact hhold
      rw [if_neg (by tauto), if_pos ⟨hsent, hpast⟩] at hroute
      exact .inr (.inl ⟨hchunk, hsent, hpast, hroute⟩)
  · rw [if_neg (by tauto)] at hroute
    refine .inr (.inr ⟨by simpa using hchunk, ?_⟩)
    have hsame : (session.noteStartGame now packet).acceptsClientbound ∧
        (session.noteStartGame now packet).clientboundStartGameSent =
          (session.clientboundStartGameSent || decide (packet.name = "start_game")) ∧
        (session.noteStartGame now packet).heldClientboundLevelChunks =
          session.heldClientboundLevelChunks := by
      unfold Session.noteStartGame
      by_cases hname : packet.name = "start_game"
      · rw [if_pos hname]
        exact ⟨haccepts, by simp [hname], rfl⟩
      · rw [if_neg hname]
        exact ⟨haccepts, by simp [hname], rfl⟩
    obtain ⟨haccepts', hsent, hheld⟩ := hsame
    split at hroute
    · rename_i hrelease
      refine ⟨_, _, hroute, haccepts', hsent, by simpa using hheld, fun _ ↦ ?_⟩
      -- half a second has not passed right after `start_game`
      by_contra hnot
      have hname : packet.name = "start_game" := by
        by_contra hname
        rw [Session.noteStartGame, if_neg hname] at hrelease
        exact hnot hrelease.1
      rw [Session.noteStartGame, if_pos hname] at hrelease
      have := hrelease.2
      dsimp only at this
      omega
    · exact ⟨_, [], hroute, haccepts', hsent, by simpa using hheld, fun hne ↦ absurd rfl hne⟩

/-- The invariant: what is held follows what was queued. -/
structure HeldInOrder (received : List VersionedGamePacket) (s : Relay) : Prop where
  accepts : s.session.acceptsClientbound
  order : s.queuedDownstream.filter isLevelChunk ++ s.session.heldClientboundLevelChunks =
    received.filter isLevelChunk
  held : ∀ packet ∈ s.session.heldClientboundLevelChunks, isLevelChunk packet
  startGame : s.session.clientboundStartGameSent = true ↔
    ∃ packet ∈ s.queuedDownstream, packet.name = "start_game"
  first : (s.queuedDownstream.takeWhile (·.name ≠ "start_game")).filter isLevelChunk = []

theorem takeWhile_append_of_mem {packets more : List VersionedGamePacket}
    {started : VersionedGamePacket} (h : started ∈ packets) (hname : started.name = "start_game") :
    (packets ++ more).takeWhile (·.name ≠ "start_game") =
      packets.takeWhile (·.name ≠ "start_game") := by
  induction packets with
  | nil => cases h
  | cons packet packets ih =>
      by_cases hfirst : packet.name = "start_game"
      · simp [hfirst]
      · rcases List.mem_cons.mp h with rfl | h
        · exact absurd hname hfirst
        · rw [List.cons_append, List.takeWhile_cons, List.takeWhile_cons, ih h]

theorem HeldInOrder.forwardClientbound {received : List VersionedGamePacket} {s : Relay}
    (hoption : options.queueClientboundLevelChunksUntilStartGame = true)
    (h : HeldInOrder received s) {arrival : ℤ × VersionedGamePacket} (hcond : Unhurried s arrival) :
    HeldInOrder (received ++ [arrival.2]) (forwardClientbound options s arrival) := by
  rcases routeClientbound_cases hoption h.accepts arrival.1 arrival.2 with
    ⟨hchunk, hroute⟩ | ⟨hchunk, hsent, hpast, hroute⟩ |
      ⟨hother, session', heldChunks, hroute, haccepts, hsent, hheld, hreleased⟩
  · rw [BedrockLiveRelay.forwardClientbound, hroute]
    refine ⟨h.accepts, ?_, ?_, h.startGame, h.first⟩
    · rw [List.filter_append, ← h.order]
      simp [hchunk]
    · intro packet hpacket
      rcases List.mem_append.mp hpacket with hpacket | hpacket
      · exact h.held packet hpacket
      · rwa [List.mem_singleton.mp hpacket]
  · have hnone := hcond hchunk hsent hpast
    have horder := h.order
    rw [hnone, List.append_nil] at horder
    have hnext : BedrockLiveRelay.forwardClientbound options s arrival = { s with
        session := { s.session with heldClientboundLevelChunks := [] }
        queuedDownstream := s.queuedDownstream ++ [arrival.2] } := by
      rw [BedrockLiveRelay.forwardClientbound, hroute, hnone]
      exact if_pos h.accepts
    rw [hnext]
    obtain ⟨started, hstarted, hname⟩ := h.startGame.mp hsent
    refine ⟨h.accepts, ?_, by simp, ?_, ?_⟩
    · simp [hchunk, horder]
    · simp only [hsent, true_iff]
      exact ⟨started, List.mem_append_left _ hstarted, hname⟩
    · rw [takeWhile_append_of_mem hstarted hname]
      exact h.first
  · rw [BedrockLiveRelay.forwardClientbound, hroute]
    dsimp only
    rw [if_pos haccepts]
    have hchunks : ∀ packet ∈ heldChunks, isLevelChunk packet := fun packet hpacket ↦
      h.held packet (hheld ▸ List.mem_append_left _ hpacket)
    refine ⟨haccepts, ?_, ?_, ?_, ?_⟩
    · rw [List.filter_append, List.filter_append, ← h.order, ← hheld]
      simp [hother, List.filter_eq_self.mpr hchunks]
    · exact fun packet hpacket ↦ h.held packet (hheld ▸ List.mem_append_right _ hpacket)
    · dsimp only
      rw [hsent, Bool.or_eq_true, h.startGame, decide_eq_true_iff]
      constructor
      · rintro (⟨started, hstarted, hname⟩ | hname)
        · exact ⟨started, List.mem_append_left _ hstarted, hname⟩
        · exact ⟨arrival.2, by simp, hname⟩
      · rintro ⟨started, hstarted, hname⟩
        rcases List.mem_append.mp hstarted with hstarted | hstarted
        · exact .inl ⟨started, hstarted, hname⟩
        rcases List.mem_cons.mp hstarted with rfl | hstarted
        · exact .inr hname
        · have hchunk := hchunks started hstarted
          rw [isLevelChunk, hname] at hchunk
          exact absurd hchunk (by decide)
    · by_cases hbefore : ∃ packet ∈ s.queuedDownstream, packet.name = "start_game"
      · obtain ⟨started, hstarted, hname⟩ := hbefore
        rw [takeWhile_append_of_mem hstarted hname]
        exact h.first
      · have hnone : heldChunks = [] := by
          by_contra hne
          exact hbefore (h.startGame.mp (hreleased hne))
        subst hnone
        have hall : ∀ packet ∈ s.queuedDownstream, decide (packet.name ≠ "start_game") = true :=
          fun packet hpacket ↦ decide_eq_true fun hname ↦ hbefore ⟨packet, hpacket, hname⟩
        have hfirst := h.first
        rw [List.takeWhile_eq_self_iff.mpr hall] at hfirst
        rw [List.takeWhile_append_of_pos hall, List.filter_append, hfirst, List.nil_append,
          List.filter_eq_nil_iff]
        intro packet hpacket
        obtain rfl := List.mem_singleton.mp (List.takeWhile_subset _ hpacket)
        simp [hother]

theorem heldInOrder_run (hoption : options.queueClientboundLevelChunksUntilStartGame = true)
    {received : List VersionedGamePacket} {s : Relay} (h : HeldInOrder received s)
    (arrivals : List (ℤ × VersionedGamePacket))
    (hcond : AllSteps (forwardClientbound options) Unhurried s arrivals) :
    HeldInOrder (received ++ arrivals.map Prod.snd) (run (forwardClientbound options) s arrivals) := by
  induction arrivals generalizing received s with
  | nil => simpa [run] using h
  | cons arrival arrivals ih =>
      have hnext := ih (h.forwardClientbound hoption hcond.1) hcond.2
      rwa [List.append_assoc] at hnext

/-- The level chunks for the player are a prefix of the ones that came, and
`start_game` comes before the first. -/
theorem levelChunks_in_order (hoption : options.queueClientboundLevelChunksUntilStartGame = true)
    {s : Relay} (hjoined : Joined s) (arrivals : List (ℤ × VersionedGamePacket))
    (hcond : AllSteps (forwardClientbound options) Unhurried s arrivals) :
    let s' := run (forwardClientbound options) s arrivals
    s'.queuedDownstream.filter isLevelChunk <+: (arrivals.map Prod.snd).filter isLevelChunk ∧
      (s'.queuedDownstream.takeWhile (·.name ≠ "start_game")).filter isLevelChunk = [] := by
  intro s'
  have hstart : HeldInOrder [] s :=
    ⟨hjoined.accepts, by simp [hjoined.queued, hjoined.held], by simp [hjoined.held],
      by simp [hjoined.startGame, hjoined.queued], by simp [hjoined.queued]⟩
  have hrun := heldInOrder_run hoption hstart arrivals hcond
  rw [List.nil_append] at hrun
  exact ⟨⟨_, hrun.order⟩, hrun.first⟩

/-! ## A level chunk that overtakes the held ones -/

def levelChunk (payload : List UInt8) : VersionedGamePacket :=
  ⟨58, "level_chunk", "packet_level_chunk", 58 :: payload, payload⟩

def startGame : VersionedGamePacket := ⟨11, "start_game", "packet_start_game", [11], []⟩

def defaultOptions : BedrockLiveRelayOptions where
  clientCacheStatus := ⟨129, "client_cache_status", "packet_client_cache_status", [129, 1, 0], [0]⟩
  clientCacheStatus_name := rfl

def inGame : Relay where
  session := { downstreamPhase := .game, upstreamPhase := .game, upstream := some 0 }

theorem joined_inGame : Joined inGame := ⟨rfl, rfl, rfl, rfl⟩

theorem levelChunks_in_order_inGame :
    (run (forwardClientbound defaultOptions) inGame
      [(0, levelChunk [1]), (1, startGame), (400, levelChunk [2]),
        (600, ⟨9, "text", "packet_text", [9], []⟩), (700, levelChunk [3])]).queuedDownstream.filter
          isLevelChunk <+: [levelChunk [1], levelChunk [2], levelChunk [3]] :=
  (levelChunks_in_order rfl joined_inGame _ (by decide)).1

/-- Half a second after `start_game` the second level chunk comes before the
first. -/
theorem levelChunk_overtakes :
    (run (forwardClientbound defaultOptions) inGame
        [(0, levelChunk [1]), (1, startGame), (600, levelChunk [2])]).queuedDownstream =
      [startGame, levelChunk [2], levelChunk [1]] ∧
    ¬ ∀ (options : BedrockLiveRelayOptions) (s : Relay)
        (arrivals : List (ℤ × VersionedGamePacket)),
      options.queueClientboundLevelChunksUntilStartGame = true → Joined s →
        (run (forwardClientbound options) s arrivals).queuedDownstream.filter isLevelChunk <+:
          (arrivals.map Prod.snd).filter isLevelChunk := by
  have hqueued : (run (forwardClientbound defaultOptions) inGame
      [(0, levelChunk [1]), (1, startGame), (600, levelChunk [2])]).queuedDownstream =
        [startGame, levelChunk [2], levelChunk [1]] := by decide
  refine ⟨hqueued, fun hall ↦ ?_⟩
  have hprefix := hall defaultOptions inGame
    [(0, levelChunk [1]), (1, startGame), (600, levelChunk [2])] rfl joined_inGame
  rw [hqueued] at hprefix
  exact absurd hprefix (by decide)

end BedrockProtocol.BedrockLiveRelay
