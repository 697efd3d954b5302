import BedrockProtocol.Relay.HeldChunks

/-!
# Level chunks of the packet relay

The packet relay keeps the level chunks that handlers leave until a `start_game`
is forwarded, and forwards them right after it.  A call that throws loses the
packets it had forwarded so far, and the queue with them.
-/

namespace BedrockProtocol.BedrockRelay

open BedrockLiveRelay (isLevelChunk levelChunk startGame)

variable {σ : Type} {relay : BedrockRelay σ}

/-! ## What is produced -/

/-- The packets that the handlers leave of a batch, up to a handler that throws. -/
def produced (relay : BedrockRelay σ) : List VersionedGamePacket → σ → List VersionedGamePacket
  | [], _ => []
  | packet :: packets, world =>
      if relay.shouldSkipPacket .clientbound packet then produced relay packets world
      else
        match relay.handledEvent .clientbound packet world with
        | (.error _, _) => []
        | (.ok event, world) => event.outcome.1 ++ produced relay packets world

/-- Neither a level chunk nor `start_game`. -/
def isOther (packet : VersionedGamePacket) : Bool :=
  !isLevelChunk packet && packet.name ≠ "start_game"

/-- The packets `forwarded` of those `made` so far, while `queued` are held; `sent`
tells whether `start_game` was forwarded. -/
inductive ChunkLaw (queued : List VersionedGamePacket) (sent : Bool)
    (forwarded made : List VersionedGamePacket) : Prop
  | before (hqueued : queued = made.filter isLevelChunk) (hsent : sent = false)
      (hforwarded : ∀ p ∈ forwarded, isOther p) (hmade : ∀ p ∈ made, p.name ≠ "start_game")
  | after (start : VersionedGamePacket) (first later firstMade laterMade : List VersionedGamePacket)
      (hqueued : queued = []) (hsent : sent = true)
      (hforwarded : forwarded = first ++ start :: (firstMade.filter isLevelChunk ++ later))
      (hmade : made = firstMade ++ start :: laterMade) (hstart : start.name = "start_game")
      (hfirst : ∀ p ∈ first, isOther p) (hfirstMade : ∀ p ∈ firstMade, p.name ≠ "start_game")
      (hlater : later.filter isLevelChunk = laterMade.filter isLevelChunk)

namespace ChunkLaw

variable {queued forwarded made : List VersionedGamePacket} {sent : Bool}

theorem filter_of_isOther {packets : List VersionedGamePacket} (h : ∀ p ∈ packets, isOther p) :
    packets.filter isLevelChunk = [] := by
  rw [List.filter_eq_nil_iff]
  intro packet hpacket hchunk
  have hother := h packet hpacket
  simp [isOther, hchunk] at hother

theorem isLevelChunk_of_start {packet : VersionedGamePacket} (h : packet.name = "start_game") :
    isLevelChunk packet = false := by
  simp [isLevelChunk, h]

/-- Every level chunk is forwarded or held, in the order in which they were made. -/
theorem in_order (h : ChunkLaw queued sent forwarded made) :
    forwarded.filter isLevelChunk ++ queued = made.filter isLevelChunk := by
  cases h with
  | before hqueued hsent hforwarded hmade =>
      rw [filter_of_isOther hforwarded, hqueued]
      rfl
  | after start first later firstMade laterMade hqueued hsent hforwarded hmade hstart hfirst _
      hlater =>
      simp [hqueued, hforwarded, hmade, filter_of_isOther hfirst, isLevelChunk_of_start hstart,
        hlater]

theorem append_other {packet : VersionedGamePacket} (h : ChunkLaw queued sent forwarded made)
    (hother : isOther packet) : ChunkLaw queued sent (forwarded ++ [packet]) (made ++ [packet]) := by
  have hchunk : isLevelChunk packet = false := by
    simp only [isOther, Bool.and_eq_true, Bool.not_eq_true'] at hother
    exact hother.1
  have hname : packet.name ≠ "start_game" := by
    simp only [isOther, Bool.and_eq_true, decide_eq_true_eq] at hother
    exact hother.2
  cases h with
  | before hqueued hsent hforwarded hmade =>
      refine .before ?_ hsent ?_ ?_
      · simp [hqueued, hchunk]
      · exact List.forall_mem_append.mpr ⟨hforwarded, by simpa using hother⟩
      · exact List.forall_mem_append.mpr ⟨hmade, by simpa using hname⟩
  | after start first later firstMade laterMade hqueued hsent hforwarded hmade hstart hfirst
      hfirstMade hlater =>
      refine .after start first (later ++ [packet]) firstMade (laterMade ++ [packet]) hqueued hsent
        ?_ ?_ hstart hfirst hfirstMade ?_
      · simp [hforwarded]
      · simp [hmade]
      · simp [hlater]

theorem append_start {packet : VersionedGamePacket} (h : ChunkLaw queued sent forwarded made)
    (hstart : packet.name = "start_game") :
    ChunkLaw [] true (forwarded ++ packet :: queued) (made ++ [packet]) := by
  cases h with
  | before hqueued hsent hforwarded hmade =>
      refine .after packet forwarded [] made [] rfl rfl ?_ rfl hstart hforwarded hmade rfl
      rw [hqueued, List.append_nil]
  | after start first later firstMade laterMade hqueued hsent hforwarded hmade hstart' hfirst
      hfirstMade hlater =>
      refine .after start first (later ++ [packet]) firstMade (laterMade ++ [packet]) rfl rfl
        ?_ ?_ hstart' hfirst hfirstMade ?_
      · simp [hforwarded, hqueued]
      · simp [hmade]
      · simp [hlater]

theorem append_held {packet : VersionedGamePacket} (h : ChunkLaw queued sent forwarded made)
    (hsent : sent = false) (hchunk : isLevelChunk packet = true) :
    ChunkLaw (queued ++ [packet]) sent forwarded (made ++ [packet]) := by
  have hname : packet.name ≠ "start_game" := by
    intro hstart
    rw [isLevelChunk_of_start hstart] at hchunk
    cases hchunk
  cases h with
  | before hqueued _ hforwarded hmade =>
      refine .before ?_ hsent hforwarded ?_
      · simp [hqueued, hchunk]
      · exact List.forall_mem_append.mpr ⟨hmade, by simpa using hname⟩
  | after start first later firstMade laterMade hqueued hsent' =>
      rw [hsent] at hsent'
      cases hsent'

theorem append_sent {packet : VersionedGamePacket} (h : ChunkLaw queued sent forwarded made)
    (hsent : sent = true) : ChunkLaw queued sent (forwarded ++ [packet]) (made ++ [packet]) := by
  cases h with
  | before hqueued hsent' =>
      rw [hsent] at hsent'
      cases hsent'
  | after start first later firstMade laterMade hqueued _ hforwarded hmade hstart hfirst
      hfirstMade hlater =>
      refine .after start first (later ++ [packet]) firstMade (laterMade ++ [packet]) hqueued hsent
        ?_ ?_ hstart hfirst hfirstMade ?_
      · simp [hforwarded]
      · simp [hmade]
      · simp [hlater]

/-- Packets that are lost do not matter if no `start_game` was made before the first one was
forwarded, and no level chunk afterwards. -/
theorem of_lost {queued' lost madeNow : List VersionedGamePacket} {sent' : Bool}
    (h : ChunkLaw queued sent forwarded made)
    (hloop : ChunkLaw queued' sent' (forwarded ++ lost) (made ++ madeNow))
    (hstarts : sent = false → ∀ p ∈ madeNow, p.name ≠ "start_game")
    (hchunks : sent = true → ∀ p ∈ madeNow, isLevelChunk p = false) :
    ChunkLaw queued' sent' forwarded (made ++ madeNow) := by
  cases h with
  | before hqueued hsent hforwarded hmade =>
      have hnone : ∀ p ∈ made ++ madeNow, p.name ≠ "start_game" :=
        List.forall_mem_append.mpr ⟨hmade, hstarts hsent⟩
      cases hloop with
      | before hqueued' hsent' _ hmade' => exact .before hqueued' hsent' hforwarded hmade'
      | after start first later firstMade laterMade _ _ _ hmade' hstart =>
          exact absurd hstart (hnone start (by simp [hmade']))
  | after start first later firstMade laterMade hqueued hsent hforwarded hmade hstart hfirst
      hfirstMade hlater =>
      cases hloop with
      | before _ _ _ hmade' => exact absurd hstart (hmade' start (by simp [hmade]))
      | after _ _ _ _ _ hqueued' hsent' =>
          have hnone : madeNow.filter isLevelChunk = [] := by
            rw [List.filter_eq_nil_iff]
            intro packet hpacket
            simp [hchunks hsent packet hpacket]
          refine .after start first later firstMade (laterMade ++ madeNow) hqueued' hsent'
            hforwarded ?_ hstart hfirst hfirstMade ?_
          · rw [hmade, List.append_assoc, List.cons_append]
          · rw [List.filter_append, hnone, List.append_nil, hlater]

end ChunkLaw

/-- One packet that the handlers leave. -/
theorem chunkLaw_appendClientboundPacket
    (hoption : relay.options.queueClientboundLevelChunksUntilStartGame = true)
    {f : Forwarding σ} {history made : List VersionedGamePacket} (packet : VersionedGamePacket)
    (h : ChunkLaw f.queuedClientboundPackets f.sentClientboundStartGame
      (history ++ f.forwardedPackets) made) :
    ChunkLaw (relay.appendClientboundPacket f packet).queuedClientboundPackets
      (relay.appendClientboundPacket f packet).sentClientboundStartGame
      (history ++ (relay.appendClientboundPacket f packet).forwardedPackets)
      (made ++ [packet]) := by
  unfold appendClientboundPacket
  split_ifs with hstart hempty hheld
  · have hlaw := h.append_start hstart
    rw [hempty] at hlaw ⊢
    rwa [← List.append_assoc]
  · have hlaw := h.append_start hstart
    simpa using hlaw
  · obtain ⟨-, hsent, hname⟩ := hheld
    exact h.append_held hsent (by simp [isLevelChunk, hname])
  · rw [← List.append_assoc]
    cases hsent : f.sentClientboundStartGame with
    | true =>
        rw [hsent] at h
        exact h.append_sent rfl
    | false =>
        rw [hsent] at h
        refine h.append_other ?_
        have hchunk : packet.name ≠ "level_chunk" := fun hname ↦ hheld ⟨hoption, hsent, hname⟩
        simp [isOther, isLevelChunk, hchunk, hstart]

theorem chunkLaw_foldl (hoption : relay.options.queueClientboundLevelChunksUntilStartGame = true)
    {f : Forwarding σ} {history made : List VersionedGamePacket}
    (candidates : List VersionedGamePacket)
    (h : ChunkLaw f.queuedClientboundPackets f.sentClientboundStartGame
      (history ++ f.forwardedPackets) made) :
    ChunkLaw (candidates.foldl (relay.appendPacket .clientbound) f).queuedClientboundPackets
      (candidates.foldl (relay.appendPacket .clientbound) f).sentClientboundStartGame
      (history ++ (candidates.foldl (relay.appendPacket .clientbound) f).forwardedPackets)
      (made ++ candidates) := by
  induction candidates generalizing f made with
  | nil => simpa using h
  | cons packet candidates ih =>
      rw [← List.singleton_append, ← List.append_assoc]
      exact ih (chunkLaw_appendClientboundPacket hoption packet h)

theorem world_appendPacket (f : Forwarding σ) (packet : VersionedGamePacket) :
    (relay.appendPacket .clientbound f packet).world = f.world := by
  simp only [appendPacket, appendClientboundPacket]
  split_ifs <;> rfl

theorem world_foldl (f : Forwarding σ) (candidates : List VersionedGamePacket) :
    (candidates.foldl (relay.appendPacket .clientbound) f).world = f.world := by
  induction candidates generalizing f with
  | nil => rfl
  | cons packet candidates ih => exact (ih _).trans (world_appendPacket f packet)

/-- The loop over a batch, also one that a handler ends. -/
theorem chunkLaw_forwardPackets
    (hoption : relay.options.queueClientboundLevelChunksUntilStartGame = true)
    {f : Forwarding σ} {history made : List VersionedGamePacket}
    (packets : List VersionedGamePacket)
    (h : ChunkLaw f.queuedClientboundPackets f.sentClientboundStartGame
      (history ++ f.forwardedPackets) made) :
    ChunkLaw (relay.forwardPackets .clientbound packets f).2.queuedClientboundPackets
      (relay.forwardPackets .clientbound packets f).2.sentClientboundStartGame
      (history ++ (relay.forwardPackets .clientbound packets f).2.forwardedPackets)
      (made ++ relay.produced packets f.world) := by
  induction packets generalizing f made with
  | nil => simpa [forwardPackets, produced] using h
  | cons packet packets ih =>
      unfold forwardPackets forwardPacket produced
      split_ifs with hskip
      · exact ih h
      · cases hevent : relay.handledEvent .clientbound packet f.world with
        | mk result world =>
            cases result with
            | error message => simpa using h
            | ok event =>
                have hlaw := @chunkLaw_foldl σ relay hoption
                  { f with world, changed := f.changed || event.outcome.2 } history made
                  event.outcome.1 h
                have hrest := ih hlaw
                rw [world_foldl] at hrest
                simpa using hrest

/-! ## Runs -/

/-- A relay, and what it forwarded and its handlers produced so far. -/
structure ChunkHistory (σ : Type) where
  state : RelayState σ
  forwarded : List VersionedGamePacket := []
  made : List VersionedGamePacket := []

/-- The batch that `handleClientboundMcpe` hands to the loop, and the world it starts
with. -/
def loopBatch (relay : BedrockRelay σ) (mcpePayload : List UInt8) (s : RelayState σ) :
    Option (List VersionedGamePacket × σ) :=
  if !s.startRelaying || !relay.shouldForward .clientbound then none
  else
    match VersionedMcpeCodec.decodeMcpePayload relay.zlib relay.mcpeCodec mcpePayload "deflate" with
    | .error _ => none
    | .ok decoded =>
        match relay.handleBatch .clientbound decoded.batch s.world with
        | (.error _, _) => none
        | (.ok (), world) => some (decoded.batch, world)

def receive (relay : BedrockRelay σ) (s : ChunkHistory σ) (mcpePayload : List UInt8) :
    ChunkHistory σ where
  state := (relay.handleClientboundMcpe mcpePayload s.state).2
  forwarded :=
    match (relay.handleClientboundMcpe mcpePayload s.state).1 with
    | .error _ => s.forwarded
    | .ok frame => s.forwarded ++ frame.forwardedPackets
  made :=
    match relay.loopBatch mcpePayload s.state with
    | none => s.made
    | some (packets, world) => s.made ++ relay.produced packets world

/-- The handlers of a call that throws produced no `start_game` if none was forwarded yet,
and no level chunk otherwise. -/
def LosesNothing (relay : BedrockRelay σ) (s : ChunkHistory σ) (mcpePayload : List UInt8) : Prop :=
  Throws (relay.handleClientboundMcpe mcpePayload s.state).1 →
    ∀ packets world, relay.loopBatch mcpePayload s.state = some (packets, world) →
      ∀ packet ∈ relay.produced packets world,
        (s.state.sentClientboundStartGame = false → packet.name ≠ "start_game") ∧
        (s.state.sentClientboundStartGame = true → isLevelChunk packet = false)

theorem handle_of_no_batch {mcpePayload : List UInt8} {s : RelayState σ}
    (h : relay.loopBatch mcpePayload s = none) :
    (relay.handleClientboundMcpe mcpePayload s).2.queuedClientboundPackets =
        s.queuedClientboundPackets ∧
      (relay.handleClientboundMcpe mcpePayload s).2.sentClientboundStartGame =
        s.sentClientboundStartGame ∧
      ∀ frame, (relay.handleClientboundMcpe mcpePayload s).1 = .ok frame →
        frame.forwardedPackets = [] := by
  by_cases hstart : s.startRelaying = true
  · cases hdecode : VersionedMcpeCodec.decodeMcpePayload relay.zlib relay.mcpeCodec mcpePayload
        "deflate" with
    | error message =>
        have hrun : relay.handleClientboundMcpe mcpePayload s = (.error message, s) := by
          simp [handleClientboundMcpe, handleMcpe, hstart, hdecode]
        rw [hrun]
        exact ⟨rfl, rfl, by simp⟩
    | ok decoded =>
        obtain ⟨result, hbatch⟩ : ∃ result,
          relay.handleBatch .clientbound decoded.batch s.world = result := ⟨_, rfl⟩
        obtain ⟨message | ⟨⟩, world⟩ := result
        · have hrun : relay.handleClientboundMcpe mcpePayload s =
              (.error message, { s with world }) := by
            simp [handleClientboundMcpe, handleMcpe, hstart, hdecode, hbatch]
          rw [hrun]
          exact ⟨rfl, rfl, by simp⟩
        · cases hforward : relay.shouldForward .clientbound with
          | true => simp [loopBatch, hstart, hdecode, hbatch, hforward] at h
          | false =>
              have hrun : relay.handleClientboundMcpe mcpePayload s =
                  (.ok { packets := decoded.batch, mutated := true }, { s with world }) := by
                simp [handleClientboundMcpe, handleMcpe, handleDecodedBatch, hstart, hdecode,
                  hbatch, hforward]
              rw [hrun]
              exact ⟨rfl, rfl, by simp⟩
  · have hrun : relay.handleClientboundMcpe mcpePayload s =
        (.ok { queued := true }, { s with downQueue := s.downQueue ++ [mcpePayload] }) := by
      simp [handleClientboundMcpe, hstart]
    rw [hrun]
    exact ⟨rfl, rfl, by simp⟩

theorem handle_of_batch {mcpePayload : List UInt8} {s : RelayState σ}
    {packets : List VersionedGamePacket} {world : σ}
    (h : relay.loopBatch mcpePayload s = some (packets, world)) :
    relay.handleClientboundMcpe mcpePayload s =
      relay.handleDecodedBatch .clientbound packets mcpePayload true { s with world } := by
  unfold loopBatch at h
  split at h
  · cases h
  · rename_i hforwards
    simp only [Bool.or_eq_true, Bool.not_eq_true', not_or, Bool.not_eq_false] at hforwards
    split at h
    · cases h
    · rename_i decoded hdecode
      split at h
      · cases h
      · rename_i world' hbatch
        cases h
        simp only [handleClientboundMcpe, handleMcpe, hforwards.1, hforwards.2, hdecode, hbatch,
          Bool.not_true, Bool.false_eq_true, if_false]

theorem forwardedPackets_finishFrame {packets : List VersionedGamePacket}
    {mcpePayload : List UInt8} {f : Forwarding σ} {frame : BedrockRelayFrame}
    (h : relay.finishFrame packets mcpePayload f = .ok frame) :
    frame.forwardedPackets = f.forwardedPackets := by
  unfold finishFrame at h
  split at h
  · obtain rfl := Except.ok.inj h
    rfl
  split at h
  · rename_i hnil
    obtain rfl := Except.ok.inj h
    exact hnil.symm
  · obtain ⟨bytes, -, hframe⟩ := bind_eq_ok.mp h
    obtain rfl := Except.ok.inj hframe
    rfl

theorem chunkLaw_receive (hoption : relay.options.queueClientboundLevelChunksUntilStartGame = true)
    {s : ChunkHistory σ} {mcpePayload : List UInt8}
    (h : ChunkLaw s.state.queuedClientboundPackets s.state.sentClientboundStartGame s.forwarded
      s.made) (hlost : relay.LosesNothing s mcpePayload) :
    ChunkLaw (relay.receive s mcpePayload).state.queuedClientboundPackets
      (relay.receive s mcpePayload).state.sentClientboundStartGame
      (relay.receive s mcpePayload).forwarded (relay.receive s mcpePayload).made := by
  cases hbatch : relay.loopBatch mcpePayload s.state with
  | none =>
      obtain ⟨hqueued, hsent, hframe⟩ := handle_of_no_batch hbatch
      have hforwarded : (relay.receive s mcpePayload).forwarded = s.forwarded := by
        unfold receive
        dsimp only
        split
        · rfl
        · rename_i frame hrun
          rw [hframe frame hrun, List.append_nil]
      have hmade : (relay.receive s mcpePayload).made = s.made := by simp only [receive, hbatch]
      rw [hforwarded, hmade]
      simpa only [receive, hqueued, hsent] using h
  | some batch =>
      obtain ⟨packets, world⟩ := batch
      have hrun := handle_of_batch hbatch
      have hmade : (relay.receive s mcpePayload).made =
          s.made ++ relay.produced packets world := by simp only [receive, hbatch]
      have hloop := @chunkLaw_forwardPackets σ relay hoption
        { toRelayState := { s.state with world } } s.forwarded s.made packets (by simpa using h)
      have hlostLaw (hthrows : Throws (relay.handleClientboundMcpe mcpePayload s.state).1) :=
        h.of_lost (by simpa using hloop)
          (fun hsent p hp ↦ (hlost hthrows packets world hbatch p hp).1 hsent)
          fun hsent p hp ↦ (hlost hthrows packets world hbatch p hp).2 hsent
      rw [hmade]
      simp only [receive]
      rw [hrun] at hlostLaw ⊢
      simp only [handleDecodedBatch, Bool.not_true, Bool.false_eq_true, if_false] at hlostLaw ⊢
      obtain ⟨result, hloopRun⟩ : ∃ result, relay.forwardPackets .clientbound packets
        { toRelayState := { s.state with world } } = result := ⟨_, rfl⟩
      rw [hloopRun] at hloop hlostLaw ⊢
      obtain ⟨message | ⟨⟩, f⟩ := result
      · exact hlostLaw (throws_error message)
      · dsimp only at hlostLaw ⊢
        cases hfinish : relay.finishFrame packets mcpePayload f with
        | error message =>
            rw [hfinish] at hlostLaw
            exact hlostLaw (throws_error message)
        | ok frame =>
            dsimp only
            rw [forwardedPackets_finishFrame hfinish]
            exact hloop

theorem levelChunks_after_startGame (relay : BedrockRelay σ)
    (hoption : relay.options.queueClientboundLevelChunksUntilStartGame = true)
    {s : RelayState σ} (hqueued : s.queuedClientboundPackets = [])
    (hsent : s.sentClientboundStartGame = false) (payloads : List (List UInt8))
    (h : AllSteps relay.receive relay.LosesNothing { state := s } payloads) :
    let s' := run relay.receive { state := s } payloads
    s'.forwarded.filter isLevelChunk ++ s'.state.queuedClientboundPackets =
        s'.made.filter isLevelChunk ∧
      ChunkLaw s'.state.queuedClientboundPackets s'.state.sentClientboundStartGame s'.forwarded
        s'.made := by
  intro s'
  have hstart : ChunkLaw s.queuedClientboundPackets s.sentClientboundStartGame [] [] :=
    .before hqueued hsent (by simp) (by simp)
  have hlaw := @invariant_run _ _ relay.receive relay.LosesNothing
    (fun s ↦ ChunkLaw s.state.queuedClientboundPackets s.state.sentClientboundStartGame
      s.forwarded s.made)
    (fun s payload hs hlost ↦ chunkLaw_receive hoption hs hlost) _ _ hstart h
  exact ⟨hlaw.in_order, hlaw⟩

/-! ## A handler that throws -/

def chunkCodec : VersionedMcpeCodec where
  definition := ⟨"1.21.0", [⟨9, "text", "packet_text"⟩, ⟨11, "start_game", "packet_start_game"⟩,
    ⟨58, "level_chunk", "packet_level_chunk"⟩], by decide, by decide⟩
  compressorInPacketHeader := true
  compressorInPacketHeader_eq := by decide

/-- The handler refuses texts. -/
def refusingRelay : BedrockRelay Unit where
  options := {}
  zlib := Zlib.stored
  mcpeCodec := chunkCodec
  clientboundHandlers := [fun event world ↦
    (if event.packet.name = "text" then .error "refused" else .ok event, world)]
  handleBatch := fun _ _ world ↦ (.ok (), world)

def joined : RelayState Unit := { startRelaying := true, world := () }

def chunkPacket (x : UInt8) : VersionedGamePacket :=
  ⟨58, "level_chunk", "packet_level_chunk", [58, x], [x]⟩

def startGamePacket : VersionedGamePacket :=
  ⟨11, "start_game", "packet_start_game", [11, 7], [7]⟩

def chunkPayload (x : UInt8) : List UInt8 := [0xfe, 0xff, 2, 58, x]

def startPayload : List UInt8 := [0xfe, 0xff, 2, 11, 7]

def startAndTextPayload : List UInt8 := [0xfe, 0xff, 2, 11, 7, 2, 9, 1]

/-- Held, and forwarded after `start_game`. -/
theorem levelChunks_after_startGame_held :
    let s' := run refusingRelay.receive { state := joined } [chunkPayload 1, startPayload]
    s'.forwarded.filter isLevelChunk ++ s'.state.queuedClientboundPackets =
        s'.made.filter isLevelChunk ∧
      ChunkLaw s'.state.queuedClientboundPackets s'.state.sentClientboundStartGame s'.forwarded
        s'.made := by
  refine levelChunks_after_startGame refusingRelay (s := joined) rfl rfl rfl _ ⟨?_, ?_, trivial⟩
  · rintro ⟨message, hthrows⟩
    cases hthrows
  · rintro ⟨message, hthrows⟩
    cases hthrows

/-- The text ends the call after `start_game` released the queue: the first level chunk
is lost, and the second goes to a client that never got `start_game`. -/
theorem levelChunks_not_after_startGame :
    (run refusingRelay.receive { state := joined }
        [chunkPayload 1, startAndTextPayload, chunkPayload 2]).forwarded = [chunkPacket 2] ∧
      ¬ ∀ (relay : BedrockRelay Unit) (s : RelayState Unit) (payloads : List (List UInt8)),
        relay.options.queueClientboundLevelChunksUntilStartGame = true →
        s.queuedClientboundPackets = [] → s.sentClientboundStartGame = false →
        let s' := run relay.receive { state := s } payloads
        s'.forwarded.filter isLevelChunk ++ s'.state.queuedClientboundPackets =
            s'.made.filter isLevelChunk ∧
          ChunkLaw s'.state.queuedClientboundPackets s'.state.sentClientboundStartGame
            s'.forwarded s'.made := by
  have hrun : run refusingRelay.receive { state := joined }
      [chunkPayload 1, startAndTextPayload, chunkPayload 2] =
        { state := { joined with sentClientboundStartGame := true }
          forwarded := [chunkPacket 2]
          made := [chunkPacket 1, startGamePacket, chunkPacket 2] } := by rfl
  refine ⟨by rw [hrun], fun hall ↦ ?_⟩
  have hlaw := (hall refusingRelay joined
    [chunkPayload 1, startAndTextPayload, chunkPayload 2] rfl rfl rfl).1
  rw [hrun] at hlaw
  exact absurd hlaw (by decide)

end BedrockProtocol.BedrockRelay
