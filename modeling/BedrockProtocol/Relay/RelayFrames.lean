import BedrockProtocol.Relay.BedrockRelay

/-!
# Frames of the packet relay

What a frame forwards decodes to the packets that it names, unless a handler edits a packet
in place and nothing else happens to the batch: then the bytes are the original ones.  An
empty batch is passed on although its frame names no packet.  What is to be forwarded is
stated by what the handlers leave, the packets that are skipped and the level chunks that
are held; the loop over the batch does just that.
-/

namespace BedrockProtocol.BedrockRelay

variable {σ : Type} {relay : BedrockRelay σ} {direction : BedrockRelayDirection}

/-! ## What is to be forwarded -/

section Rules

variable (relay : BedrockRelay σ)

/-- The events as the handlers leave them.  A packet that is skipped has none. -/
def events (direction : BedrockRelayDirection) :
    List VersionedGamePacket → σ → List BedrockRelayPacketEvent
  | [], _ => []
  | packet :: packets, world =>
      if relay.shouldSkipPacket direction packet then events direction packets world
      else
        match relay.handledEvent direction packet world with
        | (.error _, _) => []
        | (.ok event, world) => event :: events direction packets world

/-- The packets that the handlers let through. -/
def candidates (direction : BedrockRelayDirection) (packets : List VersionedGamePacket)
    (world : σ) : List VersionedGamePacket :=
  (relay.events direction packets world).flatMap fun event ↦ event.outcome.1

def beforeStart (packets : List VersionedGamePacket) : List VersionedGamePacket :=
  packets.takeWhile fun packet ↦ packet.name ≠ "start_game"

def fromStart (packets : List VersionedGamePacket) : List VersionedGamePacket :=
  packets.dropWhile fun packet ↦ packet.name ≠ "start_game"

/-- A level chunk in front of the start of the game is held. -/
def isHeld (s : RelayState σ) (packet : VersionedGamePacket) : Bool :=
  relay.options.queueClientboundLevelChunksUntilStartGame && !s.sentClientboundStartGame &&
    packet.name = "level_chunk"

/-- The first start of the game takes along what is held. -/
def released (s : RelayState σ) (packets : List VersionedGamePacket) : List VersionedGamePacket :=
  match fromStart packets with
  | [] => []
  | startGame :: rest =>
      startGame :: (s.queuedClientboundPackets ++ (beforeStart packets).filter (relay.isHeld s) ++
        rest)

/-- What goes to the other side of what the handlers let through. -/
def delivered (direction : BedrockRelayDirection) (s : RelayState σ)
    (packets : List VersionedGamePacket) : List VersionedGamePacket :=
  match direction with
  | .serverbound => packets
  | .clientbound =>
      (beforeStart packets).filter (fun packet ↦ !relay.isHeld s packet) ++ relay.released s packets

/-- A packet is held, or packets held before are released. -/
def Rearranges (direction : BedrockRelayDirection) (s : RelayState σ)
    (packets : List VersionedGamePacket) : Prop :=
  direction = .clientbound ∧
    ((∃ packet ∈ beforeStart packets, relay.isHeld s packet) ∨
      fromStart packets ≠ [] ∧ s.queuedClientboundPackets ≠ [])

/-- The handlers cancelled the event or replaced its packet. -/
def Intervened (event : BedrockRelayPacketEvent) : Prop :=
  event.canceled = true ∨ event.replacements ≠ []

/-- Something happens to the batch other than an edit in place. -/
def Altered (direction : BedrockRelayDirection) (packets : List VersionedGamePacket)
    (s : RelayState σ) : Prop :=
  (∃ packet ∈ packets, relay.shouldSkipPacket direction packet) ∨
    (∃ event ∈ relay.events direction packets s.world, Intervened event) ∨
    relay.Rearranges direction s (relay.candidates direction packets s.world)

/-- What is to be forwarded of a batch. -/
def outgoing (direction : BedrockRelayDirection) (packets : List VersionedGamePacket)
    (s : RelayState σ) : List VersionedGamePacket :=
  relay.delivered direction s (relay.candidates direction packets s.world)

end Rules

theorem outcome_of_not_intervened {event : BedrockRelayPacketEvent} (h : ¬ Intervened event) :
    event.outcome = ([event.packet], false) := by
  obtain ⟨hcanceled, hreplaced⟩ := not_or.mp h
  rw [BedrockRelayPacketEvent.outcome, if_neg hcanceled, if_neg hreplaced]

theorem outcome_raised_iff {event : BedrockRelayPacketEvent} :
    event.outcome.2 = true ↔ Intervened event := by
  unfold BedrockRelayPacketEvent.outcome Intervened
  by_cases hcanceled : event.canceled = true
  · simp [hcanceled]
  · by_cases hreplaced : event.replacements = []
    · simp [hcanceled, hreplaced]
    · simp [hcanceled, hreplaced]

theorem delivered_of_not_rearranges {s : RelayState σ} {packets : List VersionedGamePacket}
    (h : ¬ relay.Rearranges direction s packets) :
    relay.delivered direction s packets = packets := by
  cases direction with
  | serverbound => rfl
  | clientbound =>
      obtain ⟨hheld, hreleased⟩ := not_or.mp fun hor ↦ h ⟨rfl, hor⟩
      push Not at hheld hreleased
      have hkept : (beforeStart packets).filter (fun packet ↦ !relay.isHeld s packet) =
          beforeStart packets := by
        rw [List.filter_eq_self]
        intro packet hpacket
        simpa using hheld packet hpacket
      have hnone : (beforeStart packets).filter (relay.isHeld s) = [] := by
        rw [List.filter_eq_nil_iff]
        intro packet hpacket
        simpa using hheld packet hpacket
      have hrest : relay.released s packets = fromStart packets := by
        unfold released
        cases hstart : fromStart packets with
        | nil => rfl
        | cons startGame rest =>
            rw [hnone, hreleased (by simp [hstart])]
            rfl
      change _ ++ relay.released s packets = _
      rw [hkept, hrest]
      exact List.takeWhile_append_dropWhile

/-! ## The loop -/

/-- The loop over what one packet becomes neither looks at the flag nor at the world. -/
theorem foldl_appendPacket_with (world : σ) (raised : Bool) (packets : List VersionedGamePacket)
    (f : Forwarding σ) :
    packets.foldl (relay.appendPacket direction)
        { f with world := world, changed := f.changed || raised } =
      { packets.foldl (relay.appendPacket direction) f with
        world := world
        changed := (packets.foldl (relay.appendPacket direction) f).changed || raised } := by
  induction packets generalizing f with
  | nil => rfl
  | cons packet packets ih =>
      have hstep : relay.appendPacket direction
          { f with world := world, changed := f.changed || raised } packet =
            { relay.appendPacket direction f packet with
              world := world
              changed := (relay.appendPacket direction f packet).changed || raised } := by
        cases direction with
        | serverbound => rfl
        | clientbound =>
            simp only [appendPacket, appendClientboundPacket]
            split_ifs <;> rfl
      rw [List.foldl_cons, List.foldl_cons, hstep, ih]

theorem beforeStart_cons_of_eq {packet : VersionedGamePacket} (h : packet.name = "start_game")
    (packets : List VersionedGamePacket) : beforeStart (packet :: packets) = [] := by
  simp [beforeStart, h]

theorem fromStart_cons_of_eq {packet : VersionedGamePacket} (h : packet.name = "start_game")
    (packets : List VersionedGamePacket) : fromStart (packet :: packets) = packet :: packets := by
  simp [fromStart, h]

theorem beforeStart_cons_of_ne {packet : VersionedGamePacket} (h : packet.name ≠ "start_game")
    (packets : List VersionedGamePacket) :
    beforeStart (packet :: packets) = packet :: beforeStart packets := by
  simp [beforeStart, h]

theorem fromStart_cons_of_ne {packet : VersionedGamePacket} (h : packet.name ≠ "start_game")
    (packets : List VersionedGamePacket) : fromStart (packet :: packets) = fromStart packets := by
  simp [fromStart, h]

/-- After the start of the game nothing is held, and nothing is left to be released. -/
theorem not_rearranges_of_started {s : RelayState σ} (hsent : s.sentClientboundStartGame = true)
    (hqueued : s.queuedClientboundPackets = []) (packets : List VersionedGamePacket) :
    ¬ relay.Rearranges direction s packets := by
  rintro ⟨-, ⟨packet, -, hheld⟩ | ⟨-, hne⟩⟩
  · simp [isHeld, hsent] at hheld
  · exact hne hqueued

theorem appendClientboundPacket_start {f : Forwarding σ} {packet : VersionedGamePacket}
    (h : packet.name = "start_game") :
    relay.appendClientboundPacket f packet =
      { f with
        sentClientboundStartGame := true
        queuedClientboundPackets := []
        forwardedPackets := f.forwardedPackets ++ packet :: f.queuedClientboundPackets
        changed := f.changed || decide (f.queuedClientboundPackets ≠ []) } := by
  rw [appendClientboundPacket, if_pos h]
  split_ifs with hqueued
  · simp [hqueued]
  · simp [hqueued]

theorem appendClientboundPacket_held {f : Forwarding σ} {packet : VersionedGamePacket}
    (h : packet.name ≠ "start_game") (hheld : relay.isHeld f.toRelayState packet = true) :
    relay.appendClientboundPacket f packet =
      { f with
        changed := true, queuedClientboundPackets := f.queuedClientboundPackets ++ [packet] } := by
  rw [appendClientboundPacket, if_neg h, if_pos (by simpa [isHeld, and_assoc] using hheld)]

theorem appendClientboundPacket_passed {f : Forwarding σ} {packet : VersionedGamePacket}
    (h : packet.name ≠ "start_game") (hheld : relay.isHeld f.toRelayState packet = false) :
    relay.appendClientboundPacket f packet =
      { f with forwardedPackets := f.forwardedPackets ++ [packet] } := by
  rw [appendClientboundPacket, if_neg h, if_neg]
  rintro ⟨hoption, hsent, hname⟩
  simp [isHeld, hoption, hsent, hname] at hheld

/-- What the loop over what the handlers let through forwards, and when it raises the flag. -/
theorem foldl_appendPacket_spec (packets : List VersionedGamePacket) (f : Forwarding σ) :
    (packets.foldl (relay.appendPacket direction) f).forwardedPackets =
        f.forwardedPackets ++ relay.delivered direction f.toRelayState packets ∧
      ((packets.foldl (relay.appendPacket direction) f).changed = true ↔
        f.changed = true ∨ relay.Rearranges direction f.toRelayState packets) := by
  cases direction with
  | serverbound =>
      induction packets generalizing f with
      | nil => simp [delivered, Rearranges]
      | cons packet packets ih =>
          obtain ⟨hforwarded, hchanged⟩ := ih (relay.appendPacket .serverbound f packet)
          rw [List.foldl_cons, hforwarded, hchanged]
          simp [appendPacket, appendServerboundPacket, delivered, Rearranges]
  | clientbound =>
      induction packets generalizing f with
      | nil => simp [delivered, released, beforeStart, fromStart, Rearranges]
      | cons packet packets ih =>
          obtain ⟨hforwarded, hchanged⟩ := ih (relay.appendClientboundPacket f packet)
          rw [List.foldl_cons]
          change (List.foldl _ (relay.appendClientboundPacket f packet) _).forwardedPackets = _ ∧
            ((List.foldl _ (relay.appendClientboundPacket f packet) _).changed = true ↔ _)
          rw [hforwarded, hchanged]
          by_cases hstart : packet.name = "start_game"
          · rw [appendClientboundPacket_start hstart]
            have hnot := @not_rearranges_of_started σ relay .clientbound
              { f.toRelayState with
                sentClientboundStartGame := true, queuedClientboundPackets := [] } rfl rfl packets
            rw [delivered_of_not_rearranges hnot, or_iff_left hnot]
            simp [delivered, released, Rearranges, beforeStart_cons_of_eq hstart,
              fromStart_cons_of_eq hstart]
          · cases hheld : relay.isHeld f.toRelayState packet with
            | true =>
                rw [appendClientboundPacket_held hstart hheld]
                have hsame : relay.isHeld
                    { f.toRelayState with
                      queuedClientboundPackets := f.queuedClientboundPackets ++ [packet] } =
                        relay.isHeld f.toRelayState := rfl
                dsimp only at hsame
                simp only [delivered, released, Rearranges, beforeStart_cons_of_ne hstart,
                  fromStart_cons_of_ne hstart, hsame]
                cases fromStart packets <;> simp [hheld]
            | false =>
                rw [appendClientboundPacket_passed hstart hheld]
                simp only [delivered, released, Rearranges, beforeStart_cons_of_ne hstart,
                  fromStart_cons_of_ne hstart]
                cases fromStart packets <;> simp [hheld]

/-- The flag that a turn of the loop raises itself. -/
def raises (relay : BedrockRelay σ) (direction : BedrockRelayDirection)
    (packets : List VersionedGamePacket) (world : σ) : Bool :=
  packets.any (relay.shouldSkipPacket direction) ||
    (relay.events direction packets world).any fun event ↦ event.outcome.2

/-- A turn of the loop skips the packet or forwards what the handlers let through. -/
theorem forwardPackets_cons {packet : VersionedGamePacket} {packets : List VersionedGamePacket}
    {f f' : Forwarding σ}
    (hrun : relay.forwardPackets direction (packet :: packets) f = (.ok (), f')) :
    (relay.shouldSkipPacket direction packet = true ∧
      relay.forwardPackets direction packets { f with changed := true } = (.ok (), f')) ∨
    (relay.shouldSkipPacket direction packet = false ∧ ∃ event world,
      relay.handledEvent direction packet f.world = (.ok event, world) ∧
      relay.forwardPackets direction packets
        { event.outcome.1.foldl (relay.appendPacket direction) f with
          world := world
          changed := (event.outcome.1.foldl (relay.appendPacket direction) f).changed ||
            event.outcome.2 } = (.ok (), f')) := by
  unfold forwardPackets at hrun
  split at hrun
  · cases hrun
  rename_i f₁ hfirst
  unfold forwardPacket at hfirst
  split_ifs at hfirst with hskip
  · cases hfirst
    exact .inl ⟨hskip, hrun⟩
  · split at hfirst
    · cases hfirst
    rename_i event world hevent
    simp only [Prod.mk.injEq, true_and] at hfirst
    rw [← hfirst, foldl_appendPacket_with] at hrun
    exact .inr ⟨by simpa using hskip, event, world, hevent, hrun⟩

/-- The loop over the batch is the loop over what the handlers let through. -/
theorem forwardPackets_eq {packets : List VersionedGamePacket} {f f' : Forwarding σ}
    (hrun : relay.forwardPackets direction packets f = (.ok (), f')) :
    f' = { (relay.candidates direction packets f.world).foldl (relay.appendPacket direction) f with
      world := f'.world
      changed := ((relay.candidates direction packets f.world).foldl
        (relay.appendPacket direction) f).changed || relay.raises direction packets f.world } := by
  induction packets generalizing f with
  | nil =>
      cases hrun
      simp [candidates, events, raises]
  | cons packet packets ih =>
      rcases forwardPackets_cons hrun with ⟨hskip, hrest⟩ | ⟨hskip, event, world, hevent, hrest⟩
      · have hcandidates : relay.candidates direction (packet :: packets) f.world =
            relay.candidates direction packets f.world := by
          rw [candidates, events, if_pos hskip, candidates]
        have hraises : relay.raises direction (packet :: packets) f.world = true := by
          simp [raises, hskip]
        have hloop := @foldl_appendPacket_with σ relay direction f.world true
          (relay.candidates direction packets f.world) f
        rw [Bool.or_true] at hloop
        rw [ih hrest, hcandidates, hraises, hloop]
        simp
      · have hcandidates : relay.candidates direction (packet :: packets) f.world =
            event.outcome.1 ++ relay.candidates direction packets world := by
          rw [candidates, events, hskip, if_neg Bool.false_ne_true, hevent]
          rfl
        have hraises : relay.raises direction (packet :: packets) f.world =
            (event.outcome.2 || relay.raises direction packets world) := by
          rw [raises, events, hskip, if_neg Bool.false_ne_true, hevent]
          simp [raises, hskip, Bool.or_left_comm]
        rw [ih hrest, hcandidates, hraises, List.foldl_append, foldl_appendPacket_with]
        simp [Bool.or_assoc]

theorem forwardPackets_spec {packets : List VersionedGamePacket} {s : RelayState σ}
    {f : Forwarding σ}
    (hrun : relay.forwardPackets direction packets { toRelayState := s } = (.ok (), f)) :
    f.forwardedPackets = relay.outgoing direction packets s ∧
      (f.changed = true ↔ relay.Altered direction packets s) := by
  obtain ⟨hforwarded, hchanged⟩ := @foldl_appendPacket_spec σ relay direction
    (relay.candidates direction packets s.world) { toRelayState := s }
  rw [forwardPackets_eq hrun]
  refine ⟨hforwarded, ?_⟩
  dsimp only
  rw [Bool.or_eq_true, hchanged, raises, Bool.or_eq_true, List.any_eq_true, List.any_eq_true]
  simp only [outcome_raised_iff, Altered, Bool.false_eq_true, false_or]
  exact or_comm.trans or_assoc

/-- Without packets that are skipped there is an event for each. -/
theorem length_events {packets : List VersionedGamePacket} {f f' : Forwarding σ}
    (hrun : relay.forwardPackets direction packets f = (.ok (), f'))
    (hskip : ¬ ∃ packet ∈ packets, relay.shouldSkipPacket direction packet) :
    (relay.events direction packets f.world).length = packets.length := by
  induction packets generalizing f with
  | nil => rfl
  | cons packet packets ih =>
      rcases forwardPackets_cons hrun with ⟨hfirst, -⟩ | ⟨hfirst, event, world, hevent, hrest⟩
      · exact absurd ⟨packet, List.mem_cons_self, hfirst⟩ hskip
      · have hlength := ih hrest fun ⟨p, hp, h⟩ ↦ hskip ⟨p, List.mem_cons_of_mem _ hp, h⟩
        rw [events, hfirst, if_neg Bool.false_ne_true, hevent]
        rw [List.length_cons, hlength, List.length_cons]

/-- Where nothing else happens, what is forwarded is what the handlers leave in the events. -/
theorem outgoing_of_not_altered {packets : List VersionedGamePacket} {s : RelayState σ}
    (h : ¬ relay.Altered direction packets s) :
    relay.outgoing direction packets s =
      (relay.events direction packets s.world).map BedrockRelayPacketEvent.packet := by
  obtain ⟨-, hrest⟩ := not_or.mp h
  obtain ⟨hevents, hrearranges⟩ := not_or.mp hrest
  push Not at hevents
  rw [outgoing, delivered_of_not_rearranges hrearranges, candidates, List.map_eq_flatMap]
  refine List.flatMap_congr fun event hevent ↦ ?_
  rw [outcome_of_not_intervened (hevents event hevent)]

/-! ## Frames -/

/-- The bytes decode to the packets, and there are none without packets. -/
def Consistent (relay : BedrockRelay σ) (frame : BedrockRelayFrame) : Prop :=
  (frame.forwardedMcpe ≠ [] → ∃ payload, VersionedMcpeCodec.decodeMcpePayload relay.zlib
    relay.mcpeCodec frame.forwardedMcpe "deflate" = .ok payload ∧
      payload.batch = frame.forwardedPackets) ∧
  (frame.forwardedPackets = [] → frame.forwardedMcpe = [])

/-- A batch to which nothing happens has packets, none of which was edited in place, and
what is put together anew has only packets that the codec makes. -/
def InStep (relay : BedrockRelay σ) (direction : BedrockRelayDirection)
    (packets : List VersionedGamePacket) (s : RelayState σ) : Prop :=
  (¬ relay.Altered direction packets s → packets ≠ [] ∧
    (relay.events direction packets s.world).map BedrockRelayPacketEvent.packet = packets) ∧
  (relay.Altered direction packets s → ∀ packet ∈ relay.outgoing direction packets s,
    WellMade relay.mcpeCodec.definition packet ∧ packet.fullPacket.length < 2 ^ 32)

/-- The codec reads the compression that it writes, and counts the batch, where a batch is
put together anew. -/
def Carried (relay : BedrockRelay σ) (direction : BedrockRelayDirection)
    (packets : List VersionedGamePacket) (s : RelayState σ) : Prop :=
  relay.Altered direction packets s → relay.outgoing direction packets s ≠ [] →
    (relay.mcpeCodec.compressorInPacketHeader = true ∨
      relay.options.outgoingCompression = .deflateRaw) ∧
    VersionedMcpeCodec.Fits relay.zlib ((relay.outgoing direction packets s).flatMap
      VersionedBatchCodec.framePacket) relay.options.outgoingCompression 7

theorem decode_encode_of_carried {packets : List VersionedGamePacket} (hz : relay.zlib.Lawful)
    (hmade : ∀ packet ∈ packets,
      WellMade relay.mcpeCodec.definition packet ∧ packet.fullPacket.length < 2 ^ 32)
    (hreads : relay.mcpeCodec.compressorInPacketHeader = true ∨
      relay.options.outgoingCompression = .deflateRaw)
    (hfits : VersionedMcpeCodec.Fits relay.zlib (packets.flatMap VersionedBatchCodec.framePacket)
      relay.options.outgoingCompression 7) {bytes : List UInt8}
    (hencode : VersionedMcpeCodec.encodeMcpePayload relay.zlib relay.mcpeCodec packets
      relay.options.outgoingCompression 7 = .ok bytes) :
    ∃ payload, VersionedMcpeCodec.decodeMcpePayload relay.zlib relay.mcpeCodec bytes "deflate" =
      .ok payload ∧ payload.batch = packets := by
  have hlevel : Zlib.ValidLevel 7 := by decide
  have hshort := fun packet hpacket ↦ (hmade packet hpacket).2
  have hmade := fun packet hpacket ↦ (hmade packet hpacket).1
  rcases hreads with hheader | hdeflate
  · obtain ⟨bytes', hencode', hdecode⟩ := VersionedMcpeCodec.decodeMcpePayload_encodeMcpePayload
      hmade hshort hz hheader hlevel hfits
    rw [hencode] at hencode'
    obtain rfl := Except.ok.inj hencode'
    exact hdecode "deflate"
  · rw [hdeflate] at hencode hfits
    obtain ⟨bytes', hencode', hdecode⟩ :=
      VersionedMcpeCodec.decodeMcpePayload_encodeMcpePayload_deflateRaw
        hmade hshort hz hlevel hfits
    rw [hencode] at hencode'
    obtain rfl := Except.ok.inj hencode'
    exact hdecode

theorem encodeMcpePayload_ne_nil {packets : List VersionedGamePacket} {zlib : Zlib}
    {codec : VersionedMcpeCodec} {compression : VersionedMcpeCompression} {level : ℤ}
    {bytes : List UInt8}
    (h : VersionedMcpeCodec.encodeMcpePayload zlib codec packets compression level = .ok bytes) :
    bytes ≠ [] := by
  obtain ⟨compressionPacket, -, hbytes⟩ := bind_eq_ok.mp h
  obtain rfl := Except.ok.inj hbytes
  simp

theorem decodeMcpePayload_ne_nil {zlib : Zlib} {codec : VersionedMcpeCodec}
    {mcpePayload : List UInt8} {payload : VersionedMcpePayload} {legacy : String}
    (h : VersionedMcpeCodec.decodeMcpePayload zlib codec mcpePayload legacy = .ok payload) :
    mcpePayload ≠ [] := by
  rintro rfl
  cases h

/-- A frame of a batch that is forwarded. -/
theorem consistent_handleDecodedBatch (hz : relay.zlib.Lawful) {mcpePayload : List UInt8}
    {decoded : VersionedMcpePayload} {s s' : RelayState σ} {frame : BedrockRelayFrame}
    (hdecode : VersionedMcpeCodec.decodeMcpePayload relay.zlib relay.mcpeCodec mcpePayload
      "deflate" = .ok decoded)
    (hrun : relay.handleDecodedBatch direction decoded.batch mcpePayload true s =
      (.ok frame, s')) :
    (relay.InStep direction decoded.batch s → relay.Carried direction decoded.batch s →
        relay.Consistent frame) ∧
      (relay.Consistent frame → relay.InStep direction decoded.batch s) := by
  unfold handleDecodedBatch at hrun
  simp only [Bool.not_true, Bool.false_eq_true, if_false] at hrun
  split at hrun
  · cases hrun
  rename_i f hloop
  obtain ⟨hframe, -⟩ := Prod.mk.inj hrun
  obtain ⟨hforwarded, hchanged⟩ := forwardPackets_spec hloop
  by_cases haltered : relay.Altered direction decoded.batch s
  · rw [finishFrame, if_neg (by simp [hchanged.mpr haltered]), hforwarded] at hframe
    split at hframe
    · rename_i hnil
      obtain rfl := Except.ok.inj hframe
      refine ⟨fun _ _ ↦ ⟨fun hne ↦ absurd rfl hne, fun _ ↦ rfl⟩,
        fun _ ↦ ⟨fun hnot ↦ absurd haltered hnot, fun _ ↦ by simp [hnil]⟩⟩
    · rename_i hne
      obtain ⟨bytes, hencode, hbytes⟩ := bind_eq_ok.mp hframe
      obtain rfl := Except.ok.inj hbytes
      refine ⟨fun hstep hcarried ↦ ⟨fun _ ↦ ?_, fun hnil ↦ absurd hnil hne⟩, ?_⟩
      · obtain ⟨hreads, hfits⟩ := hcarried haltered hne
        exact decode_encode_of_carried hz (hstep.2 haltered) hreads hfits hencode
      · rintro ⟨hdecodes, -⟩
        obtain ⟨payload, hpayload, hbatch⟩ := hdecodes (encodeMcpePayload_ne_nil hencode)
        have hsame : payload.batch = relay.outgoing direction decoded.batch s := hbatch
        refine ⟨fun hnot ↦ absurd haltered hnot, fun _ ↦ ?_⟩
        rw [← hsame]
        exact VersionedMcpeCodec.wellMade_of_decodeMcpePayload hpayload
  · have hnone : ¬ ∃ packet ∈ decoded.batch, relay.shouldSkipPacket direction packet :=
      fun hskip ↦ haltered (.inl hskip)
    have hlength := length_events hloop hnone
    have hraised : f.changed = false := by
      rw [← Bool.not_eq_true]
      exact fun h ↦ haltered (hchanged.mp h)
    rw [outgoing_of_not_altered haltered] at hforwarded
    rw [finishFrame, if_pos ⟨hraised, by rw [hforwarded, List.length_map, hlength]⟩] at hframe
    obtain rfl := Except.ok.inj hframe
    have hne := decodeMcpePayload_ne_nil hdecode
    refine ⟨fun hstep _ ↦ ?_, ?_⟩
    · obtain ⟨hbatch, hsame⟩ := hstep.1 haltered
      refine ⟨fun _ ↦ ⟨decoded, hdecode, (hforwarded.trans hsame).symm⟩, fun hnil ↦ ?_⟩
      exact absurd ((hforwarded.trans hsame).symm.trans hnil) hbatch
    · rintro ⟨hdecodes, hempty⟩
      obtain ⟨payload, hpayload, hbatch⟩ := hdecodes hne
      rw [hdecode] at hpayload
      obtain rfl := Except.ok.inj hpayload
      have hsame : decoded.batch = f.forwardedPackets := hbatch
      refine ⟨fun _ ↦ ⟨fun hnil ↦ hne (hempty ?_), (hsame.trans hforwarded).symm⟩,
        fun halt ↦ absurd halt haltered⟩
      exact hsame.symm.trans hnil

/-- What arrives from one side. -/
def handle (relay : BedrockRelay σ) :
    BedrockRelayDirection → List UInt8 → Code (RelayState σ) BedrockRelayFrame
  | .clientbound => relay.handleClientboundMcpe
  | .serverbound => relay.handleServerboundMcpe

/-- The payload is kept for later. -/
def queues (direction : BedrockRelayDirection) (s : RelayState σ) : Bool :=
  match direction with
  | .clientbound => !s.startRelaying
  | .serverbound => s.startRelaying && !s.upstreamReady

/-- The batch that is forwarded, if any, meets the condition. -/
def OfBatch (relay : BedrockRelay σ) (condition : List VersionedGamePacket → RelayState σ → Prop)
    (direction : BedrockRelayDirection) (mcpePayload : List UInt8) (s : RelayState σ) : Prop :=
  queues direction s = false → relay.shouldForward direction = true →
    ∀ decoded world, VersionedMcpeCodec.decodeMcpePayload relay.zlib relay.mcpeCodec mcpePayload
      "deflate" = .ok decoded → relay.handleBatch direction decoded.batch s.world = (.ok (), world) →
      condition decoded.batch { s with world }

theorem consistent_of_empty {frame : BedrockRelayFrame} (h : frame.forwardedMcpe = []) :
    relay.Consistent frame := ⟨fun hne ↦ absurd h hne, fun _ ↦ h⟩

theorem handle_of_queues {mcpePayload : List UInt8} {s s' : RelayState σ}
    {frame : BedrockRelayFrame} (hqueues : queues direction s = true)
    (hrun : relay.handle direction mcpePayload s = (.ok frame, s')) : frame = { queued := true } := by
  cases direction with
  | clientbound =>
      have hqueued : (!s.startRelaying) = true := hqueues
      simp only [handle, handleClientboundMcpe, hqueued, if_true] at hrun
      exact (Except.ok.inj (Prod.mk.inj hrun).1).symm
  | serverbound =>
      have hqueued : (s.startRelaying && !s.upstreamReady) = true := hqueues
      simp only [handle, handleServerboundMcpe, hqueued, if_true] at hrun
      exact (Except.ok.inj (Prod.mk.inj hrun).1).symm

theorem handle_of_not_queues {mcpePayload : List UInt8} {s : RelayState σ}
    (hqueues : queues direction s = false) :
    relay.handle direction mcpePayload s = relay.handleMcpe direction mcpePayload s := by
  cases direction with
  | clientbound =>
      simp only [handle, handleClientboundMcpe]
      exact if_neg (by simpa [queues] using hqueues)
  | serverbound =>
      simp only [handle, handleServerboundMcpe]
      exact if_neg (by simpa [queues] using hqueues)

theorem frames_consistent (relay : BedrockRelay σ) (hz : relay.zlib.Lawful)
    {direction : BedrockRelayDirection} {mcpePayload : List UInt8} {s s' : RelayState σ}
    {frame : BedrockRelayFrame}
    (hrun : relay.handle direction mcpePayload s = (.ok frame, s')) :
    (relay.OfBatch (relay.InStep direction) direction mcpePayload s →
        relay.OfBatch (relay.Carried direction) direction mcpePayload s →
        relay.Consistent frame) ∧
      (relay.Consistent frame →
        relay.OfBatch (relay.InStep direction) direction mcpePayload s) := by
  cases hqueues : queues direction s with
  | true =>
      obtain rfl := handle_of_queues hqueues hrun
      refine ⟨fun _ _ ↦ consistent_of_empty rfl, fun _ hnot ↦ ?_⟩
      rw [hqueues] at hnot
      cases hnot
  | false =>
      rw [handle_of_not_queues hqueues, handleMcpe] at hrun
      split at hrun
      · cases hrun
      · rename_i decoded hdecode
        split at hrun
        · cases hrun
        · rename_i world hbatch
          cases hforward : relay.shouldForward direction with
          | false =>
              rw [hforward] at hrun
              cases hrun
              refine ⟨fun _ _ ↦ consistent_of_empty rfl, fun _ _ hnot ↦ ?_⟩
              rw [hforward] at hnot
              cases hnot
          | true =>
              rw [hforward] at hrun
              obtain ⟨hto, hfrom⟩ := consistent_handleDecodedBatch hz hdecode hrun
              refine ⟨fun hstep hcarried ↦ hto (hstep hqueues hforward decoded world hdecode hbatch)
                (hcarried hqueues hforward decoded world hdecode hbatch), ?_⟩
              intro hconsistent _ _ decoded' world' hdecode' hbatch'
              rw [hdecode] at hdecode'
              obtain rfl := Except.ok.inj hdecode'
              rw [hbatch] at hbatch'
              obtain ⟨-, rfl⟩ := Prod.mk.inj hbatch'
              exact hfrom hconsistent

/-! ## Edited in place -/

open VersionedMcpeCodec (textCodec textPacket)

def textPayload : List UInt8 := [0xfe, 0xff, 2, 9, 1]

/-- The handler puts another packet in the event, and may call `replace` with it. -/
def editingRelay (replaces : Bool) : BedrockRelay Unit where
  options := { outgoingCompression := .uncompressed }
  zlib := Zlib.stored
  mcpeCodec := textCodec
  clientboundHandlers := [fun event world ↦
    (.ok (if replaces then event.replace [textPacket [2]]
      else { event with packet := textPacket [2] }), world)]
  handleBatch := fun _ _ world ↦ (.ok (), world)

def relaying : RelayState Unit := { startRelaying := true, world := () }

theorem decode_textPayload :
    VersionedMcpeCodec.decodeMcpePayload Zlib.stored textCodec textPayload "deflate" =
      .ok ⟨0xff, [0xff, 2, 9, 1], [2, 9, 1], [textPacket [1]]⟩ := by
  rfl

theorem frames_consistent_replaced :
    (editingRelay true).Consistent
      { packets := [textPacket [1]], forwardedPackets := [textPacket [2]]
        forwardedMcpe := [0xfe, 0xff, 2, 9, 2], mutated := true } := by
  have hmade : WellMade textCodec.definition (textPacket [2]) :=
    wellMade_makePacketByName (VersionedMcpeCodec.makePacketByName_text [2])
  have houtgoing (world : Unit) : (editingRelay true).outgoing .clientbound [textPacket [1]]
      { relaying with world } = [textPacket [2]] := rfl
  have haltered (world : Unit) : (editingRelay true).Altered .clientbound [textPacket [1]]
      { relaying with world } :=
    .inr (.inl ⟨_, List.mem_cons_self, .inr (List.cons_ne_nil _ _)⟩)
  refine (@frames_consistent Unit (editingRelay true) Zlib.lawful_stored .clientbound textPayload
    relaying relaying _ rfl).1 ?_ ?_
  · intro _ _ decoded world hdecode _
    obtain rfl := Except.ok.inj (decode_textPayload.symm.trans hdecode)
    refine ⟨fun hnot ↦ absurd (haltered world) hnot, fun _ ↦ ?_⟩
    rw [houtgoing]
    simpa using ⟨hmade, by decide⟩
  · intro _ _ decoded world hdecode _ _ _
    exact ⟨.inl rfl, True.intro⟩

/-- The frame names the edited packet and forwards the original bytes. -/
theorem edited_in_place_not_consistent :
    (editingRelay false).handle .clientbound textPayload relaying =
        (.ok { packets := [textPacket [1]], forwardedPackets := [textPacket [2]]
               forwardedMcpe := textPayload }, relaying) ∧
      ¬ ∀ (relay : BedrockRelay Unit) (direction : BedrockRelayDirection)
        (mcpePayload : List UInt8) (s s' : RelayState Unit) (frame : BedrockRelayFrame),
        relay.zlib.Lawful → relay.handle direction mcpePayload s = (.ok frame, s') →
          relay.Consistent frame := by
  have hrun : (editingRelay false).handle .clientbound textPayload relaying =
      (.ok { packets := [textPacket [1]], forwardedPackets := [textPacket [2]]
             forwardedMcpe := textPayload }, relaying) := by rfl
  refine ⟨hrun, fun hall ↦ ?_⟩
  obtain ⟨payload, hpayload, hbatch⟩ :=
    (hall _ _ _ _ _ _ Zlib.lawful_stored hrun).1 (by decide)
  have hdecode : VersionedMcpeCodec.decodeMcpePayload Zlib.stored textCodec textPayload "deflate" =
      .ok payload := hpayload
  rw [decode_textPayload] at hdecode
  obtain rfl := Except.ok.inj hdecode
  exact absurd hbatch (by decide)

end BedrockProtocol.BedrockRelay
