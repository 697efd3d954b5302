import BedrockProtocol.Relay.BedrockLiveRelay
import BedrockProtocol.World.LevelChunkReaders

/-!
# The play_status packets that the packet relay drops

The status of a `play_status` packet is a big-endian word.  The client and the live relay
read all of it; `isPlayStatusLoginSuccess` of the packet relay looks at the first byte,
which is zero for every status below `2 ^ 24`.  What a relay shows to its handlers is read
off a handler in front of them that keeps a record.
-/

namespace BedrockProtocol

/-! ## Readers of the status -/

namespace VersionedPayloadReader

/-- `VersionedPayloadCursor::readU32BE` at the start of a payload. -/
def readU32BE (payload : List UInt8) : Except String ℕ :=
  match payload with
  | a :: b :: c :: d :: _ =>
      .ok ((a.toNat <<< 24) ||| (b.toNat <<< 16) ||| (c.toNat <<< 8) ||| d.toNat)
  | _ => .error "not enough bytes for u32be"

def readPlayStatus (packet : VersionedGamePacket) : Except String ℤ := do
  requirePacket packet "play_status"
  let status ← readU32BE packet.payload
  pure (toSigned 32 status)

end VersionedPayloadReader

/-- The client's reader of the status; `-1` for any other packet. -/
def playStatusCode (packet : VersionedGamePacket) : ℤ :=
  if packet.name ≠ "play_status" ∨ packet.payload.length < 4 then -1
  else
    match packet.payload with
    | a :: b :: c :: d :: _ =>
        toSigned 32 ((a.toNat <<< 24) ||| (b.toNat <<< 16) ||| (c.toNat <<< 8) ||| d.toNat)
    | _ => -1

/-- A `play_status` packet with status `login_success`. -/
def IsLoginSuccess (packet : VersionedGamePacket) : Prop :=
  packet.name = "play_status" ∧ packet.payload.take 4 = [0, 0, 0, 0]

instance (packet : VersionedGamePacket) : Decidable (IsLoginSuccess packet) :=
  inferInstanceAs (Decidable (_ ∧ _))

theorem bigEndian_eq_zero (a b c d : UInt8) :
    toSigned 32 ((a.toNat <<< 24) ||| (b.toNat <<< 16) ||| (c.toNat <<< 8) ||| d.toNat) = 0 ↔
      a = 0 ∧ b = 0 ∧ c = 0 ∧ d = 0 := by
  have hzero (x : UInt8) : x = 0 ↔ x.toNat = 0 := by
    rw [← UInt8.toNat_inj]
    rfl
  have hword : (a.toNat <<< 24) ||| (b.toNat <<< 16) ||| (c.toNat <<< 8) ||| d.toNat < 2 ^ 32 := by
    have ha := a.toNat_lt
    have hb := b.toNat_lt
    have hc := c.toNat_lt
    have hd := d.toNat_lt
    refine Nat.or_lt_two_pow (Nat.or_lt_two_pow (Nat.or_lt_two_pow ?_ ?_) ?_) (by omega) <;>
      rw [Nat.shiftLeft_eq] <;> omega
  have hsigned : ∀ n < 2 ^ 32, toSigned 32 n = 0 ↔ n = 0 := by
    intro n hn
    rw [toSigned]
    split <;> omega
  rw [hsigned _ hword, Nat.or_eq_zero_iff, Nat.or_eq_zero_iff, Nat.or_eq_zero_iff,
    Nat.shiftLeft_eq_zero_iff, Nat.shiftLeft_eq_zero_iff, Nat.shiftLeft_eq_zero_iff, hzero a,
    hzero b, hzero c, hzero d, and_assoc, and_assoc]

/-- The client and the live relay agree on the status. -/
theorem playStatusCode_eq_zero_iff (packet : VersionedGamePacket) :
    playStatusCode packet = 0 ↔ IsLoginSuccess packet := by
  rw [playStatusCode, IsLoginSuccess]
  split
  · rename_i hother
    refine ⟨fun h ↦ absurd h (by decide), fun h ↦ ?_⟩
    have hlength := congrArg List.length h.2
    rw [List.length_take] at hlength
    rcases hother with hname | hshort
    · exact absurd h.1 hname
    · simp at hlength
      omega
  · rename_i hplay
    rw [not_or, not_not] at hplay
    match hpayload : packet.payload with
    | a :: b :: c :: d :: rest =>
        dsimp only
        rw [bigEndian_eq_zero]
        simp [hplay.1]
    | [] | [_] | [_, _] | [_, _, _] => simp [hpayload] at hplay

theorem readPlayStatus_eq {packet : VersionedGamePacket} (hname : packet.name = "play_status")
    (hlength : 4 ≤ packet.payload.length) :
    VersionedPayloadReader.readPlayStatus packet = .ok (playStatusCode packet) := by
  rw [playStatusCode, if_neg (by simp [hname, hlength]), VersionedPayloadReader.readPlayStatus,
    VersionedPayloadReader.requirePacket, if_neg (not_not.mpr hname)]
  match hpayload : packet.payload with
  | a :: b :: c :: d :: rest => rfl
  | [] | [_] | [_, _] | [_, _, _] => simp [hpayload] at hlength

theorem liveRelay_isPlayStatusLoginSuccess (packet : VersionedGamePacket) :
    BedrockLiveRelay.isPlayStatusLoginSuccess packet = decide (IsLoginSuccess packet) := by
  have hcode := playStatusCode_eq_zero_iff packet
  rw [playStatusCode] at hcode
  rw [BedrockLiveRelay.isPlayStatusLoginSuccess, BedrockLiveRelay.playStatus]
  refine decide_eq_decide.mpr (Iff.trans ?_ hcode)
  split
  · exact ⟨fun h ↦ absurd h (by simp), fun h ↦ absurd h (by decide)⟩
  · rename_i hplay
    rw [not_or, not_not] at hplay
    match hpayload : packet.payload with
    | a :: b :: c :: d :: rest =>
        dsimp only
        rw [bigEndian_eq_zero, Option.some_inj, ← UInt8.toNat_inj, ← UInt8.toNat_inj,
          ← UInt8.toNat_inj, ← UInt8.toNat_inj]
        simp [leValue]
        omega
    | [] | [_] | [_, _] | [_, _, _] => simp [hpayload] at hplay

namespace BedrockRelay

variable {σ : Type}

/-! ## What handlers get to see -/

/-- A handler that only records the packet of its event. -/
def recorder (event : BedrockRelayPacketEvent) :
    Code (σ × List VersionedGamePacket) BedrockRelayPacketEvent :=
  fun world ↦ (.ok event, (world.1, world.2 ++ [event.packet]))

/-- Code that knows nothing of the record. -/
def unrecorded {α : Type} (code : Code σ α) : Code (σ × List VersionedGamePacket) α :=
  fun world ↦ ((code world.1).1, ((code world.1).2, world.2))

/-- The relay with a recorder in front of its clientbound handlers. -/
def recording (relay : BedrockRelay σ) : BedrockRelay (σ × List VersionedGamePacket) where
  options := relay.options
  zlib := relay.zlib
  mcpeCodec := relay.mcpeCodec
  clientboundHandlers :=
    recorder :: relay.clientboundHandlers.map fun handler event ↦ unrecorded (handler event)
  serverboundHandlers := relay.serverboundHandlers.map fun handler event ↦
    unrecorded (handler event)
  handleBatch := fun direction packets ↦ unrecorded (relay.handleBatch direction packets)

/-- The packets that `handleDecodedBatch` comes to: all of them unless a handler throws. -/
def reached (relay : BedrockRelay σ) (direction : BedrockRelayDirection) :
    List VersionedGamePacket → Forwarding σ → List VersionedGamePacket
  | [], _ => []
  | packet :: packets, f =>
      packet ::
        match relay.forwardPacket direction packet f with
        | (.error _, _) => []
        | (.ok (), f) => reached relay direction packets f

/-- `handleDecodedBatch` passes the packet over without a handler seeing it. -/
def passesOver (relay : BedrockRelay σ) (shouldForward : Bool) (packet : VersionedGamePacket) :
    Bool :=
  !shouldForward || relay.shouldSkipPacket .clientbound packet

section Record

variable (relay : BedrockRelay σ)

theorem runHandlers_record (handlers : List (BedrockRelayPacketEvent → Code σ
    BedrockRelayPacketEvent)) (event : BedrockRelayPacketEvent)
    (world : σ × List VersionedGamePacket) :
    (runHandlers (handlers.map fun handler event ↦ unrecorded (handler event)) event
      world).2.2 = world.2 := by
  induction handlers generalizing event world with
  | nil => rfl
  | cons handler handlers ih =>
      rw [List.map_cons, runHandlers, unrecorded]
      cases (handler event world.1).1 with
      | error message => rfl
      | ok event => exact ih event _

theorem foldl_appendPacket_world {τ : Type} (relay : BedrockRelay τ)
    (direction : BedrockRelayDirection) (packets : List VersionedGamePacket) (f : Forwarding τ) :
    (packets.foldl (relay.appendPacket direction) f).world = f.world := by
  induction packets generalizing f with
  | nil => rfl
  | cons packet packets ih =>
      rw [List.foldl_cons, ih]
      cases direction with
      | serverbound => rfl
      | clientbound =>
          rw [appendPacket, appendClientboundPacket]
          split_ifs <;> rfl

theorem handledEvent_record (packet : VersionedGamePacket) (world : σ × List VersionedGamePacket) :
    (relay.recording.handledEvent .clientbound packet world).2.2 = world.2 ++ [packet] := by
  have hevent : relay.recording.eventOf .clientbound packet =
      .ok { direction := .clientbound, packet } := if_neg (by simp)
  rw [handledEvent, hevent]
  exact runHandlers_record relay.clientboundHandlers _ (world.1, world.2 ++ [packet])

/-- One turn of the loop. -/
theorem forwardPacket_record (packet : VersionedGamePacket)
    (f : Forwarding (σ × List VersionedGamePacket)) :
    (relay.recording.forwardPacket .clientbound packet f).2.world.2 =
      f.world.2 ++ if relay.shouldSkipPacket .clientbound packet then [] else [packet] := by
  have hskip : relay.recording.shouldSkipPacket .clientbound packet =
      relay.shouldSkipPacket .clientbound packet := rfl
  have hrecord := handledEvent_record relay packet f.world
  rw [forwardPacket, hskip]
  split
  · rw [List.append_nil]
  · cases hrun : relay.recording.handledEvent .clientbound packet f.world with
    | mk result world =>
        rw [hrun] at hrecord
        cases result with
        | error message => exact hrecord
        | ok event =>
            dsimp only
            rw [foldl_appendPacket_world]
            exact hrecord

theorem forwardPackets_record (packets : List VersionedGamePacket)
    (f : Forwarding (σ × List VersionedGamePacket)) :
    (relay.recording.forwardPackets .clientbound packets f).2.world.2 = f.world.2 ++
      (relay.recording.reached .clientbound packets f).filter
        fun packet ↦ !relay.shouldSkipPacket .clientbound packet := by
  induction packets generalizing f with
  | nil => rw [forwardPackets, reached, List.filter_nil, List.append_nil]
  | cons packet packets ih =>
      have hturn := forwardPacket_record relay packet f
      rw [forwardPackets, reached, List.filter_cons]
      cases hrun : relay.recording.forwardPacket .clientbound packet f with
      | mk result f' =>
          rw [hrun] at hturn
          cases result with
          | error message =>
              dsimp only at hturn ⊢
              rw [hturn]
              cases relay.shouldSkipPacket .clientbound packet <;> rfl
          | ok _ =>
              dsimp only at hturn ⊢
              rw [ih, hturn]
              cases relay.shouldSkipPacket .clientbound packet <;> simp

end Record

/-- The packets that the loop comes to, and all of them when there is none. -/
def visited (relay : BedrockRelay σ) (packets : List VersionedGamePacket) (shouldForward : Bool)
    (s : RelayState σ) : List VersionedGamePacket :=
  if shouldForward then relay.reached .clientbound packets { toRelayState := s } else packets

theorem handleDecodedBatch_record (relay : BedrockRelay σ) (packets : List VersionedGamePacket)
    (payload : List UInt8) (shouldForward : Bool)
    (s : RelayState (σ × List VersionedGamePacket)) :
    (relay.recording.handleDecodedBatch .clientbound packets payload shouldForward s).2.world.2 =
      s.world.2 ++ (relay.recording.visited packets shouldForward s).filter
        fun packet ↦ !relay.passesOver shouldForward packet := by
  rw [handleDecodedBatch, visited]
  cases shouldForward with
  | false => simp [passesOver]
  | true =>
      have hloop := forwardPackets_record relay packets { toRelayState := s }
      rw [if_neg (by simp), if_pos rfl]
      simp only [passesOver, Bool.not_true, Bool.false_or]
      rw [← hloop]
      cases relay.recording.forwardPackets .clientbound packets { toRelayState := s } with
      | mk result f => cases result <;> rfl

/-- Two selections from a list are the same exactly when they agree on its elements. -/
theorem filter_eq_filter_iff {α : Type} {p q : α → Bool} {as : List α} :
    as.filter p = as.filter q ↔ ∀ a ∈ as, p a = q a := by
  constructor
  · intro h a ha
    have hmem := congrArg (a ∈ ·) h
    simp only [List.mem_filter, ha, true_and, eq_iff_iff] at hmem
    exact Bool.eq_iff_iff.mpr hmem
  · exact List.filter_congr

/-- Handlers get to see exactly the packets that are no `login_success` when packets are
forwarded and no other `play_status` begins with a zero byte. -/
theorem shown_unless_login_success_iff (relay : BedrockRelay σ)
    (hskip : relay.options.skipClientboundLoginSuccess = true)
    (packets : List VersionedGamePacket) (payload : List UInt8) (shouldForward : Bool)
    (s : RelayState (σ × List VersionedGamePacket)) :
    (relay.recording.handleDecodedBatch .clientbound packets payload shouldForward s).2.world.2 =
        s.world.2 ++ (relay.recording.visited packets shouldForward s).filter
          (fun packet ↦ !decide (IsLoginSuccess packet)) ↔
      ∀ packet ∈ relay.recording.visited packets shouldForward s, IsLoginSuccess packet ∨
        (shouldForward = true ∧
          ¬ (packet.name = "play_status" ∧ packet.payload.head? = some 0)) := by
  rw [handleDecodedBatch_record, List.append_cancel_left_eq, filter_eq_filter_iff]
  refine forall_congr' fun packet ↦ forall_congr' fun _ ↦ ?_
  have hhead : IsLoginSuccess packet → packet.name = "play_status" ∧
      packet.payload.head? = some 0 := by
    rintro ⟨hname, hzero⟩
    refine ⟨hname, ?_⟩
    cases hpayload : packet.payload with
    | nil => simp [hpayload] at hzero
    | cons first rest =>
        rw [hpayload, List.take_succ_cons] at hzero
        rw [List.head?_cons, (List.cons.inj hzero).1]
  rw [Bool.not_inj_iff, passesOver, shouldSkipPacket, hskip, isPlayStatusLoginSuccess]
  by_cases hlogin : IsLoginSuccess packet
  · obtain ⟨hname, hfirst⟩ := hhead hlogin
    simp [hlogin, hname, hfirst]
  · simp [hlogin]

/-- A relay without handlers. -/
def plainRelay : BedrockRelay Unit where
  options := {}
  zlib := Zlib.stored
  mcpeCodec := VersionedMcpeCodec.textCodec
  handleBatch := fun _ _ world ↦ (.ok (), world)

def playStatus (status : List UInt8) : VersionedGamePacket :=
  ⟨2, "play_status", "packet_play_status", 2 :: status, status⟩

/-- A text and a `login_success` in one batch: handlers get to see the text alone. -/
theorem shown_login_success :
    (plainRelay.recording.handleDecodedBatch .clientbound
      [VersionedMcpeCodec.textPacket [5], playStatus [0, 0, 0, 0]] [] true
      { world := ((), []) }).2.world.2 = [VersionedMcpeCodec.textPacket [5]] := by
  have hvisited : plainRelay.recording.visited
      [VersionedMcpeCodec.textPacket [5], playStatus [0, 0, 0, 0]] true { world := ((), []) } =
        [VersionedMcpeCodec.textPacket [5], playStatus [0, 0, 0, 0]] := by decide
  have hshown := shown_unless_login_success_iff plainRelay rfl
    [VersionedMcpeCodec.textPacket [5], playStatus [0, 0, 0, 0]] [] true { world := ((), []) }
  rw [hvisited] at hshown
  exact hshown.mpr (by decide)

/-- The status `player_spawn` is dropped. -/
theorem player_spawn_not_shown :
    ¬ (∀ (relay : BedrockRelay Unit) (packets : List VersionedGamePacket) (payload : List UInt8)
      (s : RelayState (Unit × List VersionedGamePacket)),
      relay.options.skipClientboundLoginSuccess = true →
      (relay.recording.handleDecodedBatch .clientbound packets payload true s).2.world.2 =
        s.world.2 ++ (relay.recording.visited packets true s).filter
          (fun packet ↦ !decide (IsLoginSuccess packet))) := by
  intro hall
  have hshown := hall plainRelay [playStatus [0, 0, 0, 3]] [] { world := ((), []) } rfl
  revert hshown
  decide

end BedrockRelay

end BedrockProtocol
