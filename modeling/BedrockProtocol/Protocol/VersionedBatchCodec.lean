import BedrockProtocol.Lib.Leb128
import BedrockProtocol.Protocol.ProtocolDefinition

/-!
# Packets and batches of one version

`VersionedPacketCodec.hpp` and `VersionedBatchCodec.hpp`: a full packet is its
number as a varint followed by the payload, a framed batch is full packets with
their lengths in front.
-/

namespace BedrockProtocol

structure VersionedGamePacket where
  packetId : ℕ
  name : String
  paramsType : String
  fullPacket : List UInt8
  payload : List UInt8
  deriving DecidableEq, Repr

namespace VersionedPacketCodec

def writeVarUInt (value : ℕ) : List UInt8 := leb128 4 value

def readVarUInt : Reader ℕ :=
  readLeb128 (fun _ ↦ Reader.byte fun _ ↦ "unexpected end while reading varuint")
    "varuint too large" 32 5 0 0

variable (definition : ProtocolVersionInfo)

def decodeFullPacket (fullPacket : List UInt8) : Except String VersionedGamePacket := do
  let (packetId, cursor) ← readVarUInt (Cursor.start fullPacket)
  pure { packetId
         name := definition.packetName packetId
         paramsType := definition.packetParamsType packetId
         fullPacket
         payload := cursor.rest }

def encodeFullPacketById (packetId : ℕ) (payload : List UInt8) : List UInt8 :=
  writeVarUInt packetId ++ payload

def makePacketByName (packetName : String) (payload : List UInt8) :
    Except String VersionedGamePacket := do
  let packetId ← definition.packetId packetName
  pure { packetId
         name := packetName
         paramsType := definition.packetParamsTypeByName packetName
         fullPacket := encodeFullPacketById packetId payload
         payload }

end VersionedPacketCodec

namespace VersionedBatchCodec

variable (definition : ProtocolVersionInfo)

def readPacket : Reader VersionedGamePacket := do
  let packetSize ← VersionedPacketCodec.readVarUInt
  if packetSize = 0 then throw "framed batch contains empty packet"
  else
    let fullPacket ← Reader.take packetSize fun _ ↦ "framed batch packet exceeds buffer size"
    VersionedPacketCodec.decodeFullPacket definition fullPacket

def decodeFramedBatch (framedBatch : List UInt8) : Except String (List VersionedGamePacket) :=
  Reader.all (readPacket definition) framedBatch

/-- The length is cast to 32 bits. -/
def framePacket (packet : VersionedGamePacket) : List UInt8 :=
  VersionedPacketCodec.writeVarUInt (packet.fullPacket.length % 2 ^ 32) ++ packet.fullPacket

def encodeFramedBatch : List VersionedGamePacket → Except String (List UInt8)
  | [] => .ok []
  | packet :: packets =>
      if packet.fullPacket = [] then .error "cannot encode packet with empty fullPacket"
      else do
        let rest ← encodeFramedBatch packets
        pure (framePacket packet ++ rest)

end VersionedBatchCodec

/-! ## Packets made by name -/

section Made

open VersionedPacketCodec

variable {definition : ProtocolVersionInfo}

theorem reads_readVarUInt {v : ℕ} (h : v < 2 ^ 32) : Reads readVarUInt (writeVarUInt v) v :=
  reads_leb128 (takesGroups_const Reads.byte) (by omega) h (by omega)

/-- A packet this version's codec makes: the decoder recovers it from its full
packet alone. -/
structure WellMade (definition : ProtocolVersionInfo) (packet : VersionedGamePacket) : Prop where
  fullPacket_ne_nil : packet.fullPacket ≠ []
  decode : decodeFullPacket definition packet.fullPacket = .ok packet

theorem wellMade_makePacketByName {packetName : String} {payload : List UInt8}
    {packet : VersionedGamePacket}
    (h : makePacketByName definition packetName payload = .ok packet) :
    WellMade definition packet := by
  unfold makePacketByName at h
  obtain ⟨packetId, hid, hpacket⟩ := bind_eq_ok.mp h
  obtain rfl := Except.ok.inj hpacket
  unfold ProtocolVersionInfo.packetId at hid
  split at hid
  · cases hid
  · rename_i entry hentry
    obtain rfl := Except.ok.inj hid
    obtain ⟨hmem, hname⟩ := ProtocolVersionInfo.mem_of_packetByName hentry
    have hbyId := ProtocolVersionInfo.packetById_of_mem hmem
    refine ⟨?_, ?_⟩
    · intro hnil
      exact leb128_ne_nil 4 entry.id (List.append_eq_nil_iff.mp hnil).1
    · have hread := (reads_readVarUInt (definition.id_lt entry hmem)).start payload
      simp only [decodeFullPacket, encodeFullPacketById, hread, ok_bind, pure_eq_ok,
        ProtocolVersionInfo.packetName, ProtocolVersionInfo.packetParamsType,
        ProtocolVersionInfo.packetParamsTypeByName, hbyId, hentry, hname]

theorem wellMade_of_mapM {items : List (String × List UInt8)}
    {packets : List VersionedGamePacket}
    (h : items.mapM (fun item ↦ makePacketByName definition item.1 item.2) = .ok packets) :
    ∀ packet ∈ packets, WellMade definition packet := by
  induction items generalizing packets with
  | nil =>
      rw [List.mapM_nil] at h
      obtain rfl := Except.ok.inj h
      simp
  | cons item items ih =>
      rw [List.mapM_cons] at h
      obtain ⟨packet, hpacket, hrest⟩ := bind_eq_ok.mp h
      obtain ⟨others, hothers, hcons⟩ := bind_eq_ok.mp hrest
      obtain rfl := Except.ok.inj hcons
      intro p hp
      rcases List.mem_cons.mp hp with rfl | hp
      · exact wellMade_makePacketByName hpacket
      · exact ih hothers p hp

end Made

/-! ## Batches invert -/

namespace VersionedBatchCodec

variable {definition : ProtocolVersionInfo} {packets : List VersionedGamePacket}

theorem reads_framePacket {packet : VersionedGamePacket} (hmade : WellMade definition packet)
    (hshort : packet.fullPacket.length < 2 ^ 32) :
    Reads (readPacket definition) (framePacket packet) packet := by
  have hpos : 0 < packet.fullPacket.length := List.length_pos_of_ne_nil hmade.fullPacket_ne_nil
  rw [framePacket, Nat.mod_eq_of_lt hshort]
  refine (reads_readVarUInt hshort).bind ?_
  rw [if_neg hpos.ne']
  refine (Reads.take packet.fullPacket rfl).bind_last ?_
  rw [hmade.decode]
  exact Reads.pure packet

theorem encodeFramedBatch_eq (hmade : ∀ packet ∈ packets, WellMade definition packet) :
    encodeFramedBatch packets = .ok (packets.flatMap framePacket) := by
  induction packets with
  | nil => rfl
  | cons packet packets ih =>
      have hfirst := (hmade packet (by simp)).fullPacket_ne_nil
      rw [encodeFramedBatch, if_neg hfirst, ih fun p hp ↦ hmade p (by simp [hp])]
      rfl

theorem yields_readPacket (definition : ProtocolVersionInfo) :
    Yields (readPacket definition) fun packet ↦
      WellMade definition packet ∧ packet.fullPacket.length < 2 ^ 32 := by
  have hsize : Yields VersionedPacketCodec.readVarUInt (· < 2 ^ 32) :=
    yields_readLeb128 _ _ _ _ _ (Nat.two_pow_pos 32)
  refine hsize.bind fun packetSize hlt ↦ ?_
  split
  · exact Yields.throw _
  · rename_i hne
    refine (Yields.take _ _).bind fun fullPacket hlength ↦ Yields.lift fun packet hdecode ↦ ?_
    have hfull : packet.fullPacket = fullPacket := by
      obtain ⟨result, -, hpacket⟩ := bind_eq_ok.mp hdecode
      obtain rfl := Except.ok.inj hpacket
      rfl
    refine ⟨⟨?_, by rwa [hfull]⟩, by rwa [hfull, hlength]⟩
    rw [hfull]
    exact List.ne_nil_of_length_pos (by omega)

/-- Packets that were decoded are well made. -/
theorem wellMade_of_decodeFramedBatch {framedBatch : List UInt8}
    (h : decodeFramedBatch definition framedBatch = .ok packets) :
    ∀ packet ∈ packets, WellMade definition packet ∧ packet.fullPacket.length < 2 ^ 32 :=
  (yields_readPacket definition).all h

theorem decodeFramedBatch_flatMap (hmade : ∀ packet ∈ packets, WellMade definition packet)
    (hshort : ∀ packet ∈ packets, packet.fullPacket.length < 2 ^ 32) :
    decodeFramedBatch definition (packets.flatMap framePacket) = .ok packets := by
  have hall := all_flatMap packets (fun p hp ↦ reads_framePacket (hmade p hp) (hshort p hp))
    (fun p _ hnil ↦ leb128_ne_nil 4 _ (List.append_eq_nil_iff.mp hnil).1)
  rwa [List.map_id'] at hall

end VersionedBatchCodec

end BedrockProtocol
