import BedrockProtocol.Lib.Outcome
import Mathlib.Algebra.Group.Nat.Defs
import Mathlib.Data.List.Nodup

/-!
# Packet tables

`ProtocolDefinition.hpp` over the generated tables: a version names its packets
and numbers them.  Lookups are linear searches for the first entry; in every
generated table no number occurs twice, which is what makes a number stand for
one packet.
-/

namespace BedrockProtocol

structure ProtocolPacketInfo where
  id : ℕ
  name : String
  paramsType : String
  deriving DecidableEq, Repr

/-- A generated table; the last two fields hold of every table of
`GeneratedProtocolTables.cpp`. -/
structure ProtocolVersionInfo where
  minecraftVersion : String
  packets : List ProtocolPacketInfo
  id_lt : ∀ packet ∈ packets, packet.id < 2 ^ 32
  ids_nodup : (packets.map ProtocolPacketInfo.id).Nodup

namespace ProtocolVersionInfo

variable (info : ProtocolVersionInfo)

def packetById (packetId : ℕ) : Option ProtocolPacketInfo :=
  info.packets.find? fun packet ↦ packet.id == packetId

def packetByName (packetName : String) : Option ProtocolPacketInfo :=
  info.packets.find? fun packet ↦ packetName == packet.name

def hasPacket (packetName : String) : Bool := (info.packetByName packetName).isSome

def packetName (packetId : ℕ) : String :=
  match info.packetById packetId with
  | none => "unknown_" ++ toString packetId
  | some packet => packet.name

def packetId (packetName : String) : Except String ℕ :=
  match info.packetByName packetName with
  | none => .error
      ("unknown packet name for version " ++ info.minecraftVersion ++ ": " ++ packetName)
  | some packet => .ok packet.id

def packetParamsType (packetId : ℕ) : String :=
  match info.packetById packetId with
  | none => ""
  | some packet => packet.paramsType

def packetParamsTypeByName (packetName : String) : String :=
  match info.packetByName packetName with
  | none => ""
  | some packet => packet.paramsType

variable {info} {packet : ProtocolPacketInfo} {packetName : String}

theorem mem_of_packetByName (h : info.packetByName packetName = some packet) :
    packet ∈ info.packets ∧ packet.name = packetName := by
  refine ⟨List.mem_of_find?_eq_some h, ?_⟩
  have hname : packetName = packet.name := by simpa using List.find?_some h
  exact hname.symm

/-- A number finds the one packet that has it. -/
theorem packetById_of_mem (h : packet ∈ info.packets) :
    info.packetById packet.id = some packet := by
  unfold packetById
  have hfound : (info.packets.find? fun p ↦ p.id == packet.id).isSome := by
    rw [List.find?_isSome]
    exact ⟨packet, h, by simp⟩
  obtain ⟨found, hf⟩ := Option.isSome_iff_exists.mp hfound
  have hid : found.id = packet.id := by simpa using List.find?_some hf
  have hsame := List.inj_on_of_nodup_map info.ids_nodup (List.mem_of_find?_eq_some hf) h hid
  rw [hf, hsame]

end ProtocolVersionInfo

end BedrockProtocol
