import BedrockProtocol.BedrockFramer
import BedrockProtocol.BinaryStream
import BedrockProtocol.Lib.Leb128Loops
import BedrockProtocol.LoginPacket
import BedrockProtocol.Protocol.SnappyCodec
import BedrockProtocol.Protocol.VersionedBatchCodec
import BedrockProtocol.Protodef.ProtoDefReader

/-!
# The copies of the 32-bit varint

`VarInt.cpp` and the other places that keep a loop of their own: the readers of
`BinaryStream.cpp`, `VersionedPacketCodec.hpp`, `BedrockFramer.cpp`,
`LoginPacket.cpp` and `PacketFieldDecoder.hpp`, and every writer.  All readers
take at most five groups and drop the bits of the fifth that a 32-bit word has
no place for, so they accept the same bytes; all writers write the same bytes.
-/

namespace BedrockProtocol

namespace VarInt

def readUnsignedVarInt (data : List UInt8) (offset : ℕ) : Except String (ℕ × ℕ) :=
  readGroupsUpTo 32 "readUnsignedVarInt: unexpected end" "readUnsignedVarInt: varint too large"
    data 28 0 0 offset

def writeUnsignedVarInt (value : ℕ) : List UInt8 := putGroupsDo value

end VarInt

namespace BinaryStream

/-- `BinaryStream::view`. -/
def view (data : List UInt8) (offset : ℕ) : Except String Cursor :=
  if data.length < offset then .error "view offset out of range"
  else .ok ⟨offset, data.drop offset⟩

/-- `readVarUInt` of a stream that views `data` from `offset` on. -/
def readVarUIntAt (data : List UInt8) (offset : ℕ) : Except String (ℕ × ℕ) := do
  let stream ← view data offset
  let (value, stream) ← readVarUInt stream
  pure (value, stream.offset)

/-- The loop of `writeVarUInt`. -/
def putVarUInt (v : ℕ) : List UInt8 := putGroupsUntil v

end BinaryStream

namespace VersionedPacketCodec

/-- The loop of `readVarUInt`, which tests its shift after a group that continues. -/
def readVarUIntAt (data : List UInt8) (offset : ℕ) : Except String (ℕ × ℕ) :=
  readGroupsBelow 32 "unexpected end while reading varuint" "varuint too large" data 35 0 0 offset

/-- The loop of `writeVarUInt`. -/
def putVarUInt (value : ℕ) : List UInt8 := putGroupsDo value

end VersionedPacketCodec

namespace BedrockFramer

/-- The loop of `readVarUInt`. -/
def readVarUIntAt (data : List UInt8) (off : ℕ) : Except String (ℕ × ℕ) :=
  readGroupsUpTo 32 "readVarUInt out of range" "VarUInt too big" data 28 0 0 off

/-- The loop of `writeVarUInt`. -/
def putVarUInt (v : ℕ) : List UInt8 := putGroupsUntil v

end BedrockFramer

namespace LoginPacketCodec

/-- The loop of `readVarUInt`. -/
def readVarUIntAt (data : List UInt8) (off : ℕ) : Except String (ℕ × ℕ) :=
  readGroupsUpTo 32 "readVarUInt out of range" "VarUInt too big" data 28 0 0 off

/-- The loop of `writeVarUInt`. -/
def putVarUInt (v : ℕ) : List UInt8 := putGroupsUntil v

end LoginPacketCodec

namespace PacketFieldCursor

def rewindTo (data : List UInt8) (offset : ℕ) : Except String Cursor :=
  if data.length < offset then .error "PacketFieldCursor::rewindTo out of bounds"
  else .ok ⟨offset, data.drop offset⟩

/-- `varuint32` of a cursor moved to `offset`. -/
def varuint32At (data : List UInt8) (offset : ℕ) : Except String (ℕ × ℕ) := do
  let cursor ← rewindTo data offset
  let (value, cursor) ← ProtoDefReader.varuint32 cursor
  pure (value, cursor.offset)

end PacketFieldCursor

namespace SnappyCodec

/-- The loop of `writeVarUInt32`. -/
def putVarUInt32 (value : ℕ) : List UInt8 := putGroupsWhile value

end SnappyCodec

def ProtoDefWriter.varuint32 (v : ℕ) : List UInt8 := putGroupsWhile v

def writeDebugVarUint32 (value : ℕ) : List UInt8 := putGroupsWhile value

def writeLevelChunkUVarInt (value : ℕ) : List UInt8 := putGroupsWhile value

def writePalettedUVarInt (value : ℕ) : List UInt8 := putGroupsWhile value

/-- The loop inside `PacketFactory::requestChunkRadius`. -/
def PacketFactory.putEncodedRadius (encodedRadius : ℕ) : List UInt8 := putGroupsWhile encodedRadius

/-- The loop inside `VersionedClientSession::writeRequestChunkRadius`. -/
def VersionedClientSession.putEncodedRadius (value : ℕ) : List UInt8 := putGroupsWhile value

/-- `writeVarUInt` of the session tool. -/
def SessionTool.writeVarUInt (v : ℕ) : List UInt8 := putGroupsUntil v

/-- `writeVarUInt` of the chunk smoke test. -/
def ChunkSmoke.writeVarUInt (value : ℕ) : List UInt8 := putGroupsDo value

/-- The readers of a 32-bit varint at an offset of a buffer. -/
def varUIntReaders : List (List UInt8 → ℕ → Except String (ℕ × ℕ)) :=
  [BinaryStream.readVarUIntAt, VarInt.readUnsignedVarInt, VersionedPacketCodec.readVarUIntAt,
    BedrockFramer.readVarUIntAt, LoginPacketCodec.readVarUIntAt, PacketFieldCursor.varuint32At]

/-- The writers of a 32-bit varint. -/
def varUIntWriters : List (ℕ → List UInt8) :=
  [BinaryStream.putVarUInt, VarInt.writeUnsignedVarInt, VersionedPacketCodec.putVarUInt,
    BedrockFramer.putVarUInt, LoginPacketCodec.putVarUInt, SnappyCodec.putVarUInt32,
    ProtoDefWriter.varuint32, writeDebugVarUint32, writeLevelChunkUVarInt, writePalettedUVarInt,
    PacketFactory.putEncodedRadius, VersionedClientSession.putEncodedRadius,
    SessionTool.writeVarUInt, ChunkSmoke.writeVarUInt]

/-! ## The loops and the readers and writers of the rest of the model -/

section Loops

variable (data : List UInt8) (offset : ℕ)

theorem BinaryStream.readVarUIntAt_eq :
    readVarUIntAt data offset =
      if data.length < offset then .error "view offset out of range"
      else readVarUInt.runFrom data offset := by
  rw [readVarUIntAt, view]
  split
  · rfl
  · rw [Reader.runFrom]
    rfl

theorem PacketFieldCursor.varuint32At_eq :
    varuint32At data offset =
      if data.length < offset then .error "PacketFieldCursor::rewindTo out of bounds"
      else ProtoDefReader.varuint32.runFrom data offset := by
  rw [varuint32At, rewindTo]
  split
  · rfl
  · rw [Reader.runFrom]
    rfl

theorem BedrockFramer.readVarUIntAt_eq :
    readVarUIntAt data offset = readVarUInt.runFrom data offset :=
  readGroupsUpTo_eq 32 _ _ data (by omega) (by omega) 0 offset

theorem LoginPacketCodec.readVarUIntAt_eq :
    readVarUIntAt data offset = readVarUInt.runFrom data offset :=
  readGroupsUpTo_eq 32 _ _ data (by omega) (by omega) 0 offset

theorem VersionedPacketCodec.readVarUIntAt_eq :
    readVarUIntAt data offset = readVarUInt.runFrom data offset :=
  readGroupsBelow_eq 32 _ _ data (by omega) (by omega) 0 offset

end Loops

/-! ## Agreement -/

/-- Every reader accepts what the reader of the framer accepts. -/
theorem sameReads_of_mem_varUIntReaders {r : List UInt8 → ℕ → Except String (ℕ × ℕ)}
    (h : r ∈ varUIntReaders) : SameReads r BedrockFramer.readVarUInt.runFrom := by
  simp only [varUIntReaders, List.mem_cons, List.not_mem_nil, or_false] at h
  intro data offset p
  obtain rfl | rfl | rfl | rfl | rfl | rfl := h
  · rw [BinaryStream.readVarUIntAt_eq]
    exact (SameReads.guarded _ (readLeb128_not_past _ _ 32 4 0 0)).trans
      (sameReads_readLeb128 _ _ _ _ 32 5 0 0) data offset p
  · rw [VarInt.readUnsignedVarInt,
      readGroupsUpTo_eq 32 _ _ data (by omega : 28 < 0 + 7 * 5) (by omega)]
    exact sameReads_readLeb128 _ _ _ _ 32 5 0 0 data offset p
  · rw [VersionedPacketCodec.readVarUIntAt_eq]
    exact sameReads_readLeb128 _ _ _ _ 32 5 0 0 data offset p
  · rw [BedrockFramer.readVarUIntAt_eq]
  · rw [LoginPacketCodec.readVarUIntAt_eq]
    exact sameReads_readLeb128 _ _ _ _ 32 5 0 0 data offset p
  · rw [PacketFieldCursor.varuint32At_eq]
    exact (SameReads.guarded _ (readLeb128_not_past _ _ 32 4 0 0)).trans
      (sameReads_readLeb128 _ _ _ _ 32 5 0 0) data offset p

/-- Every writer puts the groups of the value. -/
theorem eq_leb128_of_mem_varUIntWriters {write : ℕ → List UInt8} (h : write ∈ varUIntWriters)
    {v : ℕ} (hv : v < 2 ^ 32) : write v = leb128 4 v := by
  have hwhile : putGroupsWhile v = leb128 4 v := putGroupsWhile_eq (by omega)
  have huntil : putGroupsUntil v = leb128 4 v := (putGroupsUntil_eq_while hv).trans hwhile
  have hdo : putGroupsDo v = leb128 4 v := (putGroupsDo_eq_while v).trans hwhile
  simp only [varUIntWriters, List.mem_cons, List.not_mem_nil, or_false] at h
  obtain rfl | rfl | rfl | rfl | rfl | rfl | rfl | rfl | rfl | rfl | rfl | rfl | rfl | rfl := h
  all_goals first | exact hwhile | exact huntil | exact hdo

/-- All readers accept the same inputs, with the same 32-bit value and the same
bytes consumed, and each of them reads back what any writer puts. -/
theorem varUInt_readers_agree :
    (∀ r ∈ varUIntReaders, ∀ r' ∈ varUIntReaders, ∀ data offset p,
      r data offset = .ok p ↔ r' data offset = .ok p) ∧
    (∀ r ∈ varUIntReaders, ∀ data offset p, r data offset = .ok p → p.1 < 2 ^ 32) ∧
    ∀ r ∈ varUIntReaders, ∀ write ∈ varUIntWriters, ∀ v < 2 ^ 32, ∀ before after,
      r (before ++ write v ++ after) before.length =
        .ok (v, before.length + (write v).length) := by
  refine ⟨fun r hr r' hr' ↦ ?_, fun r hr data offset p hp ↦ ?_,
    fun r hr write hwrite v hv before after ↦ ?_⟩
  · exact (sameReads_of_mem_varUIntReaders hr).trans (sameReads_of_mem_varUIntReaders hr').symm
  · have hrun := (sameReads_of_mem_varUIntReaders hr data offset p).mp hp
    obtain ⟨q, hq, rfl⟩ := map_eq_ok.mp hrun
    exact yields_readLeb128 _ _ 32 5 0 (by omega) _ _ _ hq
  · have hreads : Reads BedrockFramer.readVarUInt (leb128 4 v) v :=
      reads_leb128 (takesGroups_const Reads.byte) (by omega) hv (by omega)
    rw [eq_leb128_of_mem_varUIntWriters hwrite hv]
    exact (sameReads_of_mem_varUIntReaders hr _ _ _).mpr
      (Reader.runFrom_of_reads hreads before after)

theorem varUInt_readers_agree_three_hundred :
    (VarInt.readUnsignedVarInt [0xff, 0xff, 0xff, 0xff, 0x7f] 0 = .ok (2 ^ 32 - 1, 5) ↔
      VersionedPacketCodec.readVarUIntAt [0xff, 0xff, 0xff, 0xff, 0x7f] 0 =
        .ok (2 ^ 32 - 1, 5)) ∧
    BinaryStream.readVarUIntAt ([7] ++ ProtoDefWriter.varuint32 300 ++ [9]) 1 =
      .ok (300, 1 + (ProtoDefWriter.varuint32 300).length) :=
  ⟨varUInt_readers_agree.1 _ (by simp [varUIntReaders]) _ (by simp [varUIntReaders]) _ _ _,
    varUInt_readers_agree.2.2 _ (by simp [varUIntReaders]) _ (by simp [varUIntWriters]) 300
      (by norm_num) [7] [9]⟩

end BedrockProtocol
