import BedrockProtocol.World.LevelChunkReaders

/-!
# Four readers of one format

The codec and `LevelChunkParser` read back what the codec wrote.  `VersionedPayloadReader` takes
the number of sub-chunks for a zigzag word, so that only the number 0 is the same for it.
`PacketPayloadReader` drops a first byte 58, which is the coordinate 29, and takes the number of
blob hashes for the size of the payload.
-/

namespace BedrockProtocol

/-! ## Zigzag words -/

theorem decodeZigZag_eq_self_iff {raw : ℕ} (h : raw < 2 ^ 32) :
    decodeZigZag 32 raw = raw ↔ raw = 0 := by
  obtain ⟨n, rfl | rfl⟩ := Nat.even_or_odd' raw
  · rw [decodeZigZag_two_mul]
    omega
  · rw [decodeZigZag_two_mul_add_one (by omega)]
    omega

/-- A number that was written plainly is read as a zigzag word. -/
theorem toSigned_decodeZigZag_toUnsigned_iff {z : ℤ} (h : InSigned 32 z) :
    toSigned 32 (decodeZigZag 32 (toUnsigned 32 z)) = z ↔ z = 0 := by
  have hlt := toUnsigned_lt 32 z
  constructor
  · intro hsame
    nth_rewrite 2 [← toSigned_toUnsigned (by omega) h] at hsame
    have hzero := (decodeZigZag_eq_self_iff hlt).mp
      (toSigned_injective (decodeZigZag_lt hlt) hlt hsame)
    rw [← toSigned_toUnsigned (by omega) h, hzero]
    rfl
  · rintro rfl
    rfl

/-! ## The cursors -/

theorem consumes_at_most_readLeb128 {byte : Reader UInt8} {tooLong : String} {w : ℕ}
    (hbyte : ∀ c b c', byte c = .ok (b, c') → c.rest.length = c'.rest.length + 1)
    {groups shift acc v : ℕ} {c c' : Cursor}
    (hrun : readLeb128 (fun _ ↦ byte) tooLong w groups shift acc c = .ok (v, c')) :
    c.rest.length ≤ c'.rest.length + groups := by
  induction groups generalizing shift acc c with
  | zero => cases hrun
  | succ groups ih =>
      obtain ⟨b, c₁, hfirst, hrest⟩ := Reader.run_bind_eq_ok hrun
      have hone := hbyte c b c₁ hfirst
      dsimp only at hrest
      split at hrest
      · cases hrest
        omega
      · have := ih hrest
        omega

theorem Reader.byte_consumes {short : Cursor → String} {c c' : Cursor} {b : UInt8}
    (h : Reader.byte short c = .ok (b, c')) : c.rest.length = c'.rest.length + 1 := by
  obtain ⟨offset, rest⟩ := c
  cases rest with
  | nil => cases h
  | cons x rest =>
      cases h
      rfl

namespace BedrockLevelChunkCodec

theorem encodeZigZag_toUnsigned_lt (z : ℤ) : encodeZigZag 32 (toUnsigned 32 z) < 2 ^ 32 :=
  encodeZigZag_lt (by omega) (toUnsigned_lt 32 z)

theorem toSigned_decodeZigZag_encodeZigZag {z : ℤ} (h : InSigned 32 z) :
    toSigned 32 (decodeZigZag 32 (encodeZigZag 32 (toUnsigned 32 z))) = z := by
  rw [decodeZigZag_encodeZigZag (by omega) (toUnsigned_lt 32 z), toSigned_toUnsigned (by omega) h]

theorem reads_readZigZag32 {z : ℤ} (h : InSigned 32 z) :
    Reads readZigZag32 (writeZigZag32 z) z := by
  have hread := (BinaryStream.reads_readVarUInt (encodeZigZag_toUnsigned_lt z)).map
    (f := fun value ↦ toSigned 32 (decodeZigZag 32 value))
  rwa [toSigned_decodeZigZag_encodeZigZag h] at hread

theorem reads_blobHashes {r : Reader UInt64}
    (hread : ∀ hash : UInt64, Reads r (leBytes 8 hash.toNat) hash) (hashes : List UInt64) :
    Reads (Reader.many r hashes.length) (writeBlobHashes hashes) hashes := by
  have h := Reads.many (f := id) hashes fun hash _ ↦ hread hash
  rwa [List.map_id] at h

@[simp] theorem length_writeBlobHashes (hashes : List UInt64) :
    (writeBlobHashes hashes).length = 8 * hashes.length := by
  induction hashes with
  | nil => rfl
  | cons hash hashes ih =>
      rw [writeBlobHashes, List.flatMap_cons, List.length_append, length_leBytes]
      change 8 + (writeBlobHashes hashes).length = _
      rw [ih, List.length_cons]
      omega

theorem reads_readHash (hash : UInt64) :
    Reads (UInt64.ofNat <$> BinaryStream.readWord 8) (leBytes 8 hash.toNat) hash := by
  have hread := (BinaryStream.reads_readWord (k := 8) hash.toNat_lt).map (f := UInt64.ofNat)
  rwa [UInt64.ofNat_toNat] at hread

end BedrockLevelChunkCodec

namespace PayloadCursor

open BedrockLevelChunkCodec

variable (cursor : PayloadCursor)

theorem reads_u8 (b : UInt8) : Reads cursor.u8 [b] b := Reads.byte b

theorem reads_boolean (b : Bool) : Reads cursor.boolean [if b then 1 else 0] b := by
  have hread := (cursor.reads_u8 (if b then 1 else 0)).map (f := fun byte ↦ decide (byte ≠ 0))
  cases b <;> exact hread

theorem reads_u16le (v : UInt16) : Reads cursor.u16le (leBytes 2 v.toNat) v := by
  have hread := (Reads.take (s := fun _ ↦ cursor.notEnough "u16le") (leBytes 2 v.toNat)
    (length_leBytes 2 _)).map (f := fun bytes ↦ UInt16.ofNat (leValue bytes))
  rwa [leValue_leBytes_of_lt v.toNat_lt, UInt16.ofNat_toNat] at hread

theorem reads_u64le (v : UInt64) : Reads cursor.u64le (leBytes 8 v.toNat) v := by
  have hread := (Reads.take (s := fun _ ↦ cursor.notEnough "u64le") (leBytes 8 v.toNat)
    (length_leBytes 8 _)).map (f := fun bytes ↦ UInt64.ofNat (leValue bytes))
  rwa [leValue_leBytes_of_lt v.toNat_lt, UInt64.ofNat_toNat] at hread

theorem reads_uvarint {v : ℕ} (h : v < 2 ^ 32) :
    Reads cursor.uvarint (BinaryStream.writeVarUInt v) v :=
  reads_leb128 (takesGroups_const cursor.reads_u8) (by omega) h (by omega)

theorem reads_svarint {z : ℤ} (h : InSigned 32 z) : Reads cursor.svarint (writeZigZag32 z) z := by
  have hread := (cursor.reads_uvarint (encodeZigZag_toUnsigned_lt z)).map
    (f := fun raw ↦ toSigned 32 (decodeZigZag 32 raw))
  rwa [toSigned_decodeZigZag_encodeZigZag h] at hread

theorem reads_uvarint_writeVarInt (z : ℤ) :
    Reads cursor.uvarint (BinaryStream.writeVarInt z) (toUnsigned 32 z) :=
  cursor.reads_uvarint (toUnsigned_lt 32 z)

theorem reads_bytes (bytes : List UInt8) : Reads (cursor.bytes bytes.length) bytes bytes :=
  Reads.take bytes rfl

/-- The bytes are the rest of the buffer. -/
theorem bytes_end (bytes : List UInt8) (offset : ℕ) :
    cursor.bytes bytes.length ⟨offset, bytes⟩ = .ok (bytes, ⟨offset + bytes.length, []⟩) := by
  have hread := cursor.reads_bytes bytes offset []
  rwa [List.append_nil] at hread

end PayloadCursor

/-! ## What is read -/

/-- What all the readers return. -/
structure LevelChunkReading where
  x : ℤ
  z : ℤ
  subChunkCount : ℤ
  cacheEnabled : Bool
  payload : List UInt8

def BedrockLevelChunkPacket.reading (packet : BedrockLevelChunkPacket) : LevelChunkReading :=
  ⟨packet.x, packet.z, packet.subChunkCount, packet.cacheEnabled, packet.payload⟩

def LevelChunkHeader.reading (header : LevelChunkHeader) : LevelChunkReading :=
  ⟨header.chunkX, header.chunkZ, header.subChunkCount, header.cacheEnabled, header.data⟩

def VersionedLevelChunkPacket.reading (packet : VersionedLevelChunkPacket) : LevelChunkReading :=
  ⟨packet.chunkX, packet.chunkZ, packet.subChunkCount, packet.cacheEnabled, packet.data⟩

def LevelChunkPacket.reading (packet : LevelChunkPacket) : LevelChunkReading :=
  ⟨packet.chunkX, packet.chunkZ, packet.subChunkCount, packet.cacheEnabled, packet.data⟩

/-- A packet whose numbers fit the fields of the code. -/
structure LevelChunkValue extends BedrockLevelChunkPacket where
  x_fits : InSigned 32 x
  z_fits : InSigned 32 z
  dimension_fits : InSigned 32 dimension
  subChunkCount_fits : InSigned 32 subChunkCount

namespace LevelChunkValue

open BedrockLevelChunkCodec

variable (value : LevelChunkValue)

/-- The bytes after the cache flag. -/
def tail : List UInt8 :=
  (if value.cacheEnabled then
      BinaryStream.writeVarUInt (value.blobHashes.length % 2 ^ 32) ++
        writeBlobHashes value.blobHashes
    else []) ++
    (BinaryStream.writeVarUInt (value.payload.length % 2 ^ 32) ++ value.payload)

def bytes : List UInt8 := encodePacketPayload value.toBedrockLevelChunkPacket

/-- The sizes are written as they are. -/
structure Sized : Prop where
  payload : value.payload.length < 2 ^ 32
  blobHashes : value.cacheEnabled = true → value.blobHashes.length < 2 ^ 32

/-- The packet without the fields that are not written. -/
def written : BedrockLevelChunkPacket :=
  { value.toBedrockLevelChunkPacket with
    highestSubChunkCount :=
      if value.subChunkCount = -2 then some (value.highestSubChunkCount.getD 0) else none
    blobHashes := if value.cacheEnabled then value.blobHashes else [] }

theorem bytes_eq : value.bytes = writeZigZag32 value.x ++ (writeZigZag32 value.z ++
    (writeZigZag32 value.dimension ++ (BinaryStream.writeVarInt value.subChunkCount ++
      ((if value.subChunkCount = -2 then leBytes 2 (value.highestSubChunkCount.getD 0).toNat
          else []) ++
        ([if value.cacheEnabled then 1 else 0] ++ value.tail))))) := rfl

/-! ### The codec -/

theorem pure_run {β γ : Type} (b : β) (c : Cursor) (k : β → Reader γ) :
    ((pure b : Reader β) >>= k) c = k b c := rfl

theorem reads_highest {count : ℤ} (highest : Option UInt16) :
    Reads (if count = -2 then
        (fun count ↦ some (UInt16.ofNat count)) <$> BinaryStream.readWord 2
      else pure none) (if count = -2 then leBytes 2 (highest.getD 0).toNat else [])
      (if count = -2 then some (highest.getD 0) else none) := by
  by_cases hcount : count = -2
  · rw [if_pos hcount, if_pos hcount, if_pos hcount]
    have hread := (BinaryStream.reads_readWord (k := 2) (highest.getD 0).toNat_lt).map
      (f := fun count ↦ some (UInt16.ofNat count))
    rwa [UInt16.ofNat_toNat] at hread
  · rw [if_neg hcount, if_neg hcount, if_neg hcount]
    exact Reads.pure none

theorem reads_flag (flag : Bool) :
    Reads ((fun byte ↦ decide (byte ≠ 0)) <$> BinaryStream.readU8) [if flag then 1 else 0]
      flag := by
  have hread := (BinaryStream.reads_readU8 (if flag then 1 else 0)).map
    (f := fun byte ↦ decide (byte ≠ 0))
  cases flag <;> exact hread

/-- The codec's reader, once it has read the cache flag. -/
theorem readPacketPayload_bytes : ∃ offset,
    readPacketPayload (Cursor.start value.bytes) = (do
      let blobHashes ←
        (if value.cacheEnabled then do
            let hashCount ← BinaryStream.readVarUInt
            Reader.many (UInt64.ofNat <$> BinaryStream.readWord 8) hashCount
          else pure [])
      let payload ← readPayload
      pure { value.written with blobHashes, payload } : Reader BedrockLevelChunkPacket)
      ⟨offset, value.tail⟩ := by
  constructor
  rw [bytes_eq, Cursor.start, readPacketPayload,
    Reader.bind_run (reads_readZigZag32 value.x_fits _ _),
    Reader.bind_run (reads_readZigZag32 value.z_fits _ _),
    Reader.bind_run (reads_readZigZag32 value.dimension_fits _ _),
    Reader.bind_run (BinaryStream.reads_readVarInt value.subChunkCount_fits _ _),
    Reader.bind_run (reads_highest value.highestSubChunkCount _ _),
    Reader.bind_run (reads_flag value.cacheEnabled _ _)]
  rfl

theorem readPayload_written (payload : List UInt8) (offset : ℕ) :
    readPayload ⟨offset, BinaryStream.writeVarUInt (payload.length % 2 ^ 32) ++ payload⟩ =
      if payload.length < 2 ^ 32 then
        .ok (payload, ⟨offset + (BinaryStream.writeVarUInt (payload.length % 2 ^ 32)).length +
          payload.length, []⟩)
      else .error "level_chunk packet has trailing bytes" := by
  have hsize : payload.length % 2 ^ 32 < 2 ^ 32 := Nat.mod_lt _ (by omega)
  have hle : payload.length % 2 ^ 32 ≤ payload.length := Nat.mod_le _ _
  have htake := BinaryStream.reads_readBytes (payload.take (payload.length % 2 ^ 32))
    (offset + (BinaryStream.writeVarUInt (payload.length % 2 ^ 32)).length)
    (payload.drop (payload.length % 2 ^ 32))
  rw [List.take_append_drop, List.length_take_of_le hle] at htake
  rw [readPayload, Reader.bind_run (BinaryStream.reads_readVarUInt hsize _ _),
    Reader.remaining_run, if_neg (not_lt.mpr hle), Reader.bind_run htake, Reader.remaining_run,
    List.length_drop]
  by_cases hfits : payload.length < 2 ^ 32
  · rw [if_pos hfits, if_neg (by rw [Nat.mod_eq_of_lt hfits]; omega)]
    rw [Nat.mod_eq_of_lt hfits, List.take_length, List.drop_length]
    rfl
  · rw [if_neg hfits, if_pos (by omega)]
    rfl

/-- A payload is never longer than its size can say. -/
theorem length_le_of_readPayload {c c' : Cursor} {payload : List UInt8}
    (hrun : readPayload c = .ok (payload, c')) : c.rest.length < 2 ^ 32 + 5 := by
  obtain ⟨size, c₁, hsize, hrun⟩ := Reader.run_bind_eq_ok hrun
  have hle := consumes_at_most_readLeb128 (fun _ _ _ ↦ Reader.byte_consumes) hsize
  have hlt : size < 2 ^ 32 := yields_readLeb128 _ _ 32 5 0 (by omega) _ _ _ hsize
  rw [Reader.remaining_run] at hrun
  split at hrun
  · cases hrun
  obtain ⟨bytes, c₂, hbytes, hrun⟩ := Reader.run_bind_eq_ok hrun
  have htake : c₂.rest = c₁.rest.drop size := by
    unfold BinaryStream.readBytes Reader.take at hbytes
    split at hbytes
    · cases hbytes
      rfl
    · cases hbytes
  rw [Reader.remaining_run, htake, List.length_drop] at hrun
  split at hrun
  · cases hrun
  · omega

theorem decodePacketPayload_bytes (h : value.Sized) :
    decodePacketPayload value.bytes = .ok value.written := by
  obtain ⟨offset, hrun⟩ := value.readPacketPayload_bytes
  have hpayload (offset : ℕ) := (readPayload_written value.payload offset).trans
    (if_pos h.payload)
  rw [decodePacketPayload, hrun, tail]
  by_cases hcache : value.cacheEnabled = true
  · have hlt := h.blobHashes hcache
    have hcount := BinaryStream.reads_readVarUInt hlt
    have hread := hcount.bind (k := fun count ↦
      Reader.many (UInt64.ofNat <$> BinaryStream.readWord 8) count)
      (reads_blobHashes reads_readHash value.blobHashes)
    rw [if_pos hcache, if_pos hcache, Nat.mod_eq_of_lt hlt, Reader.bind_run (hread _ _),
      Reader.bind_run (hpayload _)]
    rw [written, if_pos hcache]
    rfl
  · rw [if_neg hcache, if_neg hcache, List.nil_append, pure_run,
      Reader.bind_run (hpayload _)]
    rw [written, if_neg hcache]
    rfl

theorem sized_of_decodePacketPayload {decoded : BedrockLevelChunkPacket}
    (hdecode : decodePacketPayload value.bytes = .ok decoded) : value.Sized := by
  obtain ⟨offset, hrun⟩ := value.readPacketPayload_bytes
  obtain ⟨⟨decoded, c⟩, hread, rfl⟩ := map_eq_ok.mp hdecode
  rw [hrun] at hread
  have hfits (offset : ℕ) {payload : List UInt8} {c' : Cursor}
      (hpayload : readPayload ⟨offset,
        BinaryStream.writeVarUInt (value.payload.length % 2 ^ 32) ++ value.payload⟩ =
          .ok (payload, c')) : value.payload.length < 2 ^ 32 := by
    rw [readPayload_written] at hpayload
    split at hpayload
    · assumption
    · cases hpayload
  by_cases hcache : value.cacheEnabled = true
  · have hmod : value.blobHashes.length % 2 ^ 32 < 2 ^ 32 := Nat.mod_lt _ (by omega)
    have hle : value.blobHashes.length % 2 ^ 32 ≤ value.blobHashes.length := Nat.mod_le _ _
    generalize hk : value.blobHashes.length % 2 ^ 32 = k at hmod hle
    have hhashes := reads_blobHashes reads_readHash (value.blobHashes.take k)
    rw [List.length_take_of_le hle] at hhashes
    have hsplit : writeBlobHashes value.blobHashes =
        writeBlobHashes (value.blobHashes.take k) ++ writeBlobHashes (value.blobHashes.drop k) := by
      rw [writeBlobHashes, writeBlobHashes, writeBlobHashes, ← List.flatMap_append,
        List.take_append_drop]
    have hboth := (BinaryStream.reads_readVarUInt hmod).bind (k := fun count ↦
      Reader.many (UInt64.ofNat <$> BinaryStream.readWord 8) count) hhashes
    rw [if_pos hcache, tail, if_pos hcache, hk, hsplit,
      ← List.append_assoc (BinaryStream.writeVarUInt k), List.append_assoc (_ ++ writeBlobHashes _),
      Reader.bind_run (hboth _ _)] at hread
    obtain ⟨payload, c', hpayload, -⟩ := Reader.run_bind_eq_ok hread
    have hlong := length_le_of_readPayload hpayload
    rw [List.length_append, length_writeBlobHashes, List.length_drop] at hlong
    have hall : value.blobHashes.length < 2 ^ 32 := by omega
    refine ⟨?_, fun _ ↦ hall⟩
    rw [Nat.mod_eq_of_lt hall] at hk
    rw [← hk, List.drop_length] at hpayload
    exact hfits _ hpayload
  · rw [if_neg hcache, tail, if_neg hcache, List.nil_append, pure_run] at hread
    obtain ⟨payload, c', hpayload, -⟩ := Reader.run_bind_eq_ok hread
    exact ⟨hfits _ hpayload, fun htrue ↦ (hcache htrue).elim⟩

/-! ### `LevelChunkParser` -/

theorem readHeader_bytes (h : value.Sized) :
    LevelChunkHeader.reading <$> LevelChunkParser.readHeader value.bytes =
      .ok value.written.reading := by
  have hhighest : Reads (if value.subChunkCount = -2 then some <$> levelChunkCursor.u16le
        else pure none)
      (if value.subChunkCount = -2 then leBytes 2 (value.highestSubChunkCount.getD 0).toNat else [])
      value.written.highestSubChunkCount := by
    rw [written]
    dsimp only
    by_cases hcount : value.subChunkCount = -2
    · rw [if_pos hcount, if_pos hcount, if_pos hcount]
      exact (levelChunkCursor.reads_u16le _).map
    · rw [if_neg hcount, if_neg hcount, if_neg hcount]
      exact Reads.pure none
  have hcount := (levelChunkCursor.reads_uvarint_writeVarInt value.subChunkCount).map
    (f := toSigned 32)
  rw [toSigned_toUnsigned (by omega) value.subChunkCount_fits] at hcount
  have hhashes : Reads (if value.cacheEnabled then do
          let blobCount ← levelChunkCursor.uvarint
          Reader.many levelChunkCursor.u64le blobCount
        else pure [])
      (if value.cacheEnabled then
          BinaryStream.writeVarUInt (value.blobHashes.length % 2 ^ 32) ++
            writeBlobHashes value.blobHashes
        else []) value.written.blobHashes := by
    rw [written]
    dsimp only
    by_cases hcache : value.cacheEnabled = true
    · have hlt := h.blobHashes hcache
      rw [if_pos hcache, if_pos hcache, if_pos hcache, Nat.mod_eq_of_lt hlt]
      exact (levelChunkCursor.reads_uvarint hlt).bind
        (reads_blobHashes levelChunkCursor.reads_u64le value.blobHashes)
    · rw [if_neg hcache, if_neg hcache, if_neg hcache]
      exact Reads.pure []
  rw [LevelChunkParser.readHeader, bytes_eq, Cursor.start,
    Reader.bind_run (levelChunkCursor.reads_svarint value.x_fits _ _),
    Reader.bind_run (levelChunkCursor.reads_svarint value.z_fits _ _),
    Reader.bind_run (levelChunkCursor.reads_svarint value.dimension_fits _ _),
    Reader.bind_run (hcount _ _), Reader.bind_run (hhighest _ _),
    Reader.bind_run (levelChunkCursor.reads_boolean _ _ _), tail, Reader.bind_run (hhashes _ _),
    Nat.mod_eq_of_lt h.payload, Reader.bind_run (levelChunkCursor.reads_uvarint h.payload _ _),
    Reader.remaining_run, if_neg (lt_irrefl _),
    Reader.bind_run (levelChunkCursor.bytes_end value.payload _)]
  rfl

/-! ### `VersionedPayloadReader` -/

theorem versioned_eq {packet : VersionedGamePacket} (hname : packet.name = "level_chunk")
    (hpayload : packet.payload = value.bytes) : ∃ offset,
    VersionedPayloadReader.readLevelChunk packet = Prod.fst <$> (do
      let cacheEnabled ← versionedPayloadCursor.boolean
      let _ ←
        (if cacheEnabled then do
            let blobCount ← versionedPayloadCursor.uvarint
            Reader.many versionedPayloadCursor.u64le blobCount
          else pure [])
      let remaining ← Reader.remaining
      if remaining = 0 then
        pure
          { chunkX := value.x, chunkZ := value.z, dimension := value.dimension
            subChunkCount := toSigned 32 (decodeZigZag 32 (toUnsigned 32 value.subChunkCount))
            cacheEnabled }
      else
        let dataSize ← versionedPayloadCursor.uvarint
        let data ← versionedPayloadCursor.bytes dataSize
        pure
          { chunkX := value.x, chunkZ := value.z, dimension := value.dimension
            subChunkCount := toSigned 32 (decodeZigZag 32 (toUnsigned 32 value.subChunkCount))
            cacheEnabled, dataSize, data } : Reader VersionedLevelChunkPacket)
      ⟨offset, (if value.subChunkCount = -2 then
          leBytes 2 (value.highestSubChunkCount.getD 0).toNat else []) ++
        ([if value.cacheEnabled then 1 else 0] ++ value.tail)⟩ := by
  have hcount := (versionedPayloadCursor.reads_uvarint_writeVarInt value.subChunkCount).map
    (f := fun raw ↦ toSigned 32 (decodeZigZag 32 raw))
  constructor
  rw [VersionedPayloadReader.readLevelChunk, VersionedPayloadReader.requirePacket,
    if_neg (by simp [hname]), ok_bind, hpayload, bytes_eq, Cursor.start,
    Reader.bind_run (versionedPayloadCursor.reads_svarint value.x_fits _ _),
    Reader.bind_run (versionedPayloadCursor.reads_svarint value.z_fits _ _),
    Reader.bind_run (versionedPayloadCursor.reads_svarint value.dimension_fits _ _)]
  exact congrArg (Prod.fst <$> ·) (Reader.bind_run (hcount _ _))

/-- The number of sub-chunks is read as a zigzag word. -/
theorem versioned_subChunkCount {packet : VersionedGamePacket} (hname : packet.name = "level_chunk")
    (hpayload : packet.payload = value.bytes) {found : VersionedLevelChunkPacket}
    (hrun : VersionedPayloadReader.readLevelChunk packet = .ok found) :
    found.subChunkCount = toSigned 32 (decodeZigZag 32 (toUnsigned 32 value.subChunkCount)) := by
  obtain ⟨offset, heq⟩ := value.versioned_eq hname hpayload
  rw [heq] at hrun
  obtain ⟨⟨found, c⟩, hread, rfl⟩ := map_eq_ok.mp hrun
  refine Yields.bind_any (Q := fun found : VersionedLevelChunkPacket ↦ found.subChunkCount = _)
    (fun cacheEnabled ↦ ?_) _ _ _ hread
  refine Yields.bind_any fun hashes ↦ Yields.bind_any fun remaining ↦ ?_
  split
  · exact Yields.pure rfl
  · exact Yields.bind_any fun dataSize ↦ Yields.bind_any fun data ↦ Yields.pure rfl

theorem versioned_bytes (h : value.Sized) (hzero : value.subChunkCount = 0)
    {packet : VersionedGamePacket} (hname : packet.name = "level_chunk")
    (hpayload : packet.payload = value.bytes) :
    VersionedLevelChunkPacket.reading <$> VersionedPayloadReader.readLevelChunk packet =
      .ok value.written.reading := by
  obtain ⟨offset, heq⟩ := value.versioned_eq hname hpayload
  have hhashes : ∃ hashes, Reads (if value.cacheEnabled then do
          let blobCount ← versionedPayloadCursor.uvarint
          Reader.many versionedPayloadCursor.u64le blobCount
        else pure [])
      (if value.cacheEnabled then
          BinaryStream.writeVarUInt (value.blobHashes.length % 2 ^ 32) ++
            writeBlobHashes value.blobHashes
        else []) hashes := by
    by_cases hcache : value.cacheEnabled = true
    · have hlt := h.blobHashes hcache
      rw [if_pos hcache, if_pos hcache, Nat.mod_eq_of_lt hlt]
      exact ⟨_, (versionedPayloadCursor.reads_uvarint hlt).bind
        (reads_blobHashes versionedPayloadCursor.reads_u64le value.blobHashes)⟩
    · rw [if_neg hcache, if_neg hcache]
      exact ⟨_, Reads.pure []⟩
  obtain ⟨hashes, hhashes⟩ := hhashes
  have hsize := length_leb128_pos 4 value.payload.length
  rw [heq, hzero, if_neg (by decide), List.nil_append,
    Reader.bind_run (versionedPayloadCursor.reads_boolean _ _ _), tail,
    Reader.bind_run (hhashes _ _), Nat.mod_eq_of_lt h.payload, Reader.remaining_run,
    if_neg (by rw [List.length_append, BinaryStream.writeVarUInt]; omega),
    Reader.bind_run (versionedPayloadCursor.reads_uvarint h.payload _ _),
    Reader.bind_run (versionedPayloadCursor.bytes_end value.payload _)]
  rw [BedrockLevelChunkPacket.reading, written]
  dsimp only
  rw [hzero]
  rfl

/-! ### `PacketPayloadReader` -/

theorem writeZigZag32_head {z : ℤ} (h : InSigned 32 z) :
    (writeZigZag32 z).head? = some 58 ↔ z = 29 := by
  generalize hword : encodeZigZag 32 (toUnsigned 32 z) = word
  have hlt : word < 2 ^ 32 := hword ▸ encodeZigZag_toUnsigned_lt z
  have hback : toSigned 32 (decodeZigZag 32 word) = z := by
    rw [← hword, toSigned_decodeZigZag_encodeZigZag h]
  have hhead : (writeZigZag32 z).head? = some 58 ↔ word = 58 := by
    rw [writeZigZag32, hword, BinaryStream.writeVarUInt, leb128]
    split
    · rename_i hsmall
      have hbyte : (UInt8.ofNat word).toNat = word := toNat_ofNat_of_lt (by omega)
      rw [List.head?_cons, Option.some.injEq, ← UInt8.toNat_inj, hbyte]
      exact Iff.rfl
    · rename_i hlarge
      have hmod : word % 128 < 128 := Nat.mod_lt _ (by omega)
      have hbyte : (UInt8.ofNat ((word &&& 0x7f) ||| 0x80)).toNat = word % 128 + 128 := by
        rw [and_0x7f, or_0x80 hmod, toNat_ofNat_of_lt (by omega)]
      have hsmall : (58 : UInt8).toNat = 58 := rfl
      rw [List.head?_cons, Option.some.injEq, ← UInt8.toNat_inj, hbyte, hsmall]
      omega
  rw [hhead]
  constructor
  · rintro rfl
    rw [← hback]
    rfl
  · rintro rfl
    rw [← hword]
    rfl

theorem bytes_head : value.bytes.head? = (writeZigZag32 value.x).head? := by
  rw [bytes_eq, List.head?_append_of_ne_nil]
  exact leb128_ne_nil _ _

theorem payload_of_ne (hx : value.x ≠ 29) :
    PacketPayloadReader.payloadFromPacketOrPayload value.bytes 58 = value.bytes := by
  rw [PacketPayloadReader.payloadFromPacketOrPayload, if_neg]
  rw [bytes_head]
  exact fun h ↦ hx ((writeZigZag32_head value.x_fits).mp h)

/-- What is read for the payload: with the cache, the first bytes of the hashes. -/
def misreadPayload : List UInt8 :=
  if value.cacheEnabled then (writeBlobHashes value.blobHashes).take value.blobHashes.length
  else value.payload

theorem payloadReader_bytes (h : value.Sized) (hzero : value.subChunkCount = 0)
    (hx : value.x ≠ 29) :
    LevelChunkPacket.reading <$> PacketPayloadReader.readLevelChunk value.bytes =
      .ok { value.written.reading with payload := value.misreadPayload } := by
  have hprefix : ∃ size suffix, size < 2 ^ 32 ∧ size = value.misreadPayload.length ∧
      value.tail = BinaryStream.writeVarUInt size ++ (value.misreadPayload ++ suffix) := by
    rw [tail, misreadPayload]
    by_cases hcache : value.cacheEnabled = true
    · have hlt := h.blobHashes hcache
      rw [if_pos hcache, if_pos hcache, Nat.mod_eq_of_lt hlt]
      refine ⟨value.blobHashes.length, (writeBlobHashes value.blobHashes).drop
        value.blobHashes.length ++ (BinaryStream.writeVarUInt (value.payload.length % 2 ^ 32) ++
          value.payload), hlt, ?_, ?_⟩
      · rw [List.length_take_of_le]
        rw [length_writeBlobHashes]
        omega
      · rw [← List.append_assoc (List.take _ _), List.take_append_drop, List.append_assoc]
    · rw [if_neg hcache, if_neg hcache, List.nil_append, Nat.mod_eq_of_lt h.payload]
      exact ⟨value.payload.length, [], h.payload, rfl, by rw [List.append_nil]⟩
  obtain ⟨size, suffix, hsize, hlength, htail⟩ := hprefix
  have hcount := payloadReaderCursor.reads_uvarint_writeVarInt value.subChunkCount
  have hdata := payloadReaderCursor.reads_bytes value.misreadPayload
  rw [← hlength] at hdata
  rw [PacketPayloadReader.readLevelChunk, payload_of_ne value hx, bytes_eq, Cursor.start,
    Reader.bind_run (payloadReaderCursor.reads_svarint value.x_fits _ _),
    Reader.bind_run (payloadReaderCursor.reads_svarint value.z_fits _ _),
    Reader.bind_run (payloadReaderCursor.reads_svarint value.dimension_fits _ _),
    Reader.bind_run (hcount _ _), if_neg (by rw [hzero]; decide), List.nil_append,
    Reader.bind_run (payloadReaderCursor.reads_boolean _ _ _), htail,
    Reader.bind_run (payloadReaderCursor.reads_uvarint hsize _ _), Reader.remaining_run,
    if_neg (by rw [List.length_append]; omega), Reader.bind_run (hdata _ _)]
  rw [BedrockLevelChunkPacket.reading, written]
  dsimp only
  rw [hzero]
  rfl

/-- The coordinate 29 is taken for the id of the packet, and everything after it for the field
before. -/
theorem payloadReader_stripped (h : value.Sized) (hzero : value.subChunkCount = 0)
    (hx : value.x = 29) :
    LevelChunkPacket.reading <$> PacketPayloadReader.readLevelChunk value.bytes ≠
      .ok value.written.reading := by
  have hfirst : writeZigZag32 (29 : ℤ) = [58] := rfl
  have hbytes : PacketPayloadReader.payloadFromPacketOrPayload value.bytes 58 =
      writeZigZag32 value.z ++ (writeZigZag32 value.dimension ++ (writeZigZag32 0 ++
        (BinaryStream.writeVarUInt (if value.cacheEnabled then 1 else 0) ++ value.tail))) := by
    have hflag : BinaryStream.writeVarUInt (if value.cacheEnabled then 1 else 0) =
        [if value.cacheEnabled then 1 else 0] := by
      cases value.cacheEnabled <;> rfl
    rw [PacketPayloadReader.payloadFromPacketOrPayload, if_pos, bytes_eq, hx, hfirst, hzero,
      if_neg (by decide), hflag]
    · rfl
    · rw [bytes_head, hx, hfirst]
      rfl
  have hflag : (if value.cacheEnabled then 1 else 0) < 2 ^ 32 := by
    split <;> omega
  intro hsame
  obtain ⟨found, hfound, hreading⟩ := map_eq_ok.mp hsame
  rw [PacketPayloadReader.readLevelChunk, hbytes, Cursor.start,
    Reader.bind_run (payloadReaderCursor.reads_svarint value.z_fits _ _),
    Reader.bind_run (payloadReaderCursor.reads_svarint value.dimension_fits _ _),
    Reader.bind_run (payloadReaderCursor.reads_svarint (by decide) _ _),
    Reader.bind_run (payloadReaderCursor.reads_uvarint hflag _ _)] at hfound
  obtain ⟨⟨found, c⟩, hrun, rfl⟩ := map_eq_ok.mp hfound
  obtain ⟨cacheEnabled, c₁, hboolean, hrun⟩ := Reader.run_bind_eq_ok hrun
  obtain ⟨dataSize, c₂, hsize, hrun⟩ := Reader.run_bind_eq_ok hrun
  have hfields : found.subChunkCount = (if value.cacheEnabled then 1 else 0) ∧
      found.cacheEnabled = cacheEnabled := by
    refine Yields.bind_any (Q := fun found : LevelChunkPacket ↦
      found.subChunkCount = (if value.cacheEnabled then 1 else 0) ∧
        found.cacheEnabled = cacheEnabled) (fun remaining ↦ ?_) _ _ _ hrun
    split
    · exact Yields.throw _
    · exact Yields.bind_any fun data ↦ Yields.pure ⟨rfl, rfl⟩
  -- the count that is read is the cache flag
  have hcount : (found.subChunkCount : ℤ) = value.subChunkCount :=
    congrArg LevelChunkReading.subChunkCount hreading
  have hcache : value.cacheEnabled = false := by
    rw [hzero, hfields.1] at hcount
    by_contra htrue
    rw [if_pos (by simpa using htrue)] at hcount
    omega
  -- the flag that is read is the first byte of the size
  have hempty : cacheEnabled = false := by
    rw [← hfields.2, ← hcache]
    exact congrArg LevelChunkReading.cacheEnabled hreading
  have htail : value.tail = leb128 4 value.payload.length ++ value.payload := by
    rw [tail, if_neg (by simp [hcache]), List.nil_append, Nat.mod_eq_of_lt h.payload]
    rfl
  obtain ⟨byte, rest, hword⟩ := List.exists_cons_of_ne_nil (leb128_ne_nil 4 value.payload.length)
  rw [htail, hword] at hboolean
  obtain ⟨hbyte, rfl⟩ := Prod.mk.inj (Except.ok.inj hboolean)
  have hbyte : byte = 0 := by
    have hdecide : decide (byte ≠ 0) = false := hbyte.trans hempty
    simpa using hdecide
  have hnone : value.payload.length = 0 := by
    have hzeros := @count_zero_leb128 4 value.payload.length (h.payload.trans (by norm_num))
    rw [hword, hbyte, List.count_cons_self] at hzeros
    by_contra hpos
    rw [if_neg hpos] at hzeros
    omega
  -- nothing is left for the size
  have hrest : rest = [] := by
    rw [hnone] at hword
    exact (List.cons.inj hword).2.symm
  rw [List.cons_append, hrest, List.length_eq_zero_iff.mp hnone] at hsize
  cases hsize

/-! ### All of them -/

end LevelChunkValue

open BedrockLevelChunkCodec in
/-- The codec reads the payload, and the other readers read the same. -/
def ReadAlike (payload : List UInt8) : Prop :=
  ∃ decoded, decodePacketPayload payload = .ok decoded ∧
    LevelChunkHeader.reading <$> LevelChunkParser.readHeader payload = .ok decoded.reading ∧
    (∀ packet : VersionedGamePacket, packet.name = "level_chunk" → packet.payload = payload →
      VersionedLevelChunkPacket.reading <$> VersionedPayloadReader.readLevelChunk packet =
        .ok decoded.reading) ∧
    LevelChunkPacket.reading <$> PacketPayloadReader.readLevelChunk payload = .ok decoded.reading

open BedrockLevelChunkCodec LevelChunkValue in
/-- The readers agree on what the codec wrote exactly when it says that there are no sub-chunks,
the coordinate is not 29, the sizes fit, and the payload is what the cache makes it. -/
theorem readAlike_iff (value : LevelChunkValue) :
    ReadAlike (encodePacketPayload value.toBedrockLevelChunkPacket) ↔
      value.subChunkCount = 0 ∧ value.x ≠ 29 ∧ value.payload.length < 2 ^ 32 ∧
        (value.cacheEnabled = true → value.blobHashes.length < 2 ^ 32 ∧
          value.payload = (writeBlobHashes value.blobHashes).take value.blobHashes.length) := by
  constructor
  · rintro ⟨decoded, hdecode, -, hversioned, hpayload⟩
    have hsized := value.sized_of_decodePacketPayload hdecode
    obtain rfl := Except.ok.inj ((value.decodePacketPayload_bytes hsized).symm.trans hdecode)
    have hzero : value.subChunkCount = 0 := by
      obtain ⟨found, hfound, hsame⟩ := map_eq_ok.mp
        (hversioned ⟨58, "level_chunk", "", [], value.bytes⟩ rfl rfl)
      have hcount := value.versioned_subChunkCount rfl rfl hfound
      have hsame : found.subChunkCount = value.subChunkCount :=
        congrArg LevelChunkReading.subChunkCount hsame
      exact (toSigned_decodeZigZag_toUnsigned_iff value.subChunkCount_fits).mp
        (hcount.symm.trans hsame)
    have hx : value.x ≠ 29 := fun hx ↦ value.payloadReader_stripped hsized hzero hx hpayload
    refine ⟨hzero, hx, hsized.payload, fun hcache ↦ ⟨hsized.blobHashes hcache, ?_⟩⟩
    have hsame := (value.payloadReader_bytes hsized hzero hx).symm.trans hpayload
    have hmisread : value.misreadPayload = value.payload :=
      congrArg LevelChunkReading.payload (Except.ok.inj hsame)
    rw [misreadPayload, if_pos hcache] at hmisread
    exact hmisread.symm
  · rintro ⟨hzero, hx, hsize, hcache⟩
    have hsized : value.Sized := ⟨hsize, fun h ↦ (hcache h).1⟩
    have hmisread : value.misreadPayload = value.payload := by
      rw [misreadPayload]
      split
      · rename_i htrue
        exact (hcache htrue).2.symm
      · rfl
    refine ⟨value.written, value.decodePacketPayload_bytes hsized, value.readHeader_bytes hsized,
      fun packet hname hpacket ↦ value.versioned_bytes hsized hzero hname hpacket, ?_⟩
    have hread := value.payloadReader_bytes hsized hzero hx
    rw [hmisread] at hread
    exact hread

/-- A chunk with one sub-chunk. -/
def oneSubChunk : LevelChunkValue where
  x := 0
  z := 0
  dimension := 0
  subChunkCount := 1
  cacheEnabled := false
  payload := [7]
  x_fits := by decide
  z_fits := by decide
  dimension_fits := by decide
  subChunkCount_fits := by decide

/-- One sub-chunk is read as the number -1. -/
theorem oneSubChunk_not_readAlike :
    ¬ ReadAlike (BedrockLevelChunkCodec.encodePacketPayload
      oneSubChunk.toBedrockLevelChunkPacket) := by
  rintro ⟨decoded, hdecode, -, hversioned, -⟩
  obtain rfl := Except.ok.inj hdecode
  have hsame := hversioned ⟨58, "level_chunk", "", [], [0, 0, 0, 1, 0, 1, 7]⟩ rfl rfl
  have hcount := congrArg LevelChunkReading.subChunkCount (Except.ok.inj hsame)
  exact absurd hcount (by decide)

end BedrockProtocol
