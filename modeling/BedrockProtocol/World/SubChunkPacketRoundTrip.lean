import BedrockProtocol.World.BedrockSubChunkPacket
import BedrockProtocol.World.SubChunkRoundTrip

/-!
# Reading back a sub-chunk packet

What the writer of a later version accepts is read back, unless there are more entries than the
reader takes.  The layout of 1.18.0 has no room for the offsets, the second height map and the
blob id of a packet that is not cached, and its writer drops them where others refuse.
-/

namespace BedrockProtocol

namespace BedrockSubChunkPacketCodec

variable {type : BedrockHeightMapType} {entry : BedrockSubChunkPacketEntry}
  {packet : BedrockSubChunkPacket} {cacheEnabled renderHeightMap : Bool} {bytes : List UInt8}
  {version : String}

/-! ## Fields -/

theorem reads_readI8 (value : Int8) : Reads readI8 (writeI8 value) value := by
  have hread := (BinaryStream.reads_readU8 value.toUInt8).map (f := UInt8.toInt8)
  rwa [Int8.toInt8_toUInt8] at hread

theorem reads_readZigZag32 (value : Int32) : Reads readZigZag32 (writeZigZag32 value) value :=
  reads_readZigZagVarInt value

theorem reads_readFlag (value : Bool) : Reads readFlag (writeFlag value) value := by
  have hread := (BinaryStream.reads_readU8 (if value then 1 else 0)).map
    (f := fun byte ↦ decide (byte ≠ 0))
  cases value <;> exact hread

theorem reads_readBlobId (hash : UInt64) : Reads readBlobId (writeBlobId hash) (some hash) := by
  have hread := (BinaryStream.reads_readWord (k := 8) hash.toNat_lt).map
    (f := fun hash ↦ some (UInt64.ofNat hash))
  rwa [UInt64.ofNat_toNat] at hread

theorem reads_readByteArray {value : List UInt8} (h : writeByteArray value = .ok bytes) :
    Reads readByteArray bytes value := by
  rw [writeByteArray] at h
  by_cases hlarge : 2 ^ 32 - 1 < value.length
  · rw [if_pos hlarge] at h
    cases h
  · rw [if_neg hlarge] at h
    obtain rfl := Except.ok.inj h
    refine (BinaryStream.reads_readVarUInt (by omega)).bind (reads_remaining_bind fun n hn ↦ ?_)
    rw [if_neg (not_lt.mpr hn)]
    exact BinaryStream.reads_readBytes value

theorem reads_readResultU8 (result : BedrockSubChunkResult) :
    Reads readResultU8 [UInt8.ofNat result.toNumber] result := by
  refine (BinaryStream.reads_readU8 _).bind_last ?_
  cases result <;> exact Reads.pure _

theorem reads_readHeightMapType (type : BedrockHeightMapType) :
    Reads readHeightMapType [UInt8.ofNat type.toNumber] type := by
  refine (BinaryStream.reads_readU8 _).bind_last ?_
  cases type <;> exact Reads.pure _

theorem length_flatMap_writeI8 (heights : List Int8) :
    (heights.flatMap writeI8).length = heights.length := by
  induction heights with
  | nil => rfl
  | cons height heights ih => rw [List.flatMap_cons, List.length_append, ih, List.length_cons,
      writeI8, List.length_singleton, Nat.add_comm]

/-- The type of a height map and, for the type that has data, the 256 heights. -/
theorem reads_readHeightMap {value : List Int8} (h : writeHeightMap type value = .ok bytes) :
    ∃ heights, bytes = UInt8.ofNat type.toNumber :: heights ∧
      Reads (readHeightMap type) heights value := by
  rw [writeHeightMap] at h
  by_cases htype : type ≠ .hasData
  · rw [if_pos htype] at h
    by_cases hvalue : value ≠ []
    · rw [if_pos hvalue] at h
      cases h
    · rw [if_neg hvalue] at h
      obtain rfl := Except.ok.inj h
      obtain rfl := not_not.mp hvalue
      refine ⟨[], rfl, ?_⟩
      rw [readHeightMap, if_pos htype]
      exact Reads.pure []
  · rw [if_neg htype] at h
    by_cases hlength : value.length ≠ 256
    · rw [if_pos hlength] at h
      cases h
    · rw [if_neg hlength] at h
      obtain rfl := Except.ok.inj h
      have hread := Reads.many (f := id) value fun height _ ↦ reads_readI8 height
      rw [List.map_id, not_not.mp hlength] at hread
      refine ⟨_, rfl, ?_⟩
      rw [readHeightMap, if_neg htype]
      refine reads_remaining_bind fun n hn ↦ ?_
      rw [length_flatMap_writeI8, not_not.mp hlength] at hn
      rw [if_neg (not_lt.mpr hn)]
      exact hread

/-! ## Entries -/

theorem reads_payload (h : writePayload entry cacheEnabled = .ok bytes) :
    Reads (if cacheEnabled = false ∨ entry.result ≠ .successAllAir then readByteArray
      else pure []) bytes entry.payload := by
  rw [writePayload] at h
  by_cases hpayload : cacheEnabled = false ∨ entry.result ≠ .successAllAir
  · rw [if_pos hpayload] at h ⊢
    exact reads_readByteArray h
  · rw [if_neg hpayload] at h ⊢
    by_cases hempty : entry.payload ≠ []
    · rw [if_pos hempty] at h
      cases h
    · rw [if_neg hempty] at h
      obtain rfl := Except.ok.inj h
      rw [not_not.mp hempty]
      exact Reads.pure []

theorem reads_renderHeightMap (h : writeRenderHeightMap entry renderHeightMap = .ok bytes) :
    Reads (if renderHeightMap then do
        let type ← readHeightMapType
        let heightMap ← readHeightMap type
        pure (type, heightMap)
      else pure (.noData, [])) bytes (entry.renderHeightMapType, entry.renderHeightMap) := by
  rw [writeRenderHeightMap] at h
  cases renderHeightMap with
  | true =>
      obtain ⟨heights, rfl, hread⟩ := reads_readHeightMap h
      exact (reads_readHeightMapType _).bind_cons (hread.bind_last (Reads.pure _))
  | false =>
      rw [if_neg (by simp)] at h ⊢
      by_cases hdata : entry.renderHeightMapType ≠ .noData ∨ entry.renderHeightMap ≠ []
      · rw [if_pos hdata] at h
        cases h
      · rw [if_neg hdata] at h
        obtain rfl := Except.ok.inj h
        obtain ⟨htype, hheights⟩ := not_or.mp hdata
        rw [not_not.mp htype, not_not.mp hheights]
        exact Reads.pure _

theorem reads_entryBlobId (h : writeEntryBlobId entry cacheEnabled = .ok bytes) :
    Reads (if cacheEnabled then readBlobId else pure none) bytes entry.blobId := by
  unfold writeEntryBlobId at h
  cases cacheEnabled with
  | true =>
      cases hid : entry.blobId with
      | none => simp [hid] at h
      | some hash =>
          simp only [hid, Except.ok.injEq] at h
          obtain rfl := h
          exact reads_readBlobId hash
  | false =>
      cases hid : entry.blobId with
      | none =>
          simp only [hid, Except.ok.injEq] at h
          obtain rfl := h
          exact Reads.pure none
      | some hash => simp [hid] at h

theorem reads_readModernEntry
    (h : writeModernEntry cacheEnabled renderHeightMap entry = .ok bytes) :
    Reads (readModernEntry cacheEnabled renderHeightMap) bytes entry := by
  obtain ⟨payload, hpayload, h⟩ := bind_eq_ok.mp h
  obtain ⟨heightMap, hheightMap, h⟩ := bind_eq_ok.mp h
  obtain ⟨render, hrender, h⟩ := bind_eq_ok.mp h
  obtain ⟨blobId, hblobId, h⟩ := bind_eq_ok.mp h
  obtain rfl := Except.ok.inj h
  obtain ⟨heights, rfl, hheights⟩ := reads_readHeightMap hheightMap
  refine (reads_readI8 entry.dx).bind ((reads_readI8 entry.dy).bind
    ((reads_readI8 entry.dz).bind ((reads_readResultU8 entry.result).bind_cons ?_)))
  refine (reads_payload hpayload).bind ((reads_readHeightMapType _).bind_cons ?_)
  refine hheights.bind ((reads_renderHeightMap hrender).bind ?_)
  exact (reads_entryBlobId hblobId).bind_last (Reads.pure entry)

/-! ## Packets -/

/-- What the layout of 1.18.0 says of a packet. -/
def legacyView (packet : BedrockSubChunkPacket) : BedrockSubChunkPacket :=
  { packet with
    entries := packet.entries.map fun entry ↦
      { entry with
        dx := 0, dy := 0, dz := 0
        renderHeightMapType := .noData
        renderHeightMap := []
        blobId := if packet.cacheEnabled then entry.blobId else none } }

/-- The layout of the version has room for all of the packet. -/
def Representable (packet : BedrockSubChunkPacket) (version : String) : Prop :=
  if legacySingleEntrySchema version then
    ∀ entry ∈ packet.entries, entry.dx = 0 ∧ entry.dy = 0 ∧ entry.dz = 0 ∧
      entry.renderHeightMapType = .noData ∧ entry.renderHeightMap = [] ∧
      (packet.cacheEnabled = false → entry.blobId = none)
  else packet.entries.length ≤ 4096

instance (packet : BedrockSubChunkPacket) (version : String) :
    Decidable (Representable packet version) :=
  inferInstanceAs (Decidable (ite _ _ _))

theorem legacyView_eq_iff : legacyView packet = packet ↔
    ∀ entry ∈ packet.entries, entry.dx = 0 ∧ entry.dy = 0 ∧ entry.dz = 0 ∧
      entry.renderHeightMapType = .noData ∧ entry.renderHeightMap = [] ∧
      (packet.cacheEnabled = false → entry.blobId = none) := by
  obtain ⟨cacheEnabled, dimension, originX, originY, originZ, entries⟩ := packet
  rw [legacyView]
  simp only [BedrockSubChunkPacket.mk.injEq, true_and]
  have hid (f : BedrockSubChunkPacketEntry → BedrockSubChunkPacketEntry) :
      entries.map f = entries ↔ entries.map f = entries.map id := by rw [List.map_id]
  rw [hid, List.map_inj_left]
  refine forall₂_congr fun entry _ ↦ ?_
  obtain ⟨dx, dy, dz, result, payload, type, heights, renderType, renderHeights, blobId⟩ := entry
  cases cacheEnabled <;> simp [eq_comm]

theorem reads_legacyBlobId (h : writeLegacyBlobId entry cacheEnabled = .ok bytes) :
    Reads (if cacheEnabled then readBlobId else pure none) bytes
      (if cacheEnabled then entry.blobId else none) := by
  unfold writeLegacyBlobId at h
  cases cacheEnabled with
  | true =>
      cases hid : entry.blobId with
      | none => simp [hid] at h
      | some hash =>
          simp only [hid, Except.ok.injEq] at h
          obtain rfl := h
          exact reads_readBlobId hash
  | false =>
      simp only [Except.ok.injEq] at h
      obtain rfl := h
      exact Reads.pure none

/-- The numbers of the results that 1.18.0 knows. -/
theorem legacyResult_eq {result : BedrockSubChunkResult} (h : result ≠ .successAllAir) :
    (if Int32.ofNat result.toNumber < 0 ∨ 5 < Int32.ofNat result.toNumber then none
      else BedrockSubChunkResult.ofNumber (Int32.ofNat result.toNumber).toInt.toNat) =
      some result := by
  cases result with
  | successAllAir => exact absurd rfl h
  | _ => rfl

theorem reads_readLegacyPacket (h : writeLegacyPacket packet = .ok bytes) :
    Reads readLegacyPacket bytes (legacyView packet) := by
  obtain ⟨cacheEnabled, dimension, originX, originY, originZ, entries⟩ := packet
  rw [writeLegacyPacket] at h
  rcases entries with _ | ⟨entry, _ | ⟨other, rest⟩⟩
  · cases h
  · dsimp only at h
    by_cases hair : entry.result = .successAllAir
    · rw [if_pos hair] at h
      cases h
    · rw [if_neg hair] at h
      obtain ⟨payload, hpayload, h⟩ := bind_eq_ok.mp h
      obtain ⟨heightMap, hheightMap, h⟩ := bind_eq_ok.mp h
      obtain ⟨blobId, hblobId, h⟩ := bind_eq_ok.mp h
      obtain rfl := Except.ok.inj h
      obtain ⟨heights, rfl, hheights⟩ := reads_readHeightMap hheightMap
      refine (reads_readZigZag32 dimension).bind ((reads_readZigZag32 originX).bind
        ((reads_readZigZag32 originY).bind ((reads_readZigZag32 originZ).bind ?_)))
      refine (reads_readByteArray hpayload).bind ((reads_readZigZag32 _).bind ?_)
      rw [legacyResult_eq hair]
      refine (reads_readHeightMapType _).bind_cons (hheights.bind ?_)
      exact (reads_readFlag cacheEnabled).bind ((reads_legacyBlobId hblobId).bind_last
        (Reads.pure _))
  · cases h

theorem reads_readModernPacket (h : writeModernPacket packet version = .ok bytes)
    (hcount : packet.entries.length ≤ 4096) : Reads (readModernPacket version) bytes packet := by
  rw [writeModernPacket, if_neg (by omega)] at h
  obtain ⟨renderHeightMap, hversion, h⟩ := bind_eq_ok.mp h
  obtain ⟨chunks, hchunks, h⟩ := bind_eq_ok.mp h
  obtain rfl := Except.ok.inj h
  have hentries : packet.entries.mapM (.ok : _ → Except String _) = .ok packet.entries :=
    (mapM_eq_ok (g := id) fun _ _ ↦ rfl).trans (by rw [List.map_id])
  have hread := @ReadsTo.many _ _ _ .ok _ packet.entries
    (fun entry _ bytes hbytes ↦ (reads_readModernEntry hbytes).readsTo) _ hchunks
  rw [hentries] at hread
  refine (reads_readFlag packet.cacheEnabled).bind ((reads_readZigZag32 packet.dimension).bind
    ((reads_readZigZag32 packet.originX).bind ((reads_readZigZag32 packet.originY).bind
      ((reads_readZigZag32 packet.originZ).bind ((BinaryStream.reads_readWord (k := 4) ?_).bind
        ?_)))))
  · omega
  · rw [if_neg (not_lt.mpr hcount)]
    exact (Reads.lift hversion).bind_nil (Reads.bind_last hread (Reads.pure packet))

/-- The reader does not get to the entries when there are too many. -/
theorem readModernPacket_too_many (h : writeModernPacket packet version = .ok bytes)
    (hcount : 4096 < packet.entries.length) :
    readModernPacket version (Cursor.start bytes) =
      .error "subchunk entry count exceeds safety limit" := by
  rw [writeModernPacket] at h
  by_cases hlarge : 2 ^ 32 - 1 < packet.entries.length
  · rw [if_pos hlarge] at h
    cases h
  · rw [if_neg hlarge] at h
    obtain ⟨renderHeightMap, -, h⟩ := bind_eq_ok.mp h
    obtain ⟨chunks, -, h⟩ := bind_eq_ok.mp h
    obtain rfl := Except.ok.inj h
    have hread : ReadsTo (readModernPacket version) (writeFlag packet.cacheEnabled ++
        (writeZigZag32 packet.dimension ++ (writeZigZag32 packet.originX ++
          (writeZigZag32 packet.originY ++ (writeZigZag32 packet.originZ ++
            leBytes 4 packet.entries.length)))))
        (.error "subchunk entry count exceeds safety limit") := by
      refine .after (reads_readFlag _) (.after (reads_readZigZag32 _) (.after
        (reads_readZigZag32 _) (.after (reads_readZigZag32 _) (.after (reads_readZigZag32 _)
          (.after_last (BinaryStream.reads_readWord (k := 4) ?_) ?_)))))
      · omega
      · rw [if_pos hcount]
        exact .lift (.error "subchunk entry count exceeds safety limit")
    have hrun := hread 0 chunks.flatten
    simp only [List.append_assoc] at hrun
    exact hrun

/-! ## Round trip -/

/-- A reader that takes the whole payload. -/
theorem decodePacketPayload_of_reads {packet' : BedrockSubChunkPacket}
    (h : Reads (if legacySingleEntrySchema version then readLegacyPacket
      else readModernPacket version) bytes packet') :
    decodePacketPayload bytes version = .ok packet' := by
  have hrun := h.start []
  rw [List.append_nil] at hrun
  rw [decodePacketPayload, Reader.bind_run hrun, Reader.remaining_run]
  rfl

/-- What the writer accepts is read back as it was exactly when the layout of the version has
room for all of it. -/
theorem decodePacketPayload_encodePacketPayload_iff
    (h : encodePacketPayload packet version = .ok bytes) :
    decodePacketPayload bytes version = .ok packet ↔ Representable packet version := by
  rw [encodePacketPayload] at h
  rw [Representable]
  by_cases hlegacy : legacySingleEntrySchema version = true
  · rw [if_pos hlegacy] at h ⊢
    have hread : Reads (if legacySingleEntrySchema version then readLegacyPacket
        else readModernPacket version) bytes (legacyView packet) := by
      rw [if_pos hlegacy]
      exact reads_readLegacyPacket h
    rw [decodePacketPayload_of_reads hread, Except.ok.injEq]
    exact legacyView_eq_iff
  · rw [if_neg hlegacy] at h ⊢
    by_cases hcount : packet.entries.length ≤ 4096
    · have hread : Reads (if legacySingleEntrySchema version then readLegacyPacket
          else readModernPacket version) bytes packet := by
        rw [if_neg hlegacy]
        exact reads_readModernPacket h hcount
      exact iff_of_true (decodePacketPayload_of_reads hread) hcount
    · have hrun := readModernPacket_too_many h (by omega)
      rw [decodePacketPayload, if_neg hlegacy, Reader.bind_error hrun]
      exact iff_of_false (fun hok ↦ by cases hok) hcount

/-- A packet whose entry is one chunk off the origin. -/
def shiftedPacket : BedrockSubChunkPacket where
  entries := [{ dx := 1, result := .success, payload := [7] }]

theorem decodePacketPayload_encodePacketPayload_shifted :
    ∃ payload, encodePacketPayload shiftedPacket "1.20.0" = .ok payload ∧
      decodePacketPayload payload "1.20.0" = .ok shiftedPacket := by
  obtain ⟨payload, hpayload⟩ : ∃ payload,
      encodePacketPayload shiftedPacket "1.20.0" = .ok payload := ⟨_, rfl⟩
  exact ⟨payload, hpayload, (decodePacketPayload_encodePacketPayload_iff hpayload).mpr (by decide)⟩

/-- The layout of 1.18.0 loses the offset. -/
theorem shifted_of_legacy :
    ∃ payload, encodePacketPayload shiftedPacket "1.18.0" = .ok payload ∧
      decodePacketPayload payload "1.18.0" ≠ .ok shiftedPacket := by
  obtain ⟨payload, hpayload⟩ : ∃ payload,
      encodePacketPayload shiftedPacket "1.18.0" = .ok payload := ⟨_, rfl⟩
  refine ⟨payload, hpayload, ?_⟩
  obtain rfl := Except.ok.inj hpayload
  decide +kernel

end BedrockSubChunkPacketCodec

end BedrockProtocol
