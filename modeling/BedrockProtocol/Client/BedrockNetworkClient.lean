import BedrockProtocol.Server.WireSecrecy

/-!
# Unencrypted payloads between server and client

The unencrypted branch of `BedrockNetworkClient::handleRakNetPayload`, and how it
meets the unencrypted branch of the server's `sendPacketsInternal`.  Both sides
decide from their own flag whether the network settings were exchanged, and from
the version whether a byte names the compressor.
-/

namespace BedrockProtocol

open VersionedMcpeCodec

/-- What the client's decoder looks at. -/
structure BedrockNetworkClient where
  compressionReady : Bool
  compressionAlgorithm : String

namespace BedrockNetworkClient

variable (zlib : Zlib) (codec : VersionedMcpeCodec) (client : BedrockNetworkClient)

/-- The compressor that a client of a version without a compressor byte probes. -/
def legacyCompressor : String :=
  if client.compressionReady && client.compressionAlgorithm = "snappy" then "snappy"
  else "deflate"

/-- The packets that `handleRakNetPayload` hands on while encryption is off. -/
def handleUnencryptedPayload (payload : List UInt8) : Except String (List VersionedGamePacket) :=
  if payload.head? ≠ some 0xfe then .ok []
  else VersionedMcpePayload.batch <$>
    if codec.compressorInPacketHeader && !client.compressionReady then
      decodeUncompressedMcpePayload codec payload
    else if !codec.compressorInPacketHeader && client.compressionReady &&
        client.compressionAlgorithm = "snappy" then
      decodeMcpePayload zlib codec payload "snappy"
    else decodeMcpePayload zlib codec payload "deflate"

end BedrockNetworkClient

/-! ## What the client undoes -/

section Undone

variable {zlib : Zlib} {codec : VersionedMcpeCodec} {client : BedrockNetworkClient}
  {framedBatch body : List UInt8} {compression : VersionedMcpeCompression} {level : ℤ}

/-- A body that the chosen compressor made of a batch. -/
inductive Compressed (zlib : Zlib) (framedBatch body : List UInt8) :
    VersionedMcpeCompression → Prop
  | uncompressed (h : body = framedBatch) : Compressed zlib framedBatch body .uncompressed
  | deflateRaw (h : body ≠ []) (hbody : inflateRaw zlib body = .ok framedBatch) :
      Compressed zlib framedBatch body .deflateRaw
  | snappy (h : body ≠ []) (hbody : SnappyCodec.decompress body = .ok framedBatch) :
      Compressed zlib framedBatch body .snappy

theorem compressed_of_compressBatch (hz : zlib.Lawful)
    (hfits : compression = .deflateRaw → Fits zlib framedBatch .deflateRaw level)
    (h : compressBatch zlib framedBatch compression level = .ok body) :
    Compressed zlib framedBatch body compression := by
  cases compression with
  | uncompressed => exact .uncompressed (Except.ok.inj h).symm
  | deflateRaw =>
      have hlevel : Zlib.ValidLevel level := by
        by_contra hbad
        simp [compressBatch, VersionedMcpeCodec.deflateRaw, hbad] at h
      obtain ⟨stream, hdeflate, hne, hinflate⟩ := inflateRaw_deflateRaw hz hlevel (hfits rfl)
      obtain rfl : stream = body := Except.ok.inj (hdeflate.symm.trans h)
      exact .deflateRaw hne hinflate
  | snappy =>
      have hdecompress := SnappyCodec.decompress_compress h
      refine .snappy ?_ hdecompress
      rintro rfl
      cases hdecompress
  | automatic => cases h

/-- With the byte that names the compressor the body decodes to the batch. -/
theorem decodeCompressionPacket_compressed (hheader : codec.compressorInPacketHeader = true)
    (h : Compressed zlib framedBatch body compression) (legacy : String) :
    decodeCompressionPacket zlib codec (compression.toByte :: body) legacy =
      payloadOf codec compression.toByte (compression.toByte :: body) framedBatch := by
  cases h with
  | uncompressed hbody => simp [decodeCompressionPacket, hheader, hbody]
  | deflateRaw hne hbody =>
      have hbyte : VersionedMcpeCompression.deflateRaw.toByte ≠
        VersionedMcpeCompression.uncompressed.toByte := by decide
      simp [decodeCompressionPacket, hheader, hbyte, hbody]
  | snappy hne hbody =>
      have hbyte : VersionedMcpeCompression.snappy.toByte ≠
        VersionedMcpeCompression.uncompressed.toByte := by decide
      have hbyte' : VersionedMcpeCompression.snappy.toByte ≠
        VersionedMcpeCompression.deflateRaw.toByte := by decide
      simp [decodeCompressionPacket, hheader, hbyte, hbyte', hbody]

/-- A version without that byte probes one compressor and keeps the raw bytes when
it refuses them. -/
theorem legacyFramedBatch_compressed (h : Compressed zlib framedBatch body compression)
    {legacy : String} (hsnappy : compression = .snappy → legacy = "snappy")
    (hdeflate : compression = .deflateRaw → legacy = "deflate")
    (hraw : compression = .uncompressed → (legacyFramedBatch zlib framedBatch legacy).2 =
      framedBatch) :
    (legacyFramedBatch zlib body legacy).2 = framedBatch := by
  cases h with
  | uncompressed hbody => rw [hbody, hraw rfl]
  | deflateRaw hne hbody => simp [legacyFramedBatch, hdeflate rfl, hbody]
  | snappy hne hbody => simp [legacyFramedBatch, hsnappy rfl, hbody]

end Undone

/-! ## Agreement -/

theorem algorithm_of_chooseCompression_snappy {algorithm : String} {shouldCompress : Bool}
    (h : chooseCompression algorithm shouldCompress = .ok .snappy) : algorithm = "snappy" := by
  unfold chooseCompression at h
  repeat' split at h
  all_goals first | assumption | cases h

theorem algorithm_of_chooseCompression_deflateRaw {algorithm : String} {shouldCompress : Bool}
    (h : chooseCompression algorithm shouldCompress = .ok .deflateRaw) :
    algorithm = "deflate" := by
  unfold chooseCompression at h
  repeat' split at h
  all_goals first | assumption | cases h

section Agreement

open BedrockServer BedrockNetworkClient

variable {σ Key ν : Type}

/-- Client and server are in the same phase, and the client knows the announced
compressor once the network settings are sent. -/
structure Matches (s : Session σ ν) (client : BedrockNetworkClient) : Prop where
  compressionReady : client.compressionReady = s.compressionReady
  compressionAlgorithm : s.compressionReady = true →
    client.compressionAlgorithm = s.compressor.compressionAlgorithm

variable {ctx : Context σ Key ν} {s s' : Session σ ν} {client : BedrockNetworkClient}
  {packets : List VersionedGamePacket} {packet : List UInt8}
  {compression : VersionedMcpeCompression}

/-- The unencrypted branch, step by step: frame, choose, compress, and name the
compressor when the version and the phase ask for it. -/
theorem unencryptedCompressionPacket_automatic
    (hmade : ∀ packet ∈ packets, WellMade ctx.mcpeCodec.definition packet)
    (hchoose : chooseCompression s.compressor.compressionAlgorithm
      (s.compressor.compressionThreshold <
        (packets.flatMap VersionedBatchCodec.framePacket).length) = .ok compression)
    (h : unencryptedCompressionPacket ctx s packets .automatic = .ok packet) :
    ∃ body, compressBatch ctx.zlib (packets.flatMap VersionedBatchCodec.framePacket) compression
        s.compressor.compressionLevel = .ok body ∧
      packet = if ctx.mcpeCodec.compressorInPacketHeader && s.compressionReady then
        compression.toByte :: body else body := by
  unfold unencryptedCompressionPacket encodeCompressionPacketByAlgorithm at h
  rw [VersionedBatchCodec.encodeFramedBatch_eq hmade] at h
  simp only [if_true, ok_bind, hchoose, encodeFramedBatch] at h
  obtain ⟨encoded, hencoded, hpacket⟩ := bind_eq_ok.mp h
  obtain ⟨body, hbody, hencoded⟩ := bind_eq_ok.mp hencoded
  refine ⟨body, hbody, ?_⟩
  cases hheader : ctx.mcpeCodec.compressorInPacketHeader with
  | false =>
      simp only [hheader, Bool.not_false, if_true, pure_eq_ok, Except.ok.injEq] at hencoded
      simpa [hheader, hencoded] using hpacket.symm
  | true =>
      simp only [hheader, Bool.not_true, Bool.false_eq_true, if_false, pure_eq_ok,
        Except.ok.injEq] at hencoded
      subst hencoded
      cases hready : s.compressionReady <;> simpa [hheader, hready] using hpacket.symm

section Decoded

variable {body framedBatch : List UInt8}
  (hdecode : VersionedBatchCodec.decodeFramedBatch ctx.mcpeCodec.definition framedBatch =
    .ok packets)

include hdecode

/-- Before the network settings a version with a compressor byte expects the bare
batch. -/
theorem handleUnencryptedPayload_early (hheader : ctx.mcpeCodec.compressorInPacketHeader = true)
    (hready : client.compressionReady = false) :
    handleUnencryptedPayload ctx.zlib ctx.mcpeCodec client (0xfe :: framedBatch) = .ok packets := by
  simp [handleUnencryptedPayload, hheader, hready, decodeUncompressedMcpePayload,
    decodeUncompressedCompressionPacket, payloadOf, hdecode]

/-- Afterwards it reads the byte. -/
theorem handleUnencryptedPayload_ready (hheader : ctx.mcpeCodec.compressorInPacketHeader = true)
    (hready : client.compressionReady = true)
    (hbody : Compressed ctx.zlib framedBatch body compression) :
    handleUnencryptedPayload ctx.zlib ctx.mcpeCodec client
      (0xfe :: compression.toByte :: body) = .ok packets := by
  have hpayload := decodeCompressionPacket_compressed hheader hbody "deflate"
  simp [handleUnencryptedPayload, hheader, hready, decodeMcpePayload, hpayload, payloadOf, hdecode]

/-- A version without the byte hands on what its probe finds. -/
theorem handleUnencryptedPayload_legacy (hheader : ctx.mcpeCodec.compressorInPacketHeader = false)
    (hne : body ≠ [])
    (hprobe : (legacyFramedBatch ctx.zlib body client.legacyCompressor).2 = framedBatch) :
    handleUnencryptedPayload ctx.zlib ctx.mcpeCodec client (0xfe :: body) = .ok packets := by
  have hpacket : ∀ legacy, (legacyFramedBatch ctx.zlib body legacy).2 = framedBatch →
      VersionedMcpePayload.batch <$> decodeMcpePayload ctx.zlib ctx.mcpeCodec (0xfe :: body) legacy =
        .ok packets := by
    intro legacy hlegacy
    obtain ⟨first, rest, rfl⟩ := List.exists_cons_of_ne_nil hne
    simp [decodeMcpePayload, decodeCompressionPacket, hheader, hlegacy, payloadOf, hdecode]
  have hbyCompressor := hpacket client.legacyCompressor hprobe
  unfold BedrockNetworkClient.legacyCompressor at hbyCompressor
  simp only [handleUnencryptedPayload, hheader]
  split at hbyCompressor <;> rename_i hcase <;> simpa [hcase] using hbyCompressor

end Decoded

/-- What `sendPacketsInternal` builds with automatic compression while encryption
is off reaches the client as the same packets, when the choice of the compressor
keeps to what the client expects before the network settings, and when a probing
client does not take the raw batch for a compressed one. -/
theorem handleUnencryptedPayload_buildPayload {path : SendPath} {payload : WirePayload}
    (hz : ctx.zlib.Lawful) (hmatches : Matches s client)
    (hplain : (s.encryptionEnabled && s.hasEncryptionKeys) = false) (hne : packets ≠ [])
    (hmade : ∀ packet ∈ packets, WellMade ctx.mcpeCodec.definition packet)
    (hshort : ∀ packet ∈ packets, packet.fullPacket.length < 2 ^ 32)
    (hchoose : chooseCompression s.compressor.compressionAlgorithm
      (s.compressor.compressionThreshold <
        (packets.flatMap VersionedBatchCodec.framePacket).length) = .ok compression)
    (hfits : compression = .deflateRaw → Fits ctx.zlib
      (packets.flatMap VersionedBatchCodec.framePacket) .deflateRaw s.compressor.compressionLevel)
    (hearly : s.compressionReady = false →
      if ctx.mcpeCodec.compressorInPacketHeader then compression = .uncompressed
      else compression ≠ .snappy)
    (hraw : ctx.mcpeCodec.compressorInPacketHeader = false → compression = .uncompressed →
      (legacyFramedBatch ctx.zlib (packets.flatMap VersionedBatchCodec.framePacket)
        client.legacyCompressor).2 = packets.flatMap VersionedBatchCodec.framePacket)
    (hbuild : buildPayload ctx s path packets .automatic = .next s' [.checkWritable payload]) :
    handleUnencryptedPayload ctx.zlib ctx.mcpeCodec client payload.bytes = .ok packets := by
  have hdecode := VersionedBatchCodec.decodeFramedBatch_flatMap hmade hshort
  obtain ⟨packet, hpacket, hbytes⟩ : ∃ packet,
      unencryptedCompressionPacket ctx s packets .automatic = .ok packet ∧
        payload.bytes = 0xfe :: packet := by
    simp only [BedrockServer.buildPayload, hplain, Bool.false_eq_true, if_false] at hbuild
    split at hbuild
    · cases hbuild
    · split at hbuild
      · cases hbuild
      · rename_i packet hpacket
        cases hbuild
        exact ⟨packet, hpacket, rfl⟩
  obtain ⟨body, hcompress, hshape⟩ := unencryptedCompressionPacket_automatic hmade hchoose hpacket
  have hbody := compressed_of_compressBatch hz hfits hcompress
  have hready := hmatches.compressionReady
  rw [hbytes, hshape]
  cases hheader : ctx.mcpeCodec.compressorInPacketHeader with
  | true =>
      cases hsettings : s.compressionReady with
      | false =>
          have huncompressed := hearly hsettings
          rw [hheader, if_pos rfl] at huncompressed
          subst huncompressed
          cases hbody with
          | uncompressed hsame =>
              rw [hsame]
              exact handleUnencryptedPayload_early hdecode hheader (hready.trans hsettings)
      | true => exact handleUnencryptedPayload_ready hdecode hheader (hready.trans hsettings) hbody
  | false =>
      have hbodyNe : body ≠ [] := by
        cases hbody with
        | uncompressed hsame =>
            obtain ⟨first, rest, rfl⟩ := List.exists_cons_of_ne_nil hne
            rw [hsame, List.flatMap_cons, VersionedBatchCodec.framePacket]
            simp [(hmade first List.mem_cons_self).fullPacket_ne_nil]
        | deflateRaw hne => exact hne
        | snappy hne => exact hne
      refine handleUnencryptedPayload_legacy hdecode hheader hbodyNe ?_
      refine legacyFramedBatch_compressed hbody ?_ ?_ fun h ↦ hraw hheader h
      · rintro rfl
        have halgorithm := algorithm_of_chooseCompression_snappy hchoose
        cases hsettings : s.compressionReady with
        | false =>
            have hother := hearly hsettings
            rw [hheader] at hother
            exact absurd rfl hother
        | true =>
            simp [legacyCompressor, hready, hsettings, hmatches.compressionAlgorithm hsettings,
              halgorithm]
      · rintro rfl
        have halgorithm := algorithm_of_chooseCompression_deflateRaw hchoose
        cases hsettings : s.compressionReady with
        | false => simp [legacyCompressor, hready, hsettings]
        | true =>
            simp [legacyCompressor, hready, hsettings, hmatches.compressionAlgorithm hsettings,
              halgorithm]

/-! ## Two payloads -/

/-- A version without a compressor byte. -/
def legacyDefinition : ProtocolVersionInfo where
  minecraftVersion := "1.20.0"
  packets := [⟨9, "text", "packet_text"⟩, ⟨12, "add_player", "packet_add_player"⟩]
  id_lt := by decide
  ids_nodup := by decide

def legacyContext : Context Unit (List UInt8) Unit :=
  { sampleContext with mcpeCodec := ⟨legacyDefinition, false, by decide⟩ }

/-- A session that answered with its network settings, or did not yet. -/
def settingsSession (compressor : CompressorOptions) (compressionReady : Bool) :
    Session Unit Unit :=
  { sampleSession.session with compressor, compressionReady }

def addPlayerPacket : VersionedGamePacket :=
  ⟨12, "add_player", "packet_add_player", [12, 7, 9, 0, 0, 0x0e, 1, 0], [7, 9, 0, 0, 0x0e, 1, 0]⟩

def playStatusPacket : VersionedGamePacket :=
  ⟨2, "play_status", "packet_play_status", [2, 0, 0, 0, 0], [0, 0, 0, 0]⟩

theorem buildPayload_legacy : buildPayload legacyContext (settingsSession ⟨"snappy", 7, 512⟩ true)
    .packets [addPlayerPacket] .automatic =
      .next (settingsSession ⟨"snappy", 7, 512⟩ true)
        [.checkWritable ⟨.packets, [0xfe, 8, 12, 7, 9, 0, 0, 0x0e, 1, 0]⟩] := rfl

theorem buildPayload_early : buildPayload sampleContext (settingsSession ⟨"deflate", 0, 0⟩ false)
    .packets [playStatusPacket] .automatic =
      .next (settingsSession ⟨"deflate", 0, 0⟩ false)
        [.checkWritable ⟨.packets, [0xfe, 1, 6, 0, 0xf9, 0xff, 5, 2, 0, 0, 0, 0]⟩] := rfl

theorem makePacketByName_playStatus : VersionedPacketCodec.makePacketByName
    sampleContext.mcpeCodec.definition "play_status" [0, 0, 0, 0] = .ok playStatusPacket := rfl

/-- Two payloads that the client misreads: a raw batch, which a probing client takes
for a Snappy block, and a deflated batch before the network settings, which a
client that knows the compressor byte takes for a raw one. -/
theorem unencrypted_payloads_misread :
    (Matches (settingsSession ⟨"snappy", 7, 512⟩ true) ⟨true, "snappy"⟩ ∧
      VersionedPacketCodec.makePacketByName legacyContext.mcpeCodec.definition "add_player"
        addPlayerPacket.payload = .ok addPlayerPacket ∧
      buildPayload legacyContext (settingsSession ⟨"snappy", 7, 512⟩ true) .packets
        [addPlayerPacket] .automatic = .next (settingsSession ⟨"snappy", 7, 512⟩ true)
          [.checkWritable ⟨.packets, [0xfe, 8, 12, 7, 9, 0, 0, 0x0e, 1, 0]⟩] ∧
      handleUnencryptedPayload legacyContext.zlib legacyContext.mcpeCodec ⟨true, "snappy"⟩
        [0xfe, 8, 12, 7, 9, 0, 0, 0x0e, 1, 0] =
          .ok [⟨9, "text", "packet_text", [9, 0, 0, 0, 0, 0, 0], [0, 0, 0, 0, 0, 0]⟩]) ∧
    Matches (settingsSession ⟨"deflate", 0, 0⟩ false) ⟨false, "none"⟩ ∧
      buildPayload sampleContext (settingsSession ⟨"deflate", 0, 0⟩ false) .packets
        [playStatusPacket] .automatic = .next (settingsSession ⟨"deflate", 0, 0⟩ false)
          [.checkWritable ⟨.packets, [0xfe, 1, 6, 0, 0xf9, 0xff, 5, 2, 0, 0, 0, 0]⟩] ∧
      Throws (handleUnencryptedPayload sampleContext.zlib sampleContext.mcpeCodec ⟨false, "none"⟩
        [0xfe, 1, 6, 0, 0xf9, 0xff, 5, 2, 0, 0, 0, 0]) :=
  ⟨⟨⟨rfl, fun _ ↦ rfl⟩, rfl, buildPayload_legacy, by decide⟩, ⟨rfl, nofun⟩, buildPayload_early,
    ⟨_, rfl⟩⟩

/-- A deflated batch after the network settings. -/
theorem handleUnencryptedPayload_buildPayload_deflated :
    ∃ payload, buildPayload sampleContext (settingsSession ⟨"deflate", 0, 0⟩ true) .packets
        [playStatusPacket] .automatic =
          .next (settingsSession ⟨"deflate", 0, 0⟩ true) [.checkWritable payload] ∧
      handleUnencryptedPayload sampleContext.zlib sampleContext.mcpeCodec ⟨true, "deflate"⟩
        payload.bytes = .ok [playStatusPacket] := by
  have hz : sampleContext.zlib.Lawful := Zlib.lawful_stored
  have hmatches : Matches (settingsSession ⟨"deflate", 0, 0⟩ true) ⟨true, "deflate"⟩ :=
    ⟨rfl, fun _ ↦ rfl⟩
  have hmade : ∀ packet ∈ [playStatusPacket],
      WellMade sampleContext.mcpeCodec.definition packet := by
    simpa using wellMade_makePacketByName makePacketByName_playStatus
  have hchoose : chooseCompression "deflate"
      (0 < ([playStatusPacket].flatMap VersionedBatchCodec.framePacket).length) =
        .ok .deflateRaw := by decide
  have hbuild : buildPayload sampleContext (settingsSession ⟨"deflate", 0, 0⟩ true) .packets
      [playStatusPacket] .automatic = .next (settingsSession ⟨"deflate", 0, 0⟩ true)
        [.checkWritable ⟨.packets, [0xfe, 0, 1, 6, 0, 0xf9, 0xff, 5, 2, 0, 0, 0, 0]⟩] := rfl
  exact ⟨_, hbuild, handleUnencryptedPayload_buildPayload hz hmatches rfl (by simp) hmade
    (by decide) hchoose (fun _ ↦ ⟨by decide, by decide⟩) nofun nofun hbuild⟩

end Agreement

end BedrockProtocol
