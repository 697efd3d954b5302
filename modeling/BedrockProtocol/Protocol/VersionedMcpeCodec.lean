import BedrockProtocol.Protocol.SnappyRoundTrip
import BedrockProtocol.Protocol.VersionedBatchCodec
import BedrockProtocol.Protocol.Zlib

/-!
# Compressed payloads of one version

`VersionedMcpeCodec.cpp`: a framed batch, compressed, behind the byte `0xfe`.
Since 1.20.61 a byte in front of the batch names the compressor.  Older versions
have no such byte; their ordinary decoder falls back to the raw bytes, while the
decoder of encrypted batches, which are always deflated, does not.
-/

namespace BedrockProtocol

inductive VersionedMcpeCompression
  | deflateRaw
  | snappy
  | automatic
  | uncompressed
  deriving DecidableEq, Repr

namespace VersionedMcpeCompression

def toByte : VersionedMcpeCompression → UInt8
  | deflateRaw => 0x00
  | snappy => 0x01
  | automatic => 0xfe
  | uncompressed => 0xff

end VersionedMcpeCompression

structure VersionedMcpePayload where
  compressionHeader : UInt8
  compressionPacket : List UInt8
  framedBatch : List UInt8
  batch : List VersionedGamePacket
  deriving DecidableEq, Repr

/-! ## Versions -/

/-- `std::stoi` on a string of digits. -/
def stoi (digits : List Char) : Except String ℕ :=
  let value := digits.foldl (fun n c ↦ 10 * n + (c.toNat - '0'.toNat)) 0
  if 2 ^ 31 - 1 < value then .error "stoi" else .ok value

def versionPart (current : List Char) : Except String ℕ :=
  if current = [] then .ok 0 else stoi current

/-- The numbers between the dots; anything but digits and dots is skipped. -/
def versionParts : List Char → List Char → Except String (List ℕ)
  | [], current => do
      let part ← versionPart current
      pure [part]
  | c :: version, current =>
      if c = '.' then do
        let part ← versionPart current
        let parts ← versionParts version []
        pure (part :: parts)
      else if c.isDigit then versionParts version (current ++ [c])
      else versionParts version current

def versionAtLeast (version : String) (major minor patch : ℕ) : Except String Bool := do
  let parts ← versionParts version.toList []
  let at' := fun i ↦ parts.getD i 0
  pure (if at' 0 ≠ major then decide (major < at' 0)
    else if at' 1 ≠ minor then decide (minor < at' 1)
    else decide (patch ≤ at' 2))

/-- The codec of a version; the flag is computed from the version string. -/
structure VersionedMcpeCodec where
  definition : ProtocolVersionInfo
  compressorInPacketHeader : Bool
  compressorInPacketHeader_eq :
    versionAtLeast definition.minecraftVersion 1 20 61 = .ok compressorInPacketHeader

namespace VersionedMcpeCodec

/-! ## Encoding -/

def deflateRaw (zlib : Zlib) (input : List UInt8) (compressionLevel : ℤ) :
    Except String (List UInt8) :=
  if ¬ Zlib.ValidLevel compressionLevel then .error "deflateInit2 failed"
  else .ok (zlib.deflate compressionLevel (Zlib.availIn input))

def inflateRaw (zlib : Zlib) (input : List UInt8) : Except String (List UInt8) :=
  match zlib.inflate (Zlib.availIn input) with
  | .ok output => .ok output
  | .error .failed => .error "inflate failed"
  | .error .incomplete => .error "incomplete deflate stream"

def chooseCompression (compressionAlgorithm : String) (shouldCompress : Bool) :
    Except String VersionedMcpeCompression :=
  if compressionAlgorithm = "none" then .ok .uncompressed
  else if compressionAlgorithm = "deflate" then
    .ok (if shouldCompress then .deflateRaw else .uncompressed)
  else if compressionAlgorithm = "snappy" then
    .ok (if shouldCompress then .snappy else .uncompressed)
  else .error ("Unknown compression algorithm: " ++ compressionAlgorithm)

variable (zlib : Zlib) (codec : VersionedMcpeCodec)

/-- The batch in the given compression, without a header. -/
def compressBatch (framedBatch : List UInt8) (compression : VersionedMcpeCompression)
    (compressionLevel : ℤ) : Except String (List UInt8) :=
  match compression with
  | .uncompressed => .ok framedBatch
  | .deflateRaw => deflateRaw zlib framedBatch compressionLevel
  | .snappy => SnappyCodec.compress framedBatch
  | .automatic => .error "unsupported compression mode"

def encodeFramedBatch (framedBatch : List UInt8) (compression : VersionedMcpeCompression)
    (compressionLevel : ℤ) : Except String (List UInt8) := do
  let body ← compressBatch zlib framedBatch compression compressionLevel
  if !codec.compressorInPacketHeader then pure body
  else pure (compression.toByte :: body)

def encodeCompressionPacket (packets : List VersionedGamePacket)
    (compression : VersionedMcpeCompression) (compressionLevel : ℤ) :
    Except String (List UInt8) := do
  let framedBatch ← VersionedBatchCodec.encodeFramedBatch packets
  encodeFramedBatch zlib codec framedBatch compression compressionLevel

def encodeCompressionPacketByAlgorithm (packets : List VersionedGamePacket)
    (compressionAlgorithm : String) (compressionLevel : ℤ) (compressionThreshold : ℕ) :
    Except String (List UInt8) := do
  let framedBatch ← VersionedBatchCodec.encodeFramedBatch packets
  let compression ←
    chooseCompression compressionAlgorithm (compressionThreshold < framedBatch.length)
  encodeFramedBatch zlib codec framedBatch compression compressionLevel

def encodeMcpePayload (packets : List VersionedGamePacket)
    (compression : VersionedMcpeCompression) (compressionLevel : ℤ) :
    Except String (List UInt8) := do
  let compressionPacket ← encodeCompressionPacket zlib codec packets compression compressionLevel
  pure (0xfe :: compressionPacket)

def encodeMcpePayloadByAlgorithm (packets : List VersionedGamePacket)
    (compressionAlgorithm : String) (compressionLevel : ℤ) (compressionThreshold : ℕ) :
    Except String (List UInt8) := do
  let compressionPacket ← encodeCompressionPacketByAlgorithm zlib codec packets
    compressionAlgorithm compressionLevel compressionThreshold
  pure (0xfe :: compressionPacket)

def encodeEncryptedCompressionPacket (packets : List VersionedGamePacket)
    (compressionLevel : ℤ) : Except String (List UInt8) := do
  let framedBatch ← VersionedBatchCodec.encodeFramedBatch packets
  let compressed ← deflateRaw zlib framedBatch compressionLevel
  if !codec.compressorInPacketHeader then pure compressed
  else pure (VersionedMcpeCompression.deflateRaw.toByte :: compressed)

/-! ## Decoding -/

/-- Assemble the payload once the framed batch is known. -/
def payloadOf (compressionHeader : UInt8) (compressionPacket framedBatch : List UInt8) :
    Except String VersionedMcpePayload := do
  let batch ← VersionedBatchCodec.decodeFramedBatch codec.definition framedBatch
  pure ⟨compressionHeader, compressionPacket, framedBatch, batch⟩

/-- The header and the framed batch of a version without a compressor byte. -/
def legacyFramedBatch (compressionPacket : List UInt8) (legacyCompressionAlgorithm : String) :
    UInt8 × List UInt8 :=
  let raw := (VersionedMcpeCompression.uncompressed.toByte, compressionPacket)
  if legacyCompressionAlgorithm = "none" then raw
  else if legacyCompressionAlgorithm = "snappy" then
    match SnappyCodec.decompress compressionPacket with
    | .ok framedBatch => (VersionedMcpeCompression.snappy.toByte, framedBatch)
    | .error _ => raw
  else if legacyCompressionAlgorithm = "deflate" then
    match inflateRaw zlib compressionPacket with
    | .ok framedBatch => (VersionedMcpeCompression.deflateRaw.toByte, framedBatch)
    | .error _ => raw
  else raw

def decodeCompressionPacket (compressionPacket : List UInt8)
    (legacyCompressionAlgorithm : String) : Except String VersionedMcpePayload :=
  match compressionPacket with
  | [] => .error "empty compression packet"
  | compressionHeader :: body =>
      if !codec.compressorInPacketHeader then
        let (header, framedBatch) :=
          legacyFramedBatch zlib compressionPacket legacyCompressionAlgorithm
        payloadOf codec header compressionPacket framedBatch
      else if compressionHeader = VersionedMcpeCompression.uncompressed.toByte then
        payloadOf codec compressionHeader compressionPacket body
      else if compressionHeader = VersionedMcpeCompression.deflateRaw.toByte then do
        let framedBatch ← inflateRaw zlib body
        payloadOf codec compressionHeader compressionPacket framedBatch
      else if compressionHeader = VersionedMcpeCompression.snappy.toByte then do
        let framedBatch ← SnappyCodec.decompress body
        payloadOf codec compressionHeader compressionPacket framedBatch
      else .error ("Unknown compression type " ++ toString compressionHeader.toNat)

def decodeMcpePayload (mcpePayload : List UInt8) (legacyCompressionAlgorithm : String) :
    Except String VersionedMcpePayload :=
  match mcpePayload with
  | [] => .error "empty mcpe payload"
  | marker :: compressionPacket =>
      if marker ≠ 0xfe then .error "mcpe payload missing 0xfe prefix"
      else if compressionPacket = [] then .error "mcpe payload missing compression header"
      else decodeCompressionPacket zlib codec compressionPacket legacyCompressionAlgorithm

def decodeUncompressedCompressionPacket (compressionPacket : List UInt8) :
    Except String VersionedMcpePayload :=
  payloadOf codec VersionedMcpeCompression.uncompressed.toByte compressionPacket compressionPacket

def decodeUncompressedMcpePayload (mcpePayload : List UInt8) :
    Except String VersionedMcpePayload :=
  match mcpePayload with
  | [] => .error "empty mcpe payload"
  | marker :: compressionPacket =>
      if marker ≠ 0xfe then .error "mcpe payload missing 0xfe prefix"
      else decodeUncompressedCompressionPacket codec compressionPacket

def decodeEncryptedCompressionPacket (compressionPacket : List UInt8) :
    Except String VersionedMcpePayload :=
  if codec.compressorInPacketHeader then
    decodeCompressionPacket zlib codec compressionPacket "deflate"
  else if compressionPacket = [] then .error "empty encrypted compression packet"
  else do
    let framedBatch ← inflateRaw zlib compressionPacket
    payloadOf codec VersionedMcpeCompression.deflateRaw.toByte compressionPacket framedBatch

theorem wellMade_of_payloadOf {codec : VersionedMcpeCodec} {header : UInt8}
    {compressionPacket framedBatch : List UInt8} {payload : VersionedMcpePayload}
    (h : payloadOf codec header compressionPacket framedBatch = .ok payload) :
    ∀ packet ∈ payload.batch,
      WellMade codec.definition packet ∧ packet.fullPacket.length < 2 ^ 32 := by
  obtain ⟨batch, hbatch, hpayload⟩ := bind_eq_ok.mp h
  obtain rfl := Except.ok.inj hpayload
  exact VersionedBatchCodec.wellMade_of_decodeFramedBatch hbatch

theorem wellMade_of_decodeMcpePayload {zlib : Zlib} {codec : VersionedMcpeCodec}
    {mcpePayload : List UInt8} {legacyCompressionAlgorithm : String}
    {payload : VersionedMcpePayload}
    (h : decodeMcpePayload zlib codec mcpePayload legacyCompressionAlgorithm = .ok payload) :
    ∀ packet ∈ payload.batch,
      WellMade codec.definition packet ∧ packet.fullPacket.length < 2 ^ 32 := by
  unfold decodeMcpePayload at h
  split at h
  · cases h
  split at h
  · cases h
  split at h
  · cases h
  unfold decodeCompressionPacket at h
  split at h
  · cases h
  split at h
  · exact wellMade_of_payloadOf h
  split at h
  · exact wellMade_of_payloadOf h
  split at h
  · obtain ⟨framedBatch, -, hpayload⟩ := bind_eq_ok.mp h
    exact wellMade_of_payloadOf hpayload
  split at h
  · obtain ⟨framedBatch, -, hpayload⟩ := bind_eq_ok.mp h
    exact wellMade_of_payloadOf hpayload
  · cases h

/-! ## Round trips -/

/-- What the compressor of a batch can count: Snappy refuses a block of 2^32
bytes, and zlib is given 32-bit lengths. -/
def Fits (framedBatch : List UInt8) (compression : VersionedMcpeCompression)
    (compressionLevel : ℤ) : Prop :=
  match compression with
  | .uncompressed => True
  | .snappy => framedBatch.length < 2 ^ 32
  | .deflateRaw => framedBatch.length < 2 ^ 32 ∧
      (zlib.deflate compressionLevel framedBatch).length < 2 ^ 32
  | .automatic => False

section RoundTrip

variable {zlib codec} {framedBatch : List UInt8} {compressionLevel : ℤ}
  {packets : List VersionedGamePacket}

theorem inflateRaw_deflateRaw (hz : zlib.Lawful) (hlevel : Zlib.ValidLevel compressionLevel)
    (hfits : Fits zlib framedBatch .deflateRaw compressionLevel) :
    ∃ stream, deflateRaw zlib framedBatch compressionLevel = .ok stream ∧ stream ≠ [] ∧
      inflateRaw zlib stream = .ok framedBatch := by
  obtain ⟨hsize, hstream⟩ := hfits
  refine ⟨zlib.deflate compressionLevel framedBatch, ?_, hz.deflate_ne_nil hlevel _, ?_⟩
  · rw [deflateRaw, if_neg (not_not.mpr hlevel), Zlib.availIn_of_lt hsize]
  · rw [inflateRaw, Zlib.availIn_of_lt hstream, hz.inflate_deflate hlevel]

/-- With a compressor byte the decoder recovers the framed batch the encoder
compressed. -/
theorem decodeCompressionPacket_encodeFramedBatch (hz : zlib.Lawful)
    (hheader : codec.compressorInPacketHeader = true)
    (hlevel : Zlib.ValidLevel compressionLevel) {compression : VersionedMcpeCompression}
    (hfits : Fits zlib framedBatch compression compressionLevel) :
    ∃ packet, encodeFramedBatch zlib codec framedBatch compression compressionLevel = .ok packet ∧
      packet ≠ [] ∧ ∀ legacy, decodeCompressionPacket zlib codec packet legacy =
        payloadOf codec compression.toByte packet framedBatch := by
  cases compression with
  | uncompressed =>
      refine ⟨VersionedMcpeCompression.uncompressed.toByte :: framedBatch, ?_, by simp, ?_⟩
      · simp [encodeFramedBatch, compressBatch, hheader]
      · intro legacy
        simp [decodeCompressionPacket, hheader]
  | deflateRaw =>
      obtain ⟨stream, hdeflate, -, hinflate⟩ := inflateRaw_deflateRaw hz hlevel hfits
      have hbyte : VersionedMcpeCompression.deflateRaw.toByte ≠
        VersionedMcpeCompression.uncompressed.toByte := by decide
      refine ⟨VersionedMcpeCompression.deflateRaw.toByte :: stream, ?_, by simp, ?_⟩
      · simp [encodeFramedBatch, compressBatch, hheader, hdeflate]
      · intro legacy
        simp [decodeCompressionPacket, hheader, hbyte, hinflate]
  | snappy =>
      obtain ⟨block, hcompress, hdecompress⟩ := SnappyCodec.decompress_compress_of_lt hfits
      have hbyte : VersionedMcpeCompression.snappy.toByte ≠
        VersionedMcpeCompression.uncompressed.toByte := by decide
      have hbyte' : VersionedMcpeCompression.snappy.toByte ≠
        VersionedMcpeCompression.deflateRaw.toByte := by decide
      refine ⟨VersionedMcpeCompression.snappy.toByte :: block, ?_, by simp, ?_⟩
      · simp [encodeFramedBatch, compressBatch, hheader, hcompress]
      · intro legacy
        simp [decodeCompressionPacket, hheader, hbyte, hbyte', hdecompress]
  | automatic => exact hfits.elim

variable (hmade : ∀ packet ∈ packets, WellMade codec.definition packet)
  (hshort : ∀ packet ∈ packets, packet.fullPacket.length < 2 ^ 32)

include hmade hshort

/-- A framed batch of well-made packets decodes to them. -/
theorem payloadOf_flatMap (header : UInt8) (compressionPacket : List UInt8) :
    payloadOf codec header compressionPacket
        (packets.flatMap VersionedBatchCodec.framePacket) =
      .ok ⟨header, compressionPacket, packets.flatMap VersionedBatchCodec.framePacket, packets⟩ := by
  rw [payloadOf, VersionedBatchCodec.decodeFramedBatch_flatMap hmade hshort]
  rfl

theorem decodeMcpePayload_encodeMcpePayload (hz : zlib.Lawful)
    (hheader : codec.compressorInPacketHeader = true)
    (hlevel : Zlib.ValidLevel compressionLevel) {compression : VersionedMcpeCompression}
    (hfits : Fits zlib (packets.flatMap VersionedBatchCodec.framePacket) compression
      compressionLevel) :
    ∃ bytes, encodeMcpePayload zlib codec packets compression compressionLevel = .ok bytes ∧
      ∀ legacy, ∃ payload, decodeMcpePayload zlib codec bytes legacy = .ok payload ∧
        payload.batch = packets := by
  obtain ⟨packet, hencode, hne, hdecode⟩ :=
    decodeCompressionPacket_encodeFramedBatch hz hheader hlevel hfits
  have hpayload := payloadOf_flatMap hmade hshort compression.toByte packet
  refine ⟨0xfe :: packet, ?_, fun legacy ↦ ?_⟩
  · simp [encodeMcpePayload, encodeCompressionPacket,
      VersionedBatchCodec.encodeFramedBatch_eq hmade, hencode]
  · have hbody : decodeMcpePayload zlib codec (0xfe :: packet) legacy =
        decodeCompressionPacket zlib codec packet legacy := by
      simp only [decodeMcpePayload, ne_eq, not_true_eq_false, if_false, if_neg hne]
    exact ⟨_, hbody.trans ((hdecode legacy).trans hpayload), rfl⟩

/-- Without a compressor byte the ordinary decoder expects deflated batches. -/
theorem decodeMcpePayload_encodeMcpePayload_deflateRaw (hz : zlib.Lawful)
    (hlevel : Zlib.ValidLevel compressionLevel)
    (hfits : Fits zlib (packets.flatMap VersionedBatchCodec.framePacket) .deflateRaw
      compressionLevel) :
    ∃ bytes, encodeMcpePayload zlib codec packets .deflateRaw compressionLevel = .ok bytes ∧
      ∃ payload, decodeMcpePayload zlib codec bytes "deflate" = .ok payload ∧
        payload.batch = packets := by
  cases hheader : codec.compressorInPacketHeader with
  | true =>
      obtain ⟨bytes, hencode, hdecode⟩ :=
        decodeMcpePayload_encodeMcpePayload hmade hshort hz hheader hlevel hfits
      exact ⟨bytes, hencode, hdecode "deflate"⟩
  | false =>
      obtain ⟨stream, hdeflate, hne, hinflate⟩ := inflateRaw_deflateRaw hz hlevel hfits
      have hbody : decodeMcpePayload zlib codec (0xfe :: stream) "deflate" =
          payloadOf codec VersionedMcpeCompression.deflateRaw.toByte stream
            (packets.flatMap VersionedBatchCodec.framePacket) := by
        obtain ⟨first, rest, rfl⟩ := List.exists_cons_of_ne_nil hne
        simp [decodeMcpePayload, decodeCompressionPacket, hheader, legacyFramedBatch, hinflate]
      refine ⟨0xfe :: stream, ?_, _, hbody.trans (payloadOf_flatMap hmade hshort _ _), rfl⟩
      simp [encodeMcpePayload, encodeCompressionPacket,
        VersionedBatchCodec.encodeFramedBatch_eq hmade, encodeFramedBatch, compressBatch,
        hdeflate, hheader]

theorem decodeMcpePayload_encodeMcpePayloadByAlgorithm (hz : zlib.Lawful)
    (hheader : codec.compressorInPacketHeader = true)
    (hlevel : Zlib.ValidLevel compressionLevel) {compressionAlgorithm : String}
    {compressionThreshold : ℕ} {compression : VersionedMcpeCompression}
    (hchoose : chooseCompression compressionAlgorithm
      (compressionThreshold < (packets.flatMap VersionedBatchCodec.framePacket).length) =
        .ok compression)
    (hfits : Fits zlib (packets.flatMap VersionedBatchCodec.framePacket) compression
      compressionLevel) :
    ∃ bytes, encodeMcpePayloadByAlgorithm zlib codec packets compressionAlgorithm
        compressionLevel compressionThreshold = .ok bytes ∧
      ∀ legacy, ∃ payload, decodeMcpePayload zlib codec bytes legacy = .ok payload ∧
        payload.batch = packets := by
  have hsame : encodeMcpePayloadByAlgorithm zlib codec packets compressionAlgorithm
      compressionLevel compressionThreshold =
        encodeMcpePayload zlib codec packets compression compressionLevel := by
    simp only [encodeMcpePayloadByAlgorithm, encodeMcpePayload, encodeCompressionPacketByAlgorithm,
      encodeCompressionPacket, VersionedBatchCodec.encodeFramedBatch_eq hmade, ok_bind, hchoose]
  rw [hsame]
  exact decodeMcpePayload_encodeMcpePayload hmade hshort hz hheader hlevel hfits

theorem decodeEncrypted_encodeEncrypted (hz : zlib.Lawful)
    (hlevel : Zlib.ValidLevel compressionLevel)
    (hfits : Fits zlib (packets.flatMap VersionedBatchCodec.framePacket) .deflateRaw
      compressionLevel) :
    ∃ bytes payload,
      encodeEncryptedCompressionPacket zlib codec packets compressionLevel = .ok bytes ∧
      decodeEncryptedCompressionPacket zlib codec bytes = .ok payload ∧
      payload.batch = packets := by
  obtain ⟨stream, hdeflate, hne, hinflate⟩ := inflateRaw_deflateRaw hz hlevel hfits
  have hframe := VersionedBatchCodec.encodeFramedBatch_eq hmade
  cases hheader : codec.compressorInPacketHeader with
  | false =>
      have hbody : decodeEncryptedCompressionPacket zlib codec stream =
          payloadOf codec VersionedMcpeCompression.deflateRaw.toByte stream
            (packets.flatMap VersionedBatchCodec.framePacket) := by
        simp only [decodeEncryptedCompressionPacket, hheader, if_neg hne, hinflate, ok_bind,
          Bool.false_eq_true, if_false]
      refine ⟨stream, _, ?_, hbody.trans (payloadOf_flatMap hmade hshort _ _), rfl⟩
      simp [encodeEncryptedCompressionPacket, hframe, hdeflate, hheader]
  | true =>
      have hbyte : VersionedMcpeCompression.deflateRaw.toByte ≠
        VersionedMcpeCompression.uncompressed.toByte := by decide
      have hbody : decodeEncryptedCompressionPacket zlib codec
          (VersionedMcpeCompression.deflateRaw.toByte :: stream) =
            payloadOf codec VersionedMcpeCompression.deflateRaw.toByte
              (VersionedMcpeCompression.deflateRaw.toByte :: stream)
              (packets.flatMap VersionedBatchCodec.framePacket) := by
        simp only [decodeEncryptedCompressionPacket, decodeCompressionPacket, hheader, hbyte,
          hinflate, ok_bind, if_true, if_false, Bool.not_true, Bool.false_eq_true]
      refine ⟨_ :: stream, _, ?_, hbody.trans (payloadOf_flatMap hmade hshort _ _), rfl⟩
      simp [encodeEncryptedCompressionPacket, hframe, hdeflate, hheader]

end RoundTrip

/-- Packets made by name come back in order, through every compressor the header
can name and, in every version family, through the encrypted layout, as long as
the compressor can count the batch. -/
theorem versioned_payload_round_trip {zlib : Zlib} (hz : zlib.Lawful) (codec : VersionedMcpeCodec)
    {items : List (String × List UInt8)} {packets : List VersionedGamePacket}
    (hitems : items.mapM (fun item ↦
      VersionedPacketCodec.makePacketByName codec.definition item.1 item.2) = .ok packets)
    (hshort : ∀ packet ∈ packets, packet.fullPacket.length < 2 ^ 32)
    {level : ℤ} (hlevel : Zlib.ValidLevel level) :
    (codec.compressorInPacketHeader = true →
      (∀ compression,
        Fits zlib (packets.flatMap VersionedBatchCodec.framePacket) compression level →
        ∃ bytes, encodeMcpePayload zlib codec packets compression level = .ok bytes ∧
          ∀ legacy, ∃ payload, decodeMcpePayload zlib codec bytes legacy = .ok payload ∧
            payload.batch = packets) ∧
      ∀ algorithm threshold compression,
        chooseCompression algorithm
          (threshold < (packets.flatMap VersionedBatchCodec.framePacket).length) =
            .ok compression →
        Fits zlib (packets.flatMap VersionedBatchCodec.framePacket) compression level →
        ∃ bytes, encodeMcpePayloadByAlgorithm zlib codec packets algorithm level threshold =
            .ok bytes ∧
          ∀ legacy, ∃ payload, decodeMcpePayload zlib codec bytes legacy = .ok payload ∧
            payload.batch = packets) ∧
    (Fits zlib (packets.flatMap VersionedBatchCodec.framePacket) .deflateRaw level →
      ∃ bytes payload, encodeEncryptedCompressionPacket zlib codec packets level = .ok bytes ∧
        decodeEncryptedCompressionPacket zlib codec bytes = .ok payload ∧
        payload.batch = packets) := by
  have hmade := wellMade_of_mapM hitems
  refine ⟨fun hheader ↦ ⟨fun compression hfits ↦ ?_, ?_⟩, fun hfits ↦ ?_⟩
  · exact decodeMcpePayload_encodeMcpePayload hmade hshort hz hheader hlevel hfits
  · intro algorithm threshold compression hchoose hfits
    exact decodeMcpePayload_encodeMcpePayloadByAlgorithm hmade hshort hz hheader hlevel hchoose
      hfits
  · exact decodeEncrypted_encodeEncrypted hmade hshort hz hlevel hfits

/-- A codec with a single packet, of a version with a compressor byte. -/
def textCodec : VersionedMcpeCodec where
  definition := ⟨"1.21.0", [⟨9, "text", "packet_text"⟩], by decide, by decide⟩
  compressorInPacketHeader := true
  compressorInPacketHeader_eq := by decide

def textPacket (payload : List UInt8) : VersionedGamePacket :=
  ⟨9, "text", "packet_text", 9 :: payload, payload⟩

theorem makePacketByName_text (payload : List UInt8) :
    VersionedPacketCodec.makePacketByName textCodec.definition "text" payload =
      .ok (textPacket payload) := rfl

theorem makePackets_text (payload : List UInt8) :
    [("text", payload)].mapM (fun item ↦
      VersionedPacketCodec.makePacketByName textCodec.definition item.1 item.2) =
        .ok [textPacket payload] := by
  simp [makePacketByName_text]

theorem versioned_payload_round_trip_text :
    ∃ bytes payload,
      encodeMcpePayload Zlib.stored textCodec [textPacket [1, 2]] .deflateRaw 0 = .ok bytes ∧
      decodeMcpePayload Zlib.stored textCodec bytes "deflate" = .ok payload ∧
      payload.batch = [textPacket [1, 2]] := by
  have hround := versioned_payload_round_trip Zlib.lawful_stored textCodec
    (makePackets_text [1, 2]) (by decide) (by decide : Zlib.ValidLevel 0)
  obtain ⟨bytes, hencode, hdecode⟩ :=
    (hround.1 rfl).1 .deflateRaw ⟨by decide, by decide⟩
  obtain ⟨payload, hpayload, hbatch⟩ := hdecode "deflate"
  exact ⟨bytes, payload, hencode, hpayload, hbatch⟩

/-- Snappy refuses a batch with a packet that takes all a 32-bit length counts. -/
theorem encodeMcpePayload_snappy_throws (zlib : Zlib) (codec : VersionedMcpeCodec)
    {packet : VersionedGamePacket} (level : ℤ) (h : 2 ^ 32 - 1 ≤ packet.fullPacket.length) :
    Throws (encodeMcpePayload zlib codec [packet] .snappy level) := by
  have hne : packet.fullPacket ≠ [] := List.ne_nil_of_length_pos (by omega)
  have hframe : VersionedBatchCodec.encodeFramedBatch [packet] =
      .ok (VersionedBatchCodec.framePacket packet) := by
    simp [VersionedBatchCodec.encodeFramedBatch, hne]
  have hbig : 2 ^ 32 - 1 < (VersionedBatchCodec.framePacket packet).length := by
    have hpos := length_leb128_pos 4 (packet.fullPacket.length % 2 ^ 32)
    rw [VersionedBatchCodec.framePacket, VersionedPacketCodec.writeVarUInt, List.length_append]
    omega
  simp only [encodeMcpePayload, encodeCompressionPacket, hframe, encodeFramedBatch, compressBatch,
    SnappyCodec.compress, if_pos hbig, ok_bind, error_bind, throws_error]

/-- The longest packet a 32-bit length can describe has no Snappy payload. -/
theorem no_snappy_payload_of_longest_packet :
    VersionedPacketCodec.makePacketByName textCodec.definition "text"
        (List.replicate (2 ^ 32 - 2) 0) = .ok (textPacket (List.replicate (2 ^ 32 - 2) 0)) ∧
    (textPacket (List.replicate (2 ^ 32 - 2) 0)).fullPacket.length < 2 ^ 32 ∧
    ¬ ∃ bytes payload,
      encodeMcpePayload Zlib.stored textCodec [textPacket (List.replicate (2 ^ 32 - 2) 0)]
        .snappy 7 = .ok bytes ∧
      decodeMcpePayload Zlib.stored textCodec bytes "deflate" = .ok payload ∧
      payload.batch = [textPacket (List.replicate (2 ^ 32 - 2) 0)] := by
  have hlength : (textPacket (List.replicate (2 ^ 32 - 2) 0)).fullPacket.length = 2 ^ 32 - 1 := by
    rw [textPacket, List.length_cons, List.length_replicate]
    norm_num
  refine ⟨makePacketByName_text _, by rw [hlength]; norm_num, ?_⟩
  rintro ⟨bytes, payload, hencode, -, -⟩
  obtain ⟨message, hthrows⟩ :=
    encodeMcpePayload_snappy_throws Zlib.stored textCodec 7 hlength.ge
  rw [hthrows] at hencode
  cases hencode

end VersionedMcpeCodec

end BedrockProtocol
