import BedrockProtocol.Protocol.SnappyRoundTrip
import BedrockProtocol.Protocol.Zlib

/-!
# Batch framing

`BedrockFramer.cpp`: packets are framed by their length, the framed bytes are
compressed when compression is negotiated and the batch is large enough, and the
batch starts with the byte `0xfe`.  Versions with a compressor byte say which
compressor was used.  Versions without it leave the receiver guessing: it tries
the session's decompressor and falls back to the bytes as they are.
-/

namespace BedrockProtocol

namespace BedrockFramer

def BATCH_HEADER : UInt8 := 0xfe

def COMPRESSION_DEFLATE : UInt8 := 0x00

def COMPRESSION_SNAPPY : UInt8 := 0x01

def COMPRESSION_NONE : UInt8 := 0xff

structure BedrockFramerSettings where
  compressionReady : Bool := false
  compressorInHeader : Bool := true
  compressionThreshold : ℕ := 256
  compressionAlgorithm : ℕ := 0
  deriving DecidableEq, Repr

/-! ## Length framing -/

def writeVarUInt (v : ℕ) : List UInt8 := leb128 4 v

def readVarUInt : Reader ℕ :=
  readLeb128 (fun _ ↦ Reader.byte fun _ ↦ "readVarUInt out of range") "VarUInt too big" 32 5 0 0

/-- One packet with its length in front. -/
def framePacket (packet : List UInt8) : List UInt8 := writeVarUInt packet.length ++ packet

def framePackets : List (List UInt8) → Except String (List UInt8)
  | [] => .ok []
  | packet :: packets =>
      if 2 ^ 32 - 1 < packet.length then .error "packet too large"
      else do
        let rest ← framePackets packets
        pure (framePacket packet ++ rest)

def readFramedPacket : Reader (List UInt8) := do
  let len ← readVarUInt
  Reader.take len fun _ ↦ "framed packet length exceeds buffer"

def unframePackets (framed : List UInt8) : Except String (List (List UInt8)) :=
  Reader.all readFramedPacket framed

/-! ## Compression -/

def deflateRaw (zlib : Zlib) (input : List UInt8) : List UInt8 :=
  if input = [] then [] else zlib.deflate (-1) (Zlib.availIn input)

def inflateRaw (zlib : Zlib) (input : List UInt8) : Except String (List UInt8) :=
  if input = [] then .ok []
  else
    match zlib.inflate (Zlib.availIn input) with
    | .ok output => .ok output
    | .error _ => .error "inflate failed"

def encodeBatch (zlib : Zlib) (packets : List (List UInt8)) (settings : BedrockFramerSettings) :
    Except String (List UInt8) := do
  let framed ← framePackets packets
  if !settings.compressionReady then pure (BATCH_HEADER :: framed)
  else if !settings.compressorInHeader then
    if settings.compressionThreshold < framed.length then
      if settings.compressionAlgorithm = 0 then pure (BATCH_HEADER :: deflateRaw zlib framed)
      else if settings.compressionAlgorithm = 1 then
        let compressed ← SnappyCodec.compress framed
        pure (BATCH_HEADER :: compressed)
      else throw "unknown compression algorithm"
    else pure (BATCH_HEADER :: framed)
  else if settings.compressionThreshold < framed.length then
    if settings.compressionAlgorithm = 0 then
      pure (BATCH_HEADER :: COMPRESSION_DEFLATE :: deflateRaw zlib framed)
    else if settings.compressionAlgorithm = 1 then
      let compressed ← SnappyCodec.compress framed
      pure (BATCH_HEADER :: COMPRESSION_SNAPPY :: compressed)
    else throw "unknown compression algorithm"
  else pure (BATCH_HEADER :: COMPRESSION_NONE :: framed)

/-- The session's decompressor, as the headerless decoder tries it. -/
def decompressBody (zlib : Zlib) (settings : BedrockFramerSettings) (body : List UInt8) :
    Except String (List UInt8) :=
  if settings.compressionAlgorithm = 0 then inflateRaw zlib body
  else if settings.compressionAlgorithm = 1 then SnappyCodec.decompress body
  else .error "unknown compression algorithm"

/-- What the headerless decoder unframes: the decompressed body, or the body
itself where the decompressor refuses it. -/
def guessFramed (zlib : Zlib) (settings : BedrockFramerSettings) (body : List UInt8) :
    List UInt8 :=
  match decompressBody zlib settings body with
  | .ok framed => framed
  | .error _ => body

def decodeBatch (zlib : Zlib) (batch : List UInt8) (settings : BedrockFramerSettings) :
    Except String (List (List UInt8)) :=
  match batch with
  | [] => .error "empty batch"
  | header :: body =>
      if header ≠ BATCH_HEADER then .error "bad batch header"
      else if !settings.compressionReady then unframePackets body
      else if !settings.compressorInHeader then
        unframePackets (guessFramed zlib settings body)
      else
        match body with
        | [] => .error "missing compression header"
        | compressionHeader :: body =>
            if compressionHeader = COMPRESSION_NONE then unframePackets body
            else if compressionHeader = COMPRESSION_DEFLATE then do
              let framed ← inflateRaw zlib body
              unframePackets framed
            else if compressionHeader = COMPRESSION_SNAPPY then do
              let framed ← SnappyCodec.decompress body
              unframePackets framed
            else .error "unknown compression header"

/-! ## Framing inverts -/

theorem framePacket_ne_nil (packet : List UInt8) : framePacket packet ≠ [] := by
  intro h
  exact leb128_ne_nil 4 packet.length (List.append_eq_nil_iff.mp h).1

theorem reads_framePacket {packet : List UInt8} (h : packet.length < 2 ^ 32) :
    Reads readFramedPacket (framePacket packet) packet := by
  have hlength : Reads readVarUInt (writeVarUInt packet.length) packet.length :=
    reads_leb128 (takesGroups_const Reads.byte) (by omega) h (by omega)
  exact hlength.bind (Reads.take packet rfl)

theorem framePackets_eq {packets : List (List UInt8)}
    (h : ∀ packet ∈ packets, packet.length < 2 ^ 32) :
    framePackets packets = .ok (packets.flatMap framePacket) := by
  induction packets with
  | nil => rfl
  | cons packet packets ih =>
      have hfirst := h packet (by simp)
      rw [framePackets, if_neg (by omega), ih fun p hp ↦ h p (by simp [hp])]
      rfl

theorem unframePackets_flatMap {packets : List (List UInt8)}
    (h : ∀ packet ∈ packets, packet.length < 2 ^ 32) :
    unframePackets (packets.flatMap framePacket) = .ok packets := by
  have hall := all_flatMap packets (fun p hp ↦ reads_framePacket (h p hp))
    (fun p _ ↦ framePacket_ne_nil p)
  rwa [List.map_id'] at hall

/-! ## Compression inverts -/

theorem inflateRaw_deflateRaw {zlib : Zlib} (hz : zlib.Lawful) {framed : List UInt8}
    (hsize : framed.length < 2 ^ 32) (hstream : (deflateRaw zlib framed).length < 2 ^ 32) :
    inflateRaw zlib (deflateRaw zlib framed) = .ok framed := by
  have hlevel : Zlib.ValidLevel (-1) := by decide
  rcases eq_or_ne framed [] with rfl | hne
  · rfl
  · rw [inflateRaw, Zlib.availIn_of_lt hstream, deflateRaw, if_neg hne,
      Zlib.availIn_of_lt hsize, if_neg (hz.deflate_ne_nil hlevel framed),
      hz.inflate_deflate hlevel framed]

/-- What a compressed batch has to fit: the framed bytes and, for deflate, the
stream are at most what a 32-bit length counts. -/
def Fits (zlib : Zlib) (settings : BedrockFramerSettings) (framed : List UInt8) : Prop :=
  framed.length < 2 ^ 32 ∧
    (settings.compressionAlgorithm = 0 → (deflateRaw zlib framed).length < 2 ^ 32)

/-- The headerless decoder takes an uncompressed batch for a compressed one. -/
def Mistaken (zlib : Zlib) (settings : BedrockFramerSettings) (framed : List UInt8) : Prop :=
  framed ≠ [] ∧ ¬ Throws (decompressBody zlib settings framed)

section RoundTrip

variable {zlib : Zlib} {settings : BedrockFramerSettings} {packets : List (List UInt8)}

/-- The uncompressed body is guessed right unless the decompressor takes it. -/
theorem guessFramed_of_not_mistaken {framed : List UInt8}
    (h : ¬ Mistaken zlib settings framed) : guessFramed zlib settings framed = framed := by
  unfold guessFramed
  cases hbody : decompressBody zlib settings framed with
  | error message => rfl
  | ok data =>
      -- Only an empty batch gets here: `inflateRaw` returns it as it is.
      have hnil : framed = [] := by
        by_contra hne
        exact h ⟨hne, by simp [hbody]⟩
      subst hnil
      unfold decompressBody at hbody
      split_ifs at hbody with h0 h1
      · exact (Except.ok.inj hbody).symm
      · cases hbody

theorem roundTrip_headerless (hz : zlib.Lawful)
    (hsizes : ∀ packet ∈ packets, packet.length < 2 ^ 32)
    (hready : settings.compressionReady = true) (hheader : settings.compressorInHeader = false)
    (halgorithm : settings.compressionAlgorithm = 0 ∨ settings.compressionAlgorithm = 1)
    (hfits : settings.compressionThreshold < (packets.flatMap framePacket).length →
      Fits zlib settings (packets.flatMap framePacket))
    (hguess : (packets.flatMap framePacket).length ≤ settings.compressionThreshold →
      ¬ Mistaken zlib settings (packets.flatMap framePacket)) :
    ∃ batch, encodeBatch zlib packets settings = .ok batch ∧
      decodeBatch zlib batch settings = .ok packets := by
  have hframe := framePackets_eq hsizes
  have hunframe := unframePackets_flatMap hsizes
  set framed := packets.flatMap framePacket with hframed
  by_cases hbig : settings.compressionThreshold < framed.length
  · obtain ⟨hsize, hstream⟩ := hfits hbig
    rcases halgorithm with h0 | h1
    · refine ⟨BATCH_HEADER :: deflateRaw zlib framed, ?_, ?_⟩
      · simp [encodeBatch, hframe, hready, hheader, hbig, h0]
      · simp [decodeBatch, hready, hheader, guessFramed, decompressBody, h0,
          inflateRaw_deflateRaw hz hsize (hstream h0), hunframe]
    · obtain ⟨block, hcompress, hdecompress⟩ := SnappyCodec.decompress_compress_of_lt hsize
      refine ⟨BATCH_HEADER :: block, ?_, ?_⟩
      · simp [encodeBatch, hframe, hready, hheader, hbig, h1, hcompress]
      · simp [decodeBatch, hready, hheader, guessFramed, decompressBody, h1, hdecompress,
          hunframe]
  · refine ⟨BATCH_HEADER :: framed, ?_, ?_⟩
    · simp [encodeBatch, hframe, hready, hheader, hbig]
    · simp [decodeBatch, hready, hheader, guessFramed_of_not_mistaken (hguess (not_lt.mp hbig)),
        hunframe]

theorem roundTrip_header (hz : zlib.Lawful)
    (hsizes : ∀ packet ∈ packets, packet.length < 2 ^ 32)
    (hready : settings.compressionReady = true) (hheader : settings.compressorInHeader = true)
    (halgorithm : settings.compressionAlgorithm = 0 ∨ settings.compressionAlgorithm = 1)
    (hfits : settings.compressionThreshold < (packets.flatMap framePacket).length →
      Fits zlib settings (packets.flatMap framePacket)) :
    ∃ batch, encodeBatch zlib packets settings = .ok batch ∧
      decodeBatch zlib batch settings = .ok packets := by
  have hframe := framePackets_eq hsizes
  have hunframe := unframePackets_flatMap hsizes
  have hdeflate : COMPRESSION_DEFLATE ≠ COMPRESSION_NONE := by decide
  have hsnappy : COMPRESSION_SNAPPY ≠ COMPRESSION_NONE := by decide
  have hsnappy' : COMPRESSION_SNAPPY ≠ COMPRESSION_DEFLATE := by decide
  set framed := packets.flatMap framePacket with hframed
  by_cases hbig : settings.compressionThreshold < framed.length
  · obtain ⟨hsize, hstream⟩ := hfits hbig
    rcases halgorithm with h0 | h1
    · refine ⟨BATCH_HEADER :: COMPRESSION_DEFLATE :: deflateRaw zlib framed, ?_, ?_⟩
      · simp [encodeBatch, hframe, hready, hheader, hbig, h0]
      · simp [decodeBatch, hready, hheader, hdeflate,
          inflateRaw_deflateRaw hz hsize (hstream h0), hunframe]
    · obtain ⟨block, hcompress, hdecompress⟩ := SnappyCodec.decompress_compress_of_lt hsize
      refine ⟨BATCH_HEADER :: COMPRESSION_SNAPPY :: block, ?_, ?_⟩
      · simp [encodeBatch, hframe, hready, hheader, hbig, h1, hcompress]
      · simp [decodeBatch, hready, hheader, hsnappy, hsnappy', hdecompress, hunframe]
  · refine ⟨BATCH_HEADER :: COMPRESSION_NONE :: framed, ?_, ?_⟩
    · simp [encodeBatch, hframe, hready, hheader, hbig]
    · simp [decodeBatch, hready, hheader, hunframe]

/-- In every state of the framer a batch decodes to the packets it was made of,
as long as a headerless uncompressed batch is not one the session's decompressor
accepts. -/
theorem decodeBatch_encodeBatch (hz : zlib.Lawful)
    (hsizes : ∀ packet ∈ packets, packet.length < 2 ^ 32)
    (halgorithm : settings.compressionAlgorithm = 0 ∨ settings.compressionAlgorithm = 1)
    (hfits : settings.compressionReady = true →
      settings.compressionThreshold < (packets.flatMap framePacket).length →
      Fits zlib settings (packets.flatMap framePacket))
    (hguess : settings.compressionReady = true → settings.compressorInHeader = false →
      (packets.flatMap framePacket).length ≤ settings.compressionThreshold →
      ¬ Mistaken zlib settings (packets.flatMap framePacket)) :
    ∃ batch, encodeBatch zlib packets settings = .ok batch ∧
      decodeBatch zlib batch settings = .ok packets := by
  cases hready : settings.compressionReady with
  | false =>
      refine ⟨BATCH_HEADER :: packets.flatMap framePacket, ?_, ?_⟩
      · simp [encodeBatch, framePackets_eq hsizes, hready]
      · simp [decodeBatch, hready, unframePackets_flatMap hsizes]
  | true =>
      cases hheader : settings.compressorInHeader with
      | false =>
          exact roundTrip_headerless hz hsizes hready hheader halgorithm (hfits hready)
            (hguess hready hheader)
      | true => exact roundTrip_header hz hsizes hready hheader halgorithm (hfits hready)

/-- A deflated batch of a headerless session. -/
theorem decodeBatch_encodeBatch_deflated :
    ∃ batch, encodeBatch Zlib.stored [[1, 2, 3], [4]] ⟨true, false, 4, 0⟩ = .ok batch ∧
      decodeBatch Zlib.stored batch ⟨true, false, 4, 0⟩ = .ok [[1, 2, 3], [4]] :=
  decodeBatch_encodeBatch Zlib.lawful_stored (by decide) (by decide)
    (fun _ _ ↦ ⟨by decide, by decide⟩) (fun _ _ h ↦ absurd h (by decide))

/-- A packet of five bytes, framed, is a Snappy block of five bytes `4`. -/
theorem decodeBatch_encodeBatch_mistaken :
    (∃ batch, encodeBatch Zlib.stored [[0, 4, 0x0e, 1, 0]] ⟨true, false, 256, 1⟩ = .ok batch ∧
      decodeBatch Zlib.stored batch ⟨true, false, 256, 1⟩ = .ok [[4, 4, 4, 4]]) ∧
    ¬ ∃ batch, encodeBatch Zlib.stored [[0, 4, 0x0e, 1, 0]] ⟨true, false, 256, 1⟩ = .ok batch ∧
      decodeBatch Zlib.stored batch ⟨true, false, 256, 1⟩ = .ok [[0, 4, 0x0e, 1, 0]] := by
  have hencode : encodeBatch Zlib.stored [[0, 4, 0x0e, 1, 0]] ⟨true, false, 256, 1⟩ =
      .ok [0xfe, 5, 0, 4, 0x0e, 1, 0] := by decide
  refine ⟨⟨_, hencode, by decide⟩, ?_⟩
  rintro ⟨batch, hbatch, hdecode⟩
  rw [hencode] at hbatch
  obtain rfl := Except.ok.inj hbatch
  exact absurd hdecode (by decide)

end RoundTrip

end BedrockFramer

end BedrockProtocol
