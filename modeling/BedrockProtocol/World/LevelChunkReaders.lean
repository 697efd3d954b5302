import BedrockProtocol.Protocol.VersionedBatchCodec
import BedrockProtocol.World.BedrockChunkColumn

/-!
# The readers of a level chunk

A `level_chunk` payload is written by `BedrockLevelChunkCodec` and read in four places: by the
codec itself, by `LevelChunkParser`, by `VersionedPayloadReader` and by `PacketPayloadReader`.
Each has a cursor class of its own; they differ in their messages only.
-/

namespace BedrockProtocol

/-- The messages of a cursor class. -/
structure PayloadCursor where
  notEnough : String → String
  tooLong : String

namespace PayloadCursor

variable (cursor : PayloadCursor)

def u8 : Reader UInt8 := Reader.byte fun _ ↦ cursor.notEnough "u8"

def boolean : Reader Bool := (fun byte ↦ decide (byte ≠ 0)) <$> cursor.u8

def u16le : Reader UInt16 :=
  (fun bytes ↦ UInt16.ofNat (leValue bytes)) <$> Reader.take 2 fun _ ↦ cursor.notEnough "u16le"

def u64le : Reader UInt64 :=
  (fun bytes ↦ UInt64.ofNat (leValue bytes)) <$> Reader.take 8 fun _ ↦ cursor.notEnough "u64le"

def uvarint : Reader ℕ := readLeb128 (fun _ ↦ cursor.u8) cursor.tooLong 32 5 0 0

def svarint : Reader ℤ := (fun raw ↦ toSigned 32 (decodeZigZag 32 raw)) <$> cursor.uvarint

def bytes (size : ℕ) : Reader (List UInt8) := Reader.take size fun _ ↦ cursor.notEnough "bytes"

end PayloadCursor

/-! ## The codec -/

namespace BedrockLevelChunkCodec

def readZigZag32 : Reader ℤ :=
  (fun value ↦ toSigned 32 (decodeZigZag 32 value)) <$> BinaryStream.readVarUInt

def writeZigZag32 (value : ℤ) : List UInt8 :=
  BinaryStream.writeVarUInt (encodeZigZag 32 (toUnsigned 32 value))

def writeBlobHashes (hashes : List UInt64) : List UInt8 :=
  hashes.flatMap fun hash ↦ leBytes 8 hash.toNat

def encodePacketPayload (packet : BedrockLevelChunkPacket) : List UInt8 :=
  writeZigZag32 packet.x ++ (writeZigZag32 packet.z ++ (writeZigZag32 packet.dimension ++
    (BinaryStream.writeVarInt packet.subChunkCount ++
      ((if packet.subChunkCount = -2 then leBytes 2 (packet.highestSubChunkCount.getD 0).toNat
          else []) ++
        (if packet.cacheEnabled then 1 else 0) ::
          ((if packet.cacheEnabled then
              BinaryStream.writeVarUInt (packet.blobHashes.length % 2 ^ 32) ++
                writeBlobHashes packet.blobHashes
            else []) ++
            (BinaryStream.writeVarUInt (packet.payload.length % 2 ^ 32) ++ packet.payload))))))

/-- The end of `decodePacketPayload`: the payload is what is left. -/
def readPayload : Reader (List UInt8) := do
  let payloadSize ← BinaryStream.readVarUInt
  let remaining ← Reader.remaining
  if remaining < payloadSize then throw "level_chunk payload size exceeds packet payload"
  else
    let payload ← BinaryStream.readBytes payloadSize
    let remaining ← Reader.remaining
    if remaining ≠ 0 then throw "level_chunk packet has trailing bytes"
    else pure payload

def readPacketPayload : Reader BedrockLevelChunkPacket := do
  let x ← readZigZag32
  let z ← readZigZag32
  let dimension ← readZigZag32
  let subChunkCount ← BinaryStream.readVarInt
  let highestSubChunkCount ←
    (if subChunkCount = -2 then
        (fun count ↦ some (UInt16.ofNat count)) <$> BinaryStream.readWord 2
      else pure none)
  let cacheEnabled ← (fun byte ↦ decide (byte ≠ 0)) <$> BinaryStream.readU8
  let blobHashes ←
    (if cacheEnabled then do
        let hashCount ← BinaryStream.readVarUInt
        Reader.many (UInt64.ofNat <$> BinaryStream.readWord 8) hashCount
      else pure [])
  let payload ← readPayload
  pure { x, z, dimension, subChunkCount, highestSubChunkCount, cacheEnabled, blobHashes, payload }

def decodePacketPayload (payload : List UInt8) : Except String BedrockLevelChunkPacket :=
  Prod.fst <$> readPacketPayload (Cursor.start payload)

end BedrockLevelChunkCodec

/-! ## The other readers -/

structure LevelChunkHeader where
  chunkX : ℤ
  chunkZ : ℤ
  dimension : ℤ
  subChunkCount : ℤ
  highestSubChunkCount : Option UInt16
  cacheEnabled : Bool
  blobHashes : List UInt64
  dataSize : ℕ
  data : List UInt8
  headerBytes : ℕ

/-- `LevelChunkCursor`. -/
def levelChunkCursor : PayloadCursor where
  notEnough what := "not enough bytes for level_chunk " ++ what
  tooLong := "level_chunk uvarint too long"

def LevelChunkParser.readHeader (payload : List UInt8) : Except String LevelChunkHeader :=
  Prod.fst <$> (do
    let chunkX ← levelChunkCursor.svarint
    let chunkZ ← levelChunkCursor.svarint
    let dimension ← levelChunkCursor.svarint
    let subChunkCount ← toSigned 32 <$> levelChunkCursor.uvarint
    let highestSubChunkCount ←
      (if subChunkCount = -2 then some <$> levelChunkCursor.u16le else pure none)
    let cacheEnabled ← levelChunkCursor.boolean
    let blobHashes ←
      (if cacheEnabled then do
          let blobCount ← levelChunkCursor.uvarint
          Reader.many levelChunkCursor.u64le blobCount
        else pure [])
    let dataSize ← levelChunkCursor.uvarint
    let remaining ← Reader.remaining
    if remaining < dataSize then throw "level_chunk dataSize is larger than remaining payload"
    else
      let data ← levelChunkCursor.bytes dataSize
      let offset ← Reader.offset
      pure
        { chunkX, chunkZ, dimension, subChunkCount, highestSubChunkCount, cacheEnabled, blobHashes
          dataSize, data, headerBytes := offset - data.length } : Reader LevelChunkHeader)
    (Cursor.start payload)

structure VersionedLevelChunkPacket where
  chunkX : ℤ
  chunkZ : ℤ
  dimension : ℤ
  subChunkCount : ℤ
  cacheEnabled : Bool
  dataSize : ℕ := 0
  data : List UInt8 := []

/-- `VersionedPayloadCursor`. -/
def versionedPayloadCursor : PayloadCursor where
  notEnough what := "not enough bytes for " ++ what
  tooLong := "varuint too long"

namespace VersionedPayloadReader

def requirePacket (packet : VersionedGamePacket) (expectedName : String) : Except String Unit :=
  if packet.name ≠ expectedName then
    .error ("wrong packet for payload reader: got " ++ packet.name ++ ", expected " ++ expectedName)
  else .ok ()

def readLevelChunk (packet : VersionedGamePacket) : Except String VersionedLevelChunkPacket := do
  requirePacket packet "level_chunk"
  Prod.fst <$> (do
    let chunkX ← versionedPayloadCursor.svarint
    let chunkZ ← versionedPayloadCursor.svarint
    let dimension ← versionedPayloadCursor.svarint
    let subChunkCount ← versionedPayloadCursor.svarint
    let cacheEnabled ← versionedPayloadCursor.boolean
    -- the blob ids are skipped
    let _ ←
      (if cacheEnabled then do
          let blobCount ← versionedPayloadCursor.uvarint
          Reader.many versionedPayloadCursor.u64le blobCount
        else pure [])
    let remaining ← Reader.remaining
    if remaining = 0 then
      pure { chunkX, chunkZ, dimension, subChunkCount, cacheEnabled }
    else
      let dataSize ← versionedPayloadCursor.uvarint
      let data ← versionedPayloadCursor.bytes dataSize
      pure { chunkX, chunkZ, dimension, subChunkCount, cacheEnabled, dataSize, data } :
      Reader VersionedLevelChunkPacket) (Cursor.start packet.payload)

end VersionedPayloadReader

structure LevelChunkPacket where
  chunkX : ℤ
  chunkZ : ℤ
  dimension : ℤ
  subChunkCount : ℕ
  cacheEnabled : Bool
  dataSize : ℕ
  data : List UInt8

/-- The `Reader` of `PacketPayloadReader.cpp`. -/
def payloadReaderCursor : PayloadCursor where
  notEnough what := "not enough bytes for " ++ what
  tooLong := "uvarint too long"

namespace PacketPayloadReader

/-- A first byte that is the id of the packet is dropped. -/
def payloadFromPacketOrPayload (packetOrPayload : List UInt8) (packetId : ℕ) : List UInt8 :=
  if packetOrPayload.head? = some (UInt8.ofNat packetId) then packetOrPayload.tail
  else packetOrPayload

def readLevelChunk (packetOrPayload : List UInt8) : Except String LevelChunkPacket :=
  Prod.fst <$> (do
    let chunkX ← payloadReaderCursor.svarint
    let chunkZ ← payloadReaderCursor.svarint
    let dimension ← payloadReaderCursor.svarint
    let subChunkCount ← payloadReaderCursor.uvarint
    let cacheEnabled ← payloadReaderCursor.boolean
    let dataSize ← payloadReaderCursor.uvarint
    let remaining ← Reader.remaining
    if remaining < dataSize then throw "level_chunk dataSize is larger than remaining payload"
    else
      let data ← payloadReaderCursor.bytes dataSize
      pure { chunkX, chunkZ, dimension, subChunkCount, cacheEnabled, dataSize, data } :
      Reader LevelChunkPacket) (Cursor.start (payloadFromPacketOrPayload packetOrPayload 58))

end PacketPayloadReader

end BedrockProtocol
