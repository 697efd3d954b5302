import BedrockProtocol.World.BedrockSubChunk

/-!
# Sub-chunk packets

`BedrockSubChunkPacket.cpp`: version 1.18.0 has one entry in a packet; later versions have any
number of them, since 1.21.90 with a second height map.
-/

namespace BedrockProtocol

inductive BedrockSubChunkResult
  | undefined
  | success
  | chunkNotFound
  | invalidDimension
  | playerNotFound
  | yIndexOutOfBounds
  | successAllAir
  deriving DecidableEq, Repr

namespace BedrockSubChunkResult

def all : List BedrockSubChunkResult :=
  [undefined, success, chunkNotFound, invalidDimension, playerNotFound, yIndexOutOfBounds,
    successAllAir]

/-- The result of a number. -/
def ofNumber (value : ℕ) : Option BedrockSubChunkResult := all[value]?

def toNumber : BedrockSubChunkResult → ℕ := BedrockSubChunkResult.ctorIdx

end BedrockSubChunkResult

inductive BedrockHeightMapType
  | noData
  | hasData
  | tooHigh
  | tooLow
  deriving DecidableEq, Repr

namespace BedrockHeightMapType

def all : List BedrockHeightMapType := [noData, hasData, tooHigh, tooLow]

def ofNumber (value : ℕ) : Option BedrockHeightMapType := all[value]?

def toNumber : BedrockHeightMapType → ℕ := BedrockHeightMapType.ctorIdx

end BedrockHeightMapType

structure BedrockSubChunkPacketEntry where
  dx : Int8 := 0
  dy : Int8 := 0
  dz : Int8 := 0
  result : BedrockSubChunkResult := .undefined
  payload : List UInt8 := []
  heightMapType : BedrockHeightMapType := .noData
  heightMap : List Int8 := []
  renderHeightMapType : BedrockHeightMapType := .noData
  renderHeightMap : List Int8 := []
  blobId : Option UInt64 := none
  deriving DecidableEq

structure BedrockSubChunkPacket where
  cacheEnabled : Bool := false
  dimension : Int32 := 0
  originX : Int32 := 0
  originY : Int32 := 0
  originZ : Int32 := 0
  entries : List BedrockSubChunkPacketEntry := []
  deriving DecidableEq

namespace BedrockSubChunkPacketCodec

/-! ## Versions -/

def legacySingleEntrySchema (version : String) : Bool := version = "1.18.0"

/-- `std::stoi`: white space, a sign and as many digits as there are. -/
def stoiPrefix (text : Text) : Option ℤ :=
  let text := text.dropWhile isSpace
  let digits := (if text.head? = some 0x2d ∨ text.head? = some 0x2b then text.tail
    else text).takeWhile isDigit
  let value : ℤ :=
    if text.head? = some 0x2d then -decimalValue digits else decimalValue digits
  if digits = [] ∨ ¬ InSigned 32 value then none else some value

/-- The loop of `parseVersion`, which has `count` parts to find in `rest`. -/
def parseVersionParts (invalid : String) : ℕ → Text → Except String (List ℤ)
  | 0, _ => .ok []
  | count + 1, rest =>
      match stoiPrefix (rest.takeWhile fun c ↦ c ≠ 0x2e) with
      | none => .error invalid
      | some part =>
          match rest.dropWhile fun c ↦ c ≠ 0x2e with
          | [] => if count ≠ 0 then .error invalid else .ok [part]
          | _ :: rest => do
              let parts ← parseVersionParts invalid count rest
              pure (part :: parts)

def parseVersion (version : String) : Except String (List ℤ) :=
  parseVersionParts ("invalid Minecraft version: " ++ version) 3 (txt version)

def hasRenderHeightMap (version : String) : Except String Bool := do
  let parts ← parseVersion version
  let at' := fun i ↦ parts.getD i 0
  pure (if at' 0 ≠ 1 then decide (1 < at' 0)
    else if at' 1 ≠ 21 then decide (21 < at' 1)
    else decide (90 ≤ at' 2))

/-! ## Fields -/

def readI8 : Reader Int8 := UInt8.toInt8 <$> BinaryStream.readU8

def writeI8 (value : Int8) : List UInt8 := [value.toUInt8]

def readZigZag32 : Reader Int32 := readZigZagVarInt

def writeZigZag32 (value : Int32) : List UInt8 := writeZigZagVarInt value

def readByteArray : Reader (List UInt8) := do
  let size ← BinaryStream.readVarUInt
  let remaining ← Reader.remaining
  if remaining < size then throw "subchunk byte array exceeds packet payload"
  else BinaryStream.readBytes size

def writeByteArray (value : List UInt8) : Except String (List UInt8) :=
  if 2 ^ 32 - 1 < value.length then .error "subchunk byte array is too large"
  else .ok (BinaryStream.writeVarUInt value.length ++ value)

def readResultU8 : Reader BedrockSubChunkResult := do
  let value ← BinaryStream.readU8
  match BedrockSubChunkResult.ofNumber value.toNat with
  | none => throw ("invalid subchunk result: " ++ toString value.toNat)
  | some result => pure result

def readHeightMapType : Reader BedrockHeightMapType := do
  let value ← BinaryStream.readU8
  match BedrockHeightMapType.ofNumber value.toNat with
  | none => throw ("invalid subchunk heightmap type: " ++ toString value.toNat)
  | some type => pure type

def readHeightMap (type : BedrockHeightMapType) : Reader (List Int8) :=
  if type ≠ .hasData then pure []
  else do
    let remaining ← Reader.remaining
    if remaining < 256 then throw "truncated subchunk heightmap"
    else Reader.many readI8 256

/-- The type and the height map. -/
def writeHeightMap (type : BedrockHeightMapType) (value : List Int8) :
    Except String (List UInt8) :=
  if type ≠ .hasData then
    if value ≠ [] then .error "heightmap data supplied for a non-data type"
    else .ok [UInt8.ofNat type.toNumber]
  else if value.length ≠ 256 then .error "subchunk heightmap must contain 256 bytes"
  else .ok (UInt8.ofNat type.toNumber :: value.flatMap writeI8)

/-- `cacheEnabled`, as a byte. -/
def readFlag : Reader Bool := (fun byte ↦ decide (byte ≠ 0)) <$> BinaryStream.readU8

def writeFlag (value : Bool) : List UInt8 := [if value then 1 else 0]

def readBlobId : Reader (Option UInt64) :=
  (fun hash ↦ some (UInt64.ofNat hash)) <$> BinaryStream.readWord 8

def writeBlobId (hash : UInt64) : List UInt8 := leBytes 8 hash.toNat

/-! ## Entries -/

def readModernEntry (cacheEnabled renderHeightMap : Bool) : Reader BedrockSubChunkPacketEntry := do
  let dx ← readI8
  let dy ← readI8
  let dz ← readI8
  let result ← readResultU8
  let payload ←
    (if cacheEnabled = false ∨ result ≠ .successAllAir then readByteArray else pure [])
  let heightMapType ← readHeightMapType
  let heightMap ← readHeightMap heightMapType
  let (renderHeightMapType, renderHeightMap) ←
    (if renderHeightMap then do
        let type ← readHeightMapType
        let heightMap ← readHeightMap type
        pure (type, heightMap)
      else pure (.noData, []))
  let blobId ← (if cacheEnabled then readBlobId else pure none)
  pure
    { dx, dy, dz, result, payload, heightMapType, heightMap, renderHeightMapType, renderHeightMap
      blobId }

/-- The payload of an entry, which a cached sub-chunk of air has not. -/
def writePayload (entry : BedrockSubChunkPacketEntry) (cacheEnabled : Bool) :
    Except String (List UInt8) :=
  if cacheEnabled = false ∨ entry.result ≠ .successAllAir then writeByteArray entry.payload
  else if entry.payload ≠ [] then .error "cached all-air subchunk cannot carry a payload"
  else .ok []

def writeRenderHeightMap (entry : BedrockSubChunkPacketEntry) (renderHeightMap : Bool) :
    Except String (List UInt8) :=
  if renderHeightMap then writeHeightMap entry.renderHeightMapType entry.renderHeightMap
  else if entry.renderHeightMapType ≠ .noData ∨ entry.renderHeightMap ≠ [] then
    .error "render heightmap is unavailable in this protocol version"
  else .ok []

def writeEntryBlobId (entry : BedrockSubChunkPacketEntry) (cacheEnabled : Bool) :
    Except String (List UInt8) :=
  match cacheEnabled, entry.blobId with
  | true, none => .error "cached subchunk entry is missing blob id"
  | true, some hash => .ok (writeBlobId hash)
  | false, some _ => .error "uncached subchunk entry cannot carry a blob id"
  | false, none => .ok []

def writeModernEntry (cacheEnabled renderHeightMap : Bool) (entry : BedrockSubChunkPacketEntry) :
    Except String (List UInt8) := do
  let payload ← writePayload entry cacheEnabled
  let heightMap ← writeHeightMap entry.heightMapType entry.heightMap
  let render ← writeRenderHeightMap entry renderHeightMap
  let blobId ← writeEntryBlobId entry cacheEnabled
  pure (writeI8 entry.dx ++ (writeI8 entry.dy ++ (writeI8 entry.dz ++
    (UInt8.ofNat entry.result.toNumber :: (payload ++ (heightMap ++ (render ++ blobId)))))))

/-! ## Packets -/

/-- The layout of 1.18.0, where the result is a zigzag word. -/
def readLegacyPacket : Reader BedrockSubChunkPacket := do
  let dimension ← readZigZag32
  let originX ← readZigZag32
  let originY ← readZigZag32
  let originZ ← readZigZag32
  let payload ← readByteArray
  let number ← readZigZag32
  match if number < 0 ∨ 5 < number then none
      else BedrockSubChunkResult.ofNumber number.toInt.toNat with
  | none => throw "invalid legacy subchunk result"
  | some result =>
      let heightMapType ← readHeightMapType
      let heightMap ← readHeightMap heightMapType
      let cacheEnabled ← readFlag
      let blobId ← (if cacheEnabled then readBlobId else pure none)
      pure
        { cacheEnabled, dimension, originX, originY, originZ
          entries := [{ payload, result, heightMapType, heightMap, blobId }] }

def readModernPacket (minecraftVersion : String) : Reader BedrockSubChunkPacket := do
  let cacheEnabled ← readFlag
  let dimension ← readZigZag32
  let originX ← readZigZag32
  let originY ← readZigZag32
  let originZ ← readZigZag32
  let count ← BinaryStream.readWord 4
  if 4096 < count then throw "subchunk entry count exceeds safety limit"
  else
    let renderHeightMap ← liftM (hasRenderHeightMap minecraftVersion)
    let entries ← Reader.many (readModernEntry cacheEnabled renderHeightMap) count
    pure { cacheEnabled, dimension, originX, originY, originZ, entries }

def decodePacketPayload (payload : List UInt8) (minecraftVersion : String) :
    Except String BedrockSubChunkPacket :=
  Prod.fst <$> (do
    let packet ←
      (if legacySingleEntrySchema minecraftVersion then readLegacyPacket
        else readModernPacket minecraftVersion)
    let remaining ← Reader.remaining
    if remaining ≠ 0 then throw "subchunk packet has trailing bytes"
    else pure packet : Reader BedrockSubChunkPacket) (Cursor.start payload)

/-- The blob id of a legacy entry, which is ignored where the packet is not cached. -/
def writeLegacyBlobId (entry : BedrockSubChunkPacketEntry) (cacheEnabled : Bool) :
    Except String (List UInt8) :=
  match cacheEnabled, entry.blobId with
  | true, none => .error "cached subchunk entry is missing blob id"
  | true, some hash => .ok (writeBlobId hash)
  | false, _ => .ok []

def writeLegacyPacket (packet : BedrockSubChunkPacket) : Except String (List UInt8) :=
  match packet.entries with
  | [entry] =>
      if entry.result = .successAllAir then
        .error "all-air result is unavailable in Minecraft 1.18.0"
      else do
        let payload ← writeByteArray entry.payload
        let heightMap ← writeHeightMap entry.heightMapType entry.heightMap
        let blobId ← writeLegacyBlobId entry packet.cacheEnabled
        pure (writeZigZag32 packet.dimension ++ (writeZigZag32 packet.originX ++
          (writeZigZag32 packet.originY ++ (writeZigZag32 packet.originZ ++ (payload ++
            (writeZigZag32 (Int32.ofNat entry.result.toNumber) ++ (heightMap ++
              (writeFlag packet.cacheEnabled ++ blobId))))))))
  | _ => .error "Minecraft 1.18.0 requires one subchunk entry"

def writeModernPacket (packet : BedrockSubChunkPacket) (minecraftVersion : String) :
    Except String (List UInt8) :=
  if 2 ^ 32 - 1 < packet.entries.length then .error "too many subchunk packet entries"
  else do
    let renderHeightMap ← hasRenderHeightMap minecraftVersion
    let entries ← packet.entries.mapM (writeModernEntry packet.cacheEnabled renderHeightMap)
    pure (writeFlag packet.cacheEnabled ++ (writeZigZag32 packet.dimension ++
      (writeZigZag32 packet.originX ++ (writeZigZag32 packet.originY ++
        (writeZigZag32 packet.originZ ++ (leBytes 4 packet.entries.length ++
          entries.flatten))))))

def encodePacketPayload (packet : BedrockSubChunkPacket) (minecraftVersion : String) :
    Except String (List UInt8) :=
  if legacySingleEntrySchema minecraftVersion then writeLegacyPacket packet
  else writeModernPacket packet minecraftVersion

end BedrockSubChunkPacketCodec

end BedrockProtocol
