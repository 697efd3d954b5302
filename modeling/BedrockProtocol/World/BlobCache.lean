import BedrockProtocol.Util.XxHash64
import BedrockProtocol.World.BedrockChunkColumn

/-!
# The blob cache

`networkEncodeCached` and `networkDecodeCached` of `BedrockChunk.cpp`.  Without
3D biomes a column is detached into one blob for every section and one for the
legacy biomes; with them only the biomes are, since sections travel separately.
A blob is named by its hash.
-/

namespace BedrockProtocol

inductive BlobType
  | chunkSection
  | biomes
  deriving DecidableEq, Repr

structure BlobEntry where
  x : ℤ := 0
  y : ℤ := 0
  z : ℤ := 0
  type : BlobType := .chunkSection
  buffer : List UInt8

abbrev BedrockBlobStore := AList fun _ : UInt64 ↦ BlobEntry

structure BedrockEncodedChunkCache where
  blobHashes : List UInt64
  payload : List UInt8

/-- The name of a blob. -/
def BlobEntry.hash (entry : BlobEntry) : UInt64 := xxHash64 entry.buffer

namespace BedrockChunkColumn

variable (column : BedrockChunkColumn)

/-- `section->encode` of `networkEncodeCached`. -/
def sectionBlob (provider : Option BedrockBlockStateProvider) (sub : BedrockSubChunk) :
    Except String (List UInt8) := sub.encodeTo .networkPersistence true provider

def sectionEntry (provider : Option BedrockBlockStateProvider) (sub : BedrockSubChunk) :
    Except String BlobEntry := do
  let buffer ← sectionBlob provider sub
  pure { x := column.x, y := sub.y.toInt, z := column.z, type := .chunkSection, buffer }

def biomeEntry (buffer : List UInt8) : BlobEntry :=
  { x := column.x, z := column.z, type := .biomes, buffer }

/-- The blobs of the column, in the order of their hashes. -/
def blobEntries (use3DBiomes : Bool) (provider : Option BedrockBlockStateProvider) :
    Except String (List BlobEntry) :=
  if use3DBiomes then .ok [column.biomeEntry column.writeBiomes]
  else do
    let sections ← (column.sections.filterMap id).mapM (column.sectionEntry provider)
    let biomeBuffer ← column.dumpLegacyBiomes
    pure (sections ++ [column.biomeEntry biomeBuffer])

/-- Encode into `blobStore`, which gets the blobs. -/
def networkEncodeCached (blobStore : BedrockBlobStore) (use3DBiomes : Bool)
    (provider : Option BedrockBlockStateProvider) :
    Except String (BedrockEncodedChunkCache × BedrockBlobStore) := do
  let entries ← column.blobEntries use3DBiomes provider
  let entities ← (if use3DBiomes then pure [] else column.encodeBlockEntities .littleVarInt)
  pure
    ({ blobHashes := entries.map BlobEntry.hash
       payload := BinaryStream.writeVarUInt 0 ++ entities },
      entries.foldl (fun store entry ↦ store.insert entry.hash entry) blobStore)

/-- The part of `networkDecodeCached` that reads the payload. -/
def readCachedPayload (payload : List UInt8) : Except String BedrockChunkColumn :=
  if payload = [] then .ok column
  else
    Prod.fst <$> (do
      readBorderBlocks "invalid cached border block length"
      column.decodeBlockEntities .littleVarInt : Reader BedrockChunkColumn) (Cursor.start payload)

def loadSectionBlob (resolver : Option BedrockBlockStateResolver) (entry : BlobEntry) :
    Except String BedrockChunkColumn := do
  let fresh : BedrockSubChunk := { y := Int8.ofInt entry.y, subChunkVersion := 8 }
  let (found, c) ← fresh.decodeFrom .networkPersistence 0 resolver (Cursor.start entry.buffer)
  if c.rest ≠ [] then .error "cached chunk-section blob has trailing bytes"
  else column.setSection found.y.toInt found

def loadBlob (resolver : Option BedrockBlockStateResolver) (hasSectionBlobs : Bool)
    (entry : BlobEntry) : Except String BedrockChunkColumn :=
  match entry.type with
  | .biomes =>
      if hasSectionBlobs then column.loadLegacyBiomes entry.buffer
      else Prod.fst <$> column.loadBiomes .networkPersistence (Cursor.start entry.buffer)
  | .chunkSection => column.loadSectionBlob resolver entry

/-- One turn of the loop over the hashes. -/
def loadHash (blobStore : BedrockBlobStore) (resolver : Option BedrockBlockStateResolver)
    (hasSectionBlobs : Bool) (found : List UInt64 × BedrockChunkColumn) (hash : UInt64) :
    Except String (List UInt64 × BedrockChunkColumn) :=
  match blobStore.lookup hash with
  | none => .ok (found.1 ++ [hash], found.2)
  | some entry => do
      let column ← found.2.loadBlob resolver hasSectionBlobs entry
      pure (found.1, column)

/-- The missing blobs, and the column as far as it could be decoded. -/
def networkDecodeCached (blobHashes : List UInt64) (blobStore : BedrockBlobStore)
    (payload : List UInt8) (resolver : Option BedrockBlockStateResolver) :
    Except String (List UInt64 × BedrockChunkColumn) := do
  let column ← column.readCachedPayload payload
  let misses := blobHashes.filter fun hash ↦ (blobStore.lookup hash).isNone
  if misses ≠ [] then pure (misses, column)
  else
    let hasSectionBlobs := blobHashes.any fun hash ↦
      (blobStore.lookup hash).any fun entry ↦ entry.type = .chunkSection
    blobHashes.foldlM (loadHash blobStore resolver hasSectionBlobs)
      ([], { column with sections := List.replicate (column.maxCY - column.minCY).toNat none })

end BedrockChunkColumn

end BedrockProtocol
