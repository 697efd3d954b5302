import BedrockProtocol.Lib.Attempt
import BedrockProtocol.Lib.Interleaving
import BedrockProtocol.Protocol.VersionedMcpeCodec
import BedrockProtocol.World.BedrockSubChunkPacket
import BedrockProtocol.World.BlobCache
import BedrockProtocol.World.LevelChunkReaders
import BedrockProtocol.World.ColumnSubChunks

/-!
# The chunks of a client

The part of `BedrockNetworkClient.cpp` that tracks the world: level chunks, sub-chunks and the
blobs that a cached one of either refers to.  A packet that refers to unknown blobs waits in a
list until a `client_cache_miss_response` brings them.  Whatever a handler throws is reported,
and what it did before stays done.
-/

namespace BedrockProtocol

structure BedrockClientCacheBlobStatus where
  missing : List UInt64 := []
  haves : List UInt64 := []
  deriving DecidableEq, Repr

structure BedrockCacheBlob where
  hash : UInt64
  payload : List UInt8
  deriving DecidableEq, Repr

namespace BedrockLevelChunkCodec

def readCacheBlob : Reader BedrockCacheBlob := do
  let hash ← UInt64.ofNat <$> BinaryStream.readWord 8
  let size ← BinaryStream.readVarUInt
  let remaining ← Reader.remaining
  if remaining < size then throw "cache blob payload exceeds packet size"
  else
    let payload ← BinaryStream.readBytes size
    pure { hash, payload }

def decodeClientCacheMissResponsePayload (payload : List UInt8) :
    Except String (List BedrockCacheBlob) :=
  Prod.fst <$> (do
    let count ← BinaryStream.readVarUInt
    let blobs ← Reader.many readCacheBlob count
    let remaining ← Reader.remaining
    if remaining ≠ 0 then throw "client_cache_miss_response has trailing bytes"
    else pure blobs : Reader (List BedrockCacheBlob)) (Cursor.start payload)

def encodeClientCacheBlobStatusPayload (status : BedrockClientCacheBlobStatus) : List UInt8 :=
  BinaryStream.writeVarUInt (status.missing.length % 2 ^ 32) ++
    (BinaryStream.writeVarUInt (status.haves.length % 2 ^ 32) ++
      (writeBlobHashes status.missing ++ writeBlobHashes status.haves))

end BedrockLevelChunkCodec

namespace BedrockWorld

/-- `ensureTrackedColumn`: the world, and the column that it has at the place by then. -/
def ensureTrackedColumn (world : BedrockWorld) (chunkX chunkZ : ℤ) :
    BedrockWorld × BedrockChunkColumn :=
  match world.getLoadedColumn chunkX chunkZ with
  | some column => (world, column)
  | none =>
      let column := (BedrockChunkColumn.new chunkX chunkZ).withBounds (-4) 20
      ((world.setLoadedColumn chunkX chunkZ column true).1, column)

/-- The column at the place is changed through its reference. -/
def putColumn (world : BedrockWorld) (chunkX chunkZ : ℤ) (column : BedrockChunkColumn) :
    BedrockWorld :=
  { world with columns := world.columns.insert (key chunkX chunkZ) column }

/-- The column that a change at the place works on. -/
def trackedColumn (world : BedrockWorld) (chunkX chunkZ : ℤ) : BedrockChunkColumn :=
  (world.ensureTrackedColumn chunkX chunkZ).2

theorem trackedColumn_eq (world : BedrockWorld) (chunkX chunkZ : ℤ) :
    world.trackedColumn chunkX chunkZ = (world.getLoadedColumn chunkX chunkZ).getD
      ((BedrockChunkColumn.new chunkX chunkZ).withBounds (-4) 20) := by
  rw [trackedColumn, ensureTrackedColumn]
  cases world.getLoadedColumn chunkX chunkZ <;> rfl

theorem getLoadedColumn_setLoadedColumn (world : BedrockWorld) (chunkX chunkZ : ℤ)
    (column : BedrockChunkColumn) (save : Bool) (x z : ℤ) :
    (world.setLoadedColumn chunkX chunkZ column save).1.getLoadedColumn x z =
      if x = chunkX ∧ z = chunkZ then some column else world.getLoadedColumn x z := by
  have hcolumns : (world.setLoadedColumn chunkX chunkZ column save).1.columns =
      world.columns.insert (key chunkX chunkZ) column := by
    rw [setLoadedColumn, queueSaving]
    split
    · split <;> rfl
    · rfl
  rw [getLoadedColumn, hcolumns]
  by_cases hsame : x = chunkX ∧ z = chunkZ
  · rw [if_pos hsame, hsame.1, hsame.2, AList.lookup_insert]
  · rw [if_neg hsame, AList.lookup_insert_ne fun hkey ↦ hsame (key_inj.mp hkey)]
    rfl

theorem getLoadedColumn_putColumn (world : BedrockWorld) (chunkX chunkZ : ℤ)
    (column : BedrockChunkColumn) (x z : ℤ) :
    (world.putColumn chunkX chunkZ column).getLoadedColumn x z =
      if x = chunkX ∧ z = chunkZ then some column else world.getLoadedColumn x z := by
  rw [getLoadedColumn, putColumn]
  by_cases hsame : x = chunkX ∧ z = chunkZ
  · rw [if_pos hsame, hsame.1, hsame.2, AList.lookup_insert]
  · rw [if_neg hsame, AList.lookup_insert_ne fun hkey ↦ hsame (key_inj.mp hkey)]
    rfl

/-- A column that is put at a place is the one there; the columns of other places stay. -/
theorem trackedColumn_putColumn (world : BedrockWorld) (chunkX chunkZ : ℤ)
    (column : BedrockChunkColumn) (x z : ℤ) :
    ((world.ensureTrackedColumn chunkX chunkZ).1.putColumn chunkX chunkZ column).trackedColumn
        x z =
      if x = chunkX ∧ z = chunkZ then column else world.trackedColumn x z := by
  rw [trackedColumn_eq, getLoadedColumn_putColumn]
  by_cases hsame : x = chunkX ∧ z = chunkZ
  · rw [if_pos hsame, if_pos hsame]
    rfl
  · rw [if_neg hsame, if_neg hsame, trackedColumn_eq, ensureTrackedColumn]
    cases world.getLoadedColumn chunkX chunkZ with
    | some found => rfl
    | none => rw [getLoadedColumn_setLoadedColumn, if_neg hsame]

end BedrockWorld

namespace BedrockNetworkClient

structure PendingBlobMetadata where
  type : BlobType := .biomes
  x : ℤ := 0
  y : ℤ := 0
  z : ℤ := 0
  deriving DecidableEq, Repr

structure PendingCachedSubChunk where
  chunkX : ℤ
  sectionY : ℤ
  chunkZ : ℤ
  hash : UInt64
  blockEntityPayload : List UInt8
  deriving DecidableEq, Repr

/-- What the client keeps of chunks, what it sent about them and what it reported. -/
structure ChunkTracker where
  world : BedrockWorld
  blobStore : BedrockBlobStore := ∅
  pendingBlobMetadata : AList fun _ : UInt64 ↦ PendingBlobMetadata := ∅
  pendingCachedLevelChunks : List BedrockLevelChunkPacket := []
  pendingCachedSubChunks : List PendingCachedSubChunk := []
  /-- The statuses of the `client_cache_blob_status` packets that were sent. -/
  sent : List BedrockClientCacheBlobStatus := []
  /-- The calls of `sendPacket`. -/
  sends : ℕ := 0
  errors : List String := []

/-- The version of the client, and what its calls of `sendPacket` throw. -/
structure ChunkContext where
  version : String
  cavesAndCliffs : Bool
  cavesAndCliffs_eq : versionAtLeast version 1 18 0 = .ok cavesAndCliffs
  sendFailure : ℕ → List UInt8 → Option String

namespace ChunkTracker

/-! ## Steps of the handlers -/

def setMetadata (hash : UInt64) (metadata : PendingBlobMetadata) (s : ChunkTracker) :
    ChunkTracker :=
  { s with pendingBlobMetadata := s.pendingBlobMetadata.insert hash metadata }

def eraseMetadata (hash : UInt64) (s : ChunkTracker) : ChunkTracker :=
  { s with pendingBlobMetadata := s.pendingBlobMetadata.erase hash }

/-- A change of the column at a place, which is there or made. -/
def inColumn (chunkX chunkZ : ℤ)
    (change : BedrockChunkColumn → Except String Unit × BedrockChunkColumn) :
    Attempt ChunkTracker Unit := fun s ↦
  let (world, column) := s.world.ensureTrackedColumn chunkX chunkZ
  let (result, column) := change column
  (result, { s with world := world.putColumn chunkX chunkZ column })

def setLoadedColumn (chunkX chunkZ : ℤ) (column : BedrockChunkColumn) (s : ChunkTracker) :
    ChunkTracker :=
  { s with world := (s.world.setLoadedColumn chunkX chunkZ column true).1 }

/-- One blob of a response.  A blob that nothing is known about is taken for biomes. -/
def storeBlob (s : ChunkTracker) (blob : BedrockCacheBlob) : ChunkTracker :=
  let metadata := (s.pendingBlobMetadata.lookup blob.hash).getD {}
  { s with
    blobStore := s.blobStore.insert blob.hash
      { metadata with buffer := blob.payload }
    pendingBlobMetadata := s.pendingBlobMetadata.erase blob.hash }

end ChunkTracker

variable (ctx : ChunkContext)

open ChunkTracker

/-- `sendPacket` of a `client_cache_blob_status`. -/
def sendStatus (status : BedrockClientCacheBlobStatus) : Attempt ChunkTracker Unit := fun s ↦
  match ctx.sendFailure s.sends
      (BedrockLevelChunkCodec.encodeClientCacheBlobStatusPayload status) with
  | some e => (.error e, { s with sends := s.sends + 1 })
  | none => (.ok (), { s with sends := s.sends + 1, sent := s.sent ++ [status] })

/-! ## Level chunks -/

def legacySectionCount (levelChunk : BedrockLevelChunkPacket) : ℕ :=
  if 0 < levelChunk.subChunkCount ∧ 1 < levelChunk.blobHashes.length then
    min levelChunk.subChunkCount.toNat (levelChunk.blobHashes.length - 1)
  else 0

/-- What the `i`-th blob of a level chunk is. -/
def levelChunkMetadata (levelChunk : BedrockLevelChunkPacket) (i : ℕ) : PendingBlobMetadata :=
  if i < legacySectionCount levelChunk then
    { type := .chunkSection, x := levelChunk.x, y := i, z := levelChunk.z }
  else { type := .biomes, x := levelChunk.x, y := 0, z := levelChunk.z }

/-- The loop over the blobs of a level chunk. -/
def noteBlobs (levelChunk : BedrockLevelChunkPacket) (s : ChunkTracker) : ChunkTracker :=
  levelChunk.blobHashes.zipIdx.foldl
    (fun s item ↦ s.setMetadata item.1 (levelChunkMetadata levelChunk item.2)) s

def blobStatus (blobStore : BedrockBlobStore) (levelChunk : BedrockLevelChunkPacket) :
    BedrockClientCacheBlobStatus where
  missing := levelChunk.blobHashes.filter fun hash ↦ (blobStore.lookup hash).isNone
  haves := levelChunk.blobHashes.filter fun hash ↦ (blobStore.lookup hash).isSome

/-- The empty column of a level chunk. -/
def levelChunkColumn (chunkX chunkZ : ℤ) : BedrockChunkColumn :=
  if ctx.cavesAndCliffs then (BedrockChunkColumn.new chunkX chunkZ).withBounds (-4) 20
  else .new chunkX chunkZ

/-- The missing blobs of a level chunk, and its column without them. -/
def decodeCachedColumn (blobStore : BedrockBlobStore) (levelChunk : BedrockLevelChunkPacket) :
    Except String (List UInt64 × BedrockChunkColumn) :=
  (levelChunkColumn ctx levelChunk.x levelChunk.z).networkDecodeCached levelChunk.blobHashes
    blobStore levelChunk.payload none

def tryStoreLevelChunk (levelChunk : BedrockLevelChunkPacket) : Attempt ChunkTracker Bool := do
  if levelChunk.cacheEnabled = false then
    let column ← Attempt.ofExcept
      (BedrockLevelChunkCodec.decodeNoCacheColumn levelChunk ctx.cavesAndCliffs)
    modify (setLoadedColumn levelChunk.x levelChunk.z column)
    pure true
  else
    modify (noteBlobs levelChunk)
    let s ← get
    if levelChunk.blobHashes ≠ [] then
      sendStatus ctx (blobStatus s.blobStore levelChunk)
    let (misses, column) ← Attempt.ofExcept (decodeCachedColumn ctx s.blobStore levelChunk)
    if misses ≠ [] then pure false
    else
      modify (setLoadedColumn levelChunk.x levelChunk.z column)
      pure true

/-! ## Sub-chunks -/

def tryStoreCachedSubChunk (subChunk : PendingCachedSubChunk) : Attempt ChunkTracker Bool := do
  match (← get).blobStore.lookup subChunk.hash with
  | none => pure false
  | some blob =>
      if blob.type ≠ .chunkSection then throw "cached subchunk blob has an unexpected type"
      else
        inColumn subChunk.chunkX subChunk.chunkZ fun column ↦
          column.networkDecodeSubChunkNoCache subChunk.sectionY
            (blob.buffer ++ subChunk.blockEntityPayload)
        modify (eraseMetadata subChunk.hash)
        pure true

/-- The cached sub-chunk of an entry. -/
def pendingOf (packet : BedrockSubChunkPacket) (entry : BedrockSubChunkPacketEntry)
    (hash : UInt64) : PendingCachedSubChunk where
  chunkX := wrap32 (packet.originX.toInt + entry.dx.toInt)
  sectionY := wrap32 (packet.originY.toInt + entry.dy.toInt)
  chunkZ := wrap32 (packet.originZ.toInt + entry.dz.toInt)
  hash := hash
  blockEntityPayload := entry.payload

/-- One turn of the loop over the entries. -/
def storeEntry (packet : BedrockSubChunkPacket) (cacheStatus : BedrockClientCacheBlobStatus)
    (entry : BedrockSubChunkPacketEntry) : Attempt ChunkTracker BedrockClientCacheBlobStatus := do
  let chunkX := wrap32 (packet.originX.toInt + entry.dx.toInt)
  let sectionY := wrap32 (packet.originY.toInt + entry.dy.toInt)
  let chunkZ := wrap32 (packet.originZ.toInt + entry.dz.toInt)
  if entry.result = .successAllAir then
    inColumn chunkX chunkZ fun column ↦
      column.changed (column.setSection sectionY (.createAir (Int8.ofInt sectionY) 0))
    pure cacheStatus
  else if entry.result ≠ .success then pure cacheStatus
  else if packet.cacheEnabled = false then
    inColumn chunkX chunkZ fun column ↦
      column.networkDecodeSubChunkNoCache sectionY entry.payload
    pure cacheStatus
  else
    match entry.blobId with
    | none => throw "cached subchunk response is missing blob id"
    | some hash =>
        modify (setMetadata hash { type := .chunkSection, x := chunkX, y := sectionY, z := chunkZ })
        let pending := pendingOf packet entry hash
        if ← tryStoreCachedSubChunk pending then
          pure { cacheStatus with haves := cacheStatus.haves ++ [hash] }
        else
          modify fun s ↦
            { s with pendingCachedSubChunks := s.pendingCachedSubChunks ++ [pending] }
          pure { cacheStatus with missing := cacheStatus.missing ++ [hash] }

/-! ## Handlers -/

/-- What a handler throws is reported. -/
def reporting (what : String) (x : Attempt ChunkTracker Unit) (s : ChunkTracker) : ChunkTracker :=
  match x s with
  | (.ok (), s) => s
  | (.error e, s) => { s with errors := s.errors ++ [what ++ e] }

def handleLevelChunk (payload : List UInt8) : ChunkTracker → ChunkTracker :=
  reporting "level_chunk decode failed: " do
    let levelChunk ← Attempt.ofExcept (BedrockLevelChunkCodec.decodePacketPayload payload)
    if !(← tryStoreLevelChunk ctx levelChunk) then
      modify fun s ↦
        { s with pendingCachedLevelChunks := s.pendingCachedLevelChunks ++ [levelChunk] }

def handleSubChunk (payload : List UInt8) : ChunkTracker → ChunkTracker :=
  reporting "subchunk decode failed: " do
    let packet ← Attempt.ofExcept
      (BedrockSubChunkPacketCodec.decodePacketPayload payload ctx.version)
    let cacheStatus ← packet.entries.foldlM (storeEntry packet) {}
    if cacheStatus.haves ≠ [] ∨ cacheStatus.missing ≠ [] then sendStatus ctx cacheStatus

/-- One turn of a loop over pending packets: what cannot be stored stays pending. -/
def keepPending {α : Type} (tryStore : α → Attempt ChunkTracker Bool) (stillPending : List α)
    (item : α) : Attempt ChunkTracker (List α) := do
  if ← tryStore item then pure stillPending else pure (stillPending ++ [item])

def handleClientCacheMissResponse (payload : List UInt8) : ChunkTracker → ChunkTracker :=
  reporting "client_cache_miss_response decode failed: " do
    let blobs ← Attempt.ofExcept
      (BedrockLevelChunkCodec.decodeClientCacheMissResponsePayload payload)
    modify fun s ↦ blobs.foldl storeBlob s
    let s ← get
    let stillPending ← s.pendingCachedLevelChunks.foldlM (keepPending (tryStoreLevelChunk ctx)) []
    modify fun s ↦ { s with pendingCachedLevelChunks := stillPending }
    let s ← get
    let stillPendingSubChunks ← s.pendingCachedSubChunks.foldlM (keepPending tryStoreCachedSubChunk)
      []
    modify fun s ↦ { s with pendingCachedSubChunks := stillPendingSubChunks }

/-- The packets about chunks, as their payloads. -/
inductive ChunkPacket
  | levelChunk (payload : List UInt8)
  | subChunk (payload : List UInt8)
  | clientCacheMissResponse (payload : List UInt8)
  deriving DecidableEq, Repr

def handleChunkPacket (s : ChunkTracker) : ChunkPacket → ChunkTracker
  | .levelChunk payload => handleLevelChunk ctx payload s
  | .subChunk payload => handleSubChunk ctx payload s
  | .clientCacheMissResponse payload => handleClientCacheMissResponse ctx payload s

/-! ## Changes of a column -/

/-- The states have the same blobs and sent the same, their columns have the same bounds. -/
structure ChunkTracker.Alike (s s' : ChunkTracker) : Prop where
  blobStore : s'.blobStore = s.blobStore
  sent : s'.sent = s.sent
  sends : s'.sends = s.sends
  levelChunks : s'.pendingCachedLevelChunks = s.pendingCachedLevelChunks
  bounds (x z : ℤ) : (s'.world.trackedColumn x z).SameBounds (s.world.trackedColumn x z)

namespace ChunkTracker.Alike

variable {s s' s'' : ChunkTracker}

theorem refl (s : ChunkTracker) : s.Alike s := ⟨rfl, rfl, rfl, rfl, fun _ _ ↦ .refl _⟩

theorem trans (h : s.Alike s') (h' : s'.Alike s'') : s.Alike s'' where
  blobStore := h'.blobStore.trans h.blobStore
  sent := h'.sent.trans h.sent
  sends := h'.sends.trans h.sends
  levelChunks := h'.levelChunks.trans h.levelChunks
  bounds x z := (h'.bounds x z).trans (h.bounds x z)

end ChunkTracker.Alike

section Columns

variable {s s' : ChunkTracker} {chunkX chunkZ : ℤ}
  {change : BedrockChunkColumn → Except String Unit × BedrockChunkColumn}

theorem inColumn_world (s : ChunkTracker) :
    (inColumn chunkX chunkZ change s).2.world =
      (s.world.ensureTrackedColumn chunkX chunkZ).1.putColumn chunkX chunkZ
        (change (s.world.trackedColumn chunkX chunkZ)).2 := rfl

theorem alike_inColumn (h : ∀ column, (change column).2.SameBounds column) (s : ChunkTracker) :
    s.Alike (inColumn chunkX chunkZ change s).2 := by
  refine ⟨rfl, rfl, rfl, rfl, fun x z ↦ ?_⟩
  rw [inColumn_world, BedrockWorld.trackedColumn_putColumn]
  by_cases hsame : x = chunkX ∧ z = chunkZ
  · rw [if_pos hsame, hsame.1, hsame.2]
    exact h _
  · rw [if_neg hsame]
    exact .refl _

/-- The change of a column, run by its result. -/
theorem inColumn_eq {result : Except String Unit}
    (h : (change (s.world.trackedColumn chunkX chunkZ)).1 = result) :
    inColumn chunkX chunkZ change s = (result, (inColumn chunkX chunkZ change s).2) := by
  rw [← h]
  rfl

end Columns

/-! ## Cached sub-chunks -/

/-- The blob that the sub-chunk waits for is there and cannot be stored. -/
def BlobRefused (s : ChunkTracker) (subChunk : PendingCachedSubChunk) : Prop :=
  ∃ blob, s.blobStore.lookup subChunk.hash = some blob ∧
    (blob.type ≠ .chunkSection ∨
      Throws ((s.world.trackedColumn subChunk.chunkX subChunk.chunkZ).networkDecodeSubChunkNoCache
        subChunk.sectionY (blob.buffer ++ subChunk.blockEntityPayload)).1)

/-- The world with the sub-chunk in it. -/
def withSubChunk (s : ChunkTracker) (subChunk : PendingCachedSubChunk) (blob : BlobEntry) :
    ChunkTracker :=
  (inColumn subChunk.chunkX subChunk.chunkZ (fun column ↦
    column.networkDecodeSubChunkNoCache subChunk.sectionY
      (blob.buffer ++ subChunk.blockEntityPayload)) s).2

section SubChunks

variable {s s' : ChunkTracker} {subChunk : PendingCachedSubChunk} {blob : BlobEntry}

theorem alike_withSubChunk (s : ChunkTracker) (subChunk : PendingCachedSubChunk)
    (blob : BlobEntry) : s.Alike (withSubChunk s subChunk blob) :=
  alike_inColumn (fun column ↦ column.networkDecodeSubChunkNoCache_sameBounds _ _) s

theorem ChunkTracker.Alike.blobRefused_iff (h : s.Alike s') (subChunk : PendingCachedSubChunk) :
    BlobRefused s' subChunk ↔ BlobRefused s subChunk := by
  rw [BlobRefused, BlobRefused, h.blobStore]
  simp only [(h.bounds subChunk.chunkX subChunk.chunkZ).networkDecodeSubChunkNoCache]

theorem tryStoreCachedSubChunk_missing (h : s.blobStore.lookup subChunk.hash = none) :
    tryStoreCachedSubChunk subChunk s = (.ok false, s) := by
  rw [tryStoreCachedSubChunk, Attempt.get_bind, h]
  rfl

/-- A sub-chunk whose blob is there and fits is stored. -/
theorem tryStoreCachedSubChunk_stored (hblob : s.blobStore.lookup subChunk.hash = some blob)
    (h : ¬ BlobRefused s subChunk) :
    tryStoreCachedSubChunk subChunk s =
      (.ok true, eraseMetadata subChunk.hash (withSubChunk s subChunk blob)) := by
  have htype : ¬ blob.type ≠ .chunkSection := fun htype ↦ h ⟨blob, hblob, .inl htype⟩
  rw [tryStoreCachedSubChunk, Attempt.get_bind, hblob]
  dsimp only
  rw [if_neg htype]
  cases hdecode : ((s.world.trackedColumn subChunk.chunkX
      subChunk.chunkZ).networkDecodeSubChunkNoCache subChunk.sectionY
        (blob.buffer ++ subChunk.blockEntityPayload)).1 with
  | error e => exact absurd ⟨blob, hblob, .inr ⟨e, hdecode⟩⟩ h
  | ok _ =>
      rw [Attempt.bind_run (inColumn_eq hdecode)]
      rfl

theorem tryStoreCachedSubChunk_refused (h : BlobRefused s subChunk) :
    ∃ e s', tryStoreCachedSubChunk subChunk s = (.error e, s') ∧ s.Alike s' ∧
      s'.pendingCachedSubChunks = s.pendingCachedSubChunks := by
  obtain ⟨blob, hblob, hrefused⟩ := h
  rw [tryStoreCachedSubChunk, Attempt.get_bind, hblob]
  dsimp only
  by_cases htype : blob.type ≠ .chunkSection
  · rw [if_pos htype]
    exact ⟨_, s, rfl, .refl s, rfl⟩
  · rw [if_neg htype]
    obtain ⟨e, hdecode⟩ := hrefused.resolve_left htype
    rw [Attempt.bind_error (inColumn_eq hdecode)]
    exact ⟨e, _, rfl, alike_withSubChunk s subChunk blob, rfl⟩

end SubChunks

end BedrockNetworkClient

end BedrockProtocol
