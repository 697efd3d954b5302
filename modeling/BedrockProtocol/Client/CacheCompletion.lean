import BedrockProtocol.Client.CacheRequests

/-!
# What a response completes

A `client_cache_miss_response` brings blobs, and the client tries to store everything that
waits, first the level chunks and then the sub-chunks.  It takes over what is pending still at
the end of each of the two loops.  A loop that stops before leaves its list as it was, with what
it has stored still in it, and the rest is not tried.
-/

namespace BedrockProtocol

namespace BedrockChunkColumn

variable {column column' : BedrockChunkColumn}

/-! ## The bounds of a decoded column -/

theorem readCachedPayload_bounds {payload : List UInt8}
    (hrun : column.readCachedPayload payload = .ok column') :
    column'.SameBounds column ∧ column'.maxCY = column.maxCY := by
  unfold readCachedPayload at hrun
  split at hrun
  · obtain rfl := Except.ok.inj hrun
    exact ⟨.refl _, rfl⟩
  · obtain ⟨⟨decoded, c⟩, hread, rfl⟩ := map_eq_ok.mp hrun
    have hkeeps : Yields (column.decodeBlockEntities .littleVarInt) fun column' ↦
        column'.SameBounds column ∧ column'.maxCY = column.maxCY := by
      refine Yields.bind_any fun turns ↦ (yields_decodeBlockEntityLoop _ turns column).mono ?_
      rintro _ ⟨_, _, rfl⟩
      exact ⟨⟨rfl, rfl⟩, rfl⟩
    exact Yields.bind_any (fun _ ↦ hkeeps) _ _ _ hread

theorem loadBlob_sameBounds {resolver : Option BedrockBlockStateResolver} {hasSectionBlobs : Bool}
    {entry : BlobEntry} (hrun : column.loadBlob resolver hasSectionBlobs entry = .ok column') :
    column'.SameBounds column := by
  unfold loadBlob at hrun
  split at hrun
  · split at hrun
    · obtain ⟨⟨first, c⟩, -, hcolumn⟩ := bind_eq_ok.mp hrun
      obtain rfl := Except.ok.inj hcolumn
      exact ⟨rfl, rfl⟩
    · obtain ⟨⟨decoded, c⟩, hread, rfl⟩ := map_eq_ok.mp hrun
      obtain ⟨areas, c', -, hcolumn⟩ := Reader.run_bind_eq_ok hread
      cases hcolumn
      exact ⟨rfl, rfl⟩
  · obtain ⟨⟨found, c⟩, -, hrest⟩ := bind_eq_ok.mp hrun
    dsimp only at hrest
    split at hrest
    · cases hrest
    · exact setSection_sameBounds hrest

/-- Blobs that are all there leave nothing missing. -/
theorem loadHashes_of_complete {blobStore : BedrockBlobStore}
    {resolver : Option BedrockBlockStateResolver} {hasSectionBlobs : Bool} {hashes : List UInt64}
    (hthere : ∀ hash ∈ hashes, (blobStore.lookup hash).isSome)
    {found : List UInt64 × BedrockChunkColumn}
    (hrun : hashes.foldlM (loadHash blobStore resolver hasSectionBlobs) ([], column) = .ok found) :
    found.1 = [] ∧ found.2.SameBounds column := by
  induction hashes generalizing column with
  | nil =>
      obtain rfl := Except.ok.inj hrun
      exact ⟨rfl, .refl _⟩
  | cons hash hashes ih =>
      rw [List.foldlM_cons] at hrun
      obtain ⟨turned, hturn, hrest⟩ := bind_eq_ok.mp hrun
      obtain ⟨entry, hentry⟩ := Option.isSome_iff_exists.mp (hthere hash List.mem_cons_self)
      rw [loadHash, hentry] at hturn
      obtain ⟨column₁, hload, hturned⟩ := bind_eq_ok.mp hturn
      obtain rfl := Except.ok.inj hturned
      obtain ⟨hnone, hbounds⟩ := ih (fun h hmem ↦ hthere h (List.mem_cons_of_mem _ hmem)) hrest
      exact ⟨hnone, hbounds.trans (loadBlob_sameBounds hload)⟩

end BedrockChunkColumn

namespace BedrockNetworkClient

open ChunkTracker

/-! ## What is complete -/

/-- All blobs of the level chunk are there. -/
def complete (blobStore : BedrockBlobStore) (levelChunk : BedrockLevelChunkPacket) : Bool :=
  levelChunk.blobHashes.all fun hash ↦ (blobStore.lookup hash).isSome

def completeSubChunk (blobStore : BedrockBlobStore) (subChunk : PendingCachedSubChunk) : Bool :=
  (blobStore.lookup subChunk.hash).isSome

/-- The level chunk can be read apart from its blobs. -/
def Readable (ctx : ChunkContext) (levelChunk : BedrockLevelChunkPacket) : Prop :=
  ∃ column, (levelChunkColumn ctx levelChunk.x levelChunk.z).readCachedPayload
    levelChunk.payload = .ok column

section Decoding

variable {ctx : ChunkContext} {blobStore : BedrockBlobStore} {levelChunk : BedrockLevelChunkPacket}
  {misses : List UInt64} {column : BedrockChunkColumn}

theorem complete_iff :
    complete blobStore levelChunk = true ↔
      levelChunk.blobHashes.filter (fun hash ↦ (blobStore.lookup hash).isNone) = [] := by
  simp [complete, List.filter_eq_nil_iff, Option.isSome_iff_ne_none]

theorem readable_of_decoded
    (h : decodeCachedColumn ctx blobStore levelChunk = .ok (misses, column)) :
    Readable ctx levelChunk := by
  obtain ⟨column₁, hpayload, -⟩ := bind_eq_ok.mp h
  exact ⟨column₁, hpayload⟩

theorem decodeCachedColumn_of_incomplete (hread : Readable ctx levelChunk)
    (h : complete blobStore levelChunk = false) :
    ∃ misses column, decodeCachedColumn ctx blobStore levelChunk = .ok (misses, column) ∧
      misses ≠ [] := by
  obtain ⟨column, hpayload⟩ := hread
  have hmisses : ¬ levelChunk.blobHashes.filter (fun hash ↦ (blobStore.lookup hash).isNone) = [] :=
    fun hnone ↦ by simp [complete_iff.mpr hnone] at h
  refine ⟨_, column, ?_, hmisses⟩
  rw [decodeCachedColumn, BedrockChunkColumn.networkDecodeCached, hpayload, ok_bind]
  dsimp only
  rw [if_pos hmisses]
  rfl

theorem sections_levelChunkColumn (ctx : ChunkContext) (chunkX chunkZ : ℤ) :
    (levelChunkColumn ctx chunkX chunkZ).sections.length =
      ((levelChunkColumn ctx chunkX chunkZ).maxCY -
        (levelChunkColumn ctx chunkX chunkZ).minCY).toNat := by
  rw [levelChunkColumn]
  split <;> simp [BedrockChunkColumn.withBounds, BedrockChunkColumn.new]

/-- A level chunk that is decoded with all of its blobs misses nothing and has the bounds of the
version. -/
theorem decoded_of_complete (h : complete blobStore levelChunk = true)
    (hdecoded : decodeCachedColumn ctx blobStore levelChunk = .ok (misses, column)) :
    misses = [] ∧ column.SameBounds (levelChunkColumn ctx levelChunk.x levelChunk.z) := by
  obtain ⟨column₁, hpayload, hrest⟩ := bind_eq_ok.mp hdecoded
  obtain ⟨hbounds, hmax⟩ := BedrockChunkColumn.readCachedPayload_bounds hpayload
  dsimp only at hrest
  rw [if_neg (not_not.mpr (complete_iff.mp h))] at hrest
  have hthere : ∀ hash ∈ levelChunk.blobHashes, (blobStore.lookup hash).isSome := by
    simpa [complete] using h
  obtain ⟨hnone, hloaded⟩ := BedrockChunkColumn.loadHashes_of_complete hthere hrest
  refine ⟨hnone, hloaded.trans ⟨hbounds.1, ?_⟩⟩
  rw [List.length_replicate, hmax, hbounds.1, sections_levelChunkColumn]

end Decoding

/-! ## The world of what was stored -/

/-- The world with a level chunk whose blobs are there. -/
def worldWithLevelChunk (ctx : ChunkContext) (blobStore : BedrockBlobStore) (world : BedrockWorld)
    (levelChunk : BedrockLevelChunkPacket) : Except String BedrockWorld := do
  let (_, column) ← decodeCachedColumn ctx blobStore levelChunk
  pure (world.setLoadedColumn levelChunk.x levelChunk.z column true).1

/-- The world with a sub-chunk whose blob is there. -/
def worldWithSubChunk (blobStore : BedrockBlobStore) (world : BedrockWorld)
    (subChunk : PendingCachedSubChunk) : Except String BedrockWorld :=
  match blobStore.lookup subChunk.hash with
  | none => .ok world
  | some blob =>
      let (world, column) := world.ensureTrackedColumn subChunk.chunkX subChunk.chunkZ
      let (result, column) := column.networkDecodeSubChunkNoCache subChunk.sectionY
        (blob.buffer ++ subChunk.blockEntityPayload)
      result.map fun _ ↦ world.putColumn subChunk.chunkX subChunk.chunkZ column

/-- Everything that was pending in `s` and is complete in `s'` is in the world of `s'`, put there
in its order, and is not pending any more; everything else is. -/
structure Completed (ctx : ChunkContext) (s s' : ChunkTracker) : Prop where
  levelChunks : s'.pendingCachedLevelChunks =
    s.pendingCachedLevelChunks.filter fun levelChunk ↦ !complete s'.blobStore levelChunk
  subChunks : s'.pendingCachedSubChunks =
    s.pendingCachedSubChunks.filter fun subChunk ↦ !completeSubChunk s'.blobStore subChunk
  world : ((s.pendingCachedLevelChunks.filter (complete s'.blobStore)).foldlM
      (worldWithLevelChunk ctx s'.blobStore) s.world >>= fun world ↦
    (s.pendingCachedSubChunks.filter (completeSubChunk s'.blobStore)).foldlM
      (worldWithSubChunk s'.blobStore) world) = .ok s'.world

/-- The column that decides by its bounds whether a sub-chunk fits after the level chunks. -/
def columnAfter (ctx : ChunkContext) (s : ChunkTracker) (chunkX chunkZ : ℤ) : BedrockChunkColumn :=
  if ∃ levelChunk ∈ s.pendingCachedLevelChunks, complete s.blobStore levelChunk = true ∧
      levelChunk.x = chunkX ∧ levelChunk.z = chunkZ then levelChunkColumn ctx chunkX chunkZ
  else s.world.trackedColumn chunkX chunkZ

/-- The blob of a sub-chunk is there and cannot be stored. -/
def SubChunkRefused (ctx : ChunkContext) (s : ChunkTracker) (subChunk : PendingCachedSubChunk) :
    Prop :=
  ∃ blob, s.blobStore.lookup subChunk.hash = some blob ∧
    (blob.type ≠ .chunkSection ∨
      Throws ((columnAfter ctx s subChunk.chunkX subChunk.chunkZ).networkDecodeSubChunkNoCache
        subChunk.sectionY (blob.buffer ++ subChunk.blockEntityPayload)).1)

/-- The loop over the level chunks stops at one: its status cannot be sent, or it is complete and
cannot be decoded. -/
def LevelChunkStops (ctx : ChunkContext) (s : ChunkTracker) (earlier : List BedrockLevelChunkPacket)
    (levelChunk : BedrockLevelChunkPacket) : Prop :=
  (ctx.sendFailure (s.sends + earlier.length)
    (BedrockLevelChunkCodec.encodeClientCacheBlobStatusPayload
      (blobStatus s.blobStore levelChunk))).isSome ∨
  (complete s.blobStore levelChunk = true ∧ Throws (decodeCachedColumn ctx s.blobStore levelChunk))

/-- What a client waits for: level chunks that can be read and lack a blob, and sub-chunks that
lack theirs. -/
structure Incomplete (ctx : ChunkContext) (s : ChunkTracker) : Prop where
  levelChunks : ∀ levelChunk ∈ s.pendingCachedLevelChunks, levelChunk.cacheEnabled = true ∧
    Readable ctx levelChunk ∧ complete s.blobStore levelChunk = false
  subChunks : ∀ subChunk ∈ s.pendingCachedSubChunks, completeSubChunk s.blobStore subChunk = false

section Bounds

variable {ctx : ChunkContext} {blobStore : BedrockBlobStore} {world world' : BedrockWorld}

/-- The columns of the world after level chunks were stored. -/
theorem trackedColumn_levelChunks {levelChunks : List BedrockLevelChunkPacket}
    (hcomplete : ∀ levelChunk ∈ levelChunks, complete blobStore levelChunk = true)
    (hrun : levelChunks.foldlM (worldWithLevelChunk ctx blobStore) world = .ok world') (x z : ℤ) :
    (world'.trackedColumn x z).SameBounds
      (if ∃ levelChunk ∈ levelChunks, levelChunk.x = x ∧ levelChunk.z = z then
        levelChunkColumn ctx x z
      else world.trackedColumn x z) := by
  induction levelChunks generalizing world with
  | nil =>
      obtain rfl := Except.ok.inj hrun
      rw [if_neg (by simp)]
      exact .refl _
  | cons levelChunk levelChunks ih =>
      rw [List.foldlM_cons] at hrun
      obtain ⟨world₁, hstore, hrest⟩ := bind_eq_ok.mp hrun
      obtain ⟨⟨misses, column⟩, hdecoded, hworld⟩ := bind_eq_ok.mp hstore
      obtain rfl := Except.ok.inj hworld
      have hbounds := (decoded_of_complete (hcomplete levelChunk List.mem_cons_self) hdecoded).2
      refine (ih (fun c hmem ↦ hcomplete c (List.mem_cons_of_mem _ hmem)) hrest).trans ?_
      by_cases hlater : ∃ c ∈ levelChunks, c.x = x ∧ c.z = z
      · rw [if_pos hlater, if_pos (by
          obtain ⟨c, hmem, hplace⟩ := hlater
          exact ⟨c, List.mem_cons_of_mem _ hmem, hplace⟩)]
        exact .refl _
      · rw [if_neg hlater, BedrockWorld.trackedColumn_eq,
          BedrockWorld.getLoadedColumn_setLoadedColumn]
        by_cases hplace : x = levelChunk.x ∧ z = levelChunk.z
        · obtain ⟨rfl, rfl⟩ := hplace
          rw [if_pos ⟨rfl, rfl⟩, if_pos ⟨levelChunk, List.mem_cons_self, rfl, rfl⟩]
          exact hbounds
        · rw [if_neg hplace, ← BedrockWorld.trackedColumn_eq, if_neg]
          · exact .refl _
          · rintro ⟨c, hmem, rfl, rfl⟩
            rcases List.mem_cons.mp hmem with rfl | hmem
            · exact hplace ⟨rfl, rfl⟩
            · exact hlater ⟨c, hmem, rfl, rfl⟩

end Bounds

/-! ## One level chunk -/

section LevelChunks

variable {ctx : ChunkContext} {s : ChunkTracker} {levelChunk : BedrockLevelChunkPacket}

/-- The notes about blobs are all that changes before the status is sent. -/
theorem noteBlobs_eq (levelChunk : BedrockLevelChunkPacket) (s : ChunkTracker) :
    ∃ metadata, noteBlobs levelChunk s = { s with pendingBlobMetadata := metadata } := by
  rw [noteBlobs]
  induction levelChunk.blobHashes.zipIdx generalizing s with
  | nil => exact ⟨s.pendingBlobMetadata, rfl⟩
  | cons item items ih => exact ih (s.setMetadata item.1 (levelChunkMetadata levelChunk item.2))

theorem tryStoreLevelChunk_unsent {e : String} (hcached : levelChunk.cacheEnabled = true)
    (hblobs : levelChunk.blobHashes ≠ [])
    (hsend : ctx.sendFailure s.sends (BedrockLevelChunkCodec.encodeClientCacheBlobStatusPayload
      (blobStatus s.blobStore levelChunk)) = some e) :
    ∃ s', tryStoreLevelChunk ctx levelChunk s = (.error e, s') ∧ s'.world = s.world := by
  obtain ⟨metadata, hnoted⟩ := noteBlobs_eq levelChunk s
  rw [tryStoreLevelChunk, if_neg (by simp [hcached]), Attempt.modify_bind, hnoted,
    Attempt.get_bind, if_pos hblobs]
  have hstatus : sendStatus ctx (blobStatus s.blobStore levelChunk)
      { s with pendingBlobMetadata := metadata } = (.error e, { s with
        pendingBlobMetadata := metadata
        sends := s.sends + 1 }) := by
    rw [sendStatus, hsend]
  exact ⟨_, Attempt.bind_error hstatus, rfl⟩

/-- Once its status is sent, a level chunk is what its blobs make of it. -/
theorem tryStoreLevelChunk_sent (hcached : levelChunk.cacheEnabled = true)
    (hsend : levelChunk.blobHashes ≠ [] →
      ctx.sendFailure s.sends (BedrockLevelChunkCodec.encodeClientCacheBlobStatusPayload
        (blobStatus s.blobStore levelChunk)) = none) :
    ∃ t, t.world = s.world ∧
      t.sends = s.sends + (if levelChunk.blobHashes ≠ [] then 1 else 0) ∧
      tryStoreLevelChunk ctx levelChunk s =
        match decodeCachedColumn ctx s.blobStore levelChunk with
        | .error e => (.error e, t)
        | .ok (misses, column) =>
            if misses ≠ [] then (.ok false, t)
            else (.ok true, setLoadedColumn levelChunk.x levelChunk.z column t) := by
  obtain ⟨metadata, hnoted⟩ := noteBlobs_eq levelChunk s
  have hdecoded (t : ChunkTracker) : (do
      let (misses, column) ← Attempt.ofExcept (decodeCachedColumn ctx s.blobStore levelChunk)
      if misses ≠ [] then pure false
      else
        modify (setLoadedColumn levelChunk.x levelChunk.z column)
        pure true : Attempt ChunkTracker Bool) t =
      match decodeCachedColumn ctx s.blobStore levelChunk with
      | .error e => (.error e, t)
      | .ok (misses, column) =>
          if misses ≠ [] then (.ok false, t)
          else (.ok true, setLoadedColumn levelChunk.x levelChunk.z column t) := by
    cases hdecoded : decodeCachedColumn ctx s.blobStore levelChunk with
    | error e => rfl
    | ok found =>
        obtain ⟨misses, column⟩ := found
        by_cases hmisses : misses ≠ []
        · simp only [if_pos hmisses]
          change (if misses ≠ [] then _ else _ : Attempt ChunkTracker Bool) t = _
          rw [if_pos hmisses]
          rfl
        · simp only [if_neg hmisses]
          change (if misses ≠ [] then _ else _ : Attempt ChunkTracker Bool) t = _
          rw [if_neg hmisses]
          rfl
  have hkind : ¬ levelChunk.cacheEnabled = false := by simp [hcached]
  rw [tryStoreLevelChunk, if_neg hkind, Attempt.modify_bind, hnoted, Attempt.get_bind]
  by_cases hblobs : levelChunk.blobHashes ≠ []
  · rw [if_pos hblobs, if_pos hblobs]
    have hstatus : sendStatus ctx (blobStatus s.blobStore levelChunk)
        { s with pendingBlobMetadata := metadata } = (.ok (), { s with
          pendingBlobMetadata := metadata
          sends := s.sends + 1
          sent := s.sent ++ [blobStatus s.blobStore levelChunk] }) := by
      rw [sendStatus, hsend hblobs]
    rw [Attempt.bind_run hstatus]
    refine ⟨{ s with
      pendingBlobMetadata := metadata
      sends := s.sends + 1
      sent := s.sent ++ [blobStatus s.blobStore levelChunk] }, rfl, rfl, ?_⟩
    exact hdecoded _
  · rw [if_neg hblobs, if_neg hblobs]
    refine ⟨{ s with pendingBlobMetadata := metadata }, rfl, rfl, ?_⟩
    exact hdecoded _

/-- Only a cached level chunk that can be read and lacks a blob is put off. -/
theorem incomplete_of_tryStoreLevelChunk {s' : ChunkTracker}
    (hrun : tryStoreLevelChunk ctx levelChunk s = (.ok false, s')) :
    levelChunk.cacheEnabled = true ∧ Readable ctx levelChunk ∧
      complete s.blobStore levelChunk = false := by
  cases hcached : levelChunk.cacheEnabled with
  | false =>
      rw [tryStoreLevelChunk, if_pos hcached] at hrun
      cases hdecode : BedrockLevelChunkCodec.decodeNoCacheColumn levelChunk ctx.cavesAndCliffs with
      | error e =>
          rw [hdecode] at hrun
          cases (Prod.mk.inj hrun).1
      | ok column =>
          rw [hdecode] at hrun
          cases (Prod.mk.inj hrun).1
  | true =>
      by_cases hsend : levelChunk.blobHashes ≠ [] →
          ctx.sendFailure s.sends (BedrockLevelChunkCodec.encodeClientCacheBlobStatusPayload
            (blobStatus s.blobStore levelChunk)) = none
      · obtain ⟨t, -, -, hresult⟩ := tryStoreLevelChunk_sent hcached hsend
        rw [hresult] at hrun
        cases hdecoded : decodeCachedColumn ctx s.blobStore levelChunk with
        | error e =>
            rw [hdecoded] at hrun
            cases (Prod.mk.inj hrun).1
        | ok found =>
            obtain ⟨misses, column⟩ := found
            rw [hdecoded] at hrun
            refine ⟨rfl, readable_of_decoded hdecoded, ?_⟩
            by_contra hcomplete
            rw [Bool.not_eq_false] at hcomplete
            dsimp only at hrun
            rw [if_neg (not_not.mpr (decoded_of_complete hcomplete hdecoded).1)] at hrun
            cases (Prod.mk.inj hrun).1
      · rw [Classical.not_imp] at hsend
        obtain ⟨e, hfails⟩ := Option.ne_none_iff_exists'.mp hsend.2
        obtain ⟨t, hresult, -⟩ := tryStoreLevelChunk_unsent hcached hsend.1 hfails
        rw [hresult] at hrun
        cases (Prod.mk.inj hrun).1

end LevelChunks

/-! ## The loop over the level chunks -/

/-- The loop from `s` has come past the level chunks. -/
structure LevelChunksTried (ctx : ChunkContext) (s : ChunkTracker)
    (earlier still : List BedrockLevelChunkPacket) (s' : ChunkTracker) : Prop where
  steady : s.Steady s'
  sends : s'.sends = s.sends + earlier.length
  still : still = earlier.filter fun levelChunk ↦ !complete s.blobStore levelChunk
  world : (earlier.filter (complete s.blobStore)).foldlM (worldWithLevelChunk ctx s.blobStore)
    s.world = .ok s'.world

section LevelChunkLoop

variable {ctx : ChunkContext} {s s' : ChunkTracker} {earlier still : List BedrockLevelChunkPacket}
  {levelChunk : BedrockLevelChunkPacket}

theorem LevelChunksTried.go (h : LevelChunksTried ctx s earlier still s')
    (hcached : levelChunk.cacheEnabled = true) (hread : Readable ctx levelChunk)
    (hblobs : levelChunk.blobHashes ≠ []) (hgoes : ¬ LevelChunkStops ctx s earlier levelChunk) :
    ∃ still' s'', keepPending (tryStoreLevelChunk ctx) still levelChunk s' = (.ok still', s'') ∧
      LevelChunksTried ctx s (earlier ++ [levelChunk]) still' s'' := by
  rw [LevelChunkStops, not_or] at hgoes
  have hsend : ctx.sendFailure s'.sends (BedrockLevelChunkCodec.encodeClientCacheBlobStatusPayload
      (blobStatus s'.blobStore levelChunk)) = none := by
    rw [h.sends, h.steady.blobStore]
    simpa using hgoes.1
  have hsteady := ChunkTracker.Steady.tryStoreLevelChunk ctx levelChunk s'
  obtain ⟨t, hworld, hsends, hresult⟩ := tryStoreLevelChunk_sent hcached fun _ ↦ hsend
  rw [h.steady.blobStore] at hresult
  rw [if_pos hblobs] at hsends
  have hsends' : t.sends = s.sends + (earlier ++ [levelChunk]).length := by
    rw [hsends, h.sends, List.length_append, List.length_singleton, Nat.add_assoc]
  cases hcomplete : complete s.blobStore levelChunk with
  | false =>
      obtain ⟨misses, column, hdecoded, hmisses⟩ := decodeCachedColumn_of_incomplete hread hcomplete
      rw [hdecoded] at hresult
      dsimp only at hresult
      rw [if_pos hmisses] at hresult
      rw [hresult] at hsteady
      refine ⟨_, t, keepPending_kept hresult, .trans _ _ _ h.steady hsteady, hsends', ?_, ?_⟩
      · rw [h.still, List.filter_append]
        simp [hcomplete]
      · rw [List.filter_append, hworld]
        simpa [hcomplete] using h.world
  | true =>
      cases hdecoded : decodeCachedColumn ctx s.blobStore levelChunk with
      | error e => exact absurd ⟨hcomplete, e, hdecoded⟩ hgoes.2
      | ok found =>
          obtain ⟨misses, column⟩ := found
          rw [hdecoded] at hresult
          dsimp only at hresult
          rw [if_neg (not_not.mpr (decoded_of_complete hcomplete hdecoded).1)] at hresult
          rw [hresult] at hsteady
          refine ⟨_, _, keepPending_stored hresult, .trans _ _ _ h.steady hsteady, hsends', ?_, ?_⟩
          · rw [h.still, List.filter_append]
            simp [hcomplete]
          · have hlast : [levelChunk].filter (complete s.blobStore) = [levelChunk] := by
              simp [hcomplete]
            have hstored : worldWithLevelChunk ctx s.blobStore s'.world levelChunk =
                .ok (s'.world.setLoadedColumn levelChunk.x levelChunk.z column true).1 := by
              rw [worldWithLevelChunk, hdecoded]
              rfl
            rw [List.filter_append, hlast, List.foldlM_append, h.world, ok_bind, List.foldlM_cons,
              hstored, ok_bind, List.foldlM_nil, ← hworld]
            rfl

theorem LevelChunksTried.stop (h : LevelChunksTried ctx s earlier still s')
    (hcached : levelChunk.cacheEnabled = true) (hblobs : levelChunk.blobHashes ≠ [])
    (hstops : LevelChunkStops ctx s earlier levelChunk) :
    ∃ e s'', keepPending (tryStoreLevelChunk ctx) still levelChunk s' = (.error e, s'') ∧
      s.Steady s'' ∧ s''.world = s'.world := by
  have hsteady := ChunkTracker.Steady.tryStoreLevelChunk ctx levelChunk s'
  cases hsend : ctx.sendFailure s'.sends (BedrockLevelChunkCodec.encodeClientCacheBlobStatusPayload
      (blobStatus s'.blobStore levelChunk)) with
  | some e =>
      obtain ⟨t, hresult, hworld⟩ := tryStoreLevelChunk_unsent hcached hblobs hsend
      rw [hresult] at hsteady
      exact ⟨e, t, keepPending_error hresult, .trans _ _ _ h.steady hsteady, hworld⟩
  | none =>
      obtain ⟨t, hworld, -, hresult⟩ := tryStoreLevelChunk_sent hcached fun _ ↦ hsend
      rw [h.sends, h.steady.blobStore] at hsend
      rw [h.steady.blobStore] at hresult
      obtain ⟨-, e, hdecoded⟩ := hstops.resolve_left (by simp [hsend])
      rw [hdecoded] at hresult
      rw [hresult] at hsteady
      exact ⟨e, t, keepPending_error hresult, .trans _ _ _ h.steady hsteady, hworld⟩

end LevelChunkLoop

/-! ## The loop over the sub-chunks -/

structure SubChunksTried (s : ChunkTracker) (earlier still : List PendingCachedSubChunk)
    (s' : ChunkTracker) : Prop where
  alike : s.Alike s'
  subChunks : s'.pendingCachedSubChunks = s.pendingCachedSubChunks
  still : still = earlier.filter fun subChunk ↦ !completeSubChunk s.blobStore subChunk
  world : (earlier.filter (completeSubChunk s.blobStore)).foldlM (worldWithSubChunk s.blobStore)
    s.world = .ok s'.world

section SubChunkLoop

variable {s s' : ChunkTracker} {earlier still : List PendingCachedSubChunk}
  {subChunk : PendingCachedSubChunk}

theorem SubChunksTried.go (h : SubChunksTried s earlier still s')
    (hgoes : ¬ BlobRefused s subChunk) :
    ∃ still' s'', keepPending tryStoreCachedSubChunk still subChunk s' = (.ok still', s'') ∧
      SubChunksTried s (earlier ++ [subChunk]) still' s'' := by
  have hgoes' := fun hrefused ↦ hgoes ((h.alike.blobRefused_iff subChunk).mp hrefused)
  cases hblob : s.blobStore.lookup subChunk.hash with
  | none =>
      have hmissing : s'.blobStore.lookup subChunk.hash = none := by rwa [h.alike.blobStore]
      have hcomplete : completeSubChunk s.blobStore subChunk = false := by
        rw [completeSubChunk, hblob]
        rfl
      refine ⟨_, s', keepPending_kept (tryStoreCachedSubChunk_missing hmissing), h.alike,
        h.subChunks, ?_, ?_⟩
      · rw [h.still, List.filter_append]
        simp [hcomplete]
      · rw [List.filter_append]
        simpa [hcomplete] using h.world
  | some blob =>
      have hthere : s'.blobStore.lookup subChunk.hash = some blob := by rwa [h.alike.blobStore]
      have hcomplete : completeSubChunk s.blobStore subChunk = true := by
        rw [completeSubChunk, hblob]
        rfl
      have hstored := tryStoreCachedSubChunk_stored hthere hgoes'
      refine ⟨_, _, keepPending_stored hstored,
        h.alike.trans ((alike_withSubChunk s' subChunk blob).trans
          ⟨rfl, rfl, rfl, rfl, fun _ _ ↦ .refl _⟩), h.subChunks, ?_, ?_⟩
      · rw [h.still, List.filter_append]
        simp [hcomplete]
      · have hlast : [subChunk].filter (completeSubChunk s.blobStore) = [subChunk] := by
          simp [hcomplete]
        have hworld : worldWithSubChunk s.blobStore s'.world subChunk =
            .ok (withSubChunk s' subChunk blob).world := by
          rw [worldWithSubChunk, hblob]
          cases hdecode : ((s'.world.trackedColumn subChunk.chunkX
              subChunk.chunkZ).networkDecodeSubChunkNoCache subChunk.sectionY
                (blob.buffer ++ subChunk.blockEntityPayload)).1 with
          | error e => exact absurd ⟨blob, hthere, .inr ⟨e, hdecode⟩⟩ hgoes'
          | ok _ =>
              change Except.map _ ((s'.world.trackedColumn subChunk.chunkX
                subChunk.chunkZ).networkDecodeSubChunkNoCache subChunk.sectionY
                  (blob.buffer ++ subChunk.blockEntityPayload)).1 = _
              rw [hdecode]
              rfl
        rw [List.filter_append, hlast, List.foldlM_append, h.world, ok_bind, List.foldlM_cons,
          hworld, ok_bind, List.foldlM_nil]
        rfl

theorem SubChunksTried.stop (h : SubChunksTried s earlier still s')
    (hstops : BlobRefused s subChunk) :
    ∃ e s'', keepPending tryStoreCachedSubChunk still subChunk s' = (.error e, s'') ∧
      s.Steady s'' := by
  obtain ⟨e, s'', hrun, halike, hpending⟩ :=
    tryStoreCachedSubChunk_refused ((h.alike.blobRefused_iff subChunk).mpr hstops)
  have hafter := h.alike.trans halike
  exact ⟨e, s'', keepPending_error hrun, .of_sent hafter.sent hafter.blobStore hafter.levelChunks
    (hpending.trans h.subChunks)⟩

end SubChunkLoop

/-! ## Responses -/

/-- Nothing that waits has all of its blobs. -/
def NothingComplete (s : ChunkTracker) (blobStore : BedrockBlobStore) : Prop :=
  (∀ levelChunk ∈ s.pendingCachedLevelChunks, complete blobStore levelChunk = false) ∧
    ∀ subChunk ∈ s.pendingCachedSubChunks, completeSubChunk blobStore subChunk = false

/-- Everything can be stored that is complete: nothing is, or every status can be sent, and
every level chunk and every sub-chunk that is complete fits. -/
def CompletesAll (ctx : ChunkContext) (s : ChunkTracker) : Prop :=
  NothingComplete s s.blobStore ∨
    Attempt.RunsThrough (LevelChunkStops ctx s) s.pendingCachedLevelChunks ∧
      ∀ subChunk ∈ s.pendingCachedSubChunks, ¬ SubChunkRefused ctx s subChunk

section Responses

variable {ctx : ChunkContext} {s s' : ChunkTracker}

theorem storeBlobs_eq (blobs : List BedrockCacheBlob) (s : ChunkTracker) :
    ∃ blobStore metadata, blobs.foldl storeBlob s =
      { s with blobStore := blobStore, pendingBlobMetadata := metadata } := by
  induction blobs generalizing s with
  | nil => exact ⟨_, _, rfl⟩
  | cons blob blobs ih => exact ih (s.storeBlob blob)

theorem Completed.reporting {what : String} {x : Attempt ChunkTracker Unit}
    {before : ChunkTracker} :
    Completed ctx before (BedrockNetworkClient.reporting what x s) ↔
      Completed ctx before (x s).2 := by
  obtain ⟨errors, heq⟩ := reporting_eq what x s
  rw [heq]
  exact ⟨fun h ↦ ⟨h.levelChunks, h.subChunks, h.world⟩,
    fun h ↦ ⟨h.levelChunks, h.subChunks, h.world⟩⟩

/-- A state with the lists and the world as they were is right when nothing is complete. -/
theorem completed_unchanged_iff (hlevel : s'.pendingCachedLevelChunks = s.pendingCachedLevelChunks)
    (hsub : s'.pendingCachedSubChunks = s.pendingCachedSubChunks)
    (hworld : NothingComplete s s'.blobStore → s'.world = s.world) :
    Completed ctx s s' ↔ NothingComplete s s'.blobStore := by
  constructor
  · intro h
    refine ⟨fun levelChunk hmem ↦ ?_, fun subChunk hmem ↦ ?_⟩
    · rw [← hlevel, h.levelChunks] at hmem
      simpa using (List.mem_filter.mp hmem).2
    · rw [← hsub, h.subChunks] at hmem
      simpa using (List.mem_filter.mp hmem).2
  · intro h
    have hnolevel : s.pendingCachedLevelChunks.filter (complete s'.blobStore) = [] :=
      List.filter_eq_nil_iff.mpr fun levelChunk hmem ↦ by simp [h.1 levelChunk hmem]
    have hnosub : s.pendingCachedSubChunks.filter (completeSubChunk s'.blobStore) = [] :=
      List.filter_eq_nil_iff.mpr fun subChunk hmem ↦ by simp [h.2 subChunk hmem]
    refine ⟨?_, ?_, ?_⟩
    · rw [hlevel, List.filter_eq_self.mpr fun levelChunk hmem ↦ by simp [h.1 levelChunk hmem]]
    · rw [hsub, List.filter_eq_self.mpr fun subChunk hmem ↦ by simp [h.2 subChunk hmem]]
    · rw [hnolevel, hnosub, hworld h]
      rfl

/-- After the level chunks a sub-chunk is refused for the bounds that its column has then. -/
theorem blobRefused_after_iff {filled t : ChunkTracker} (hstore : t.blobStore = filled.blobStore)
    (hworld : (filled.pendingCachedLevelChunks.filter (complete filled.blobStore)).foldlM
      (worldWithLevelChunk ctx filled.blobStore) filled.world = .ok t.world)
    (subChunk : PendingCachedSubChunk) :
    BlobRefused t subChunk ↔ SubChunkRefused ctx filled subChunk := by
  have hbounds := trackedColumn_levelChunks
    (fun levelChunk hmem ↦ (List.mem_filter.mp hmem).2) hworld subChunk.chunkX subChunk.chunkZ
  have hcolumn : columnAfter ctx filled subChunk.chunkX subChunk.chunkZ =
      if ∃ levelChunk ∈ filled.pendingCachedLevelChunks.filter (complete filled.blobStore),
        levelChunk.x = subChunk.chunkX ∧ levelChunk.z = subChunk.chunkZ then
        levelChunkColumn ctx subChunk.chunkX subChunk.chunkZ
      else filled.world.trackedColumn subChunk.chunkX subChunk.chunkZ := by
    rw [columnAfter]
    refine if_congr (exists_congr fun levelChunk ↦ ?_) rfl rfl
    rw [List.mem_filter, and_assoc]
  rw [BlobRefused, SubChunkRefused, hstore, hcolumn]
  simp only [hbounds.networkDecodeSubChunkNoCache]

/-- What a response does once its blobs are stored. -/
theorem completed_retry_iff {filled : ChunkTracker} (h : Incomplete ctx s)
    (hlevel : filled.pendingCachedLevelChunks = s.pendingCachedLevelChunks)
    (hsub : filled.pendingCachedSubChunks = s.pendingCachedSubChunks)
    (hworld : filled.world = s.world) :
    Completed ctx s ((do
        let s ← get
        let stillPending ← s.pendingCachedLevelChunks.foldlM
          (keepPending (tryStoreLevelChunk ctx)) []
        modify fun s ↦ { s with pendingCachedLevelChunks := stillPending }
        let s ← get
        let stillPendingSubChunks ← s.pendingCachedSubChunks.foldlM
          (keepPending tryStoreCachedSubChunk) []
        modify fun s ↦ { s with pendingCachedSubChunks := stillPendingSubChunks } :
      Attempt ChunkTracker Unit) filled).2 ↔
    CompletesAll ctx filled := by
  rw [CompletesAll, NothingComplete, hlevel, hsub, ← NothingComplete]
  have hblobs : ∀ levelChunk ∈ s.pendingCachedLevelChunks, levelChunk.blobHashes ≠ [] := by
    intro levelChunk hmem hnone
    have hincomplete := (h.levelChunks levelChunk hmem).2.2
    rw [complete, hnone] at hincomplete
    cases hincomplete
  rw [Attempt.get_bind, hlevel]
  have hstart : LevelChunksTried ctx filled [] [] filled := ⟨.refl filled, rfl, rfl, rfl⟩
  rcases Attempt.foldlM_run (LevelChunksTried ctx filled) (LevelChunkStops ctx filled)
      (fun pre t ↦ filled.Steady t ∧
        ((∀ levelChunk ∈ pre, complete filled.blobStore levelChunk = false) →
          t.world = filled.world)) s.pendingCachedLevelChunks
      (fun pre levelChunk hmem still t htried hgoes ↦ htried.go (h.levelChunks _ hmem).1
        (h.levelChunks _ hmem).2.1 (hblobs _ hmem) hgoes)
      (fun pre levelChunk hmem still t htried hstops ↦ by
        obtain ⟨e, t', hrun, hsteady, hsame⟩ :=
          htried.stop (h.levelChunks _ hmem).1 (hblobs _ hmem) hstops
        refine ⟨e, t', hrun, hsteady, fun hnone ↦ ?_⟩
        have hworld := htried.world
        rw [List.filter_eq_nil_iff.mpr fun y hy ↦ by simp [hnone y hy]] at hworld
        rw [hsame, ← Except.ok.inj hworld]) hstart with
    ⟨hthrough, still, t, hrun, htried⟩ | ⟨pre, levelChunk, post, hsplit, hpre, hstops, e, t, hrun,
      hsteady, hsame⟩
  · rw [Attempt.bind_run hrun, Attempt.modify_bind, Attempt.get_bind]
    generalize ht : ({ t with pendingCachedLevelChunks := still } : ChunkTracker) = t₁
    have hsub₁ : t₁.pendingCachedSubChunks = s.pendingCachedSubChunks := by
      rw [← ht, ← hsub]
      exact htried.steady.subChunks
    have hstore₁ : t₁.blobStore = filled.blobStore := by
      rw [← ht]
      exact htried.steady.blobStore
    have hworld₁ : (filled.pendingCachedLevelChunks.filter (complete filled.blobStore)).foldlM
        (worldWithLevelChunk ctx filled.blobStore) filled.world = .ok t₁.world := by
      rw [hlevel, ← ht]
      exact htried.world
    have hstill : t₁.pendingCachedLevelChunks = s.pendingCachedLevelChunks.filter
        fun levelChunk ↦ !complete filled.blobStore levelChunk := by
      rw [← ht]
      exact htried.still
    have hrefused := blobRefused_after_iff hstore₁ hworld₁
    rw [hsub₁]
    have hstart₁ : SubChunksTried t₁ [] [] t₁ := ⟨.refl t₁, rfl, rfl, rfl⟩
    rcases Attempt.foldlM_run (SubChunksTried t₁) (fun _ subChunk ↦ BlobRefused t₁ subChunk)
        (fun _ t₂ ↦ t₁.Steady t₂) s.pendingCachedSubChunks
        (fun pre subChunk _ still t₂ htried₁ hgoes ↦ htried₁.go hgoes)
        (fun pre subChunk _ still t₂ htried₁ hstops ↦ htried₁.stop hstops) hstart₁ with
      ⟨hthrough₁, still₁, t₂, hrun₁, htried₁⟩ | ⟨pre, subChunk, post, hsplit, -, hstops, e, t₂, hrun₁,
        hsteady₁⟩
    · rw [Attempt.bind_run hrun₁]
      refine iff_of_true ⟨?_, ?_, ?_⟩ (.inr ⟨hthrough, fun subChunk hmem ↦ ?_⟩)
      · change t₂.pendingCachedLevelChunks = s.pendingCachedLevelChunks.filter
          fun levelChunk ↦ !complete t₂.blobStore levelChunk
        rw [htried₁.alike.levelChunks, htried₁.alike.blobStore, hstore₁, hstill]
      · change still₁ = s.pendingCachedSubChunks.filter
          fun subChunk ↦ !completeSubChunk t₂.blobStore subChunk
        rw [htried₁.still, htried₁.alike.blobStore]
      · change ((s.pendingCachedLevelChunks.filter (complete t₂.blobStore)).foldlM
            (worldWithLevelChunk ctx t₂.blobStore) s.world >>= fun world ↦
          (s.pendingCachedSubChunks.filter (completeSubChunk t₂.blobStore)).foldlM
            (worldWithSubChunk t₂.blobStore) world) = .ok t₂.world
        have hworld₂ := htried₁.world
        rw [hstore₁] at hworld₂
        rw [htried₁.alike.blobStore, hstore₁, ← hlevel, ← hworld, hworld₁, ok_bind, hworld₂]
      · rw [← hrefused]
        exact Attempt.runsThrough_const.mp hthrough₁ subChunk hmem
    · have hmem : subChunk ∈ s.pendingCachedSubChunks := by
        rw [hsplit]
        simp
      have hcomplete : completeSubChunk filled.blobStore subChunk = true := by
        obtain ⟨blob, hblob, -⟩ := hstops
        rw [hstore₁] at hblob
        rw [completeSubChunk, hblob]
        rfl
      rw [Attempt.bind_error hrun₁]
      refine iff_of_false (fun hcompleted ↦ ?_) ?_
      · have hstays : subChunk ∈ t₂.pendingCachedSubChunks := by
          rw [hsteady₁.subChunks, hsub₁]
          exact hmem
        have hsubs := hcompleted.subChunks
        change t₂.pendingCachedSubChunks = s.pendingCachedSubChunks.filter
          fun subChunk ↦ !completeSubChunk t₂.blobStore subChunk at hsubs
        rw [hsubs, hsteady₁.blobStore, hstore₁] at hstays
        simpa [hcomplete] using (List.mem_filter.mp hstays).2
      · rintro (hnothing | ⟨-, hfits⟩)
        · rw [hnothing.2 subChunk hmem] at hcomplete
          cases hcomplete
        · exact hfits subChunk hmem ((hrefused subChunk).mp hstops)
  · rw [Attempt.bind_error hrun]
    change Completed ctx s t ↔ _
    have hstops' : ¬ Attempt.RunsThrough (LevelChunkStops ctx filled)
        s.pendingCachedLevelChunks := fun hthrough ↦ hthrough pre levelChunk post hsplit hstops
    rw [or_iff_left fun hright ↦ hstops' hright.1, ← hsteady.blobStore]
    refine completed_unchanged_iff (hsteady.levelChunks.trans hlevel)
      (hsteady.subChunks.trans hsub) fun hnothing ↦ ?_
    rw [← hworld]
    refine hsame fun y hy ↦ ?_
    rw [← hsteady.blobStore]
    exact hnothing.1 y (by rw [hsplit]; simp [hy])

theorem completed_handleClientCacheMissResponse_iff {payload : List UInt8}
    {blobs : List BedrockCacheBlob} (h : Incomplete ctx s)
    (hdecode : BedrockLevelChunkCodec.decodeClientCacheMissResponsePayload payload = .ok blobs) :
    Completed ctx s (handleClientCacheMissResponse ctx payload s) ↔
      CompletesAll ctx (blobs.foldl storeBlob s) := by
  rw [handleClientCacheMissResponse, Completed.reporting]
  have hblobs : (Attempt.ofExcept (BedrockLevelChunkCodec.decodeClientCacheMissResponsePayload
      payload) : Attempt ChunkTracker _) s = (.ok blobs, s) := by rw [hdecode]; rfl
  obtain ⟨blobStore, metadata, hfilled⟩ := storeBlobs_eq blobs s
  rw [Attempt.bind_run hblobs, Attempt.modify_bind]
  exact completed_retry_iff h (by rw [hfilled]) (by rw [hfilled]) (by rw [hfilled])

end Responses

/-! ## Runs -/

section Runs

variable {ctx : ChunkContext} {s s' : ChunkTracker}

/-- A response that can be read completes what it can. -/
def ResponseCompletes (ctx : ChunkContext) (s : ChunkTracker) (packet : ChunkPacket) : Prop :=
  ∀ payload blobs, packet = .clientCacheMissResponse payload →
    BedrockLevelChunkCodec.decodeClientCacheMissResponsePayload payload = .ok blobs →
    CompletesAll ctx (blobs.foldl storeBlob s)

/-- After a response everything is where it belongs. -/
def CompletedAfter (ctx : ChunkContext) (s : ChunkTracker) (packet : ChunkPacket) : Prop :=
  ∀ payload, packet = .clientCacheMissResponse payload →
    Completed ctx s (handleChunkPacket ctx s packet)

theorem Incomplete.of_completed (h : Incomplete ctx s) (hcompleted : Completed ctx s s') :
    Incomplete ctx s' := by
  refine ⟨fun levelChunk hmem ↦ ?_, fun subChunk hmem ↦ ?_⟩
  · rw [hcompleted.levelChunks] at hmem
    obtain ⟨hmem, hincomplete⟩ := List.mem_filter.mp hmem
    obtain ⟨hcached, hread, -⟩ := h.levelChunks levelChunk hmem
    exact ⟨hcached, hread, by simpa using hincomplete⟩
  · rw [hcompleted.subChunks] at hmem
    simpa using (List.mem_filter.mp hmem).2

theorem completedAfter_iff (h : Incomplete ctx s) (packet : ChunkPacket) :
    CompletedAfter ctx s packet ↔ ResponseCompletes ctx s packet := by
  cases packet with
  | levelChunk payload => exact iff_of_true (fun _ heq ↦ by cases heq) fun _ _ heq ↦ by cases heq
  | subChunk payload => exact iff_of_true (fun _ heq ↦ by cases heq) fun _ _ heq ↦ by cases heq
  | clientCacheMissResponse payload =>
      cases hdecode : BedrockLevelChunkCodec.decodeClientCacheMissResponsePayload payload with
      | ok blobs =>
          have hiff := completed_handleClientCacheMissResponse_iff h hdecode
          constructor
          · intro hcompleted payload' blobs' heq hdecode'
            cases heq
            rw [hdecode] at hdecode'
            obtain rfl := Except.ok.inj hdecode'
            exact hiff.mp (hcompleted payload rfl)
          · intro hcompletes payload' heq
            cases heq
            exact hiff.mpr (hcompletes payload blobs rfl hdecode)
      | error e =>
          have hfails : (Attempt.ofExcept
              (BedrockLevelChunkCodec.decodeClientCacheMissResponsePayload payload) :
              Attempt ChunkTracker _) s = (.error e, s) := by rw [hdecode]; rfl
          refine iff_of_true (fun payload' heq ↦ ?_) fun payload' blobs heq hdecode' ↦ ?_
          · change Completed ctx s (handleClientCacheMissResponse ctx payload s)
            rw [handleClientCacheMissResponse, Completed.reporting, Attempt.bind_error hfails]
            exact (completed_unchanged_iff rfl rfl fun _ ↦ rfl).mpr
              ⟨fun levelChunk hmem ↦ (h.levelChunks levelChunk hmem).2.2, h.subChunks⟩
          · cases heq
            rw [hdecode] at hdecode'
            cases hdecode'

theorem Incomplete.handleLevelChunk (h : Incomplete ctx s) (payload : List UInt8) :
    Incomplete ctx (handleLevelChunk ctx payload s) := by
  obtain ⟨errors, heq⟩ := reporting_eq "level_chunk decode failed: " (do
    let levelChunk ← Attempt.ofExcept (BedrockLevelChunkCodec.decodePacketPayload payload)
    if !(← tryStoreLevelChunk ctx levelChunk) then
      modify fun s ↦
        { s with pendingCachedLevelChunks := s.pendingCachedLevelChunks ++ [levelChunk] }) s
  suffices hincomplete : Incomplete ctx ((do
      let levelChunk ← Attempt.ofExcept (BedrockLevelChunkCodec.decodePacketPayload payload)
      if !(← tryStoreLevelChunk ctx levelChunk) then
        modify fun s ↦
          { s with pendingCachedLevelChunks := s.pendingCachedLevelChunks ++ [levelChunk] } :
      Attempt ChunkTracker Unit) s).2 by
    rw [BedrockNetworkClient.handleLevelChunk, heq]
    exact ⟨hincomplete.levelChunks, hincomplete.subChunks⟩
  have hsteady {t : ChunkTracker} (hsame : s.Steady t) : Incomplete ctx t := by
    refine ⟨?_, ?_⟩
    · rw [hsame.levelChunks, hsame.blobStore]
      exact h.levelChunks
    · rw [hsame.subChunks, hsame.blobStore]
      exact h.subChunks
  cases hdecode : BedrockLevelChunkCodec.decodePacketPayload payload with
  | error e => exact h
  | ok levelChunk =>
      have hlevel : (Attempt.ofExcept (.ok levelChunk) :
          Attempt ChunkTracker BedrockLevelChunkPacket) s = (.ok levelChunk, s) := rfl
      rw [Attempt.bind_run hlevel]
      have hsame := ChunkTracker.Steady.tryStoreLevelChunk ctx levelChunk s
      cases hrun : tryStoreLevelChunk ctx levelChunk s with
      | mk result t =>
          rw [hrun] at hsame
          cases result with
          | error e =>
              rw [Attempt.bind_error hrun]
              exact hsteady hsame
          | ok stored =>
              rw [Attempt.bind_run hrun]
              cases stored with
              | true => exact hsteady hsame
              | false =>
                  refine ⟨fun waiting hmem ↦ ?_, (hsteady hsame).subChunks⟩
                  rcases List.mem_append.mp hmem with hmem | hmem
                  · exact (hsteady hsame).levelChunks waiting hmem
                  · obtain rfl := List.mem_singleton.mp hmem
                    obtain ⟨hcached, hread, hincomplete⟩ := incomplete_of_tryStoreLevelChunk hrun
                    refine ⟨hcached, hread, ?_⟩
                    change complete t.blobStore waiting = false
                    rw [hsame.blobStore]
                    exact hincomplete

/-- A packet of sub-chunks adds some whose blobs are not there. -/
theorem handleSubChunk_adds (ctx : ChunkContext) (payload : List UInt8) (s : ChunkTracker) :
    (handleSubChunk ctx payload s).blobStore = s.blobStore ∧
      (handleSubChunk ctx payload s).pendingCachedLevelChunks = s.pendingCachedLevelChunks ∧
      ∃ packet entries, (handleSubChunk ctx payload s).pendingCachedSubChunks =
        s.pendingCachedSubChunks ++ waitingSubChunks packet s.blobStore entries := by
  obtain ⟨errors, heq⟩ := reporting_eq "subchunk decode failed: " (do
    let packet ← Attempt.ofExcept
      (BedrockSubChunkPacketCodec.decodePacketPayload payload ctx.version)
    let cacheStatus ← packet.entries.foldlM (storeEntry packet) {}
    if cacheStatus.haves ≠ [] ∨ cacheStatus.missing ≠ [] then sendStatus ctx cacheStatus) s
  rw [handleSubChunk, heq]
  dsimp only
  cases hdecode : BedrockSubChunkPacketCodec.decodePacketPayload payload ctx.version with
  | error e => exact ⟨rfl, rfl, {}, [], (List.append_nil _).symm⟩
  | ok packet =>
      have hpacket : (Attempt.ofExcept (.ok packet) :
          Attempt ChunkTracker BedrockSubChunkPacket) s = (.ok packet, s) := rfl
      rw [Attempt.bind_run hpacket]
      rcases walk_cases s packet with ⟨-, t, hrun, hwalked⟩ | ⟨pre, -, e, t, hrun, halike, hpending⟩
      · rw [Attempt.bind_run hrun]
        split
        · have hsent := ChunkTracker.Steady.sendStatus ctx
            (statusOf packet s.blobStore packet.entries) t
          exact ⟨hsent.blobStore.trans hwalked.alike.blobStore,
            hsent.levelChunks.trans hwalked.alike.levelChunks, packet, packet.entries,
            hsent.subChunks.trans hwalked.pending⟩
        · exact ⟨hwalked.alike.blobStore, hwalked.alike.levelChunks, packet, packet.entries,
            hwalked.pending⟩
      · rw [Attempt.bind_error hrun]
        exact ⟨halike.blobStore, halike.levelChunks, packet, pre, hpending⟩

theorem Incomplete.handleSubChunk (h : Incomplete ctx s) (payload : List UInt8) :
    Incomplete ctx (handleSubChunk ctx payload s) := by
  obtain ⟨hstore, hlevel, packet, entries, hpending⟩ := handleSubChunk_adds ctx payload s
  refine ⟨?_, fun subChunk hmem ↦ ?_⟩
  · rw [hlevel, hstore]
    exact h.levelChunks
  · rw [hpending] at hmem
    rw [hstore]
    rcases List.mem_append.mp hmem with hmem | hmem
    · exact h.subChunks subChunk hmem
    · rw [completeSubChunk, lookup_of_mem_waitingSubChunks hmem]
      rfl

theorem Incomplete.handleChunkPacket (h : Incomplete ctx s) (packet : ChunkPacket)
    (hcompleted : CompletedAfter ctx s packet) : Incomplete ctx (handleChunkPacket ctx s packet) := by
  cases packet with
  | levelChunk payload => exact h.handleLevelChunk payload
  | subChunk payload => exact h.handleSubChunk payload
  | clientCacheMissResponse payload => exact h.of_completed (hcompleted payload rfl)

/-- In a run, everything is where it belongs after every response exactly when every response
that can be read can store what it completes. -/
theorem completed_always_iff (ctx : ChunkContext) (world : BedrockWorld)
    (packets : List ChunkPacket) :
    (∀ seen payload, seen ++ [.clientCacheMissResponse payload] <+: packets →
      Completed ctx (run (handleChunkPacket ctx) { world } seen)
        (run (handleChunkPacket ctx) { world } (seen ++ [.clientCacheMissResponse payload]))) ↔
      AllSteps (handleChunkPacket ctx) (ResponseCompletes ctx) { world } packets := by
  have hstart : Incomplete ctx { world } :=
    ⟨fun levelChunk hmem ↦ absurd hmem List.not_mem_nil,
      fun subChunk hmem ↦ absurd hmem List.not_mem_nil⟩
  have hiff : AllSteps (handleChunkPacket ctx) (CompletedAfter ctx) { world } packets ↔
      AllSteps (handleChunkPacket ctx) (ResponseCompletes ctx) { world } packets :=
    allSteps_iff (fun s packet h ↦ completedAfter_iff h packet)
      (fun s packet h hcompletes ↦
        h.handleChunkPacket packet ((completedAfter_iff h packet).mpr hcompletes)) packets hstart
  rw [← hiff, allSteps_iff_prefix]
  constructor
  · rintro hall seen packet hseen payload rfl
    have hcompleted := hall seen payload hseen
    rw [run_append] at hcompleted
    exact hcompleted
  · intro hall seen payload hseen
    rw [run_append]
    exact hall seen _ hseen payload rfl

end Runs

/-- Two cached sub-chunks, one above the other, that wait for blobs 5 and 6. -/
def twoSubChunksPayload : List UInt8 :=
  [1, 0, 0, 0, 0, 2, 0, 0, 0, 0, 0, 0, 1, 0, 0, 5, 0, 0, 0, 0, 0, 0, 0, 0, 1, 0, 1, 0, 0, 6, 0, 0, 0,
    0, 0, 0, 0]

/-- Blob 5 is empty, blob 6 is a section with one layer. -/
def emptyBlobPayload : List UInt8 :=
  [2, 5, 0, 0, 0, 0, 0, 0, 0, 0, 6, 0, 0, 0, 0, 0, 0, 0, 5, 9, 1, 1, 1, 0]

/-- The empty blob keeps the sub-chunk behind it from being stored. -/
theorem good_blob_behind_empty_blob :
    ¬ Completed sendingContext
      (run (handleChunkPacket sendingContext) emptyTracker [.subChunk twoSubChunksPayload])
      (run (handleChunkPacket sendingContext) emptyTracker
        [.subChunk twoSubChunksPayload, .clientCacheMissResponse emptyBlobPayload]) := by
  intro h
  have hpending : (run (handleChunkPacket sendingContext) emptyTracker
      [.subChunk twoSubChunksPayload,
        .clientCacheMissResponse emptyBlobPayload]).pendingCachedSubChunks =
      [⟨0, 0, 0, 5, []⟩, ⟨0, 1, 0, 6, []⟩] := rfl
  have hthere : completeSubChunk (run (handleChunkPacket sendingContext) emptyTracker
      [.subChunk twoSubChunksPayload,
        .clientCacheMissResponse emptyBlobPayload]).blobStore ⟨0, 1, 0, 6, []⟩ = true := rfl
  have hmem : (⟨0, 1, 0, 6, []⟩ : PendingCachedSubChunk) ∈ (run (handleChunkPacket sendingContext)
      emptyTracker [.subChunk twoSubChunksPayload,
        .clientCacheMissResponse emptyBlobPayload]).pendingCachedSubChunks := by
    rw [hpending]
    simp
  rw [h.subChunks] at hmem
  have hincomplete := (List.mem_filter.mp hmem).2
  rw [hthere] at hincomplete
  cases hincomplete

end BedrockNetworkClient

end BedrockProtocol
