import BedrockProtocol.Client.ChunkTracker

/-!
# What cached sub-chunks wait for

A cached sub-chunk whose blob is not there waits in a list, and the client asks for the blob in
the status that it sends at the end of the packet.  An entry that cannot be stored ends the walk
through the packet before that, and then the hashes that wait for the entries in front of it have
not been asked for, unless an earlier status did.
-/

namespace BedrockProtocol

namespace BedrockNetworkClient

open ChunkTracker

/-- The hash is missing in a status that was sent. -/
def AskedFor (s : ChunkTracker) (hash : UInt64) : Prop :=
  ∃ status ∈ s.sent, hash ∈ status.missing

/-- The blobs that sub-chunks wait for were asked for, or are there. -/
def Requested (s : ChunkTracker) : Prop :=
  ∀ subChunk ∈ s.pendingCachedSubChunks,
    AskedFor s subChunk.hash ∨ (s.blobStore.lookup subChunk.hash).isSome

/-! ## Entries -/

section Entries

variable (packet : BedrockSubChunkPacket) (entry : BedrockSubChunkPacketEntry)

def entryX : ℤ := wrap32 (packet.originX.toInt + entry.dx.toInt)

def entryY : ℤ := wrap32 (packet.originY.toInt + entry.dy.toInt)

def entryZ : ℤ := wrap32 (packet.originZ.toInt + entry.dz.toInt)

/-- What an entry without a blob does to its column. -/
def entryChange (column : BedrockChunkColumn) : Except String Unit × BedrockChunkColumn :=
  if entry.result = .successAllAir then
    column.changed (column.setSection (entryY packet entry)
      (.createAir (Int8.ofInt (entryY packet entry)) 0))
  else column.networkDecodeSubChunkNoCache (entryY packet entry) entry.payload

/-- An entry that changes its column at once. -/
def ChangesColumn : Prop :=
  entry.result = .successAllAir ∨ (entry.result = .success ∧ packet.cacheEnabled = false)

/-- The sub-chunk whose section is a blob. -/
def cachedSubChunk : Option PendingCachedSubChunk :=
  if entry.result = .success ∧ packet.cacheEnabled = true then
    entry.blobId.map (pendingOf packet entry)
  else none

/-- An entry that cannot be stored. -/
def EntryRefused (s : ChunkTracker) : Prop :=
  (ChangesColumn packet entry ∧
      Throws (entryChange packet entry
        (s.world.trackedColumn (entryX packet entry) (entryZ packet entry))).1) ∨
    (entry.result = .success ∧ packet.cacheEnabled = true ∧ entry.blobId = none) ∨
    ∃ subChunk, cachedSubChunk packet entry = some subChunk ∧ BlobRefused s subChunk

/-- The sub-chunk of an entry when its blob is not there. -/
def waitingSubChunk (blobStore : BedrockBlobStore) : Option PendingCachedSubChunk :=
  (cachedSubChunk packet entry).filter fun subChunk ↦ (blobStore.lookup subChunk.hash).isNone

def storedSubChunk (blobStore : BedrockBlobStore) : Option PendingCachedSubChunk :=
  (cachedSubChunk packet entry).filter fun subChunk ↦ (blobStore.lookup subChunk.hash).isSome

variable {packet entry}

theorem entryChange_sameBounds (column : BedrockChunkColumn) :
    (entryChange packet entry column).2.SameBounds column := by
  rw [entryChange]
  split
  · exact column.changed_setSection_sameBounds _ _
  · exact column.networkDecodeSubChunkNoCache_sameBounds _ _

theorem entryChange_result {column column' : BedrockChunkColumn} (h : column.SameBounds column') :
    (entryChange packet entry column).1 = (entryChange packet entry column').1 := by
  rw [entryChange, entryChange]
  split
  · exact h.changed_setSection _ _
  · exact h.networkDecodeSubChunkNoCache _ _

/-- Whether an entry is refused does not depend on what was stored before it. -/
theorem ChunkTracker.Alike.entryRefused_iff {s s' : ChunkTracker} (h : s.Alike s') :
    EntryRefused packet entry s' ↔ EntryRefused packet entry s := by
  rw [EntryRefused, EntryRefused, entryChange_result (h.bounds _ _)]
  simp only [h.blobRefused_iff]

/-! ## One entry -/

/-- How an entry can turn out. -/
inductive EntryKind (packet : BedrockSubChunkPacket) (entry : BedrockSubChunkPacketEntry) : Prop
  | changes (hkind : ChangesColumn packet entry) (hcached : cachedSubChunk packet entry = none)
      (hrun : ∀ status, storeEntry packet status entry = (do
        inColumn (entryX packet entry) (entryZ packet entry) (entryChange packet entry)
        pure status))
  | skipped (hkind : ¬ ChangesColumn packet entry) (hcached : cachedSubChunk packet entry = none)
      (hid : ¬ (entry.result = .success ∧ packet.cacheEnabled = true ∧ entry.blobId = none))
      (hrun : ∀ status, storeEntry packet status entry = pure status)
  | nameless (hcached : cachedSubChunk packet entry = none)
      (hid : entry.result = .success ∧ packet.cacheEnabled = true ∧ entry.blobId = none)
      (hrun : ∀ status, storeEntry packet status entry =
        throw "cached subchunk response is missing blob id")
  | cached (hkind : ¬ ChangesColumn packet entry) (hash : UInt64)
      (hid : ¬ (entry.result = .success ∧ packet.cacheEnabled = true ∧ entry.blobId = none))
      (hcached : cachedSubChunk packet entry = some (pendingOf packet entry hash))
      (hrun : ∀ status, storeEntry packet status entry = (do
        modify (setMetadata hash { type := .chunkSection, x := entryX packet entry,
                                   y := entryY packet entry, z := entryZ packet entry })
        if ← tryStoreCachedSubChunk (pendingOf packet entry hash) then
          pure { status with haves := status.haves ++ [hash] }
        else
          modify fun s ↦ { s with
            pendingCachedSubChunks := s.pendingCachedSubChunks ++ [pendingOf packet entry hash] }
          pure { status with missing := status.missing ++ [hash] }))

theorem entryKind (packet : BedrockSubChunkPacket) (entry : BedrockSubChunkPacketEntry) :
    EntryKind packet entry := by
  by_cases hair : entry.result = .successAllAir
  · refine .changes (.inl hair) (by simp [cachedSubChunk, hair]) fun status ↦ ?_
    have hchange : entryChange packet entry = fun column ↦ column.changed
        (column.setSection (entryY packet entry)
          (.createAir (Int8.ofInt (entryY packet entry)) 0)) := by
      funext column
      rw [entryChange, if_pos hair]
    rw [storeEntry, if_pos hair, hchange]
    rfl
  by_cases hsuccess : entry.result = .success
  · cases hcache : packet.cacheEnabled with
    | false =>
        refine .changes (.inr ⟨hsuccess, hcache⟩) (by simp [cachedSubChunk, hcache]) fun status ↦ ?_
        have hchange : entryChange packet entry = fun column ↦
            column.networkDecodeSubChunkNoCache (entryY packet entry) entry.payload := by
          funext column
          rw [entryChange, if_neg hair]
        rw [storeEntry, if_neg hair, if_neg (not_not.mpr hsuccess), if_pos hcache, hchange]
        rfl
    | true =>
        have hkind : ¬ ChangesColumn packet entry := by simp [ChangesColumn, hair, hcache]
        cases hid : entry.blobId with
        | none =>
            refine .nameless (by simp [cachedSubChunk, hid]) ⟨hsuccess, hcache, hid⟩ fun status ↦ ?_
            rw [storeEntry, if_neg hair, if_neg (not_not.mpr hsuccess), if_neg (by simp [hcache]),
              hid]
        | some hash =>
            refine .cached hkind hash (by simp [hid]) (by simp [cachedSubChunk, hsuccess, hcache, hid])
              fun status ↦ ?_
            rw [storeEntry, if_neg hair, if_neg (not_not.mpr hsuccess), if_neg (by simp [hcache]),
              hid]
            rfl
  · refine .skipped (by simp [ChangesColumn, hair, hsuccess]) (by simp [cachedSubChunk, hsuccess])
      (by simp [hsuccess]) fun status ↦ ?_
    rw [storeEntry, if_neg hair, if_pos hsuccess]

end Entries

/-! ## The walk through a packet -/

section Walk

variable (packet : BedrockSubChunkPacket) (blobStore : BedrockBlobStore)
  (entries : List BedrockSubChunkPacketEntry)

def waitingSubChunks : List PendingCachedSubChunk :=
  entries.filterMap fun entry ↦ waitingSubChunk packet entry blobStore

/-- The status of the entries. -/
def statusOf : BedrockClientCacheBlobStatus where
  missing := (waitingSubChunks packet blobStore entries).map (·.hash)
  haves := (entries.filterMap fun entry ↦ storedSubChunk packet entry blobStore).map (·.hash)

/-- The walk from `s` has come past the entries. -/
structure Walked (s : ChunkTracker) (status : BedrockClientCacheBlobStatus) (s' : ChunkTracker) :
    Prop where
  alike : s.Alike s'
  pending : s'.pendingCachedSubChunks =
    s.pendingCachedSubChunks ++ waitingSubChunks packet s.blobStore entries
  status : status = statusOf packet s.blobStore entries

variable {packet blobStore entries} {entry : BedrockSubChunkPacketEntry}
  {s s' : ChunkTracker} {status : BedrockClientCacheBlobStatus}

theorem waitingSubChunks_append :
    waitingSubChunks packet blobStore (entries ++ [entry]) =
      waitingSubChunks packet blobStore entries ++
        (waitingSubChunk packet entry blobStore).toList := by
  rw [waitingSubChunks, List.filterMap_append]
  cases hwaits : waitingSubChunk packet entry blobStore <;>
    simp [List.filterMap, hwaits, waitingSubChunks]

theorem statusOf_append :
    statusOf packet blobStore (entries ++ [entry]) =
      { missing := (statusOf packet blobStore entries).missing ++
          (waitingSubChunk packet entry blobStore).toList.map (·.hash)
        haves := (statusOf packet blobStore entries).haves ++
          (storedSubChunk packet entry blobStore).toList.map (·.hash) } := by
  rw [statusOf, waitingSubChunks_append, List.map_append, List.filterMap_append, List.map_append]
  cases hstored : storedSubChunk packet entry blobStore <;> simp [List.filterMap, hstored, statusOf]

/-- An entry without a blob adds nothing to what waits. -/
theorem Walked.unwaited (h : Walked packet entries s status s')
    (hcached : cachedSubChunk packet entry = none) {s'' : ChunkTracker} (halike : s'.Alike s'')
    (hpending : s''.pendingCachedSubChunks = s'.pendingCachedSubChunks) :
    Walked packet (entries ++ [entry]) s status s'' := by
  have hwaits : waitingSubChunk packet entry s.blobStore = none := by
    rw [waitingSubChunk, hcached]
    rfl
  have hstored : storedSubChunk packet entry s.blobStore = none := by
    rw [storedSubChunk, hcached]
    rfl
  refine ⟨h.alike.trans halike, ?_, ?_⟩
  · rw [hpending, h.pending, waitingSubChunks_append, hwaits]
    simp
  · rw [statusOf_append, hwaits, hstored, h.status]
    simp

/-- The walk goes on behind an entry that is not refused. -/
theorem Walked.go (h : Walked packet entries s status s') (hstored : ¬ EntryRefused packet entry s) :
    ∃ status' s'', storeEntry packet status entry s' = (.ok status', s'') ∧
      Walked packet (entries ++ [entry]) s status' s'' := by
  rcases entryKind packet entry with ⟨hkind, hcached, hrun⟩ | ⟨-, hcached, -, hrun⟩ |
    ⟨-, hid, -⟩ | ⟨-, hash, -, hcached, hrun⟩
  · cases hresult : (entryChange packet entry
        (s'.world.trackedColumn (entryX packet entry) (entryZ packet entry))).1 with
    | error e =>
        exact absurd (h.alike.entryRefused_iff.mp (.inl ⟨hkind, e, hresult⟩)) hstored
    | ok _ =>
        rw [hrun, Attempt.bind_run (inColumn_eq hresult)]
        exact ⟨_, _, rfl, h.unwaited hcached (alike_inColumn entryChange_sameBounds s') rfl⟩
  · rw [hrun]
    exact ⟨_, _, rfl, h.unwaited hcached (.refl s') rfl⟩
  · exact absurd (.inr (.inl hid)) hstored
  · have hblob : ¬ BlobRefused s (pendingOf packet entry hash) := fun hrefused ↦
      hstored (.inr (.inr ⟨_, hcached, hrefused⟩))
    rw [hrun, Attempt.modify_bind]
    generalize hnoted : setMetadata hash _ s' = noted
    have hsame : s'.Alike noted := by
      rw [← hnoted]
      exact ⟨rfl, rfl, rfl, rfl, fun _ _ ↦ .refl _⟩
    have hpending : noted.pendingCachedSubChunks = s'.pendingCachedSubChunks := by rw [← hnoted]; rfl
    have hstore : noted.blobStore = s.blobStore := hsame.blobStore.trans h.alike.blobStore
    cases hlookup : s.blobStore.lookup hash with
    | none =>
        have hmissing : noted.blobStore.lookup (pendingOf packet entry hash).hash = none := by
          rw [hstore]
          exact hlookup
        have hwaits : waitingSubChunk packet entry s.blobStore =
            some (pendingOf packet entry hash) := by
          simp [waitingSubChunk, hcached, pendingOf, hlookup]
        have hhas : storedSubChunk packet entry s.blobStore = none := by
          simp [storedSubChunk, hcached, pendingOf, hlookup]
        rw [Attempt.bind_run (tryStoreCachedSubChunk_missing hmissing)]
        refine ⟨_, _, rfl, h.alike.trans (hsame.trans ⟨rfl, rfl, rfl, rfl, fun _ _ ↦ .refl _⟩),
          ?_, ?_⟩
        · rw [waitingSubChunks_append, hwaits, ← List.append_assoc, ← h.pending, ← hpending]
          rfl
        · rw [statusOf_append, hwaits, hhas, h.status]
          simp [pendingOf]
    | some blob =>
        have hthere : noted.blobStore.lookup (pendingOf packet entry hash).hash = some blob := by
          rw [hstore]
          exact hlookup
        have hwaits : waitingSubChunk packet entry s.blobStore = none := by
          simp [waitingSubChunk, hcached, pendingOf, hlookup]
        have hhas : storedSubChunk packet entry s.blobStore =
            some (pendingOf packet entry hash) := by
          simp [storedSubChunk, hcached, pendingOf, hlookup]
        have hfits := fun hrefused ↦ hblob (((h.alike.trans hsame).blobRefused_iff _).mp hrefused)
        rw [Attempt.bind_run (tryStoreCachedSubChunk_stored hthere hfits)]
        have hafter := (alike_withSubChunk noted (pendingOf packet entry hash) blob)
        refine ⟨_, _, rfl, h.alike.trans (hsame.trans (hafter.trans
          ⟨rfl, rfl, rfl, rfl, fun _ _ ↦ .refl _⟩)), ?_, ?_⟩
        · rw [waitingSubChunks_append, hwaits, Option.toList_none, List.append_nil, ← h.pending,
            ← hpending]
          rfl
        · rw [statusOf_append, hwaits, hhas, h.status]
          simp [pendingOf]

/-- The walk stops at an entry that is refused, with what waits by then. -/
theorem Walked.stop (h : Walked packet entries s status s') (hrefused : EntryRefused packet entry s) :
    ∃ e s'', storeEntry packet status entry s' = (.error e, s'') ∧ s.Alike s'' ∧
      s''.pendingCachedSubChunks =
        s.pendingCachedSubChunks ++ waitingSubChunks packet s.blobStore entries := by
  have hrefused' := h.alike.entryRefused_iff.mpr hrefused
  rcases entryKind packet entry with ⟨hkind, hcached, hrun⟩ | ⟨hkind, hcached, hid, -⟩ |
    ⟨-, -, hrun⟩ | ⟨hkind, hash, hid, hcached, hrun⟩
  · obtain ⟨e, hresult⟩ : Throws (entryChange packet entry
        (s'.world.trackedColumn (entryX packet entry) (entryZ packet entry))).1 := by
      rcases hrefused' with ⟨-, hthrows⟩ | hid | ⟨_, hsome, -⟩
      · exact hthrows
      · rcases hkind with hair | ⟨-, hcache⟩
        · rw [hair] at hid
          cases hid.1
        · rw [hcache] at hid
          cases hid.2.1
      · rw [hcached] at hsome
        cases hsome
    rw [hrun, Attempt.bind_error (inColumn_eq hresult)]
    exact ⟨e, _, rfl, h.alike.trans (alike_inColumn entryChange_sameBounds s'), h.pending⟩
  · rcases hrefused with ⟨hchanges, -⟩ | hnone | ⟨_, hsome, -⟩
    · exact absurd hchanges hkind
    · exact absurd hnone hid
    · rw [hcached] at hsome
      cases hsome
  · rw [hrun]
    exact ⟨_, _, rfl, h.alike, h.pending⟩
  · obtain ⟨_, hsome, hblob⟩ := (hrefused'.resolve_left fun hchanges ↦ hkind hchanges.1).resolve_left
      hid
    rw [hcached] at hsome
    obtain rfl := Option.some.inj hsome
    rw [hrun, Attempt.modify_bind]
    generalize hnoted : setMetadata hash _ s' = noted
    have hsame : s'.Alike noted := by
      rw [← hnoted]
      exact ⟨rfl, rfl, rfl, rfl, fun _ _ ↦ .refl _⟩
    obtain ⟨e, s'', hstore, halike, hpending⟩ :=
      tryStoreCachedSubChunk_refused ((hsame.blobRefused_iff _).mpr hblob)
    rw [Attempt.bind_error hstore]
    refine ⟨e, s'', rfl, h.alike.trans (hsame.trans halike), ?_⟩
    rw [hpending, ← h.pending, ← hnoted]
    rfl

end Walk

/-! ## Packets of sub-chunks -/

/-- The entries in front of the first one that is refused. -/
def FirstRefused (s : ChunkTracker) (packet : BedrockSubChunkPacket)
    (pre : List BedrockSubChunkPacketEntry) : Prop :=
  ∃ entry post, packet.entries = pre ++ entry :: post ∧
    (∀ earlier ∈ pre, ¬ EntryRefused packet earlier s) ∧ EntryRefused packet entry s

/-- What waits in front of the first refused entry was asked for before, and so was all that
waits when no entry is refused and the status cannot be sent. -/
structure KeepsRequests (ctx : ChunkContext) (s : ChunkTracker) (packet : BedrockSubChunkPacket) :
    Prop where
  refused : ∀ pre, FirstRefused s packet pre →
    ∀ subChunk ∈ waitingSubChunks packet s.blobStore pre, AskedFor s subChunk.hash
  unsent : (∀ entry ∈ packet.entries, ¬ EntryRefused packet entry s) →
    (ctx.sendFailure s.sends (BedrockLevelChunkCodec.encodeClientCacheBlobStatusPayload
      (statusOf packet s.blobStore packet.entries))).isSome →
    ∀ subChunk ∈ waitingSubChunks packet s.blobStore packet.entries, AskedFor s subChunk.hash

section Packets

variable {ctx : ChunkContext} {packet : BedrockSubChunkPacket} {s s' : ChunkTracker}
  {entries : List BedrockSubChunkPacketEntry}

theorem lookup_of_mem_waitingSubChunks {blobStore : BedrockBlobStore}
    {subChunk : PendingCachedSubChunk} (h : subChunk ∈ waitingSubChunks packet blobStore entries) :
    blobStore.lookup subChunk.hash = none := by
  obtain ⟨entry, -, hwaits⟩ := List.mem_filterMap.mp h
  exact Option.isNone_iff_eq_none.mp (Option.filter_eq_some_iff.mp hwaits).2

/-- Sub-chunks that wait without another status. -/
theorem requested_unsent_iff (h : Requested s) (hstore : s'.blobStore = s.blobStore)
    (hsent : s'.sent = s.sent) (hpending : s'.pendingCachedSubChunks =
      s.pendingCachedSubChunks ++ waitingSubChunks packet s.blobStore entries) :
    Requested s' ↔
      ∀ subChunk ∈ waitingSubChunks packet s.blobStore entries, AskedFor s subChunk.hash := by
  have hasked (hash : UInt64) : AskedFor s' hash ↔ AskedFor s hash := by
    rw [AskedFor, AskedFor, hsent]
  simp only [Requested, hpending, hstore, hasked]
  constructor
  · intro hall subChunk hmem
    refine (hall subChunk (List.mem_append_right _ hmem)).resolve_right ?_
    rw [lookup_of_mem_waitingSubChunks hmem]
    simp
  · intro hall subChunk hmem
    rcases List.mem_append.mp hmem with hmem | hmem
    · exact h subChunk hmem
    · exact .inl (hall subChunk hmem)

/-- What a handler leaves behind, apart from the errors. -/
theorem reporting_eq (what : String) (x : Attempt ChunkTracker Unit) (s : ChunkTracker) :
    ∃ errors, reporting what x s = { (x s).2 with errors := errors } := by
  rw [reporting]
  cases hrun : x s with
  | mk result s' =>
      cases result with
      | ok _ => exact ⟨s'.errors, rfl⟩
      | error e => exact ⟨_, rfl⟩

theorem requested_reporting_iff {what : String} {x : Attempt ChunkTracker Unit} :
    Requested (reporting what x s) ↔ Requested (x s).2 := by
  obtain ⟨errors, heq⟩ := reporting_eq what x s
  rw [heq]
  rfl

/-- The walk through a packet: past all of its entries, or up to the first one that is refused. -/
theorem walk_cases (s : ChunkTracker) (packet : BedrockSubChunkPacket) :
    ((∀ entry ∈ packet.entries, ¬ EntryRefused packet entry s) ∧
        ∃ t, packet.entries.foldlM (storeEntry packet) {} s =
            (.ok (statusOf packet s.blobStore packet.entries), t) ∧
          Walked packet packet.entries s (statusOf packet s.blobStore packet.entries) t) ∨
      ∃ pre, FirstRefused s packet pre ∧
        ∃ e t, packet.entries.foldlM (storeEntry packet) {} s = (.error e, t) ∧ s.Alike t ∧
          t.pendingCachedSubChunks =
            s.pendingCachedSubChunks ++ waitingSubChunks packet s.blobStore pre := by
  have hstart : Walked packet [] s {} s := ⟨.refl s, by simp [waitingSubChunks], rfl⟩
  rcases Attempt.foldlM_run (fun pre status t ↦ Walked packet pre s status t)
      (fun _ entry ↦ EntryRefused packet entry s)
      (fun pre t ↦ s.Alike t ∧ t.pendingCachedSubChunks =
        s.pendingCachedSubChunks ++ waitingSubChunks packet s.blobStore pre) packet.entries
      (fun pre entry _ status t hwalked hstored ↦ hwalked.go hstored)
      (fun pre entry _ status t hwalked hrefused ↦ hwalked.stop hrefused) hstart with
    ⟨hnone, status, t, hrun, hwalked⟩ | ⟨pre, entry, post, hsplit, hpre, hrefused, hstopped⟩
  · obtain rfl := hwalked.status
    exact .inl ⟨Attempt.runsThrough_const.mp hnone, t, hrun, hwalked⟩
  · exact .inr ⟨pre, ⟨entry, post, hsplit, Attempt.runsThrough_const.mp hpre, hrefused⟩, hstopped⟩

/-- The end of the handler, behind a walk past all entries. -/
theorem requested_sendStatus_iff {t : ChunkTracker} (h : Requested s)
    (hwalked : Walked packet packet.entries s (statusOf packet s.blobStore packet.entries) t) :
    Requested ((do
        if (statusOf packet s.blobStore packet.entries).haves ≠ [] ∨
            (statusOf packet s.blobStore packet.entries).missing ≠ [] then
          sendStatus ctx (statusOf packet s.blobStore packet.entries) :
        Attempt ChunkTracker Unit) t).2 ↔
      ((ctx.sendFailure s.sends (BedrockLevelChunkCodec.encodeClientCacheBlobStatusPayload
          (statusOf packet s.blobStore packet.entries))).isSome →
        ∀ subChunk ∈ waitingSubChunks packet s.blobStore packet.entries,
          AskedFor s subChunk.hash) := by
  have hunsent := fun (t' : ChunkTracker) (hstore : t'.blobStore = t.blobStore)
      (hsent : t'.sent = t.sent)
      (hpending : t'.pendingCachedSubChunks = t.pendingCachedSubChunks) ↦
    requested_unsent_iff h (hstore.trans hwalked.alike.blobStore)
      (hsent.trans hwalked.alike.sent) (hpending.trans hwalked.pending)
  split
  · rw [sendStatus, hwalked.alike.sends]
    cases ctx.sendFailure s.sends (BedrockLevelChunkCodec.encodeClientCacheBlobStatusPayload
        (statusOf packet s.blobStore packet.entries)) with
    | some e =>
        refine (hunsent { t with sends := s.sends + 1 } rfl rfl rfl).trans ?_
        simp
    | none =>
        refine iff_of_true (fun subChunk hmem ↦ ?_) (by simp)
        change subChunk ∈ t.pendingCachedSubChunks at hmem
        change AskedFor { t with sent := t.sent ++ [statusOf packet s.blobStore packet.entries] } _ ∨
          (t.blobStore.lookup _).isSome
        rw [AskedFor, hwalked.alike.blobStore, hwalked.alike.sent]
        rw [hwalked.pending] at hmem
        rcases List.mem_append.mp hmem with hmem | hmem
        · rcases h subChunk hmem with ⟨old, hold, hmissing⟩ | hthere
          · exact .inl ⟨old, List.mem_append_left _ hold, hmissing⟩
          · exact .inr hthere
        · exact .inl ⟨statusOf packet s.blobStore packet.entries, by simp,
            List.mem_map_of_mem hmem⟩
  · rename_i hempty
    have hnothing : waitingSubChunks packet s.blobStore packet.entries = [] := by
      by_contra hwaits
      exact hempty (.inr fun hmissing ↦ hwaits (List.map_eq_nil_iff.mp hmissing))
    refine (hunsent t rfl rfl rfl).trans ?_
    rw [hnothing]
    simp

/-- A packet of sub-chunks keeps the requests exactly when its entries allow it. -/
theorem requested_handleSubChunk_iff {payload : List UInt8} (h : Requested s)
    (hdecode : BedrockSubChunkPacketCodec.decodePacketPayload payload ctx.version = .ok packet) :
    Requested (handleSubChunk ctx payload s) ↔ KeepsRequests ctx s packet := by
  rw [handleSubChunk, requested_reporting_iff]
  have hpacket : (Attempt.ofExcept (BedrockSubChunkPacketCodec.decodePacketPayload payload
      ctx.version) : Attempt ChunkTracker _) s = (.ok packet, s) := by rw [hdecode]; rfl
  rw [Attempt.bind_run hpacket]
  rcases walk_cases s packet with ⟨hstored, t, hrun, hwalked⟩ | ⟨pre, hfirst, e, t, hrun, halike,
    hpending⟩
  · have hnofirst : ∀ pre, ¬ FirstRefused s packet pre := by
      rintro pre ⟨entry, post, hsplit, -, hrefused⟩
      exact hstored entry (by rw [hsplit]; simp) hrefused
    rw [Attempt.bind_run hrun]
    exact (requested_sendStatus_iff h hwalked).trans
      ⟨fun hunsent ↦ ⟨fun pre hfirst ↦ absurd hfirst (hnofirst pre), fun _ ↦ hunsent⟩,
        fun hkeeps ↦ hkeeps.unsent hstored⟩
  · rw [Attempt.bind_error hrun]
    change Requested t ↔ _
    rw [requested_unsent_iff h halike.blobStore halike.sent hpending]
    obtain ⟨entry, post, hsplit, hpre, hrefused⟩ := id hfirst
    constructor
    · intro hasked
      refine ⟨?_, fun hstored ↦ absurd hrefused (hstored entry (by rw [hsplit]; simp))⟩
      rintro pre' ⟨entry', post', hsplit', hpre', hrefused'⟩
      obtain rfl := Attempt.front_of_first_unique (hsplit.symm.trans hsplit') hpre hrefused hpre'
        hrefused'
      exact hasked
    · intro hkeeps
      exact hkeeps.refused pre hfirst

end Packets

/-! ## The other packets -/

/-- What waits and what is there stays, and what was asked for stays so. -/
structure ChunkTracker.Steady (s s' : ChunkTracker) : Prop where
  asked (hash : UInt64) : AskedFor s hash → AskedFor s' hash
  blobStore : s'.blobStore = s.blobStore
  levelChunks : s'.pendingCachedLevelChunks = s.pendingCachedLevelChunks
  subChunks : s'.pendingCachedSubChunks = s.pendingCachedSubChunks

namespace ChunkTracker.Steady

variable {s s' : ChunkTracker}

theorem of_sent (hsent : s'.sent = s.sent) (hstore : s'.blobStore = s.blobStore)
    (hlevel : s'.pendingCachedLevelChunks = s.pendingCachedLevelChunks)
    (hsub : s'.pendingCachedSubChunks = s.pendingCachedSubChunks) : s.Steady s' :=
  ⟨fun hash h ↦ by rwa [AskedFor, hsent], hstore, hlevel, hsub⟩

theorem refl (s : ChunkTracker) : s.Steady s := .of_sent rfl rfl rfl rfl

theorem trans (s s' s'' : ChunkTracker) (h : s.Steady s') (h' : s'.Steady s'') : s.Steady s'' where
  asked hash hasked := h'.asked hash (h.asked hash hasked)
  blobStore := h'.blobStore.trans h.blobStore
  levelChunks := h'.levelChunks.trans h.levelChunks
  subChunks := h'.subChunks.trans h.subChunks

theorem noteBlobs (levelChunk : BedrockLevelChunkPacket) (s : ChunkTracker) :
    s.Steady (noteBlobs levelChunk s) := by
  rw [BedrockNetworkClient.noteBlobs]
  induction levelChunk.blobHashes.zipIdx generalizing s with
  | nil => exact refl s
  | cons item items ih =>
      exact trans s (s.setMetadata item.1 (levelChunkMetadata levelChunk item.2)) _
        (of_sent rfl rfl rfl rfl) (ih _)

variable (ctx : ChunkContext)

open Attempt (Keeps)

theorem sendStatus (status : BedrockClientCacheBlobStatus) :
    Keeps Steady (sendStatus ctx status) := by
  intro s
  rw [BedrockNetworkClient.sendStatus]
  split
  · exact of_sent rfl rfl rfl rfl
  · refine ⟨fun hash ⟨old, hold, hmissing⟩ ↦ ⟨old, ?_, hmissing⟩, rfl, rfl, rfl⟩
    exact List.mem_append_left _ hold

theorem tryStoreLevelChunk (levelChunk : BedrockLevelChunkPacket) :
    Keeps Steady (tryStoreLevelChunk ctx levelChunk) := by
  have hstored (column : BedrockChunkColumn) : Keeps Steady (do
      modify (setLoadedColumn levelChunk.x levelChunk.z column)
      pure true : Attempt ChunkTracker Bool) :=
    .bind trans (.modify fun _ ↦ of_sent rfl rfl rfl rfl) fun _ ↦ .pure refl _
  rw [BedrockNetworkClient.tryStoreLevelChunk]
  split
  · exact .bind trans (.ofExcept refl _) hstored
  · refine .bind trans (.modify (noteBlobs levelChunk)) fun _ ↦ .bind trans (.get refl) fun s ↦ ?_
    have hdecoded : Keeps Steady (do
        let found ← Attempt.ofExcept (decodeCachedColumn ctx s.blobStore levelChunk)
        if found.1 ≠ [] then pure false
        else
          modify (setLoadedColumn levelChunk.x levelChunk.z found.2)
          pure true : Attempt ChunkTracker Bool) := by
      refine .bind trans (.ofExcept refl _) fun found ↦ ?_
      split
      · exact .pure refl _
      · exact hstored found.2
    split
    · exact .bind trans (sendStatus ctx _) fun _ ↦ hdecoded
    · exact hdecoded

theorem inColumn (chunkX chunkZ : ℤ)
    (change : BedrockChunkColumn → Except String Unit × BedrockChunkColumn) :
    Keeps Steady (inColumn chunkX chunkZ change) := fun _ ↦ of_sent rfl rfl rfl rfl

theorem tryStoreCachedSubChunk (subChunk : PendingCachedSubChunk) :
    Keeps Steady (tryStoreCachedSubChunk subChunk) := by
  refine .bind trans (.get refl) fun s ↦ ?_
  split
  · exact .pure refl _
  · split
    · exact .throw refl _
    · exact .bind trans (inColumn _ _ _) fun _ ↦
        .bind trans (.modify fun _ ↦ of_sent rfl rfl rfl rfl) fun _ ↦ .pure refl _

/-- A loop over what is pending changes neither of the lists. -/
theorem retry {α : Type} {tryStore : α → Attempt ChunkTracker Bool}
    (htry : ∀ item, Keeps Steady (tryStore item)) (items stillPending : List α) :
    Keeps Steady (items.foldlM (BedrockNetworkClient.keepPending tryStore) stillPending) := by
  refine .foldlM refl trans (fun stillPending item ↦ ?_) items stillPending
  refine .bind trans (htry item) fun stored ↦ ?_
  split <;> exact .pure refl _

end ChunkTracker.Steady

/-- What was asked for and what is there stays so, and nothing else waits. -/
structure ChunkTracker.Outlasts (s s' : ChunkTracker) : Prop where
  asked (hash : UInt64) : AskedFor s hash → AskedFor s' hash
  there (hash : UInt64) : (s.blobStore.lookup hash).isSome → (s'.blobStore.lookup hash).isSome
  waiting (subChunk : PendingCachedSubChunk) :
    subChunk ∈ s'.pendingCachedSubChunks → subChunk ∈ s.pendingCachedSubChunks

namespace ChunkTracker.Outlasts

variable {s s' : ChunkTracker}

theorem of_steady (s s' : ChunkTracker) (h : s.Steady s') : s.Outlasts s' :=
  ⟨h.asked, fun hash hthere ↦ by rwa [h.blobStore], fun subChunk hmem ↦ by rwa [← h.subChunks]⟩

theorem trans (s s' s'' : ChunkTracker) (h : s.Outlasts s') (h' : s'.Outlasts s'') :
    s.Outlasts s'' where
  asked hash hasked := h'.asked hash (h.asked hash hasked)
  there hash hthere := h'.there hash (h.there hash hthere)
  waiting subChunk hwaits := h.waiting subChunk (h'.waiting subChunk hwaits)

theorem requested (h : s.Outlasts s') (hs : Requested s) : Requested s' := by
  intro subChunk hmem
  rcases hs subChunk (h.waiting subChunk hmem) with hasked | hthere
  · exact .inl (h.asked _ hasked)
  · exact .inr (h.there _ hthere)

theorem storeBlob (s : ChunkTracker) (blob : BedrockCacheBlob) : s.Outlasts (s.storeBlob blob) := by
  refine ⟨fun hash h ↦ h, fun hash h ↦ ?_, fun subChunk h ↦ h⟩
  rw [ChunkTracker.storeBlob]
  by_cases hsame : hash = blob.hash
  · rw [hsame, AList.lookup_insert]
    rfl
  · rwa [AList.lookup_insert_ne hsame]

theorem storeBlobs (blobs : List BedrockCacheBlob) (s : ChunkTracker) :
    s.Outlasts (blobs.foldl ChunkTracker.storeBlob s) := by
  induction blobs generalizing s with
  | nil => exact of_steady _ _ (.refl s)
  | cons blob blobs ih => exact trans _ _ _ (storeBlob s blob) (ih _)

end ChunkTracker.Outlasts

section KeepPending

variable {α : Type} {tryStore : α → Attempt ChunkTracker Bool} {seen : List α} {item : α}
  {s s' : ChunkTracker}

theorem keepPending_stored (h : tryStore item s = (.ok true, s')) :
    keepPending tryStore seen item s = (.ok seen, s') := by
  rw [keepPending, Attempt.bind_run h]
  rfl

theorem keepPending_kept (h : tryStore item s = (.ok false, s')) :
    keepPending tryStore seen item s = (.ok (seen ++ [item]), s') := by
  rw [keepPending, Attempt.bind_run h]
  rfl

theorem keepPending_error {e : String} (h : tryStore item s = (.error e, s')) :
    keepPending tryStore seen item s = (.error e, s') := by
  rw [keepPending, Attempt.bind_error h]

end KeepPending

/-- Only what was pending can be pending still. -/
theorem mem_of_keepPending {α : Type} {tryStore : α → Attempt ChunkTracker Bool}
    {items seen still : List α} {s s' : ChunkTracker}
    (hrun : items.foldlM (keepPending tryStore) seen s = (.ok still, s')) :
    ∀ item ∈ still, item ∈ seen ∨ item ∈ items := by
  induction items generalizing seen s with
  | nil =>
      obtain rfl := Except.ok.inj (Prod.mk.inj hrun).1
      exact fun item hmem ↦ .inl hmem
  | cons first items ih =>
      rw [List.foldlM_cons] at hrun
      cases htry : tryStore first s with
      | mk result t =>
          cases result with
          | error e =>
              rw [Attempt.bind_error (keepPending_error htry)] at hrun
              cases (Prod.mk.inj hrun).1
          | ok stored =>
              intro item hmem
              cases stored with
              | true =>
                  rw [Attempt.bind_run (keepPending_stored htry)] at hrun
                  exact (ih hrun item hmem).imp_right (List.mem_cons_of_mem _)
              | false =>
                  rw [Attempt.bind_run (keepPending_kept htry)] at hrun
                  rcases ih hrun item hmem with hseen | hitems
                  · rcases List.mem_append.mp hseen with hseen | hfirst
                    · exact .inl hseen
                    · exact .inr (List.mem_cons.mpr (.inl (List.mem_singleton.mp hfirst)))
                  · exact .inr (List.mem_cons_of_mem _ hitems)

section Handlers

variable {ctx : ChunkContext} {s : ChunkTracker}

theorem Requested.handleLevelChunk (h : Requested s) (payload : List UInt8) :
    Requested (handleLevelChunk ctx payload s) := by
  rw [BedrockNetworkClient.handleLevelChunk, requested_reporting_iff]
  refine ChunkTracker.Outlasts.requested ((?_ : Attempt.Keeps ChunkTracker.Outlasts _) s) h
  refine .bind ChunkTracker.Outlasts.trans
    (.ofExcept (fun s ↦ .of_steady _ _ (.refl s)) _) fun levelChunk ↦ ?_
  refine .bind ChunkTracker.Outlasts.trans (.mono ChunkTracker.Outlasts.of_steady
    (ChunkTracker.Steady.tryStoreLevelChunk ctx levelChunk)) fun stored ↦ ?_
  split
  · exact .modify fun _ ↦ ⟨fun _ h ↦ h, fun _ h ↦ h, fun _ h ↦ h⟩
  · exact .pure (fun s ↦ .of_steady _ _ (.refl s)) _

/-- The end of the handler, which takes over the sub-chunks that are pending still. -/
theorem outlasts_retrySubChunks : Attempt.Keeps ChunkTracker.Outlasts (do
    let s ← get
    let still ← s.pendingCachedSubChunks.foldlM (keepPending tryStoreCachedSubChunk) []
    modify fun s ↦ { s with pendingCachedSubChunks := still }) := by
  intro t
  rw [Attempt.get_bind]
  have hretry := ChunkTracker.Outlasts.of_steady _ _ (ChunkTracker.Steady.retry
    ChunkTracker.Steady.tryStoreCachedSubChunk t.pendingCachedSubChunks [] t)
  cases hrun : t.pendingCachedSubChunks.foldlM (keepPending tryStoreCachedSubChunk) [] t with
  | mk result t' =>
      rw [hrun] at hretry
      cases result with
      | error e =>
          rw [Attempt.bind_error hrun]
          exact hretry
      | ok still =>
          rw [Attempt.bind_run hrun]
          refine ⟨hretry.asked, hretry.there, fun subChunk hmem ↦ ?_⟩
          exact (mem_of_keepPending hrun subChunk hmem).resolve_left List.not_mem_nil

theorem Requested.handleClientCacheMissResponse (h : Requested s) (payload : List UInt8) :
    Requested (handleClientCacheMissResponse ctx payload s) := by
  have hrefl (s : ChunkTracker) : s.Outlasts s := .of_steady _ _ (.refl s)
  rw [BedrockNetworkClient.handleClientCacheMissResponse, requested_reporting_iff]
  refine ChunkTracker.Outlasts.requested ((?_ : Attempt.Keeps ChunkTracker.Outlasts _) s) h
  refine .bind ChunkTracker.Outlasts.trans (.ofExcept hrefl _) fun blobs ↦ ?_
  refine .bind ChunkTracker.Outlasts.trans
    (.modify (ChunkTracker.Outlasts.storeBlobs blobs)) fun _ ↦ ?_
  refine .bind ChunkTracker.Outlasts.trans (.get hrefl) fun s ↦ ?_
  refine .bind ChunkTracker.Outlasts.trans (.mono ChunkTracker.Outlasts.of_steady
    (ChunkTracker.Steady.retry (ChunkTracker.Steady.tryStoreLevelChunk ctx) _ _)) fun still ↦ ?_
  exact .bind ChunkTracker.Outlasts.trans
    (.modify fun _ ↦ ⟨fun _ h ↦ h, fun _ h ↦ h, fun _ h ↦ h⟩) fun _ ↦ outlasts_retrySubChunks

end Handlers

/-! ## Runs -/

/-- A packet of sub-chunks that can be read keeps the requests. -/
def RequestsKept (ctx : ChunkContext) (s : ChunkTracker) (packet : ChunkPacket) : Prop :=
  ∀ payload subChunkPacket, packet = .subChunk payload →
    BedrockSubChunkPacketCodec.decodePacketPayload payload ctx.version = .ok subChunkPacket →
    KeepsRequests ctx s subChunkPacket

theorem requested_handleChunkPacket_iff {ctx : ChunkContext} {s : ChunkTracker} (h : Requested s)
    (packet : ChunkPacket) :
    Requested (handleChunkPacket ctx s packet) ↔ RequestsKept ctx s packet := by
  cases packet with
  | levelChunk payload =>
      refine iff_of_true (h.handleLevelChunk payload) ?_
      intro _ _ heq
      cases heq
  | clientCacheMissResponse payload =>
      refine iff_of_true (h.handleClientCacheMissResponse payload) ?_
      intro _ _ heq
      cases heq
  | subChunk payload =>
      cases hdecode : BedrockSubChunkPacketCodec.decodePacketPayload payload ctx.version with
      | ok subChunkPacket =>
          refine (requested_handleSubChunk_iff h hdecode).trans ⟨?_, fun hkept ↦ ?_⟩
          · intro hkeeps payload' subChunkPacket' heq hdecode'
            cases heq
            rw [hdecode] at hdecode'
            obtain rfl := Except.ok.inj hdecode'
            exact hkeeps
          · exact hkept payload subChunkPacket rfl hdecode
      | error e =>
          have hfails : (Attempt.ofExcept (BedrockSubChunkPacketCodec.decodePacketPayload payload
              ctx.version) : Attempt ChunkTracker _) s = (.error e, s) := by rw [hdecode]; rfl
          refine iff_of_true ?_ ?_
          · change Requested (handleSubChunk ctx payload s)
            rw [handleSubChunk, requested_reporting_iff, Attempt.bind_error hfails]
            exact h
          · intro payload' subChunkPacket heq hdecode'
            cases heq
            rw [hdecode] at hdecode'
            cases hdecode'

/-- The blobs that sub-chunks wait for were asked for in every state of a run exactly when every
packet of sub-chunks keeps the requests where it is handled. -/
theorem requested_always_iff (ctx : ChunkContext) (world : BedrockWorld)
    (packets : List ChunkPacket) :
    (∀ seen, seen <+: packets → Requested (run (handleChunkPacket ctx) { world } seen)) ↔
      AllSteps (handleChunkPacket ctx) (RequestsKept ctx) { world } packets := by
  have hstart : Requested { world } := fun subChunk hmem ↦ absurd hmem List.not_mem_nil
  rw [← allSteps_reached_iff packets hstart]
  exact allSteps_iff (fun s packet h ↦ requested_handleChunkPacket_iff h packet)
    (fun s packet h hkept ↦ (requested_handleChunkPacket_iff h packet).mpr hkept) packets hstart

def sendingContext : ChunkContext where
  version := "1.21.0"
  cavesAndCliffs := true
  cavesAndCliffs_eq := rfl
  sendFailure := fun _ _ ↦ none

def emptyTracker : ChunkTracker := { world := { savesColumns := false } }

/-- A cached sub-chunk whose blob is unknown, and air in section 100. -/
def airAbovePayload : List UInt8 :=
  [1, 0, 0, 0, 0, 2, 0, 0, 0, 0, 0, 0, 1, 0, 0, 5, 0, 0, 0, 0, 0, 0, 0, 0, 100, 0, 6, 0, 0, 0, 0, 0,
    0, 0, 0, 0]

/-- The sub-chunk waits for blob 5, which the client never asks for. -/
theorem unasked_below_air :
    ¬ Requested (run (handleChunkPacket sendingContext) emptyTracker
      [.subChunk airAbovePayload]) := by
  intro h
  have hpending : (run (handleChunkPacket sendingContext) emptyTracker
      [.subChunk airAbovePayload]).pendingCachedSubChunks = [⟨0, 0, 0, 5, []⟩] := rfl
  have hsent : (run (handleChunkPacket sendingContext) emptyTracker
      [.subChunk airAbovePayload]).sent = [] := rfl
  rcases h ⟨0, 0, 0, 5, []⟩ (by rw [hpending]; simp) with ⟨status, hmem, -⟩ | hthere
  · rw [hsent] at hmem
    exact absurd hmem List.not_mem_nil
  · cases hthere

end BedrockNetworkClient

end BedrockProtocol
