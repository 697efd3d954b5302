import BedrockProtocol.World.BiomeBlob
import BedrockProtocol.World.DetachedSections

/-!
# Detaching a column into blobs and putting it together

Without 3D biomes the blobs of the sections tell the reader that the biomes are
in the legacy form, so there has to be one.  With 3D biomes the writer and the
reader agree on sections of a single biome only.
-/

namespace BedrockProtocol

namespace BedrockChunkColumn

variable {column column' : BedrockChunkColumn} {provider : Option BedrockBlockStateProvider}
  {resolver : Option BedrockBlockStateResolver}

/-! ## With biomes in three dimensions -/

theorem restores_biomes (h : column.Cacheable true provider resolver)
    (hdetachable : column.Detachable true provider) : column.Restores true provider resolver := by
  have hcontents : column.BiomesCacheable := h.contents
  obtain ⟨hlowest, hsingle⟩ : (∃ area areas, column.biomes = area :: areas ∧ area.proxy = false) ∧ _ :=
    hdetachable
  obtain ⟨lowest, areas, hareas, hproxy⟩ := hlowest
  obtain ⟨areas', hasLast, hread, hall⟩ := reads_loadBiomeSections_single hcontents.index_lt
    hcontents.id_lt hsingle column.minCY false (.inr (by simp [hareas, hproxy]))
  let entry := column.biomeEntry column.writeBiomes
  let store : BedrockBlobStore := insertAll BlobEntry.hash ∅ [entry]
  have hlookup : store.lookup entry.hash = some entry :=
    lookup_insertAll ⟨[], [], rfl, by simp⟩
  have hload : column.fresh.loadBiomes .networkPersistence (Cursor.start column.writeBiomes) =
      .ok ({ column.fresh with biomes := areas' }, ⟨column.writeBiomes.length, []⟩) := by
    rw [h.length_biomes] at hread
    have hloaded := reads_loadBiomes_of column.fresh hread
      (hall.length_eq.symm.trans h.length_biomes)
    have hrun := hloaded.start []
    rwa [List.append_nil] at hrun
  refine ⟨⟨[entry.hash], BinaryStream.writeVarUInt 0 ++ []⟩, store,
    { column.fresh with biomes := areas' }, rfl, ?_, ?_, by simp⟩
  · have hpayload : column.fresh.readCachedPayload (BinaryStream.writeVarUInt 0 ++ []) =
        .ok column.fresh := readCachedPayload_eq_ok rfl
    have hnosection : ([entry.hash].any fun hash ↦
        (store.lookup hash).any fun entry ↦ entry.type = .chunkSection) = false := by
      simp only [List.any_cons, List.any_nil, hlookup, Option.any_some, Bool.or_false]
      rfl
    have hblob : column.fresh.loadBlob resolver false entry =
        .ok { column.fresh with biomes := areas' } := by
      change Prod.fst <$> column.fresh.loadBiomes .networkPersistence
        (Cursor.start column.writeBiomes) = _
      rw [hload]
      rfl
    dsimp only
    rw [networkDecodeCached_eq hpayload (by simp [hlookup]), hnosection, List.foldlM_cons,
      loadHash_eq hlookup]
    change ((fun column ↦ ([], column)) <$> column.fresh.loadBlob resolver false entry >>= _) = _
    rw [hblob]
    rfl
  · exact getBiomeId_eq_of_sameArea rfl ⟨lowest, areas, hareas, hproxy⟩ hall

/-! ## A column without sections -/

/-- What a successful decode of a single blob of biomes says about the column. -/
theorem exists_loaded_of_decoded {bytes entities : List UInt8} {misses : List UInt64}
    (hpayload : column.fresh.readCachedPayload (BinaryStream.writeVarUInt 0 ++ entities) =
      .ok column')
    {loaded : BedrockChunkColumn}
    (hdecode : column.fresh.networkDecodeCached [(column.biomeEntry bytes).hash]
      (insertAll BlobEntry.hash ∅ [column.biomeEntry bytes])
      (BinaryStream.writeVarUInt 0 ++ entities) resolver = .ok (misses, loaded)) :
    ∃ c, loadBiomes { column' with
        sections := List.replicate (column'.maxCY - column'.minCY).toNat none }
      .networkPersistence (Cursor.start bytes) = .ok (loaded, c) := by
  let store : BedrockBlobStore := insertAll BlobEntry.hash ∅ [column.biomeEntry bytes]
  have hlookup : store.lookup (column.biomeEntry bytes).hash = some (column.biomeEntry bytes) :=
    lookup_insertAll ⟨[], [], rfl, by simp⟩
  have hnosection : ([(column.biomeEntry bytes).hash].any fun hash ↦
      (store.lookup hash).any fun entry ↦ entry.type = .chunkSection) = false := by
    simp only [List.any_cons, List.any_nil, hlookup, Option.any_some, Bool.or_false]
    rfl
  rw [networkDecodeCached_eq hpayload (by simp [store, hlookup]), hnosection, List.foldlM_cons,
    loadHash_eq hlookup, bind_eq_ok] at hdecode
  obtain ⟨⟨found, into⟩, hload, hpure⟩ := hdecode
  obtain ⟨into', hblob, hpair⟩ := map_eq_ok.mp hload
  cases hpair
  cases hpure
  obtain ⟨⟨area, c⟩, hrun, heq⟩ := map_eq_ok.mp hblob
  cases heq
  exact ⟨c, hrun⟩

/-- The lowest section that is read from fewer than 512 bytes. -/
theorem loadBiomes_short {into loaded : BedrockChunkColumn} {first : UInt8} {rest : List UInt8}
    {c : Cursor} (hbounds : into.minCY < into.maxCY) (hshort : rest.length < 512)
    (hload : into.loadBiomes .networkPersistence (Cursor.start (first :: rest)) = .ok (loaded, c)) :
    first = 1 ∧ ∃ value c', BinaryStream.readVarUInt ⟨1, rest⟩ = .ok (value, c') ∧
      ∀ pos : BlockPosition, into.co + pos.y >>> (4 : ℕ) = 0 →
        loaded.getBiomeId pos = .ok (UInt32.ofNat (value >>> 1)) := by
  obtain ⟨count, hcount⟩ : ∃ count, (into.maxCY - into.minCY).toNat = count + 1 :=
    ⟨(into.maxCY - into.minCY).toNat - 1, by omega⟩
  unfold loadBiomes at hload
  rw [hcount] at hload
  change (loadBiomeSections .networkPersistence (count + 1) into.minCY false
    (Cursor.start (first :: rest)) >>= fun p ↦ _) = _ at hload
  obtain ⟨⟨⟨areas, hasLast⟩, c₁⟩, hareas, hloaded⟩ := bind_eq_ok.mp hload
  have hpeek : Reader.peek (Cursor.start (first :: rest)) =
      .ok (some first, Cursor.start (first :: rest)) := rfl
  rw [loadBiomeSections, Reader.bind_run hpeek] at hareas
  by_cases hproxy : first = 0xff
  · dsimp only at hareas
    rw [if_pos hproxy] at hareas
    cases hareas
  · dsimp only at hareas
    rw [if_neg hproxy] at hareas
    change (BedrockBiomeSection.read { y := into.minCY } .networkPersistence
      ⟨0, first :: rest⟩ >>= fun p ↦ _) = _ at hareas
    obtain ⟨⟨area, c₂⟩, harea, hareas⟩ := bind_eq_ok.mp hareas
    obtain ⟨hone, value, c', hvalue, hids⟩ := read_short hproxy hshort harea
    change (loadBiomeSections .networkPersistence count (into.minCY + 1) true c₂ >>= fun p ↦ _) = _
      at hareas
    obtain ⟨⟨⟨above, hasLast'⟩, c₃⟩, -, hpair⟩ := bind_eq_ok.mp hareas
    cases hpair
    cases hloaded
    refine ⟨hone, value, c', hvalue, fun pos hpos ↦ ?_⟩
    unfold getBiomeId
    simp only [co] at hpos ⊢
    rw [hpos]
    exact hids _ _ _

/-- The blob of the legacy biomes is not one of 3D biomes. -/
theorem present_of_restores (h : column.Cacheable false provider resolver)
    (hrestores : column.Restores false provider resolver) : column.present ≠ [] := by
  intro hnone
  have hcontents : column.LegacyCacheable provider resolver := h.contents
  obtain ⟨biome, hbiome, hdump⟩ := h.exists_dump
  have hbounds := h.bounds
  have hareas : column.biomes ≠ [] := by
    rw [← List.length_pos_iff, h.length_biomes]
    omega
  have hentries := @blobEntries_eq column provider _ (by simp [hnone]) hdump
  rw [entriesOf, hnone, List.map_nil, List.nil_append] at hentries
  generalize hbytes : BedrockBiomeSection.legacyPositions.map (fun p ↦
    biome (p.1.toNat % 16) (p.2.toNat % 16)) = bytes at hentries
  have hlength : bytes.length = 256 := by
    rw [← hbytes, List.length_map, BedrockBiomeSection.length_legacyPositions]
  obtain ⟨entities, hentities, hdecodes⟩ :=
    hcontents.entities.1.decodeBlockEntities column.fresh rfl rfl
  obtain ⟨blockEntities, blockEntityNbt, hrun, -⟩ := hdecodes 1
  obtain ⟨encoded, store, loaded, hencode, hdecode, hids, -⟩ := hrestores
  have hencoded : column.networkEncodeCached ∅ false provider =
      .ok (⟨[(column.biomeEntry bytes).hash], BinaryStream.writeVarUInt 0 ++ entities⟩,
        insertAll BlobEntry.hash ∅ [column.biomeEntry bytes]) := by
    rw [networkEncodeCached, hentries]
    change (column.encodeBlockEntities .littleVarInt >>= _) = _
    rw [hentities]
    rfl
  rw [hencoded] at hencode
  cases hencode
  obtain ⟨c, hload⟩ := exists_loaded_of_decoded (readCachedPayload_eq_ok hrun) hdecode
  obtain ⟨first, rest, hcons⟩ := List.exists_cons_of_length_pos (l := bytes) (by omega)
  rw [hcons] at hload hlength
  have hshort : rest.length < 512 := by
    rw [List.length_cons] at hlength
    omega
  obtain ⟨hone, value, c', hvalue, hlow⟩ := loadBiomes_short
    (by change column.minCY < column.maxCY; exact hbounds) hshort hload
  -- every legacy biome is the one that was read
  have hall : ∀ byte ∈ bytes, byte.toUInt32 = UInt32.ofNat (value >>> 1) := by
    intro byte hbyte
    rw [← hbytes] at hbyte
    obtain ⟨p, -, rfl⟩ := List.mem_map.mp hbyte
    let pos : BlockPosition := ⟨p.1.toNat, -16 * column.co, p.2.toNat, none⟩
    have hheight : column.co + pos.y >>> (4 : ℕ) = 0 := by
      rw [shiftRight_four]
      change column.co + -16 * column.co / 16 = 0
      omega
    have hslot : (slot column.biomes (column.co + pos.y >>> (4 : ℕ))).isSome := by
      rw [hheight]
      obtain ⟨area, areas, hbiomes⟩ := List.exists_cons_of_ne_nil hareas
      rw [hbiomes]
      rfl
    have hread := (hids pos).symm.trans (hlow pos hheight)
    rw [hbiome pos hslot] at hread
    exact Except.ok.inj hread
  obtain ⟨second, more, hmore⟩ := List.exists_cons_of_length_pos (l := rest)
    (by rw [List.length_cons] at hlength; omega)
  have hsecond : second = 1 := by
    have hfirst := hall first (by simp [hcons])
    have hnext := hall second (by simp [hcons, hmore])
    rw [← hfirst, hone] at hnext
    exact UInt8.toNat_inj.mp (by simpa using congrArg UInt32.toNat hnext)
  rw [hmore, hsecond] at hvalue
  have hread : BinaryStream.readVarUInt ⟨1, 1 :: more⟩ = .ok (1, ⟨2, more⟩) :=
    @BinaryStream.reads_readVarUInt 1 (by decide) 1 more
  rw [hread] at hvalue
  cases hvalue
  have hzero := hall first (by simp [hcons])
  rw [hone] at hzero
  exact absurd hzero (by decide)

theorem detachable_of_restores (h : column.Cacheable true provider resolver)
    (hwritable : ∀ area ∈ column.biomes, area.proxy = true ∨ area.Writable)
    (hshort : column.writeBiomes.length < 2 ^ 18)
    (hrestores : column.Restores true provider resolver) : column.Detachable true provider := by
  have hbounds := h.bounds
  obtain ⟨encoded, store, loaded, hencode, hdecode, -⟩ := hrestores
  have hencoded : column.networkEncodeCached ∅ true provider =
      .ok (⟨[(column.biomeEntry column.writeBiomes).hash], BinaryStream.writeVarUInt 0 ++ []⟩,
        insertAll BlobEntry.hash ∅ [column.biomeEntry column.writeBiomes]) := rfl
  rw [hencoded] at hencode
  cases hencode
  have hpayload : column.fresh.readCachedPayload (BinaryStream.writeVarUInt 0 ++ []) =
      .ok column.fresh := readCachedPayload_eq_ok rfl
  obtain ⟨c, hload⟩ := exists_loaded_of_decoded hpayload hdecode
  unfold loadBiomes at hload
  change (loadBiomeSections .networkPersistence (column.maxCY - column.minCY).toNat column.minCY
    false (Cursor.start column.writeBiomes) >>= fun p ↦ _) = _ at hload
  obtain ⟨⟨found, c₁⟩, hareas, -⟩ := bind_eq_ok.mp hload
  rw [← h.length_biomes] at hareas
  refine ⟨?_, single_of_loadBiomeSections hwritable hshort hareas⟩
  obtain ⟨area, areas, hcons⟩ := List.exists_cons_of_length_pos (l := column.biomes)
    (by rw [h.length_biomes]; omega)
  refine ⟨area, areas, hcons, ?_⟩
  -- a proxy has no section below it
  by_contra hproxy
  rw [writeBiomes, hcons, List.flatMap_cons, BedrockBiomeSection.exportTo,
    if_pos (by simpa using hproxy)] at hareas
  cases hareas

/-! ## What comes back -/

theorem entitiesTidy_of_empty (htags : column.blockEntities = ∅)
    (hdocuments : column.blockEntityNbt = ∅) : column.EntitiesTidy := by
  constructor
  · intro key
    exact .inl ⟨by rw [htags]; rfl, by rw [hdocuments]; rfl⟩
  · intro key document hlookup
    rw [hdocuments] at hlookup
    cases hlookup

/-- Some states of the palette, by name. -/
def sampleNames : List (Int32 × Text) :=
  [(0, txt "minecraft:air"), (5, txt "minecraft:stone"), (7, txt "minecraft:water")]

def sampleDescriptor (name : Text) : BedrockBlockStateDescriptor where
  name := name
  states := .compound []
  version := 1

def sampleProvider : BedrockBlockStateProvider :=
  fun stateId ↦ .ok ((sampleNames.lookup stateId).map sampleDescriptor)

def sampleResolver : BedrockBlockStateResolver :=
  fun name _ _ ↦ .ok ((sampleNames.find? fun sample ↦ sample.2 = name).map Prod.fst)

theorem described_sample {entry : BedrockBlockState} (hplain : entry.hasPersistentData = false)
    (hstate : entry.stateId ∈ [0, 5, 7]) :
    Layer.Described (some sampleProvider) (some sampleResolver) entry := by
  have hfloats (name : Text) : BedrockNbt.FloatsRepresentable (sampleDescriptor name).states :=
    .intro (by simp [sampleDescriptor, NbtValue.compound])
      (by simp [sampleDescriptor, NbtValue.compound]) (by simp [sampleDescriptor, NbtValue.compound])
  have hdescriptor {name : Text} (hlookup : sampleNames.lookup entry.stateId = some name) :
      Layer.descriptor (some sampleProvider) entry = .ok (sampleDescriptor name) := by
    unfold Layer.descriptor
    rw [if_neg (by simp [hplain])]
    change (sampleProvider entry.stateId >>= _) = _
    rw [sampleProvider, hlookup]
    rfl
  simp only [List.mem_cons, List.not_mem_nil, or_false] at hstate
  rcases hstate with hstate | hstate | hstate
  · refine ⟨_, hdescriptor (by rw [hstate]; rfl), ⟨by decide, rfl, rfl, hfloats _, ⟨_, rfl⟩⟩, ?_⟩
    rw [hstate]
    rfl
  · refine ⟨_, hdescriptor (by rw [hstate]; rfl), ⟨by decide, rfl, rfl, hfloats _, ⟨_, rfl⟩⟩, ?_⟩
    rw [hstate]
    rfl
  · refine ⟨_, hdescriptor (by rw [hstate]; rfl), ⟨by decide, rfl, rfl, hfloats _, ⟨_, rfl⟩⟩, ?_⟩
    rw [hstate]
    rfl

/-- Every built column has 3D biomes for the blob cache. -/
theorem Settled.cacheable_biomes {caves : Bool} (h : column.Settled caves) :
    column.Cacheable true provider resolver := by
  have hbounds : column.minCY < column.maxCY := by
    rw [h.minCY, h.maxCY]
    cases caves <;> decide
  refine ⟨hbounds, h.length_sections, h.length_biomes, ⟨?_, ?_⟩⟩
  · intro area harea _
    exact (h.biomes area harea).1.get_lt
  · intro area harea
    exact (h.biomes area harea).2.2

theorem hashInjective_biomes : column.HashInjective true provider := by
  intro entries hentries entry hentry entry' hentry' _
  cases hentries
  rw [List.mem_singleton.mp hentry, List.mem_singleton.mp hentry']

theorem cacheable_new : (new 0 0).Cacheable false none none where
  bounds := by decide
  length_sections := rfl
  length_biomes := rfl
  contents :=
    { sections := fun i sub hsub ↦ by
        have hnone := List.eq_of_mem_replicate (List.mem_of_getElem? hsub)
        cases hnone
      biomes := columnwise_of_fresh fun _ harea ↦ @fresh_biomes 0 0 0 16 _ harea
      entities := entitiesTidy_of_empty rfl rfl }

end BedrockChunkColumn

end BedrockProtocol
