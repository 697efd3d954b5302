import BedrockProtocol.World.BuiltColumn

/-!
# Level-chunk round trip

The payload of a column is its sections from the lowest to the highest, its
biomes, the empty list of border blocks and the tags of its block entities.
The decoder puts a section back by the height in its header, takes one biome
section after the other and reads tags to the end of the payload.
-/

namespace BedrockProtocol

open BedrockNbt (tidied tidiedDocument)

/-! ## Block entities -/

theorem coordinate_tidied {document : NbtDocument} {name : String} {value : ℤ}
    (h : coordinate document name = .ok value) :
    coordinate ⟨document.name, tidied document.root⟩ name = .ok value := by
  unfold coordinate at h ⊢
  rw [BedrockNbt.find_tidied]
  cases hfind : document.root.find (txt name) with
  | none =>
      rw [hfind] at h
      cases h
  | some found =>
      rw [hfind] at h
      simp only [Option.map_some, BedrockNbt.tidied_type] at h ⊢
      have hinteger (htype : found.type ∈ [NbtTagType.byte, .short, .int, .long]) :
          (tidied found).integerValue = found.integerValue := by
        obtain ⟨type⟩ := found
        cases type <;> first | rfl | simp at htype
      split at h
      · rename_i hcond
        rwa [hinteger hcond.1, if_pos hcond]
      · cases h

/-- Tidying keeps the position of a block entity. -/
theorem blockEntityPosition_tidied {document : NbtDocument} {pos : BlockPosition}
    (h : blockEntityPosition document = .ok pos) :
    blockEntityPosition (tidiedDocument document) = .ok pos := by
  unfold blockEntityPosition at h
  split at h
  · cases h
  rename_i hroot
  rw [not_not] at hroot
  obtain ⟨x, hx, h⟩ := bind_eq_ok.mp h
  obtain ⟨y, hy, h⟩ := bind_eq_ok.mp h
  obtain ⟨z, hz, h⟩ := bind_eq_ok.mp h
  have htidied : tidiedDocument document = ⟨document.name, tidied document.root⟩ := by
    rw [tidiedDocument, if_neg (by simp [hroot])]
  rw [htidied, blockEntityPosition, if_neg (by simp [hroot]), coordinate_tidied hx,
    coordinate_tidied hy, coordinate_tidied hz]
  exact h

namespace StoredEntity

variable {key : Text} {document : NbtDocument} {raw : List UInt8}

theorem root_compound (h : StoredEntity key document raw) : document.root.type = .compound := by
  obtain ⟨pos, hpos, -⟩ := h.position
  unfold blockEntityPosition at hpos
  split at hpos
  · cases hpos
  · rename_i hroot
    exact not_not.mp hroot

/-- The bytes of a block entity start with the tag that the loop looks for. -/
theorem raw_eq_cons (h : StoredEntity key document raw) :
    ∃ rest, raw = NbtTagType.compound.toByte :: rest := by
  have hhead := BedrockNbt.write_head h.write
  rw [h.root_compound] at hhead
  cases raw with
  | nil => cases hhead
  | cons first rest =>
      obtain rfl := Option.some.inj hhead
      exact ⟨rest, rfl⟩

/-- One turn of the loop stores the block entity under its key. -/
theorem reads_decodeBlockEntity (h : StoredEntity key document raw) (column : BedrockChunkColumn) :
    Reads (column.decodeBlockEntity .littleVarInt) raw
      { column with
        blockEntityNbt := column.blockEntityNbt.insert key (tidiedDocument document)
        blockEntities := column.blockEntities.insert key raw } := by
  obtain ⟨pos, hpos, rfl⟩ := h.position
  refine (BedrockNbt.reads_read h.floats h.write).mapError.captured.bind_last ?_
  refine (Reads.lift (blockEntityPosition_tidied hpos)).bind_nil ?_
  exact (Reads.pure raw).bind_nil (Reads.pure _)

end StoredEntity

namespace BedrockChunkColumn

variable {caves : Bool} {column column' : BedrockChunkColumn}

/-- The loop reads the block entities of a list of keys to the end of the
payload. -/
theorem run_decodeBlockEntityLoop {raw : Text → List UInt8} {document : Text → NbtDocument}
    (keys : List Text) (h : ∀ key ∈ keys, StoredEntity key (document key) (raw key))
    (turns offset : ℕ) (hturns : (keys.flatMap raw).length ≤ turns) (column : BedrockChunkColumn) :
    ∃ blockEntities blockEntityNbt,
      decodeBlockEntityLoop .littleVarInt turns column ⟨offset, keys.flatMap raw⟩ =
        .ok ({ column with blockEntities, blockEntityNbt },
          ⟨offset + (keys.flatMap raw).length, []⟩) ∧
      ∀ key, blockEntities.lookup key =
          (if key ∈ keys then some (raw key) else column.blockEntities.lookup key) ∧
        blockEntityNbt.lookup key =
          (if key ∈ keys then some (tidiedDocument (document key))
          else column.blockEntityNbt.lookup key) := by
  induction keys generalizing turns offset column with
  | nil =>
      refine ⟨column.blockEntities, column.blockEntityNbt, ?_, by simp⟩
      cases turns <;> rfl
  | cons key keys ih =>
      have hkey := h key (by simp)
      obtain ⟨rest, hrest⟩ := hkey.raw_eq_cons
      rw [List.flatMap_cons, List.length_append] at hturns
      obtain ⟨turns, rfl⟩ : ∃ t, turns = t + 1 := by
        rw [hrest, List.length_cons] at hturns
        exact ⟨turns - 1, by omega⟩
      have hpos : 0 < (raw key).length := by simp [hrest]
      have hread := hkey.reads_decodeBlockEntity column offset (keys.flatMap raw)
      obtain ⟨blockEntities, blockEntityNbt, hrun, hlookup⟩ := ih
        (fun k hk ↦ h k (by simp [hk])) turns (offset + (raw key).length) (by omega)
        { column with
          blockEntityNbt := column.blockEntityNbt.insert key (tidiedDocument (document key))
          blockEntities := column.blockEntities.insert key (raw key) }
      refine ⟨blockEntities, blockEntityNbt, ?_, fun k ↦ ?_⟩
      · have hpeek : Reader.peek ⟨offset, raw key ++ keys.flatMap raw⟩ =
            .ok (some NbtTagType.compound.toByte, ⟨offset, raw key ++ keys.flatMap raw⟩) := by
          rw [hrest]
          rfl
        rw [decodeBlockEntityLoop, List.flatMap_cons, Reader.bind_run hpeek, if_pos rfl,
          Reader.bind_run hread, hrun, List.length_append, Nat.add_assoc]
      · obtain ⟨hraw, hdocument⟩ := hlookup k
        by_cases hk : k = key
        · subst hk
          by_cases hmem : k ∈ keys
          · simpa [hmem] using hlookup k
          · simpa [hmem] using hlookup k
        · simpa [hk, AList.lookup_insert_ne hk] using hlookup k

theorem mem_sortedKeys {key : Text} : key ∈ column.sortedKeys ↔ key ∈ column.blockEntities := by
  rw [sortedKeys, List.mem_mergeSort, AList.mem_keys]

/-- The tags of the block entities are read back up to unused data. -/
theorem EntitiesSettled.decodeBlockEntities (h : column.EntitiesSettled)
    (into : BedrockChunkColumn) (hraw : into.blockEntities = ∅) (hnbt : into.blockEntityNbt = ∅) :
    ∃ bytes, column.encodeBlockEntities .littleVarInt = .ok bytes ∧
      ∀ offset, ∃ blockEntities blockEntityNbt,
        into.decodeBlockEntities .littleVarInt ⟨offset, bytes⟩ =
          .ok ({ into with blockEntities, blockEntityNbt }, ⟨offset + bytes.length, []⟩) ∧
        ∀ key, blockEntities.lookup key = column.blockEntities.lookup key ∧
          blockEntityNbt.lookup key = (column.blockEntityNbt.lookup key).map tidiedDocument := by
  let raw (key : Text) : List UInt8 := (column.blockEntities.lookup key).getD []
  let document (key : Text) : NbtDocument := (column.blockEntityNbt.lookup key).getD ⟨[], {}⟩
  have hstored : ∀ key ∈ column.sortedKeys, column.blockEntities.lookup key = some (raw key) ∧
      column.blockEntityNbt.lookup key = some (document key) ∧
      StoredEntity key (document key) (raw key) := by
    intro key hkey
    rw [mem_sortedKeys, ← AList.lookup_isSome] at hkey
    rcases h key with ⟨hnone, -⟩ | ⟨doc, bytes, hbytes, hdoc, hentity⟩
    · simp [hnone] at hkey
    · simp only [raw, document, hbytes, hdoc, Option.getD_some, true_and]
      exact hentity
  have hmap : column.sortedKeys.mapM (column.encodeBlockEntity .littleVarInt) =
      .ok (column.sortedKeys.map raw) :=
    mapM_eq_ok fun key hkey ↦ encodeBlockEntity.eq_1 column key _ (hstored key hkey).1
  refine ⟨column.sortedKeys.flatMap raw, ?_, fun offset ↦ ?_⟩
  · rw [encodeBlockEntities, hmap, List.flatMap_def]
    rfl
  · obtain ⟨blockEntities, blockEntityNbt, hrun, hlookup⟩ := run_decodeBlockEntityLoop
      column.sortedKeys (fun key hkey ↦ (hstored key hkey).2.2) _ offset le_rfl into
    refine ⟨blockEntities, blockEntityNbt, hrun, fun key ↦ ?_⟩
    obtain ⟨hraws, hdocuments⟩ := hlookup key
    rw [hraws, hdocuments, hraw, hnbt]
    by_cases hkey : key ∈ column.sortedKeys
    · rw [if_pos hkey, if_pos hkey, (hstored key hkey).1, (hstored key hkey).2.1]
      exact ⟨rfl, rfl⟩
    · rw [if_neg hkey, if_neg hkey]
      rcases h key with ⟨hnone, hnone'⟩ | ⟨doc, bytes, hbytes, -, -⟩
      · simp [hnone, hnone']
      · rw [mem_sortedKeys, ← AList.lookup_isSome, hbytes] at hkey
        exact absurd rfl hkey

/-! ## Sections -/

/-- A section that was read back. -/
def SameSection : Option BedrockSubChunk → Option BedrockSubChunk → Prop :=
  Option.Rel fun sub sub' ↦
    ∀ layer x y z, sub'.getBlockStateId layer x y z = sub.getBlockStateId layer x y z

/-- Putting a section into the slot behind `done`. -/
theorem setSection_append {done rest : List (Option BedrockSubChunk)}
    (hsections : column.sections = done ++ none :: rest) {y : Int8} (sub : BedrockSubChunk)
    (hy : y.toInt = done.length - column.co) :
    column.setSection y.toInt sub =
      .ok { column with sections := done ++ some (sub.setY y) :: rest } := by
  have hindex : column.co + y.toInt = done.length := by omega
  unfold setSection
  rw [hindex, hsections, slot, if_neg (by omega), Int.toNat_natCast,
    List.getElem?_append_right le_rfl, Nat.sub_self]
  simp

/-- The loop over the sections, `done` of which have been put back. -/
theorem reads_decodeSections {rest done : List (Option BedrockSubChunk)} (i : ℕ)
    (column : BedrockChunkColumn)
    (hrest : ∀ (j : ℕ) sub, rest[j]? = some (some sub) →
      sub.Settled ∧ sub.layers ≠ [] ∧ sub.y.toInt = (done.length + j : ℕ) - column.co) :
    ∃ bytes rest', (rest.filterMap id).mapM (·.encodeTo .runtime true none) = .ok bytes ∧
      List.Forall₂ SameSection rest rest' ∧
      Reads (decodeSections (rest.filterMap id).length i
          { column with sections := done ++ List.replicate rest.length none })
        bytes.flatten { column with sections := done ++ rest' } := by
  induction rest generalizing done i column with
  | nil => exact ⟨[], [], rfl, .nil, Reads.pure _⟩
  | cons found rest ih =>
      have hnext : ∀ (j : ℕ) sub, rest[j]? = some (some sub) →
          sub.Settled ∧ sub.layers ≠ [] ∧
            sub.y.toInt = (done.length + 1 + j : ℕ) - column.co := by
        intro j sub hsub
        obtain ⟨hsettled, hne, hy⟩ := hrest (j + 1) sub hsub
        exact ⟨hsettled, hne, by rw [hy]; omega⟩
      cases found with
      | none =>
          obtain ⟨bytes, rest', hbytes, hall, hread⟩ :=
            @ih (done ++ [none]) i column (by simpa using hnext)
          refine ⟨bytes, none :: rest', hbytes, .cons .none hall, ?_⟩
          simpa [List.replicate_succ] using hread
      | some sub =>
          obtain ⟨hsettled, hne, hy⟩ := hrest 0 sub rfl
          obtain ⟨first, sub', hfirst, hsub', hy', hstates⟩ :=
            @BedrockSubChunk.Settled.reads_decodeFrom _ { y := Int8.ofInt i, subChunkVersion := 9 }
              hsettled hne
          obtain ⟨bytes, rest', hbytes, hall, hread⟩ :=
            @ih (done ++ [some (sub'.setY sub'.y)]) (i + 1) column (by simpa using hnext)
          have hcons : (some sub :: rest).filterMap id = sub :: rest.filterMap id := rfl
          refine ⟨first :: bytes, some (sub'.setY sub'.y) :: rest', ?_,
            .cons (.some hstates) hall, ?_⟩
          · rw [hcons, List.mapM_cons, hfirst, hbytes]
            rfl
          · rw [hcons, List.length_cons, List.flatten_cons]
            refine hsub'.bind ?_
            have hput := @setSection_append
              { column with sections := done ++ List.replicate (rest.length + 1) none } done
              (List.replicate rest.length none) rfl sub'.y sub' (by rw [hy', hy]; rfl)
            refine (Reads.lift hput).bind_nil ?_
            simpa using hread

/-! ## Biomes -/

/-- A turn of the loop over the biome sections that reads a section. -/
theorem reads_loadBiomeSections_cons {type : ChunkStorageType} {count : ℕ} {y : ℤ}
    {hasLast hasLast' : Bool} {first : UInt8} {rest bytes : List UInt8}
    {area : BedrockBiomeSection} {areas : List BedrockBiomeSection} (hne : first ≠ 0xff)
    (harea : Reads (BedrockBiomeSection.read { y } type) (first :: rest) area)
    (hareas : Reads (loadBiomeSections type count (y + 1) true) bytes (areas, hasLast')) :
    Reads (loadBiomeSections type (count + 1) y hasLast) (first :: rest ++ bytes)
      (area :: areas, hasLast') := by
  have hloop : Reads (do
      let area ← BedrockBiomeSection.read { y } type
      let found ← loadBiomeSections type count (y + 1) true
      pure (area :: found.1, found.2)) (first :: rest ++ bytes) (area :: areas, hasLast') :=
    harea.bind (hareas.bind_last (Reads.pure _))
  intro offset suffix
  have hpeek : Reader.peek ⟨offset, first :: rest ++ bytes ++ suffix⟩ =
      .ok (some first, ⟨offset, first :: rest ++ bytes ++ suffix⟩) := rfl
  rw [loadBiomeSections, Reader.bind_run hpeek]
  simp only [hne, ↓reduceIte]
  exact hloop offset suffix

/-- A turn that reads a proxy. -/
theorem reads_loadBiomeSections_proxy {type : ChunkStorageType} {count : ℕ} {y : ℤ}
    {hasLast : Bool} {bytes : List UInt8} {areas : List BedrockBiomeSection}
    (hareas : Reads (loadBiomeSections type count (y + 1) true) bytes (areas, hasLast)) :
    Reads (loadBiomeSections type (count + 1) y true) (0xff :: bytes)
      (BedrockBiomeSection.proxyToPrevious y :: areas, hasLast) := by
  have hloop : Reads (do
      let _ ← BinaryStream.readU8
      let found ← loadBiomeSections type count (y + 1) true
      pure (BedrockBiomeSection.proxyToPrevious y :: found.1, found.2)) (0xff :: bytes)
      (BedrockBiomeSection.proxyToPrevious y :: areas, hasLast) :=
    (BinaryStream.reads_readU8 0xff).bind_cons (hareas.bind_last (Reads.pure _))
  intro offset suffix
  have hpeek : Reader.peek ⟨offset, 0xff :: bytes ++ suffix⟩ =
      .ok (some 0xff, ⟨offset, 0xff :: bytes ++ suffix⟩) := rfl
  rw [loadBiomeSections, Reader.bind_run hpeek]
  exact hloop offset suffix

/-- The loop over the biome sections, none of which is a proxy. -/
theorem reads_loadBiomeSections {areas : List BedrockBiomeSection}
    (h : ∀ area ∈ areas, area.Writable) (y : ℤ) (hasLast : Bool) :
    ∃ areas' hasLast', Reads (loadBiomeSections .runtime areas.length y hasLast)
        (areas.flatMap (·.exportTo .runtime)) (areas', hasLast') ∧
      List.Forall₂ (fun area area' : BedrockBiomeSection ↦ area'.proxy = false ∧
        ∀ x y z, area'.getBiomeId x y z = area.getBiomeId x y z) areas areas' := by
  induction areas generalizing y hasLast with
  | nil => exact ⟨[], hasLast, Reads.pure _, .nil⟩
  | cons area areas ih =>
      obtain ⟨area', hread, hproxy, hids⟩ := @(h area (by simp)).reads_read _ { y }
      obtain ⟨areas', hasLast', hreads, hall⟩ :=
        ih (fun a ha ↦ h a (by simp [ha])) (y + 1) true
      obtain ⟨payload, hpayload, hne⟩ := (h area (by simp)).exportTo_eq
      refine ⟨area' :: areas', hasLast', ?_, .cons ⟨hproxy, hids⟩ hall⟩
      rw [List.flatMap_cons, hpayload]
      rw [hpayload] at hread
      exact reads_loadBiomeSections_cons hne hread hreads

/-- The biomes of a column, when there is a section for each height. -/
theorem reads_loadBiomes_of {type : ChunkStorageType} {areas : List BedrockBiomeSection}
    {hasLast : Bool} {bytes : List UInt8} (column : BedrockChunkColumn)
    (hread : Reads (loadBiomeSections type (column.maxCY - column.minCY).toNat column.minCY false)
      bytes (areas, hasLast)) (hlength : areas.length = (column.maxCY - column.minCY).toNat) :
    Reads (column.loadBiomes type) bytes { column with biomes := areas } := by
  unfold loadBiomes
  refine hread.bind_last ?_
  have hnone : (column.maxCY - column.minCY).toNat - areas.length = 0 := by
    rw [hlength, Nat.sub_self]
  simp only [hnone, List.range_zero, List.map_nil, List.append_nil]
  exact Reads.pure _

/-- A biome section for each height. -/
theorem reads_loadBiomes {areas : List BedrockBiomeSection} (h : ∀ area ∈ areas, area.Writable)
    (column : BedrockChunkColumn) (hlength : areas.length = (column.maxCY - column.minCY).toNat) :
    ∃ areas', Reads (column.loadBiomes .runtime) (areas.flatMap (·.exportTo .runtime))
        { column with biomes := areas' } ∧
      List.Forall₂ (fun area area' : BedrockBiomeSection ↦ area'.proxy = false ∧
        ∀ x y z, area'.getBiomeId x y z = area.getBiomeId x y z) areas areas' := by
  obtain ⟨areas', hasLast, hread, hall⟩ := reads_loadBiomeSections h column.minCY false
  rw [hlength] at hread
  exact ⟨areas', reads_loadBiomes_of column hread (hall.length_eq ▸ hlength), hall⟩

/-- The legacy biomes are the next 256 bytes. -/
theorem reads_readLegacyBiomes {data : List UInt8} (hlength : data.length = 256)
    (hload : column.loadLegacyBiomes data = .ok column') :
    Reads column.readLegacyBiomes data column' := by
  refine reads_remaining_bind fun n hn ↦ ?_
  rw [if_neg (by omega)]
  have hread := BinaryStream.reads_readBytes data
  rw [hlength] at hread
  exact hread.bind_last (Reads.lift hload)

/-- There are no border blocks. -/
theorem reads_readBorderBlocks (message : String) :
    Reads (readBorderBlocks message) (BinaryStream.writeVarUInt 0) () := by
  unfold readBorderBlocks
  refine (BinaryStream.reads_readVarUInt (by omega)).bind_last ?_
  refine reads_remaining_bind fun n hn ↦ ?_
  have hzero : toSigned 32 (decodeZigZag 32 0) = 0 := by decide
  simp only [hzero, Int.toNat_zero]
  rw [if_neg (by omega)]
  exact (BinaryStream.reads_readBytes []).bind_last (Reads.pure ())

/-- After the biomes, an empty list of border blocks and the block entities. -/
theorem run_readTail {entities : List UInt8} (message : String) {offset : ℕ} {c : Cursor}
    (h : column.decodeBlockEntities .littleVarInt ⟨offset + 1, entities⟩ = .ok (column', c)) :
    column.readTail message ⟨offset, BinaryStream.writeVarUInt 0 ++ entities⟩ =
      .ok (column', c) := by
  have hone : BinaryStream.writeVarUInt 0 = [0] := by decide
  have hborder := reads_readBorderBlocks message offset entities
  rw [readTail, Reader.remaining_run, if_neg (by simp [hone]), Reader.bind_run hborder, hone,
    List.length_singleton, h]

/-- The payload is read part by part. -/
theorem networkDecodeNoCache_eq_ok {into column₁ column₂ column₃ : BedrockChunkColumn}
    {sections biomes entities : List UInt8} {count : ℕ} {c : Cursor}
    (hsections : Reads (into.readSections count) sections column₁)
    (hbiomes : Reads (if caves then column₁.loadBiomes .runtime else column₁.readLegacyBiomes)
      biomes column₂)
    (hentities : column₂.decodeBlockEntities .littleVarInt
      ⟨sections.length + biomes.length + 1, entities⟩ = .ok (column₃, c)) :
    into.networkDecodeNoCache (sections ++ (biomes ++ (BinaryStream.writeVarUInt 0 ++ entities)))
      count caves = .ok column₃ := by
  rw [networkDecodeNoCache, Cursor.start, Reader.bind_run (hsections 0 _), Nat.zero_add,
    Reader.bind_run (hbiomes _ _), run_readTail _ hentities]
  rfl

/-! ## Comparing columns -/

/-- A column that has the contents of another one; `document` says what became
of the tags of its block entities. -/
structure SameColumn (document : NbtDocument → NbtDocument) (column column' : BedrockChunkColumn) :
    Prop where
  states : ∀ pos, column'.getBlockStateId pos = column.getBlockStateId pos
  biomes : ∀ pos, column'.getBiomeId pos = column.getBiomeId pos
  tags : ∀ key, column'.blockEntities.lookup key = column.blockEntities.lookup key
  documents : ∀ key, column'.blockEntityNbt.lookup key =
    (column.blockEntityNbt.lookup key).map document

/-- Related lists have related elements at a signed index. -/
theorem slot_rel {α β : Type} {r : α → β → Prop} {as : List α} {bs : List β}
    (h : List.Forall₂ r as bs) (index : ℤ) : Option.Rel r (slot as index) (slot bs index) := by
  unfold slot
  split
  · exact .none
  · have hlength := h.length_eq
    by_cases hlt : index.toNat < as.length
    · have hlt' : index.toNat < bs.length := hlength ▸ hlt
      rw [List.getElem?_eq_getElem hlt, List.getElem?_eq_getElem hlt']
      exact .some (h.get hlt hlt')
    · rw [List.getElem?_eq_none (by omega), List.getElem?_eq_none (by omega)]
      exact .none

theorem getBlockStateId_eq (hmin : column'.minCY = column.minCY)
    (hsections : List.Forall₂ SameSection column.sections column'.sections) (pos : BlockPosition) :
    column'.getBlockStateId pos = column.getBlockStateId pos := by
  have hrel := slot_rel hsections (column.co + pos.y >>> (4 : ℕ))
  have hco : column'.co = column.co := by rw [co, co, hmin]
  unfold getBlockStateId getSection
  rw [hco]
  generalize slot column.sections (column.co + pos.y >>> (4 : ℕ)) = found at hrel ⊢
  generalize slot column'.sections (column.co + pos.y >>> (4 : ℕ)) = found' at hrel ⊢
  cases hrel with
  | none => rfl
  | some hfound =>
      cases hfound with
      | none => rfl
      | some hstates => exact hstates _ _ _ _

/-- Without proxies a biome is looked up in the section of its height. -/
theorem getBiomeId_of_not_proxy (h : ∀ area ∈ column.biomes, area.proxy = false)
    (pos : BlockPosition) :
    column.getBiomeId pos =
      match slot column.biomes (column.co + pos.y >>> (4 : ℕ)) with
      | none => .ok 0
      | some area => area.getBiomeId (localCoord pos.x) (localCoord pos.y) (localCoord pos.z) := by
  cases hslot : slot column.biomes (column.co + pos.y >>> (4 : ℕ)) with
  | none => simp only [getBiomeId, hslot]
  | some area =>
      have harea := (slot_eq_some hslot).2
      have hindex (i : ℕ) : biomeIndex column.biomes i = i := by
        cases i with
        | zero => rfl
        | succ i =>
            rw [biomeIndex]
            cases hi : column.biomes[i + 1]? with
            | none => rfl
            | some found => simp [h found (List.mem_of_getElem? hi)]
      simp only [getBiomeId, hslot, hindex, harea]

theorem getBiomeId_eq (hmin : column'.minCY = column.minCY)
    (h : ∀ area ∈ column.biomes, area.proxy = false)
    (hbiomes : List.Forall₂ (fun area area' : BedrockBiomeSection ↦ area'.proxy = false ∧
      ∀ x y z, area'.getBiomeId x y z = area.getBiomeId x y z) column.biomes column'.biomes)
    (pos : BlockPosition) : column'.getBiomeId pos = column.getBiomeId pos := by
  have h' : ∀ area ∈ column'.biomes, area.proxy = false := by
    intro area harea
    obtain ⟨i, hi, rfl⟩ := List.mem_iff_getElem.mp harea
    exact (hbiomes.get (by rw [hbiomes.length_eq]; exact hi) hi).1
  have hrel := slot_rel hbiomes (column.co + pos.y >>> (4 : ℕ))
  have hco : column'.co = column.co := by rw [co, co, hmin]
  rw [getBiomeId_of_not_proxy h, getBiomeId_of_not_proxy h', hco]
  generalize slot column.biomes (column.co + pos.y >>> (4 : ℕ)) = found at hrel ⊢
  generalize slot column'.biomes (column.co + pos.y >>> (4 : ℕ)) = found' at hrel ⊢
  cases hrel with
  | none => rfl
  | some hids => exact hids.2 _ _ _

/-! ## Legacy biomes -/

/-- The biomes of a column fit into bytes and do not depend on the height. -/
def ColumnwiseBiomes (column : BedrockChunkColumn) (biome : ℕ → ℕ → UInt8) : Prop :=
  ∀ pos : BlockPosition, (slot column.biomes (column.co + pos.y >>> (4 : ℕ))).isSome →
    column.getBiomeId pos = .ok (biome (pos.x % 16).toNat (pos.z % 16).toNat).toUInt32

def Columnwise (column : BedrockChunkColumn) : Prop := ∃ biome, column.ColumnwiseBiomes biome

/-- The legacy biomes of a column are those of its lowest section. -/
theorem dumpLegacyBiomes_eq_ok {biome : ℕ → ℕ → UInt8} (hne : column.biomes ≠ [])
    (h : column.ColumnwiseBiomes biome) :
    column.dumpLegacyBiomes = .ok (BedrockBiomeSection.legacyPositions.map fun p ↦
      biome (p.1.toNat % 16) (p.2.toNat % 16)) := by
  obtain ⟨area, areas, hbiomes⟩ := List.exists_cons_of_ne_nil hne
  have hlow (x z : UInt8) : area.getBiomeId x 0 z =
      .ok (biome (x.toNat % 16) (z.toNat % 16)).toUInt32 := by
    have hindex : column.co + (-16 * column.co) >>> (4 : ℕ) = 0 := by
      rw [shiftRight_four]
      omega
    have hheight : localCoord (-16 * column.co) = localCoord (0 : UInt8).toNat := by
      have hmod : -16 * column.co % 16 = 0 := by omega
      rw [localCoord, hmod]
      rfl
    have hslot : slot column.biomes (column.co + (-16 * column.co) >>> (4 : ℕ)) = some area := by
      rw [hindex, hbiomes]
      rfl
    have hpos := h ⟨x.toNat, -16 * column.co, z.toNat, none⟩ (by rw [hslot]; rfl)
    unfold getBiomeId at hpos
    simp only [hslot] at hpos
    rw [hindex, Int.toNat_zero, biomeIndex, hbiomes, List.getElem?_cons_zero] at hpos
    simp only [hheight] at hpos
    rw [← getBiomeId_localCoord]
    exact hpos
  have hbyte (b : UInt8) : b.toUInt32.toUInt8 = b := by simp
  have hdump := @BedrockBiomeSection.exportLegacy2D_eq_ok area (fun x z ↦ (biome x z).toUInt32) hlow
  simp only [hbyte] at hdump
  rw [BedrockChunkColumn.dumpLegacyBiomes, hbiomes, List.headD_cons, hdump]

/-- Proxies stand for the section at the bottom. -/
theorem biomeIndex_proxies {first : BedrockBiomeSection} {proxies : List BedrockBiomeSection}
    (h : ∀ area ∈ proxies, area.proxy = true) {i : ℕ} (hi : i < (first :: proxies).length) :
    biomeIndex (first :: proxies) i = 0 := by
  induction i with
  | zero => rfl
  | succ i ih =>
      have hlt : i < proxies.length := by simpa using hi
      have hproxy := h _ (List.getElem_mem hlt)
      rw [biomeIndex, List.getElem?_cons_succ, List.getElem?_eq_getElem hlt]
      simp only [Option.any_some, hproxy, ↓reduceIte]
      exact ih (by omega)

/-- The bytes of the legacy form give every block column its biome. -/
theorem loadLegacyBiomes_eq_ok {into : BedrockChunkColumn} (hne : into.biomes ≠ [])
    (htight : (into.biomes.headD { y := 0 }).Tight) (biome : ℕ → ℕ → UInt8) :
    ∃ areas, into.loadLegacyBiomes (BedrockBiomeSection.legacyPositions.map fun p ↦
        biome (p.1.toNat % 16) (p.2.toNat % 16)) = .ok { into with biomes := areas } ∧
      areas.length = into.biomes.length ∧
      ColumnwiseBiomes { into with biomes := areas } biome := by
  obtain ⟨first, hread, -, -, hids⟩ := htight.reads_readLegacy2D biome
  let proxies := (List.range (into.biomes.length - 1)).map fun i : ℕ ↦
    BedrockBiomeSection.proxyToPrevious (into.minCY + (i + 1))
  have hproxies : ∀ area ∈ proxies, area.proxy = true := by
    intro area harea
    obtain ⟨i, -, rfl⟩ := List.mem_map.mp harea
    rfl
  have hcount : (first :: proxies).length = into.biomes.length := by
    have := List.length_pos_of_ne_nil hne
    simp only [proxies, List.length_cons, List.length_map, List.length_range]
    omega
  refine ⟨first :: proxies, ?_, hcount, fun pos hslot ↦ ?_⟩
  · have hrun := hread.start []
    rw [List.append_nil] at hrun
    rw [loadLegacyBiomes, hrun]
    rfl
  · obtain ⟨area, harea⟩ := Option.isSome_iff_exists.mp hslot
    have hlt := (List.getElem?_eq_some_iff.mp (slot_eq_some harea).2).1
    have hat := biomeIndex_proxies hproxies hlt
    have hx : (pos.x % 16).toNat % 16 = (pos.x % 16).toNat := by omega
    have hz : (pos.z % 16).toNat % 16 = (pos.z % 16).toNat := by omega
    unfold getBiomeId
    simp only [harea, hat, List.getElem?_cons_zero, hids, toNat_localCoord, hx, hz]

/-- Two columns with the biomes of the same block columns. -/
theorem getBiomeId_eq_of_columnwise {biome : ℕ → ℕ → UInt8} (hmin : column'.minCY = column.minCY)
    (hlength : column'.biomes.length = column.biomes.length)
    (h : column.ColumnwiseBiomes biome) (h' : column'.ColumnwiseBiomes biome)
    (pos : BlockPosition) : column'.getBiomeId pos = column.getBiomeId pos := by
  have hco : column'.co = column.co := by rw [co, co, hmin]
  have hsame : (slot column'.biomes (column'.co + pos.y >>> (4 : ℕ))).isSome ↔
      (slot column.biomes (column.co + pos.y >>> (4 : ℕ))).isSome := by
    rw [hco, slot, slot]
    split
    · rfl
    · simp [hlength]
  by_cases hslot : (slot column.biomes (column.co + pos.y >>> (4 : ℕ))).isSome
  · rw [h pos hslot, h' pos (hsame.mpr hslot)]
  · have hnone := Option.not_isSome_iff_eq_none.mp hslot
    have hnone' := Option.not_isSome_iff_eq_none.mp (hsame.not.mpr hslot)
    unfold getBiomeId
    simp only [hnone, hnone']

/-! ## The round trip -/

/-- Encoding a column and decoding the packet succeeds and gives back its
contents. -/
def RoundTrips (caves : Bool) (document : NbtDocument → NbtDocument) (column : BedrockChunkColumn) :
    Prop :=
  ∀ dimension, ∃ packet column',
    BedrockLevelChunkCodec.encodeNoCacheColumn column dimension = .ok packet ∧
      BedrockLevelChunkCodec.decodeNoCacheColumn packet caves = .ok column' ∧
      SameColumn document column column'

/-- The column that the decoder starts with. -/
def decodeStart (caves : Bool) (x z : ℤ) : BedrockChunkColumn :=
  if caves then (new x z).withBounds (-4) 20 else new x z

theorem decodeNoCacheColumn_eq {packet : BedrockLevelChunkPacket}
    (h : packet.cacheEnabled = false) :
    BedrockLevelChunkCodec.decodeNoCacheColumn packet caves =
      (decodeStart caves packet.x packet.z).networkDecodeNoCache packet.payload
        packet.subChunkCount caves := by
  rw [BedrockLevelChunkCodec.decodeNoCacheColumn, h]
  rfl

theorem settled_decodeStart (caves : Bool) (x z : ℤ) : (decodeStart caves x z).Settled caves := by
  cases caves with
  | false => exact settled_withBounds x z false
  | true => exact settled_withBounds x z true

namespace Settled

theorem uses3DBiomes_eq (h : column.Settled caves) : column.uses3DBiomes = caves := by
  rw [uses3DBiomes, h.minCY, h.maxCY]
  cases caves <;> rfl

end Settled

/-- What the decoder needs from the biomes of a column. -/
def BiomesReadable (caves : Bool) (column : BedrockChunkColumn) : Prop :=
  if caves then ∀ area ∈ column.biomes, area.palette.length < 2 ^ 31 else column.Columnwise

namespace Settled

/-- The biomes are written and read into a column of the same bounds. -/
theorem reads_biomes (h : column.Settled caves) (hbiomes : BiomesReadable caves column)
    {into : BedrockChunkColumn} (hmin : into.minCY = column.minCY)
    (hmax : into.maxCY = column.maxCY) (hcount : into.biomes.length = column.biomes.length)
    (hinto : into.BiomesSettled) :
    ∃ bytes areas,
      (if caves then pure column.writeBiomes else column.dumpLegacyBiomes) = Except.ok bytes ∧
      Reads (if caves then into.loadBiomes .runtime else into.readLegacyBiomes) bytes
        { into with biomes := areas } ∧
      ∀ pos, getBiomeId { into with biomes := areas } pos = column.getBiomeId pos := by
  cases caves with
  | true =>
      have hwritable : ∀ area ∈ column.biomes, area.Writable := by
        intro area harea
        obtain ⟨htight, hproxy, hids⟩ := h.biomes area harea
        exact ⟨htight, hproxy, hids, hbiomes area harea⟩
      obtain ⟨areas, hread, hall⟩ := reads_loadBiomes hwritable into
        (by rw [h.length_biomes, hmin, hmax])
      refine ⟨column.writeBiomes, areas, rfl, hread, fun pos ↦ ?_⟩
      exact @getBiomeId_eq column { into with biomes := areas } hmin
        (fun area harea ↦ (h.biomes area harea).2.1) hall pos
  | false =>
      obtain ⟨biome, hbiome⟩ := hbiomes
      have hne : column.biomes ≠ [] := by
        rw [← List.length_pos_iff, h.length_biomes, h.minCY, h.maxCY]
        decide
      have hne' : into.biomes ≠ [] := by
        rw [← List.length_pos_iff, hcount]
        exact List.length_pos_of_ne_nil hne
      have htight : (into.biomes.headD { y := 0 }).Tight := by
        obtain ⟨first, rest, hfirst⟩ := List.exists_cons_of_ne_nil hne'
        rw [hfirst, List.headD_cons]
        exact (hinto first (by simp [hfirst])).1
      obtain ⟨areas, hload, hareas, hids⟩ := loadLegacyBiomes_eq_ok hne' htight biome
      refine ⟨_, areas, dumpLegacyBiomes_eq_ok hne hbiome, ?_, ?_⟩
      · refine reads_readLegacyBiomes ?_ hload
        rw [List.length_map, BedrockBiomeSection.length_legacyPositions]
      · exact @getBiomeId_eq_of_columnwise column { into with biomes := areas } biome hmin
          (hareas.trans hcount) hbiome hids

/-- A settled column with readable biomes survives the round trip. -/
theorem roundTrips (h : column.Settled caves) (hbiomes : BiomesReadable caves column) :
    RoundTrips caves tidiedDocument column := by
  intro dimension
  obtain ⟨start, hstart⟩ : ∃ start, start = decodeStart caves column.x column.z := ⟨_, rfl⟩
  have hinto : start.Settled caves := hstart ▸ settled_decodeStart caves column.x column.z
  have hmin : start.minCY = column.minCY := hinto.minCY.trans h.minCY.symm
  have hmax : start.maxCY = column.maxCY := hinto.maxCY.trans h.maxCY.symm
  have hco : start.co = column.co := by rw [co, co, hmin]
  have hempty : start.blockEntities = ∅ ∧ start.blockEntityNbt = ∅ := by
    rw [hstart]
    cases caves <;> exact ⟨rfl, rfl⟩
  obtain ⟨sectionBytes, sections', hsectionBytes, hall, hsections⟩ :=
    @reads_decodeSections column.sections [] 0 start fun j sub hsub ↦ by
      obtain ⟨hsettled, hne, hy⟩ := h.sections j sub hsub
      exact ⟨hsettled, hne, by rw [hy, hco]; simp⟩
  obtain ⟨biomeBytes, areas, hbiomeBytes, hbiomes', hids⟩ := @reads_biomes _ _ h hbiomes
    { start with sections := sections' } hmin hmax
    (by rw [h.length_biomes, ← hmin, ← hmax]; exact hinto.length_biomes) hinto.biomes
  obtain ⟨entityBytes, hentityBytes, hentities⟩ := h.entities.decodeBlockEntities
    { start with sections := sections', biomes := areas } hempty.1 hempty.2
  obtain ⟨blockEntities, blockEntityNbt, hrun, hlookup⟩ :=
    hentities (sectionBytes.flatten.length + biomeBytes.length + 1)
  refine ⟨⟨column.x, column.z, dimension, (column.sections.filterMap id).length, none, false, [],
    sectionBytes.flatten ++ (biomeBytes ++ (BinaryStream.writeVarUInt 0 ++ entityBytes))⟩,
    { start with sections := sections', biomes := areas, blockEntities, blockEntityNbt },
    ?_, ?_, ?_⟩
  · have hencode : column.networkEncodeNoCache = .ok
        (sectionBytes.flatten ++ (biomeBytes ++ (BinaryStream.writeVarUInt 0 ++ entityBytes))) := by
      rw [networkEncodeNoCache, encodeSections, hsectionBytes, h.uses3DBiomes_eq, hbiomeBytes,
        hentityBytes]
      rfl
    rw [BedrockLevelChunkCodec.encodeNoCacheColumn, hencode]
    rfl
  · have hread : Reads (start.readSections (column.sections.filterMap id).length)
        sectionBytes.flatten { start with sections := sections' } := by
      have hcount : column.sections.length = (start.maxCY - start.minCY).toNat := by
        rw [h.length_sections, hmin, hmax]
      rw [readSections, if_neg (by omega), Int.toNat_natCast, ← hcount]
      exact hsections
    rw [decodeNoCacheColumn_eq rfl, ← hstart]
    exact networkDecodeNoCache_eq_ok hread hbiomes' hrun
  · exact ⟨getBlockStateId_eq hmin hall, hids, fun key ↦ (hlookup key).1, fun key ↦ (hlookup key).2⟩

end Settled

/-- Every column that was built with readable biomes survives the round trip,
but for data that the tags of its block entities do not use. -/
theorem roundTrips_of_built (h : Built caves column) (hbiomes : BiomesReadable caves column) :
    RoundTrips caves tidiedDocument column :=
  h.settled.roundTrips hbiomes

theorem floats_of_integers {root : NbtValue} (htype : root.type = .compound)
    (h : ∀ child ∈ root.compoundValue, ∃ n, child.2 = .integer n) :
    BedrockNbt.FloatsRepresentable root := by
  refine .intro (by simp [htype]) (by simp [htype]) fun _ child hchild ↦ ?_
  obtain ⟨n, hn⟩ := h child hchild
  rw [hn]
  exact .intro (by simp [NbtValue.integer]) (by simp [NbtValue.integer])
    (by simp [NbtValue.integer])

def chest : NbtDocument where
  name := []
  root := .compound [(txt "x", .integer 1), (txt "y", .integer (-60)), (txt "z", .integer 3)]

theorem chest_floats : BedrockNbt.FloatsRepresentable chest.root :=
  floats_of_integers rfl (by simp [chest, NbtValue.compound])

/-- A column with blocks in both layers below the height 0, a biome and a chest. -/
theorem roundTrips_furnished : ∃ stone water plains column,
    (decodeStart true 0 0).setBlockStateId ⟨1, -60, 3, none⟩ 7 = .ok stone ∧
      stone.setBlockStateId ⟨1, -60, 3, some 1⟩ 9 = .ok water ∧
      water.setBiomeId ⟨4, 70, 5, none⟩ 6 = .ok plains ∧
      plains.addBlockEntity chest = .ok column ∧
      RoundTrips true tidiedDocument column := by
  obtain ⟨stone, hstone⟩ : ∃ stone,
      (decodeStart true 0 0).setBlockStateId ⟨1, -60, 3, none⟩ 7 = .ok stone := ⟨_, rfl⟩
  obtain ⟨water, hwater⟩ : ∃ water, stone.setBlockStateId ⟨1, -60, 3, some 1⟩ 9 = .ok water := by
    cases hstone
    exact ⟨_, rfl⟩
  obtain ⟨plains, hplains⟩ : ∃ plains, water.setBiomeId ⟨4, 70, 5, none⟩ 6 = .ok plains := by
    cases hstone
    cases hwater
    exact ⟨_, rfl⟩
  obtain ⟨column, hcolumn⟩ : ∃ column, plains.addBlockEntity chest = .ok column := by
    cases hstone
    cases hwater
    cases hplains
    exact ⟨_, rfl⟩
  have hstart : Built true (decodeStart true 0 0) := @Built.setBounds 0 0 _ rfl
  have hbuilt : Built true column := .addBlockEntity (.setBiomeId (.setBlockStateId
    (.setBlockStateId hstart (by decide) ⟨by decide, by decide⟩ hstone) (by decide)
    ⟨by decide, by decide⟩ hwater) (by decide) hplains) chest_floats hcolumn
  have hpalettes : ∀ area ∈ column.biomes, area.palette.length ≤ 2 := by
    cases hstone
    cases hwater
    cases hplains
    cases hcolumn
    decide +kernel
  refine ⟨stone, water, plains, column, hstone, hwater, hplains, hcolumn,
    roundTrips_of_built hbuilt fun area harea ↦ ?_⟩
  exact (hpalettes area harea).trans_lt (by decide)
/-! ## What is lost -/

/-- A chest with data in a field that a compound does not use. -/
def untidyChest : NbtDocument where
  name := []
  root :=
    { type := .compound, stringValue := [0x78]
      compoundValue :=
        [(txt "x", .integer 1), (txt "y", .integer 2), (txt "z", .integer 3)] }

theorem untidyChest_floats : BedrockNbt.FloatsRepresentable untidyChest.root :=
  floats_of_integers rfl (by simp [untidyChest])

/-- A column without biomes has biome 0 everywhere. -/
theorem columnwise_of_fresh (h : ∀ area ∈ column.biomes, area.Tight ∧ area.proxy = false ∧
    area.palette = [0]) : column.Columnwise := by
  refine ⟨fun _ _ ↦ 0, fun pos hslot ↦ ?_⟩
  obtain ⟨area, harea⟩ := Option.isSome_iff_exists.mp hslot
  obtain ⟨htight, -, hpalette⟩ := h area (List.mem_of_getElem? (slot_eq_some harea).2)
  rw [getBiomeId_of_not_proxy fun area harea ↦ (h area harea).2.1, harea]
  exact htight.getBiomeId_single hpalette _ _ _

theorem fresh_biomes {x z minCY maxCY : ℤ} {area : BedrockBiomeSection}
    (h : area ∈ ((new x z).withBounds minCY maxCY).biomes) :
    area.Tight ∧ area.proxy = false ∧ area.palette = [0] := by
  obtain ⟨i, -, rfl⟩ := List.mem_map.mp h
  exact ⟨BedrockBiomeSection.tight_new _, rfl, rfl⟩

theorem untidyChest_not_restored :
    ∃ column, Built false column ∧ BiomesReadable false column ∧ ¬ RoundTrips false id column := by
  obtain ⟨column, hadd, hbiomes, key, hlookup⟩ : ∃ column,
      (new 0 0).addBlockEntity untidyChest = .ok column ∧
      column.biomes = ((new 0 0).withBounds 0 16).biomes ∧
      ∃ key, column.blockEntityNbt.lookup key = some untidyChest :=
    ⟨_, rfl, rfl, _, AList.lookup_insert _⟩
  have hbuilt : Built false column := .addBlockEntity (.new 0 0) untidyChest_floats hadd
  have hreadable : BiomesReadable false column :=
    columnwise_of_fresh fun area harea ↦ fresh_biomes (hbiomes ▸ harea)
  refine ⟨column, hbuilt, hreadable, fun hsame ↦ ?_⟩
  obtain ⟨packet, column', hencode, hdecode, htidied⟩ := hbuilt.settled.roundTrips hreadable 0
  obtain ⟨packet', column'', hencode', hdecode', hid⟩ := hsame 0
  obtain rfl := Except.ok.inj (hencode.symm.trans hencode')
  obtain rfl := Except.ok.inj (hdecode.symm.trans hdecode')
  have hdocument := (hid.documents key).symm.trans (htidied.documents key)
  rw [hlookup, Option.map_some, Option.map_some, Option.some.injEq] at hdocument
  have hstring := congrArg (fun document ↦ document.root.stringValue) hdocument
  cases hstring

/-- Setting the lowest biome. -/
theorem setBiomeId_lowest {area area' : BedrockBiomeSection} {areas : List BedrockBiomeSection}
    {biomeId : UInt32} (hproxy : area.proxy = false)
    (hset : area.setBiomeId (localCoord 0) (localCoord (-64)) (localCoord 0) biomeId = .ok area') :
    setBiomeId { decodeStart true 0 0 with biomes := area :: areas } ⟨0, -64, 0, none⟩ biomeId =
      .ok { decodeStart true 0 0 with biomes := area' :: areas } := by
  have hslot : slot (area :: areas) (co { decodeStart true 0 0 with biomes := area :: areas } +
      (-64 : ℤ) >>> (4 : ℕ)) = some area := rfl
  have hindex : (co { decodeStart true 0 0 with biomes := area :: areas } + (-64 : ℤ) >>> (4 : ℕ)).toNat =
      0 := rfl
  unfold setBiomeId
  simp only [hslot, hindex]
  rw [if_neg (by simp [hproxy]), hset]
  rfl

/-- The first `n + 1` biome ids, in one section. -/
theorem exists_built_biomes (n : ℕ) (hn : n < 2 ^ 31) :
    ∃ column area areas, Built true column ∧
      column = { decodeStart true 0 0 with biomes := area :: areas } ∧
      area.palette = (List.range (n + 1)).map UInt32.ofNat := by
  induction n with
  | zero => exact ⟨_, _, _, @Built.setBounds 0 0 _ rfl, rfl, rfl⟩
  | succ n ih =>
      obtain ⟨column, area, areas, hbuilt, rfl, hpalette⟩ := ih (by omega)
      obtain ⟨htight, hproxy, -⟩ := hbuilt.settled.biomes area (by simp)
      obtain ⟨area', hset, htight', -, -, hgrown, hget⟩ :=
        htight.setBiomeId (localCoord 0) (localCoord (-64)) (localCoord 0) (UInt32.ofNat (n + 1))
      have hid : (UInt32.ofNat (n + 1)).toNat = n + 1 := by
        rw [UInt32.toNat_ofNat']
        omega
      have hnew : UInt32.ofNat (n + 1) ∉ area.palette := by
        rw [hpalette, List.mem_map]
        rintro ⟨i, hi, heq⟩
        have hnat := congrArg UInt32.toNat heq
        rw [List.mem_range] at hi
        rw [hid, UInt32.toNat_ofNat'] at hnat
        omega
      have hmem : UInt32.ofNat (n + 1) ∈ area'.palette := by
        have hself := hget (localCoord 0) (localCoord (-64)) (localCoord 0)
        rw [if_pos rfl, htight'.getBiomeId, Except.ok.injEq] at hself
        rw [← hself]
        exact List.get_mem _ _
      have hpalette' : area'.palette = area.palette ++ [UInt32.ofNat (n + 1)] :=
        hgrown.resolve_left fun hsame ↦ hnew (hsame ▸ hmem)
      refine ⟨_, area', areas, .setBiomeId hbuilt (by rw [hid]; exact hn)
        (setBiomeId_lowest hproxy hset), rfl, ?_⟩
      rw [hpalette', hpalette, List.range_succ (n := n + 1), List.map_append]
      rfl

/-- The size of a full palette is lost: the bytes up to it are read as a section
without biomes. -/
theorem exportTo_full {area into : BedrockBiomeSection} (htight : area.Tight)
    (hproxy : area.proxy = false) (hlength : area.palette.length = 2 ^ 31) :
    ∃ type consumed area', type ≠ 0xff ∧
      area.exportTo .runtime =
        type :: consumed ++ area.palette.flatMap BedrockBiomeSection.writeRuntimeBiomeId ∧
      Reads (into.read .runtime) (type :: consumed) area' := by
  have hlast : lastIndex area.palette.length = 2 ^ 31 - 1 := by rw [hlength]; rfl
  have hbits : 0 < neededBits (2 ^ 31 - 1) := neededBits_pos (by omega)
  have htype : (UInt8.ofNat ((neededBits (2 ^ 31 - 1) <<< 1) ||| 1)).toNat =
      2 * neededBits (2 ^ 31 - 1) + 1 := Layer.paletteType_eq (neededBits_le _) (by omega)
  have hle := neededBits_le (2 ^ 31 - 1)
  have hne : UInt8.ofNat ((neededBits (2 ^ 31 - 1) <<< 1) ||| 1) ≠ 0xff := by
    intro heq
    rw [heq] at htype
    have hff : (0xff : UInt8).toNat = 255 := rfl
    omega
  have hwidth : area.biomes.bitsPerBlock = neededBits (2 ^ 31 - 1) := by
    have := htight.width
    rw [hlength] at this
    omega
  have hsize : BedrockBiomeSection.writeRuntimeBiomeId (UInt32.ofNat (2 ^ 31)) = [0] := by decide
  refine ⟨_, area.biomes.write ++ [0],
    { into with proxy := false, palette := [], biomes := area.biomes }, hne, ?_, ?_⟩
  · rw [BedrockBiomeSection.exportTo, hproxy, hlast, hlength]
    simp only [Bool.false_eq_true, ↓reduceIte, hbits.ne', hsize]
    simp
  · refine (BinaryStream.reads_readU8 _).bind_cons ?_
    have hhalf : (2 * neededBits (2 ^ 31 - 1) + 1) / 2 ^ 1 = neededBits (2 ^ 31 - 1) := by omega
    rw [if_neg hne, htype, if_neg (by rw [Nat.and_one_is_mod]; omega), Nat.shiftRight_eq_div_pow,
      hhalf, BedrockBiomeSection.readPalette, if_neg hbits.ne']
    refine (Reads.lift (PalettedStorage.new_eq_ok hle)).bind_nil ?_
    refine (area.biomes.reads_read ?_).bind ?_
    · rw [PalettedStorage.ofBits_bitsPerBlock, hwidth]
      omega
    have hnone := @BedrockBiomeSection.reads_readRuntimeBiomeId 0 (by decide)
    refine Reads.bind_last hnone ?_
    exact (Reads.pure []).bind_nil (Reads.pure _)

/-- A section that starts with the byte 0 is refused. -/
theorem loadBiomeSections_zero (count offset : ℕ) (y : ℤ) (hasLast : Bool) (rest : List UInt8) :
    loadBiomeSections .runtime (count + 1) y hasLast ⟨offset, 0 :: rest⟩ =
      .error "biome palette type must use runtime IDs" := by
  have hpeek : Reader.peek ⟨offset, 0 :: rest⟩ = .ok (some 0, ⟨offset, 0 :: rest⟩) := rfl
  have hread : BedrockBiomeSection.read { y } .runtime ⟨offset, 0 :: rest⟩ =
      .error "biome palette type must use runtime IDs" := rfl
  rw [loadBiomeSections, Reader.bind_run hpeek]
  exact Reader.bind_error hread

/-- The entry 0 at the front of the palette is then taken for a type byte. -/
theorem loadBiomeSections_full {area : BedrockBiomeSection} (htight : area.Tight)
    (hproxy : area.proxy = false) (hlength : area.palette.length = 2 ^ 31)
    {ids : List UInt32} (hpalette : area.palette = 0 :: ids) (count offset : ℕ) (y : ℤ)
    (hasLast : Bool) (rest : List UInt8) :
    loadBiomeSections .runtime (count + 2) y hasLast ⟨offset, area.exportTo .runtime ++ rest⟩ =
      .error "biome palette type must use runtime IDs" := by
  obtain ⟨type, consumed, area', hne, hexport, hread⟩ :=
    @exportTo_full area { y } htight hproxy hlength
  have hzero : area.palette.flatMap BedrockBiomeSection.writeRuntimeBiomeId =
      0 :: ids.flatMap BedrockBiomeSection.writeRuntimeBiomeId := by
    rw [hpalette, List.flatMap_cons]
    rfl
  rw [hexport, hzero, List.append_assoc, List.cons_append, List.cons_append]
  have hpeek : Reader.peek ⟨offset, type :: (consumed ++
        (0 :: (ids.flatMap BedrockBiomeSection.writeRuntimeBiomeId ++ rest)))⟩ =
      .ok (some type, ⟨offset, type :: (consumed ++
        (0 :: (ids.flatMap BedrockBiomeSection.writeRuntimeBiomeId ++ rest)))⟩) := rfl
  rw [loadBiomeSections, Reader.bind_run hpeek]
  simp only [hne, ↓reduceIte]
  have hfirst := hread offset (0 :: (ids.flatMap BedrockBiomeSection.writeRuntimeBiomeId ++ rest))
  rw [List.cons_append] at hfirst
  rw [Reader.bind_run hfirst]
  exact Reader.bind_error (loadBiomeSections_zero _ _ _ _ _)

/-- A palette of 2 ^ 31 entries is written with the size 0, and the biomes after
it are taken for the next section. -/
theorem full_palette_not_restored :
    ∃ column, Built true column ∧ ∀ document, ¬ RoundTrips true document column := by
  obtain ⟨n, hn⟩ : ∃ n, n + 1 = 2 ^ 31 := ⟨2 ^ 31 - 1, by omega⟩
  obtain ⟨column, area, areas, hbuilt, hcolumn, hpalette⟩ := exists_built_biomes n (by omega)
  refine ⟨column, hbuilt, fun document hsame ↦ ?_⟩
  obtain ⟨packet, column', hencode, hdecode, -⟩ := hsame 0
  have hsettled := hbuilt.settled
  subst hcolumn
  obtain ⟨htight, hproxy, -⟩ := hsettled.biomes area (by simp)
  have hlength : area.palette.length = 2 ^ 31 := by
    rw [hpalette, List.length_map, List.length_range, hn]
  have hids : area.palette = 0 :: ((List.range n).map Nat.succ).map UInt32.ofNat := by
    rw [hpalette, List.range_succ_eq_map]
    rfl
  have hpacket : packet = ⟨0, 0, 0, 0, none, false, [],
      area.exportTo .runtime ++ (areas.flatMap (·.exportTo .runtime) ++ [0])⟩ := by
    have hpayload : networkEncodeNoCache { decodeStart true 0 0 with biomes := area :: areas } =
        .ok (area.exportTo .runtime ++ (areas.flatMap (·.exportTo .runtime) ++ [0])) := by
      have hsections : encodeSections { decodeStart true 0 0 with biomes := area :: areas } =
          .ok [] := rfl
      have hentities : encodeBlockEntities { decodeStart true 0 0 with biomes := area :: areas }
          .littleVarInt = .ok [] := by
        simp [encodeBlockEntities, sortedKeys, decodeStart, new, withBounds]
      have hborder : BinaryStream.writeVarUInt 0 = [0] := by decide
      rw [networkEncodeNoCache, hsections, hentities, hborder, hsettled.uses3DBiomes_eq]
      simp [writeBiomes]
    rw [BedrockLevelChunkCodec.encodeNoCacheColumn, hpayload] at hencode
    exact (Except.ok.inj hencode).symm
  subst hpacket
  have herror : BedrockLevelChunkCodec.decodeNoCacheColumn ⟨0, 0, 0, 0, none, false, [],
      area.exportTo .runtime ++ (areas.flatMap (·.exportTo .runtime) ++ [0])⟩ true =
      .error "biome palette type must use runtime IDs" := by
    have hload (start : BedrockChunkColumn) (hmin : start.minCY = -4) (hmax : start.maxCY = 20) :
        start.loadBiomes .runtime ⟨0, area.exportTo .runtime ++
          (areas.flatMap (·.exportTo .runtime) ++ [0])⟩ =
            .error "biome palette type must use runtime IDs" := by
      rw [loadBiomes, hmin, hmax]
      exact Reader.bind_error (loadBiomeSections_full htight hproxy hlength hids 22 _ _ _ _)
    have hsections (c : Cursor) : (decodeStart true 0 0).readSections 0 c =
        .ok ({ decodeStart true 0 0 with sections := List.replicate 24 none }, c) := rfl
    rw [decodeNoCacheColumn_eq rfl, networkDecodeNoCache, Cursor.start]
    dsimp only
    rw [Reader.bind_run (hsections _), if_pos rfl, Reader.bind_error (hload _ rfl rfl)]
    rfl
  rw [herror] at hdecode
  cases hdecode

/-- Both kinds of loss. -/
theorem not_every_column_restored :
    (∃ column, Built true column ∧ ¬ RoundTrips true id column) ∧
      ∃ column, Built false column ∧ BiomesReadable false column ∧
        ¬ RoundTrips false id column := by
  obtain ⟨column, hbuilt, hlost⟩ := full_palette_not_restored
  exact ⟨⟨column, hbuilt, hlost id⟩, untidyChest_not_restored⟩

end BedrockChunkColumn

end BedrockProtocol
