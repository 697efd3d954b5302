import BedrockProtocol.Lib.LastWins
import BedrockProtocol.World.BlobCache
import BedrockProtocol.World.ColumnRoundTrip
import BedrockProtocol.World.PersistentSubChunk

/-!
# The sections of a detached column

A section comes back at the height that is stored with the last blob of its bytes,
in eight bits: of several equal sections of version 8 only the highest comes back,
and one beyond those bits at another height.  The reader takes versions 8 and 9 with
one or two layers, and layers that are not there are air afterwards.  `Detachable`
says which columns are not hurt by that, and `Loaded.statesAt_eq` and
`Loaded.returns` that they are those whose states come back.
-/

namespace BedrockProtocol

open BedrockNbt (tidiedDocument)

/-- Every layer reads as air. -/
def BedrockSubChunk.AllAir (sub : BedrockSubChunk) : Prop :=
  ∀ layer x y z : UInt8, sub.getBlockStateId layer x y z = .ok 0

namespace BedrockChunkColumn

variable {column column' : BedrockChunkColumn} {provider : Option BedrockBlockStateProvider}
  {resolver : Option BedrockBlockStateResolver}

/-- The sections that are there, from the lowest to the highest. -/
def present (column : BedrockChunkColumn) : List BedrockSubChunk := column.sections.filterMap id

/-- The fresh column that a decoder starts with. -/
def fresh (column : BedrockChunkColumn) : BedrockChunkColumn :=
  (new column.x column.z).withBounds column.minCY column.maxCY

/-- The block entities are stored with their encoding and hold nothing that it
leaves out. -/
def EntitiesTidy (column : BedrockChunkColumn) : Prop :=
  column.EntitiesSettled ∧
    ∀ key document, column.blockEntityNbt.lookup key = some document →
      tidiedDocument document = document

/-- A column without 3D biomes for the blob cache.  Its sections have the heights that
`setSection` and `ensureSection` give them. -/
structure LegacyCacheable (provider : Option BedrockBlockStateProvider)
    (resolver : Option BedrockBlockStateResolver) (column : BedrockChunkColumn) : Prop where
  sections : ∀ (i : ℕ) sub, column.sections[i]? = some (some sub) →
    sub.Cacheable provider resolver ∧ sub.y = Int8.ofInt (i - column.co)
  biomes : column.Columnwise
  entities : column.EntitiesTidy

/-- A column with 3D biomes for the blob cache. -/
structure BiomesCacheable (column : BedrockChunkColumn) : Prop where
  index_lt : ∀ area ∈ column.biomes, area.proxy = false →
    ∀ x y z, area.biomes.get x y z < area.palette.length
  id_lt : ∀ area ∈ column.biomes, ∀ biomeId ∈ area.palette, biomeId.toNat < 2 ^ 31

/-- The columns that the blob cache is meant for. -/
structure Cacheable (use3DBiomes : Bool) (provider : Option BedrockBlockStateProvider)
    (resolver : Option BedrockBlockStateResolver) (column : BedrockChunkColumn) : Prop where
  bounds : column.minCY < column.maxCY
  length_sections : column.sections.length = (column.maxCY - column.minCY).toNat
  length_biomes : column.biomes.length = (column.maxCY - column.minCY).toNat
  contents : if use3DBiomes then column.BiomesCacheable
    else column.LegacyCacheable provider resolver

/-- The contents that are cached without 3D biomes. -/
structure SameContents (column column' : BedrockChunkColumn) : Prop where
  states : ∀ pos, column'.getBlockStateId pos = column.getBlockStateId pos
  tags : ∀ key, column'.blockEntities.lookup key = column.blockEntities.lookup key
  documents : ∀ key, column'.blockEntityNbt.lookup key = column.blockEntityNbt.lookup key

/-- Encoding into an empty store and decoding from it into a fresh column works,
without missing blobs, and gives back what was cached. -/
def Restores (use3DBiomes : Bool) (provider : Option BedrockBlockStateProvider)
    (resolver : Option BedrockBlockStateResolver) (column : BedrockChunkColumn) : Prop :=
  ∃ encoded store column', column.networkEncodeCached ∅ use3DBiomes provider = .ok (encoded, store) ∧
    column.fresh.networkDecodeCached encoded.blobHashes store encoded.payload resolver =
      .ok ([], column') ∧
    (∀ pos, column'.getBiomeId pos = column.getBiomeId pos) ∧
    (use3DBiomes = false → SameContents column column')

/-- The height at which a section comes back: the one of the last section that is written with
the same bytes, which in version 9 hold the height. -/
def returnHeight (column : BedrockChunkColumn) (provider : Option BedrockBlockStateProvider)
    (sub : BedrockSubChunk) : Int8 :=
  ((column.present.reverse.find? fun other ↦ sectionBlob provider other = sectionBlob provider sub).map
    BedrockSubChunk.y).getD sub.y

/-- The section in slot `i` comes back in slot `k`.  If that is another one, the section is air,
and so is one in slot `k` that it comes back on top of. -/
structure Returns (column : BedrockChunkColumn) (provider : Option BedrockBlockStateProvider) (i : ℕ)
    (sub : BedrockSubChunk) (k : ℕ) : Prop where
  height : column.co + (column.returnHeight provider sub).toInt = k
  lt_length : k < column.sections.length
  moved : k ≠ i → sub.AllAir
  replaced : k < i → ∀ other, column.sections[k]? = some (some other) → other.AllAir

/-- The column does not run into what the code gets wrong. -/
def Detachable (use3DBiomes : Bool) (provider : Option BedrockBlockStateProvider)
    (column : BedrockChunkColumn) : Prop :=
  if use3DBiomes then
    (∃ area areas, column.biomes = area :: areas ∧ area.proxy = false) ∧
      ∀ area ∈ column.biomes, area.proxy = true ∨ area.palette.length = 1
  else column.present ≠ [] ∧ ∀ (i : ℕ) sub, column.sections[i]? = some (some sub) →
    sub.Recognized ∧ sub.airStateId = 0 ∧ ∃ k, column.Returns provider i sub k

/-- What is not read by accident: without 3D biomes no section has version 1, which is read
without the number of layers; the 3D biomes were built by setting biomes, and there are not too
many. -/
def Readable (use3DBiomes : Bool) (column : BedrockChunkColumn) : Prop :=
  if use3DBiomes then
    (∀ area ∈ column.biomes, area.proxy = true ∨ area.Writable) ∧
      column.writeBiomes.length < 2 ^ 18
  else ∀ sub ∈ column.present, sub.subChunkVersion ≠ 1

/-- The hash tells the blobs of the column apart. -/
def HashInjective (use3DBiomes : Bool) (provider : Option BedrockBlockStateProvider)
    (column : BedrockChunkColumn) : Prop :=
  ∀ entries, column.blobEntries use3DBiomes provider = .ok entries →
    ∀ entry ∈ entries, ∀ entry' ∈ entries, entry.hash = entry'.hash → entry.buffer = entry'.buffer

/-! ## The payload and the store -/

/-- The payload is an empty list of border blocks and block entities. -/
theorem readCachedPayload_eq_ok {entities : List UInt8} {c : Cursor}
    (h : column.decodeBlockEntities .littleVarInt ⟨1, entities⟩ = .ok (column', c)) :
    column.readCachedPayload (BinaryStream.writeVarUInt 0 ++ entities) = .ok column' := by
  have hone : BinaryStream.writeVarUInt 0 = [0] := by decide
  have hborder := reads_readBorderBlocks "invalid cached border block length" 0 entities
  rw [hone] at hborder ⊢
  rw [readCachedPayload, if_neg (by simp), Cursor.start, Reader.bind_run hborder]
  change Prod.fst <$> column.decodeBlockEntities .littleVarInt ⟨1, entities⟩ = _
  rw [h]
  rfl

/-- Without missing blobs the decoder loads one blob after the other. -/
theorem networkDecodeCached_eq {hashes : List UInt64} {store : BedrockBlobStore}
    {payload : List UInt8} (hpayload : column.readCachedPayload payload = .ok column')
    (hfound : ∀ hash ∈ hashes, (store.lookup hash).isSome) :
    column.networkDecodeCached hashes store payload resolver =
      hashes.foldlM (loadHash store resolver
          (hashes.any fun hash ↦ (store.lookup hash).any fun entry ↦ entry.type = .chunkSection))
        ([], { column' with
          sections := List.replicate (column'.maxCY - column'.minCY).toNat none }) := by
  have hmisses : (hashes.filter fun hash ↦ (store.lookup hash).isNone) = [] := by
    rw [List.filter_eq_nil_iff]
    intro hash hhash
    simp [Option.isSome_iff_ne_none.mp (hfound hash hhash)]
  rw [networkDecodeCached, hpayload, ok_bind]
  simp only [hmisses, ne_eq, not_true_eq_false, ↓reduceIte]

theorem loadHash_eq {store : BedrockBlobStore} {entry : BlobEntry} {hash : UInt64}
    {hasSectionBlobs : Bool} {misses : List UInt64} (hentry : store.lookup hash = some entry) :
    loadHash store resolver hasSectionBlobs (misses, column) hash =
      (fun column ↦ (misses, column)) <$> column.loadBlob resolver hasSectionBlobs entry := by
  rw [loadHash, hentry]
  rfl

/-! ## The blobs of the sections -/

/-- The bytes of a section's blob. -/
def blobOf (provider : Option BedrockBlockStateProvider) (sub : BedrockSubChunk) : List UInt8 :=
  match sectionBlob provider sub with
  | .ok blob => blob
  | .error _ => []

/-- The blob of a section. -/
def entryOf (column : BedrockChunkColumn) (provider : Option BedrockBlockStateProvider)
    (sub : BedrockSubChunk) : BlobEntry :=
  { x := column.x, y := sub.y.toInt, z := column.z, type := .chunkSection
    buffer := blobOf provider sub }

/-- The blobs of the column, if it has all of them. -/
def entriesOf (column : BedrockChunkColumn) (provider : Option BedrockBlockStateProvider)
    (biomes : List UInt8) : List BlobEntry :=
  column.present.map (column.entryOf provider) ++ [column.biomeEntry biomes]

/-- The store after the column was detached. -/
def storeOf (column : BedrockChunkColumn) (provider : Option BedrockBlockStateProvider)
    (biomes : List UInt8) : BedrockBlobStore :=
  insertAll BlobEntry.hash ∅ (column.entriesOf provider biomes)

theorem blobOf_eq {blob : List UInt8} {sub : BedrockSubChunk}
    (h : sectionBlob provider sub = .ok blob) : blobOf provider sub = blob := by
  rw [blobOf, h]

/-- A column that was detached, with its legacy biomes. -/
structure Detached (column : BedrockChunkColumn) (provider : Option BedrockBlockStateProvider)
    (resolver : Option BedrockBlockStateResolver) (biomes : List UInt8) : Prop where
  cacheable : column.LegacyCacheable provider resolver
  written : ∀ sub ∈ column.present, sectionBlob provider sub = .ok (blobOf provider sub)
  length_biomes : biomes.length = 256
  injective : ∀ entry ∈ column.entriesOf provider biomes, ∀ entry' ∈ column.entriesOf provider biomes,
    entry.hash = entry'.hash → entry.buffer = entry'.buffer

theorem mem_present {i : ℕ} {sub : BedrockSubChunk} (h : column.sections[i]? = some (some sub)) :
    sub ∈ column.present :=
  List.mem_filterMap.mpr ⟨some sub, List.mem_of_getElem? h, rfl⟩

theorem exists_slot_of_mem_present {sub : BedrockSubChunk} (h : sub ∈ column.present) :
    ∃ i : ℕ, column.sections[i]? = some (some sub) := by
  obtain ⟨found, hfound, hsome⟩ := List.mem_filterMap.mp h
  obtain ⟨i, hi⟩ := List.mem_iff_getElem?.mp hfound
  obtain rfl : found = some sub := hsome
  exact ⟨i, hi⟩

theorem LegacyCacheable.cacheable (h : column.LegacyCacheable provider resolver)
    {sub : BedrockSubChunk} (hsub : sub ∈ column.present) : sub.Cacheable provider resolver := by
  obtain ⟨i, hi⟩ := exists_slot_of_mem_present hsub
  exact (h.sections i sub hi).1

/-- The last section with the bytes of a section. -/
theorem exists_home (provider : Option BedrockBlockStateProvider) {sub : BedrockSubChunk}
    (hsub : sub ∈ column.present) :
    ∃ home, IsLast (sectionBlob provider) column.present home ∧
      sectionBlob provider home = sectionBlob provider sub ∧
      column.returnHeight provider sub = home.y := by
  unfold returnHeight
  cases hfind : column.present.reverse.find? fun other ↦
      sectionBlob provider other = sectionBlob provider sub with
  | none =>
      have hnone := List.find?_eq_none.mp hfind sub (List.mem_reverse.mpr hsub)
      simp at hnone
  | some home =>
      obtain ⟨hblob, hlast⟩ := isLast_of_find? hfind
      exact ⟨home, hlast, hblob, rfl⟩

/-- In version 9 that is the section's own height. -/
theorem LegacyCacheable.returnHeight_eq (h : column.LegacyCacheable provider resolver)
    {sub : BedrockSubChunk} (hsub : sub ∈ column.present) {bytes : List UInt8}
    (hbytes : sectionBlob provider sub = .ok bytes) (hversion : sub.subChunkVersion = 9) :
    column.returnHeight provider sub = sub.y := by
  obtain ⟨home, hlast, hblob, hheight⟩ := exists_home provider hsub
  rw [hheight]
  exact ((h.cacheable hsub).y_of_encodeTo_eq (h.cacheable hlast.mem) hbytes (hblob.trans hbytes)
    hversion).symm

/-- It is in the slot of the section or in a higher one. -/
theorem exists_home_slot (provider : Option BedrockBlockStateProvider) {j : ℕ} {sub : BedrockSubChunk}
    (hsub : column.sections[j]? = some (some sub)) :
    ∃ (i : ℕ) (home : BedrockSubChunk), column.sections[i]? = some (some home) ∧ j ≤ i ∧
      sectionBlob provider home = sectionBlob provider sub ∧
      column.returnHeight provider sub = home.y ∧ column.returnHeight provider home = home.y := by
  obtain ⟨home, hlast, hblob, hheight⟩ := exists_home provider (mem_present hsub)
  obtain ⟨other, hother, hsame, hreturn⟩ := exists_home provider hlast.mem
  rw [hother.unique hlast hsame] at hreturn
  rw [present, ← map_snd_occupied] at hlast
  obtain ⟨⟨i, placed⟩, heq, hplaced⟩ := hlast.exists_of_map
  obtain rfl : placed = home := heq
  refine ⟨i, placed, mem_occupied.mp hplaced.mem, ?_, hblob, hheight, hreturn⟩
  rcases hplaced.eq_or_rel (pairwise_occupied column.sections) (mem_occupied.mpr hsub) hblob.symm with
    heq | hlt
  · exact (congrArg Prod.fst heq).le
  · exact hlt.le

/-- The slot where a section comes back. -/
def place (column : BedrockChunkColumn) (provider : Option BedrockBlockStateProvider)
    (sub : BedrockSubChunk) : ℕ :=
  (column.co + (column.returnHeight provider sub).toInt).toNat

/-- A section that is read and comes back in a slot of the column. -/
structure Lands (column : BedrockChunkColumn) (provider : Option BedrockBlockStateProvider)
    (sub : BedrockSubChunk) : Prop where
  recognized : sub.Recognized
  height : column.co + (column.returnHeight provider sub).toInt = column.place provider sub
  lt_length : column.place provider sub < column.sections.length

theorem lands_of_slot {sub : BedrockSubChunk} {k : ℕ} (hrecognized : sub.Recognized)
    (hheight : column.co + (column.returnHeight provider sub).toInt = k)
    (hlt : k < column.sections.length) :
    column.Lands provider sub ∧ column.place provider sub = k := by
  have hplace : column.place provider sub = k := by
    rw [place, hheight, Int.toNat_natCast]
  exact ⟨⟨hrecognized, by rw [hplace, hheight], by rwa [hplace]⟩, hplace⟩

namespace Detached

variable {biomes : List UInt8} (h : column.Detached provider resolver biomes)

include h

/-- The store has, for every section, the blob of the last one with its bytes. -/
theorem lookup_section {sub : BedrockSubChunk} (hsub : sub ∈ column.present) :
    (column.storeOf provider biomes).lookup (column.entryOf provider sub).hash =
      some { column.entryOf provider sub with y := (column.returnHeight provider sub).toInt } := by
  obtain ⟨home, ⟨before, after, hsplit, hafter⟩, hblob, hheight⟩ := exists_home provider hsub
  have hhome : home ∈ column.present := by simp [hsplit]
  have hbytes : blobOf provider home = blobOf provider sub := by rw [blobOf, hblob, ← blobOf]
  have hentry : column.entryOf provider home = { column.entryOf provider sub with
      y := (column.returnHeight provider sub).toInt } := by
    rw [entryOf, entryOf, hbytes, hheight]
  have hhash : (column.entryOf provider sub).hash = (column.entryOf provider home).hash := by
    rw [hentry]
    rfl
  rw [hhash, ← hentry]
  refine lookup_insertAll ⟨before.map (column.entryOf provider),
    after.map (column.entryOf provider) ++ [column.biomeEntry biomes], ?_, fun entry hmem hsame ↦ ?_⟩
  · rw [entriesOf, hsplit, List.map_append, List.map_cons, List.append_assoc, List.cons_append]
  · have hall : entry ∈ column.entriesOf provider biomes := by
      rw [entriesOf, hsplit, List.map_append, List.append_assoc]
      exact List.mem_append_right _ (List.mem_cons_of_mem _ hmem)
    have hhomeEntry : column.entryOf provider home ∈ column.entriesOf provider biomes :=
      List.mem_append_left _ (List.mem_map_of_mem hhome)
    have hbuffer := h.injective entry hall _ hhomeEntry hsame
    rcases List.mem_append.mp hmem with hsection | hbiome
    · obtain ⟨other, hother, rfl⟩ := List.mem_map.mp hsection
      refine hafter other hother ?_
      have hmem' : other ∈ column.present := by simp [hsplit, hother]
      rw [h.written other hmem', h.written home hhome]
      exact congrArg Except.ok hbuffer
    · obtain rfl := List.mem_singleton.mp hbiome
      refine (h.cacheable.cacheable hhome).length_encodeTo_ne (h.written home hhome) ?_
      exact (congrArg List.length hbuffer).symm.trans h.length_biomes

/-- Loading the blob of a section. -/
theorem loadHash_section {sub : BedrockSubChunk} (hsub : sub ∈ column.present)
    (into : BedrockChunkColumn) (hasSectionBlobs : Bool) :
    loadHash (column.storeOf provider biomes) resolver hasSectionBlobs ([], into)
        (column.entryOf provider sub).hash =
      (fun column ↦ ([], column)) <$> into.loadSectionBlob resolver
        { column.entryOf provider sub with y := (column.returnHeight provider sub).toInt } :=
  loadHash_eq (h.lookup_section hsub)

/-- A section that is read is put at the height of the last one with its bytes. -/
theorem exists_found {sub : BedrockSubChunk} (hsub : sub ∈ column.present)
    (hrecognized : sub.Recognized) :
    ∃ y found, sub.Restored y found ∧ found.y = column.returnHeight provider sub ∧
      ∀ (into : BedrockChunkColumn) hasSectionBlobs,
        loadHash (column.storeOf provider biomes) resolver hasSectionBlobs ([], into)
            (column.entryOf provider sub).hash =
          (fun column ↦ ([], column)) <$> into.setSection found.y.toInt found := by
  let start : BedrockSubChunk :=
    { y := Int8.ofInt (column.returnHeight provider sub).toInt, subChunkVersion := 8 }
  have hcacheable := h.cacheable.cacheable hsub
  obtain ⟨bytes, hbytes, hreads⟩ := hcacheable.reads_decodeFrom hrecognized
  obtain ⟨found, hread, hrestored⟩ := hreads start
  have hstart : start.y = column.returnHeight provider sub := Int8.ofInt_toInt _
  have hy : found.y = column.returnHeight provider sub := by
    rw [hrestored.height, hstart]
    split
    · rename_i hversion
      exact (h.cacheable.returnHeight_eq hsub hbytes hversion).symm
    · rfl
  refine ⟨start.y, found, hrestored, hy, fun into hasSectionBlobs ↦ ?_⟩
  have hrun := hread.start []
  rw [List.append_nil] at hrun
  have hload : into.loadSectionBlob resolver
      { column.entryOf provider sub with y := (column.returnHeight provider sub).toInt } =
        into.setSection found.y.toInt found := by
    change (start.decodeFrom .networkPersistence 0 resolver
      (Cursor.start (blobOf provider sub)) >>= _) = _
    rw [blobOf_eq hbytes, hrun, ok_bind]
    dsimp only
    rw [if_neg (by simp)]
  rw [h.loadHash_section hsub, hload]

/-- A section whose blob is loaded is read and comes back inside the column. -/
theorem lands_of_loadHash {sub : BedrockSubChunk} (hsub : sub ∈ column.present)
    (hone : sub.subChunkVersion ≠ 1) {into : BedrockChunkColumn} {hasSectionBlobs : Bool}
    {loaded : List UInt64 × BedrockChunkColumn} (hco : into.co = column.co)
    (hlength : into.sections.length = column.sections.length)
    (hload : loadHash (column.storeOf provider biomes) resolver hasSectionBlobs ([], into)
      (column.entryOf provider sub).hash = .ok loaded) :
    column.Lands provider sub := by
  have hrecognized : sub.Recognized := by
    rw [h.loadHash_section hsub] at hload
    obtain ⟨loaded', hblob, -⟩ := map_eq_ok.mp hload
    obtain ⟨found, hread, -⟩ := bind_eq_ok.mp hblob
    exact (h.cacheable.cacheable hsub).recognized_of_decodeFrom (h.written sub hsub) hone hread
  obtain ⟨y, found, -, hy, hput⟩ := h.exists_found hsub hrecognized
  rw [hput, hy] at hload
  obtain ⟨loaded', hset, -⟩ := map_eq_ok.mp hload
  have hslot : (slot into.sections (into.co + (column.returnHeight provider sub).toInt)).isSome := by
    unfold setSection at hset
    split at hset
    · cases hset
    · rename_i hsome
      rw [hsome]
      rfl
  obtain ⟨hpos, hlt⟩ := slot_isSome_iff.mp hslot
  rw [hco] at hpos hlt
  exact (lands_of_slot hrecognized (Int.toNat_of_nonneg hpos).symm (by omega)).1

end Detached

theorem setSection_eq_ok {into : BedrockChunkColumn} {k : ℕ} {found : BedrockSubChunk}
    (hindex : into.co + found.y.toInt = k) (hlt : k < into.sections.length) :
    into.setSection found.y.toInt found =
      .ok { into with sections := into.sections.set k (some found) } := by
  have hself : found.setY (Int8.ofInt found.y.toInt) = found := by
    rw [Int8.ofInt_toInt]
    rfl
  unfold setSection
  rw [hindex, slot, if_neg (by omega), Int.toNat_natCast, List.getElem?_eq_getElem hlt, hself]

/-- What is put into a column does not change its size. -/
theorem size_of_setSection {into loaded : BedrockChunkColumn} {sectionY : ℤ} {found : BedrockSubChunk}
    (h : into.setSection sectionY found = .ok loaded) :
    loaded.co = into.co ∧ loaded.sections.length = into.sections.length := by
  unfold setSection at h
  split at h
  · cases h
  · cases h
    exact ⟨rfl, List.length_set ..⟩

/-- Loading the blobs of some of the sections, one after the other. -/
theorem foldlM_loadHash {store : BedrockBlobStore} {found : BedrockSubChunk → BedrockSubChunk}
    {hasSectionBlobs : Bool} (subs : List (ℕ × BedrockSubChunk))
    (hload : ∀ p ∈ subs, ∀ into : BedrockChunkColumn, into.co = column.co →
      into.sections.length = column.sections.length →
      loadHash store resolver hasSectionBlobs ([], into) (column.entryOf provider p.2).hash =
        .ok ([], { into with
          sections := into.sections.set (column.place provider p.2) (some (found p.2)) }))
    (into : BedrockChunkColumn) (hco : into.co = column.co)
    (hlength : into.sections.length = column.sections.length) :
    (subs.map fun p ↦ (column.entryOf provider p.2).hash).foldlM
        (loadHash store resolver hasSectionBlobs) ([], into) =
      .ok ([], { into with
        sections := putAll (fun p ↦ column.place provider p.2) (fun p ↦ found p.2) into.sections
          subs }) := by
  induction subs generalizing into with
  | nil => rfl
  | cons p subs ih =>
      rw [List.map_cons, List.foldlM_cons, hload p (by simp) into hco hlength, ok_bind]
      exact ih (fun q hq ↦ hload q (by simp [hq])) _ hco (by simpa using hlength)

/-- The sections after loading the blobs. -/
def landed (column : BedrockChunkColumn) (provider : Option BedrockBlockStateProvider)
    (found : BedrockSubChunk → BedrockSubChunk) : List (Option BedrockSubChunk) :=
  putAll (fun p ↦ column.place provider p.2) (fun p ↦ found p.2)
    (List.replicate (column.maxCY - column.minCY).toNat none) (occupied column.sections)

/-- A column whose sections were all read, and what came back. -/
structure Loaded (column : BedrockChunkColumn) (provider : Option BedrockBlockStateProvider)
    (resolver : Option BedrockBlockStateResolver) (found : BedrockSubChunk → BedrockSubChunk)
    (column' : BedrockChunkColumn) : Prop where
  cacheable : column.LegacyCacheable provider resolver
  length_sections : column.sections.length = (column.maxCY - column.minCY).toNat
  lands : ∀ sub ∈ column.present, column.Lands provider sub
  restored : ∀ sub ∈ column.present, ∃ y, sub.Restored y (found sub)
  sections : column'.sections = column.landed provider found

theorem blobEntries_eq {biomes : List UInt8}
    (hwritten : ∀ sub ∈ column.present, sectionBlob provider sub = .ok (blobOf provider sub))
    (hbiomes : column.dumpLegacyBiomes = .ok biomes) :
    column.blobEntries false provider = .ok (column.entriesOf provider biomes) := by
  have hsections : column.present.mapM (column.sectionEntry provider) =
      .ok (column.present.map (column.entryOf provider)) := by
    refine mapM_eq_ok fun sub hsub ↦ ?_
    rw [sectionEntry, hwritten sub hsub]
    rfl
  change (column.present.mapM (column.sectionEntry provider) >>= _) = _
  rw [hsections, hbiomes]
  rfl

/-- The blobs that the encoder made. -/
theorem written_of_blobEntries {entries : List BlobEntry}
    (h : column.blobEntries false provider = .ok entries) :
    ∀ sub ∈ column.present, sectionBlob provider sub = .ok (blobOf provider sub) := by
  obtain ⟨sections, hsections, -⟩ := bind_eq_ok.mp h
  intro sub hsub
  obtain ⟨entry, -, hentry⟩ := exists_right_of_forall₂ (mapM_eq_ok_iff.mp hsections) hsub
  obtain ⟨blob, hblob, -⟩ := bind_eq_ok.mp hentry
  rw [blobOf_eq hblob, hblob]

theorem Cacheable.exists_dump (h : column.Cacheable false provider resolver) :
    ∃ biome, column.ColumnwiseBiomes biome ∧ column.dumpLegacyBiomes =
      .ok (BedrockBiomeSection.legacyPositions.map fun p ↦
        biome (p.1.toNat % 16) (p.2.toNat % 16)) := by
  have hcontents : column.LegacyCacheable provider resolver := h.contents
  obtain ⟨biome, hbiome⟩ := hcontents.biomes
  have hbounds := h.bounds
  have hareas : column.biomes ≠ [] := by
    rw [← List.length_pos_iff, h.length_biomes]
    omega
  exact ⟨biome, hbiome, dumpLegacyBiomes_eq_ok hareas hbiome⟩

theorem Cacheable.detached (h : column.Cacheable false provider resolver)
    (hinjective : column.HashInjective false provider)
    (hwritten : ∀ sub ∈ column.present, sectionBlob provider sub = .ok (blobOf provider sub))
    {biome : ℕ → ℕ → UInt8} (hdump : column.dumpLegacyBiomes =
      .ok (BedrockBiomeSection.legacyPositions.map fun p ↦
        biome (p.1.toNat % 16) (p.2.toNat % 16))) :
    column.Detached provider resolver (BedrockBiomeSection.legacyPositions.map fun p ↦
      biome (p.1.toNat % 16) (p.2.toNat % 16)) where
  cacheable := h.contents
  written := hwritten
  length_biomes := by rw [List.length_map, BedrockBiomeSection.length_legacyPositions]
  injective := hinjective _ (blobEntries_eq hwritten hdump)

theorem sectionBlob_of_lands (h : column.LegacyCacheable provider resolver) {sub : BedrockSubChunk}
    (hsub : sub ∈ column.present) (hland : column.Lands provider sub) :
    sectionBlob provider sub = .ok (blobOf provider sub) := by
  obtain ⟨bytes, hbytes, -⟩ := (h.cacheable hsub).reads_decodeFrom hland.recognized
  have hblob : sectionBlob provider sub = .ok bytes := hbytes
  rw [blobOf_eq hblob, hblob]

/-- The decoder puts the sections into the column behind its payload, one after the other, and then
loads the biomes. -/
theorem networkDecodeCached_storeOf {biomes : List UInt8} (h : column.Detached provider resolver biomes)
    (hlength : column.sections.length = (column.maxCY - column.minCY).toNat)
    (hne : column.present ≠ []) (hlands : ∀ sub ∈ column.present, column.Lands provider sub)
    {found : BedrockSubChunk → BedrockSubChunk}
    (hy : ∀ sub ∈ column.present, (found sub).y = column.returnHeight provider sub)
    (hput : ∀ sub ∈ column.present, ∀ (into : BedrockChunkColumn) hasSectionBlobs,
      loadHash (column.storeOf provider biomes) resolver hasSectionBlobs ([], into)
          (column.entryOf provider sub).hash =
        (fun column ↦ ([], column)) <$> into.setSection (found sub).y.toInt (found sub))
    {payload : List UInt8} {base loaded : BedrockChunkColumn}
    (hpayload : column.fresh.readCachedPayload payload = .ok base) (hmin : base.minCY = column.minCY)
    (hmax : base.maxCY = column.maxCY)
    (hbiomes : ({ base with sections := column.landed provider found } :
      BedrockChunkColumn).loadLegacyBiomes biomes = .ok loaded) :
    column.fresh.networkDecodeCached ((column.entriesOf provider biomes).map BlobEntry.hash)
        (column.storeOf provider biomes) payload resolver = .ok ([], loaded) := by
  let store := column.storeOf provider biomes
  have hhashes : ∀ hash ∈ (column.entriesOf provider biomes).map BlobEntry.hash,
      (store.lookup hash).isSome := by
    intro hash hhash
    obtain ⟨entry, hentry, rfl⟩ := List.mem_map.mp hhash
    exact isSome_lookup_insertAll hentry
  have hany : (((column.entriesOf provider biomes).map BlobEntry.hash).any fun hash ↦
      (store.lookup hash).any fun entry ↦ entry.type = .chunkSection) = true := by
    obtain ⟨sub, hsub⟩ := List.exists_mem_of_ne_nil _ hne
    rw [List.any_eq_true]
    refine ⟨(column.entryOf provider sub).hash, ?_, by rw [h.lookup_section hsub]; rfl⟩
    exact List.mem_map_of_mem (List.mem_append_left _ (List.mem_map_of_mem hsub))
  have hlast : store.lookup (column.biomeEntry biomes).hash = some (column.biomeEntry biomes) :=
    lookup_insertAll ⟨column.present.map (column.entryOf provider), [], rfl, by simp⟩
  have hloop := @foldlM_loadHash column provider resolver store found true
    (occupied column.sections) (fun p hp into hintoCo hintoLength ↦ by
      have hsub : p.2 ∈ column.present := mem_present (mem_occupied.mp hp)
      have hland := hlands p.2 hsub
      rw [hput p.2 hsub, setSection_eq_ok (by rw [hintoCo, hy p.2 hsub, hland.height])
        (hintoLength ▸ hland.lt_length)]
      rfl)
    { base with sections := List.replicate (base.maxCY - base.minCY).toNat none }
    (by rw [co, co, hmin]) (by rw [List.length_replicate, hlength, hmin, hmax])
  have hsplit : (column.entriesOf provider biomes).map BlobEntry.hash =
      ((occupied column.sections).map fun p ↦ (column.entryOf provider p.2).hash) ++
        [(column.biomeEntry biomes).hash] := by
    rw [entriesOf, present, ← map_snd_occupied, List.map_append, List.map_map, List.map_map]
    rfl
  have hblob : ({ base with sections := column.landed provider found } : BedrockChunkColumn).loadBlob
      resolver true (column.biomeEntry biomes) = .ok loaded := hbiomes
  have hlanded : putAll (fun p ↦ column.place provider p.2) (fun p ↦ found p.2)
      (List.replicate (base.maxCY - base.minCY).toNat none) (occupied column.sections) =
        column.landed provider found := by
    rw [landed, hmin, hmax]
  dsimp only at hloop
  rw [hlanded] at hloop
  rw [networkDecodeCached_eq hpayload hhashes, hany, hsplit, List.foldlM_append]
  refine bind_eq_ok.mpr ⟨_, hloop, ?_⟩
  rw [List.foldlM_cons, loadHash_eq hlast, hblob]
  rfl

/-- What comes back of a column with at least one section, when all of them are read. -/
theorem exists_decoded (h : column.Cacheable false provider resolver)
    (hinjective : column.HashInjective false provider) (hne : column.present ≠ [])
    (hlands : ∀ sub ∈ column.present, column.Lands provider sub) :
    ∃ encoded store column' found,
      column.networkEncodeCached ∅ false provider = .ok (encoded, store) ∧
      column.fresh.networkDecodeCached encoded.blobHashes store encoded.payload resolver =
        .ok ([], column') ∧
      (∀ pos, column'.getBiomeId pos = column.getBiomeId pos) ∧
      (∀ key, column'.blockEntities.lookup key = column.blockEntities.lookup key) ∧
      (∀ key, column'.blockEntityNbt.lookup key = column.blockEntityNbt.lookup key) ∧
      column'.minCY = column.minCY ∧ column.Loaded provider resolver found column' := by
  have hcontents : column.LegacyCacheable provider resolver := h.contents
  have hwritten : ∀ sub ∈ column.present, sectionBlob provider sub = .ok (blobOf provider sub) :=
    fun sub hsub ↦ sectionBlob_of_lands hcontents hsub (hlands sub hsub)
  obtain ⟨biome, hbiome, hdump⟩ := h.exists_dump
  have hdetached := h.detached hinjective hwritten hdump
  have hentries := blobEntries_eq hwritten hdump
  generalize hbiomes : BedrockBiomeSection.legacyPositions.map (fun p ↦
    biome (p.1.toNat % 16) (p.2.toNat % 16)) = biomes at hdetached hentries
  have hfound := fun sub hsub ↦ hdetached.exists_found hsub (hlands sub hsub).recognized
  choose! y found hrestored hy hput using hfound
  obtain ⟨entities, hentities, hdecode⟩ := hcontents.entities.1.decodeBlockEntities column.fresh rfl rfl
  obtain ⟨blockEntities, blockEntityNbt, hrun, hlookup⟩ := hdecode 1
  let store := column.storeOf provider biomes
  let loaded : BedrockChunkColumn :=
    { column.fresh with
      blockEntities, blockEntityNbt, sections := column.landed provider found }
  have hbounds := h.bounds
  have hfresh : loaded.biomes ≠ [] := by
    have hcount : loaded.biomes.length = (column.maxCY - column.minCY).toNat := by
      simp [loaded, fresh, withBounds]
    rw [← List.length_pos_iff, hcount]
    omega
  have htight : (loaded.biomes.headD { y := 0 }).Tight := by
    obtain ⟨area, areas, hareas⟩ := List.exists_cons_of_ne_nil hfresh
    rw [hareas, List.headD_cons]
    exact (@fresh_biomes column.x column.z column.minCY column.maxCY area
      (by change area ∈ loaded.biomes; simp [hareas])).1
  obtain ⟨areas, hareas, hareasLength, hids⟩ := loadLegacyBiomes_eq_ok hfresh htight biome
  refine ⟨⟨(column.entriesOf provider biomes).map BlobEntry.hash,
      BinaryStream.writeVarUInt 0 ++ entities⟩, store, { loaded with biomes := areas }, found, ?_, ?_,
    ?_, fun key ↦ (hlookup key).1, fun key ↦ ?_, rfl,
    ⟨hcontents, h.length_sections, hlands, fun sub hsub ↦ ⟨y sub, hrestored sub hsub⟩, rfl⟩⟩
  · rw [networkEncodeCached, hentries]
    change (column.encodeBlockEntities .littleVarInt >>= _) = _
    rw [hentities]
    rfl
  · have hpayload : column.fresh.readCachedPayload (BinaryStream.writeVarUInt 0 ++ entities) =
        .ok { column.fresh with blockEntities, blockEntityNbt } := readCachedPayload_eq_ok hrun
    refine networkDecodeCached_storeOf hdetached h.length_sections hne hlands hy hput hpayload rfl rfl ?_
    rw [← hbiomes]
    exact hareas
  · exact @getBiomeId_eq_of_columnwise column { loaded with biomes := areas } biome rfl
      (hareasLength.trans (by rw [h.length_biomes]; simp [loaded, fresh, withBounds])) hbiome hids
  · refine (hlookup key).2.trans ?_
    cases hdocument : column.blockEntityNbt.lookup key with
    | none => rfl
    | some document => rw [Option.map_some, hcontents.entities.2 key document hdocument]

/-- What the decoder took was read and came back inside the column. -/
theorem lands_of_restores (h : column.Cacheable false provider resolver)
    (hinjective : column.HashInjective false provider) (hreadable : column.Readable false)
    (hrestores : column.Restores false provider resolver) :
    ∀ sub ∈ column.present, column.Lands provider sub := by
  have hcontents : column.LegacyCacheable provider resolver := h.contents
  obtain ⟨encoded, store, column', hencode, hdecode, -⟩ := hrestores
  obtain ⟨entries, hentries, hencode⟩ := bind_eq_ok.mp hencode
  have hwritten := written_of_blobEntries hentries
  obtain ⟨biome, -, hdump⟩ := h.exists_dump
  have hdetached := h.detached hinjective hwritten hdump
  rw [blobEntries_eq hwritten hdump] at hentries
  generalize BedrockBiomeSection.legacyPositions.map (fun p ↦
    biome (p.1.toNat % 16) (p.2.toNat % 16)) = biomes at hdetached hentries
  obtain rfl := Except.ok.inj hentries
  obtain ⟨entities, hentities, hdecodes⟩ :=
    hcontents.entities.1.decodeBlockEntities column.fresh rfl rfl
  obtain ⟨blockEntities, blockEntityNbt, hrun, -⟩ := hdecodes 1
  change (column.encodeBlockEntities .littleVarInt >>= _) = _ at hencode
  rw [hentities] at hencode
  cases hencode
  have hhashes : ∀ hash ∈ (column.entriesOf provider biomes).map BlobEntry.hash,
      ((column.storeOf provider biomes).lookup hash).isSome := by
    intro hash hhash
    obtain ⟨entry, hentry, rfl⟩ := List.mem_map.mp hhash
    exact isSome_lookup_insertAll hentry
  change column.fresh.networkDecodeCached _ (column.storeOf provider biomes) _ resolver = _ at hdecode
  rw [networkDecodeCached_eq (readCachedPayload_eq_ok hrun) hhashes, entriesOf, List.map_append,
    List.foldlM_append] at hdecode
  obtain ⟨loaded, hsections, -⟩ := bind_eq_ok.mp hdecode
  have hturns := @foldlM_turns _ _ _ (fun found : List UInt64 × BedrockChunkColumn ↦
    found.1 = [] ∧ found.2.co = column.co ∧ found.2.sections.length = column.sections.length) _ _ _ _
    (fun hash hhash found found' hfound hload ↦ by
      obtain ⟨entry, hentry, rfl⟩ := List.mem_map.mp hhash
      obtain ⟨sub, hsub, rfl⟩ := List.mem_map.mp hentry
      obtain ⟨misses, into⟩ := found
      obtain ⟨rfl, hco, hlength⟩ := hfound
      rw [hdetached.loadHash_section hsub] at hload
      obtain ⟨into', hblob, rfl⟩ := map_eq_ok.mp hload
      obtain ⟨⟨read, c⟩, -, hput⟩ := bind_eq_ok.mp hblob
      dsimp only at hput
      split at hput
      · cases hput
      · obtain ⟨hco', hlength'⟩ := size_of_setSection hput
        exact ⟨rfl, hco'.trans hco, hlength'.trans hlength⟩)
    hsections ⟨rfl, rfl, by simp [h.length_sections, fresh, withBounds]⟩
  intro sub hsub
  obtain ⟨⟨misses, into⟩, found', ⟨rfl, hco, hlength⟩, hload⟩ :=
    hturns _ (List.mem_map_of_mem (List.mem_map_of_mem hsub))
  exact hdetached.lands_of_loadHash hsub (hreadable sub hsub) hco hlength hload

/-! ## The states of the slots -/

/-- A state of the section in slot `k`, which is air if there is none. -/
def statesAt (column : BedrockChunkColumn) (k : ℕ) (layer x y z : UInt8) : Except String Int32 :=
  match column.sections[k]?.join with
  | none => .ok 0
  | some sub => sub.getBlockStateId layer x y z

theorem statesAt_of_none {k : ℕ} (h : column.sections[k]? = some none ∨ column.sections[k]? = none)
    (layer x y z : UInt8) : column.statesAt k layer x y z = .ok 0 := by
  rcases h with h | h <;> rw [statesAt, h] <;> rfl

theorem statesAt_of_some {k : ℕ} {sub : BedrockSubChunk} (h : column.sections[k]? = some (some sub))
    (layer x y z : UInt8) :
    column.statesAt k layer x y z = sub.getBlockStateId layer x y z := by
  rw [statesAt, h]
  rfl

theorem getBlockStateId_localCoord (sub : BedrockSubChunk) (layer x y z : UInt8) {blockY : ℤ}
    (hy : blockY % 16 = y.toNat % 16) :
    sub.getBlockStateId layer (localCoord x.toNat) (localCoord blockY) (localCoord z.toNat) =
      sub.getBlockStateId layer x y z := by
  have hindex : PalettedStorage.blockIndex (localCoord x.toNat) (localCoord blockY)
      (localCoord z.toNat) = PalettedStorage.blockIndex x y z := by
    rw [PalettedStorage.blockIndex_eq_iff, toNat_localCoord, toNat_localCoord, toNat_localCoord]
    omega
  unfold BedrockSubChunk.getBlockStateId Layer.getBlockStateId PalettedStorage.get
  rw [hindex]

/-- Two columns of the same bounds have the same states if their slots have. -/
theorem states_iff (hco : column'.co = column.co) :
    (∀ pos, column'.getBlockStateId pos = column.getBlockStateId pos) ↔
      ∀ k layer x y z, column'.statesAt k layer x y z = column.statesAt k layer x y z := by
  constructor
  · intro h k layer x y z
    let pos : BlockPosition := ⟨x.toNat, 16 * (k - column.co) + y.toNat % 16, z.toNat, some layer⟩
    have hheight : column.co + pos.y >>> (4 : ℕ) = k := by
      rw [shiftRight_four]
      change column.co + (16 * (k - column.co) + y.toNat % 16) / 16 = k
      omega
    have hlocal (sub : BedrockSubChunk) := getBlockStateId_localCoord sub layer x y z
      (show pos.y % 16 = y.toNat % 16 by
        change (16 * (k - column.co) + (y.toNat : ℤ) % 16) % 16 = _
        omega)
    have hread {into : BedrockChunkColumn} (hinto : into.co = column.co) :
        into.getBlockStateId pos = into.statesAt k layer x y z := by
      have hsection : into.getSection pos.y = into.sections[k]?.join := by
        rw [getSection, slot, hinto, hheight, if_neg (by omega), Int.toNat_natCast]
      rw [getBlockStateId, statesAt, hsection]
      cases into.sections[k]?.join with
      | none => rfl
      | some sub => exact hlocal sub
    rw [← hread hco, ← hread rfl, h]
  · intro h pos
    have hread {into : BedrockChunkColumn} (hinto : into.co = column.co)
        (hpos : 0 ≤ column.co + pos.y >>> (4 : ℕ)) : into.getBlockStateId pos =
          into.statesAt (column.co + pos.y >>> (4 : ℕ)).toNat (pos.layer.getD 0) (localCoord pos.x)
            (localCoord pos.y) (localCoord pos.z) := by
      rw [getBlockStateId, getSection, slot, hinto, if_neg (by omega)]
      rfl
    by_cases hpos : 0 ≤ column.co + pos.y >>> (4 : ℕ)
    · rw [hread hco hpos, hread rfl hpos, h]
    · have hnone {into : BedrockChunkColumn} (hinto : into.co = column.co) :
          into.getBlockStateId pos = .ok 0 := by
        rw [getBlockStateId, getSection, slot, hinto, if_pos (by omega)]
        rfl
      rw [hnone hco, hnone rfl]

/-- The last section that comes back in the slot of one. -/
theorem exists_isLast_place (provider : Option BedrockBlockStateProvider) {i : ℕ}
    {sub : BedrockSubChunk} (hsub : column.sections[i]? = some (some sub)) :
    ∃ j last, IsLast (fun p : ℕ × BedrockSubChunk ↦ column.place provider p.2)
        (occupied column.sections) (j, last) ∧
      column.place provider last = column.place provider sub ∧ i ≤ j := by
  obtain ⟨⟨j, last⟩, hplace, hlast⟩ := @exists_isLast _ _
    (fun p : ℕ × BedrockSubChunk ↦ column.place provider p.2) _ _ ⟨(i, sub), mem_occupied.mpr hsub, rfl⟩
  refine ⟨j, last, hlast, hplace, ?_⟩
  rcases hlast.eq_or_rel (pairwise_occupied column.sections) (mem_occupied.mpr hsub) hplace.symm with
    heq | hlt
  · exact (congrArg Prod.fst heq).le
  · exact hlt.le

section Landed

variable {found : BedrockSubChunk → BedrockSubChunk}
  (hsections : column'.sections = column.landed provider found)

include hsections

/-- Where no section comes back there is none. -/
theorem statesAt_of_not_landed {k : ℕ}
    (hnone : ∀ (i : ℕ) sub, column.sections[i]? = some (some sub) → column.place provider sub ≠ k)
    (layer x y z : UInt8) : column'.statesAt k layer x y z = .ok 0 := by
  refine statesAt_of_none ?_ layer x y z
  rw [hsections, landed, getElem?_putAll_of_ne _ fun p hp ↦ hnone p.1 p.2 (mem_occupied.mp hp),
    List.getElem?_replicate]
  split
  · exact .inl rfl
  · exact .inr rfl

/-- Else there is the last one that does, as it was read. -/
theorem statesAt_of_isLast (hlength : column.sections.length = (column.maxCY - column.minCY).toNat)
    {j : ℕ} {sub : BedrockSubChunk} (hlands : column.Lands provider sub)
    (hlast : IsLast (fun p : ℕ × BedrockSubChunk ↦ column.place provider p.2)
      (occupied column.sections) (j, sub)) (layer x y z : UInt8) :
    column'.statesAt (column.place provider sub) layer x y z =
      (found sub).getBlockStateId layer x y z := by
  have hlt := hlands.lt_length
  have hslot := @getElem?_putAll_of_isLast _ (occupied column.sections) _
    (fun p ↦ column.place provider p.2) (fun p ↦ found p.2)
    (List.replicate (column.maxCY - column.minCY).toNat none) (j, sub) hlast
    (by rw [List.length_replicate]; exact hlength ▸ hlt)
  refine statesAt_of_some ?_ layer x y z
  rw [hsections]
  exact hslot

end Landed

/-! ## What comes back of the sections -/

namespace Loaded

variable {found : BedrockSubChunk → BedrockSubChunk} (h : column.Loaded provider resolver found column')

include h

theorem statesAt_place {j : ℕ} {sub : BedrockSubChunk}
    (hlast : IsLast (fun p : ℕ × BedrockSubChunk ↦ column.place provider p.2)
      (occupied column.sections) (j, sub)) (hair : sub.airStateId = 0) (layer x y z : UInt8) :
    column'.statesAt (column.place provider sub) layer x y z = sub.getBlockStateId layer x y z := by
  have hsub := mem_present (mem_occupied.mp hlast.mem)
  obtain ⟨height, hrestored⟩ := h.restored sub hsub
  rw [statesAt_of_isLast h.sections h.length_sections (h.lands sub hsub) hlast]
  exact hrestored.getBlockStateId_eq hair layer x y z

/-- The states come back if every section that comes back elsewhere or is replaced is air. -/
theorem statesAt_eq (hreturns : ∀ (i : ℕ) sub, column.sections[i]? = some (some sub) →
      sub.airStateId = 0 ∧ ∃ k, column.Returns provider i sub k) (k : ℕ) (layer x y z : UInt8) :
    column'.statesAt k layer x y z = column.statesAt k layer x y z := by
  have hplace {i : ℕ} {sub : BedrockSubChunk} {k : ℕ} (hreturn : column.Returns provider i sub k) :
      column.place provider sub = k := by
    rw [place, hreturn.height, Int.toNat_natCast]
  -- a section that does not come back in its own slot is air
  have hmoved {i : ℕ} {sub : BedrockSubChunk} (hsub : column.sections[i]? = some (some sub))
      (hne : column.place provider sub ≠ i) : sub.AllAir := by
    obtain ⟨-, k, hreturn⟩ := hreturns i sub hsub
    exact hreturn.moved (hplace hreturn ▸ hne)
  by_cases hsome : ∃ (i : ℕ) (sub : BedrockSubChunk),
      column.sections[i]? = some (some sub) ∧ column.place provider sub = k
  · obtain ⟨i, sub, hsub, rfl⟩ := hsome
    obtain ⟨j, last, hlast, hsame, -⟩ := exists_isLast_place provider hsub
    have hmem := mem_occupied.mp hlast.mem
    obtain ⟨hair, k, hreturn⟩ := hreturns j last hmem
    rw [← hsame, h.statesAt_place hlast hair]
    by_cases hown : column.place provider last = j
    · rw [hown, statesAt_of_some hmem]
    · rw [hmoved hmem hown]
      cases hslot : column.sections[column.place provider last]? with
      | none => rw [statesAt_of_none (.inr hslot)]
      | some other =>
          cases other with
          | none => rw [statesAt_of_none (.inl hslot)]
          | some other =>
              rw [statesAt_of_some hslot]
              rcases lt_or_gt_of_ne hown with hlt | hgt
              · rw [hplace hreturn] at hslot hlt
                exact (hreturn.replaced hlt other hslot layer x y z).symm
              · -- the higher section does not come back in its slot: it would have come later
                refine (hmoved hslot fun hback ↦ ?_) layer x y z |>.symm
                rcases hlast.eq_or_rel (pairwise_occupied column.sections) (mem_occupied.mpr hslot)
                  hback with heq | hlater
                · exact hown (congrArg Prod.fst heq)
                · exact absurd hlater (not_lt.mpr hgt.le)
  · have hnone (i : ℕ) (sub : BedrockSubChunk) (hsub : column.sections[i]? = some (some sub)) :
        column.place provider sub ≠ k := fun hback ↦ hsome ⟨i, sub, hsub, hback⟩
    rw [statesAt_of_not_landed h.sections hnone]
    cases hslot : column.sections[k]? with
    | none => rw [statesAt_of_none (.inr hslot)]
    | some other =>
        cases other with
        | none => rw [statesAt_of_none (.inl hslot)]
        | some other =>
            rw [statesAt_of_some hslot]
            exact (hmoved hslot (hnone k other hslot) layer x y z).symm

section Necessity

variable (hstates : ∀ k layer x y z, column'.statesAt k layer x y z = column.statesAt k layer x y z)

include hstates

/-- A layer beyond the second one is air afterwards, so it was before. -/
theorem airStateId_eq {i : ℕ} {sub : BedrockSubChunk} (hsub : column.sections[i]? = some (some sub)) :
    sub.airStateId = 0 := by
  have htwo : (2 : UInt8).toNat = 2 := rfl
  have hlayers := (h.lands sub (mem_present hsub)).recognized.layers
  have hbeyond : column'.statesAt i 2 0 0 0 = .ok 0 := by
    by_cases hsome : ∃ (j : ℕ) (other : BedrockSubChunk), column.sections[j]? = some (some other) ∧
        column.place provider other = i
    · obtain ⟨j, other, hother, rfl⟩ := hsome
      obtain ⟨k, last, hlast, hsame, -⟩ := exists_isLast_place provider hother
      have hmem := mem_present (mem_occupied.mp hlast.mem)
      obtain ⟨height, hrestored⟩ := h.restored last hmem
      have hfew := (h.lands last hmem).recognized.layers
      rw [← hsame, statesAt_of_isLast h.sections h.length_sections (h.lands last hmem) hlast,
        BedrockSubChunk.getBlockStateId_of_length_le (by rw [hrestored.layers]; omega), hrestored.air]
    · exact statesAt_of_not_landed h.sections (fun j other hother hback ↦ hsome ⟨j, other, hother, hback⟩)
        2 0 0 0
  rw [hstates, statesAt_of_some hsub, BedrockSubChunk.getBlockStateId_of_length_le (by omega)]
    at hbeyond
  exact Except.ok.inj hbeyond

/-- Sections with the same bytes are air together. -/
theorem allAir_of_sectionBlob {i j : ℕ} {sub other : BedrockSubChunk}
    (hsub : column.sections[i]? = some (some sub)) (hother : column.sections[j]? = some (some other))
    (hsame : sectionBlob provider sub = sectionBlob provider other) (hair : other.AllAir) :
    sub.AllAir := by
  intro layer x y z
  rw [(h.cacheable.cacheable (mem_present hsub)).states_of_encodeTo_eq
    (h.cacheable.cacheable (mem_present hother)) (h.lands sub (mem_present hsub)).recognized
    (h.lands other (mem_present hother)).recognized (h.airStateId_eq hstates hsub)
    (h.airStateId_eq hstates hother) hsame]
  exact hair layer x y z

/-- No section comes back in a slot whose height does not fit into eight bits. -/
theorem allAir_of_stray {i : ℕ} {sub : BedrockSubChunk}
    (hsub : column.sections[i]? = some (some sub)) (hstray : column.co + sub.y.toInt ≠ i) :
    sub.AllAir := by
  have hnone (j : ℕ) (other : BedrockSubChunk) (hother : column.sections[j]? = some (some other)) :
      column.place provider other ≠ i := by
    intro hback
    have hheight := (h.lands other (mem_present hother)).height
    rw [hback] at hheight
    obtain ⟨home, hlast, -, hhome⟩ := exists_home provider (mem_present hother)
    have hy := (h.cacheable.sections i sub hsub).2
    have hfits : (i - column.co : ℤ) = home.y.toInt := by
      rw [← hhome]
      omega
    rw [hfits, Int8.ofInt_toInt] at hy
    rw [hy] at hstray
    omega
  intro layer x y z
  rw [← statesAt_of_some hsub, ← hstates]
  exact statesAt_of_not_landed h.sections hnone layer x y z

/-- A section that comes back in the slot of another one is air if the last one with its bytes is
in a third one. -/
theorem allAir_of_place {j k : ℕ} {sub : BedrockSubChunk}
    (hsub : column.sections[j]? = some (some sub)) (hback : column.place provider sub = k)
    (hhome : ∀ (i : ℕ) home, column.sections[i]? = some (some home) → j ≤ i →
      sectionBlob provider home = sectionBlob provider sub →
      column.returnHeight provider home = column.returnHeight provider sub → i ≠ k) :
    sub.AllAir := by
  obtain ⟨i, home, hslot, hle, hsame, hheight, hself⟩ := exists_home_slot provider hsub
  have hne := hhome i home hslot hle hsame (hself.trans hheight.symm)
  refine h.allAir_of_sectionBlob hstates hsub hslot hsame.symm (h.allAir_of_stray hstates hslot ?_)
  have hland := (h.lands sub (mem_present hsub)).height
  rw [hback, hheight] at hland
  rw [hland]
  exact fun heq ↦ hne (by omega)

/-- Conversely, only air may come back elsewhere, or be replaced. -/
theorem returns {i : ℕ} {sub : BedrockSubChunk} (hsub : column.sections[i]? = some (some sub)) :
    column.Returns provider i sub (column.place provider sub) := by
  have hland := h.lands sub (mem_present hsub)
  refine ⟨hland.height, hland.lt_length, fun hmoved ↦ ?_, fun hlt other hother ↦ ?_⟩
  · -- what comes back in the slot of the section, if anything does, is air
    intro layer x y z
    rw [← statesAt_of_some hsub, ← hstates]
    by_cases hsome : ∃ (j : ℕ) (other : BedrockSubChunk), column.sections[j]? = some (some other) ∧
        column.place provider other = i
    · obtain ⟨j, other, hother, hback⟩ := hsome
      obtain ⟨l, last, hlast, hsame, -⟩ := exists_isLast_place provider hother
      have hmem := mem_occupied.mp hlast.mem
      rw [← hback, ← hsame, h.statesAt_place hlast (h.airStateId_eq hstates hmem)]
      refine h.allAir_of_place hstates hmem (hsame.trans hback) (fun k home hhome _ hbytes hheight ↦ ?_)
        layer x y z
      rintro rfl
      obtain rfl : home = sub := Option.some.inj (Option.some.inj (hhome.symm.trans hsub))
      refine hmoved ?_
      rw [← hback, ← hsame, place, place, hheight]
    · exact statesAt_of_not_landed h.sections (fun j other hother hback ↦ hsome ⟨j, other, hother, hback⟩)
        layer x y z
  · -- the last one that comes back there is from above, and the one it is a copy of as well
    obtain ⟨l, home, hhome, hle, hsame, hheight, hself⟩ := exists_home_slot provider hsub
    have hback : column.place provider home = column.place provider sub := by
      rw [place, place, hheight, hself]
    obtain ⟨j, last, hlast, hplace, hlater⟩ := exists_isLast_place provider hhome
    have hmem := mem_occupied.mp hlast.mem
    intro layer x y z
    rw [← statesAt_of_some hother, ← hstates, ← hback, ← hplace,
      h.statesAt_place hlast (h.airStateId_eq hstates hmem)]
    exact h.allAir_of_place hstates hmem (hplace.trans hback)
      (fun k copy hcopy hjk _ _ ↦ by omega) layer x y z

end Necessity

end Loaded

end BedrockChunkColumn

end BedrockProtocol
