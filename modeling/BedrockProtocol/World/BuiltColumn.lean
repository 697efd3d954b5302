import BedrockProtocol.Nbt.RoundTrip
import BedrockProtocol.World.BedrockChunkColumn
import BedrockProtocol.World.BiomeRoundTrip

/-!
# Columns built by their setters

A column starts empty, either between the heights 0 and 16 or between -4 and
20, and is filled by setting blocks, setting biomes and adding block entities.
Its sections then have one or two layers and know their height, its biome
sections are never proxies, and a block entity is stored under the key of its
own position together with its encoding.
-/

namespace BedrockProtocol

namespace Layer

variable {layer layer' : Layer} {airStateId stateId : Int32} {x y z : UInt8}

/-- The states of a palette after a block was set. -/
theorem Counted.mem_stateId_setBlockStateId (h : layer.Counted)
    (hset : layer.setBlockStateId airStateId x y z stateId = .ok layer') {id : Int32}
    (hid : id ∈ layer'.palette.map BedrockBlockState.stateId) :
    id ∈ layer.palette.map BedrockBlockState.stateId ∨ id = stateId := by
  obtain ⟨current, -, ⟨-, rfl⟩ | ⟨-, i, entry, -, -, rfl⟩ | ⟨-, blocks, -, -, rfl⟩⟩ :=
    setBlockStateId_cases h hset
  · exact .inl hid
  · rw [modify_stateId countUp_stateId, modify_stateId countDown_stateId] at hid
    exact .inl hid
  · rw [List.map_append, modify_stateId countDown_stateId, List.mem_append] at hid
    exact hid.imp_right fun hnew ↦ by simpa [runtimeEntry] using hnew

theorem mem_stateId_stored {compactStorage : Bool} {entry : BedrockBlockState}
    (h : entry ∈ (BedrockSubChunk.stored compactStorage layer).palette) : entry ∈ layer.palette := by
  unfold BedrockSubChunk.stored at h
  split at h
  · rw [compact_palette] at h
    exact List.mem_of_mem_filter h
  · exact h

/-- A compacted palette has at most one entry for every position. -/
theorem Counted.length_compactedPalette_le (h : layer.Counted) :
    layer.compactedPalette.length ≤ 4096 := by
  have hsum := h.compact.sum_eq
  rw [compact_palette] at hsum
  have hpos : ∀ count ∈ layer.compactedPalette.map BedrockBlockState.count, 1 ≤ count := by
    intro count hcount
    obtain ⟨entry, hentry, rfl⟩ := List.mem_map.mp hcount
    exact Nat.succ_le_of_lt (by simpa using List.of_mem_filter hentry)
  have hle := List.length_le_sum_of_one_le _ hpos
  rwa [hsum, List.length_map] at hle

/-- A compacted layer can be written. -/
theorem Counted.writeStorage_compact (h : layer.Counted) :
    ∃ bytes, layer.compact.writeStorage .runtime none = .ok bytes := by
  have hpos := h.compactedPalette_pos
  have hle := h.length_compactedPalette_le
  have hstates : layer.compact.palette.mapM (writeState .runtime none) =
      .ok (layer.compact.palette.map fun entry ↦ writeZigZagVarInt entry.stateId) :=
    mapM_eq_ok fun entry _ ↦ rfl
  unfold writeStorage
  rw [if_neg (by rw [compact_palette, ← List.length_eq_zero_iff]; omega), hstates]
  split
  · exact ⟨_, rfl⟩
  · exact ⟨_, rfl⟩

end Layer

namespace BedrockSubChunk

/-- The state of a section between two settings of blocks. -/
structure Settled (sub : BedrockSubChunk) : Prop where
  counted : sub.Counted
  version : sub.subChunkVersion = 9
  air : sub.airStateId = 0
  length_le : sub.layers.length ≤ 2
  state_nonneg : ∀ layer ∈ sub.layers, ∀ entry ∈ layer.palette, 0 ≤ entry.stateId

variable {sub sub' into : BedrockSubChunk}

theorem settled_new (y : Int8) : Settled { y, subChunkVersion := 9 } where
  counted := by simp [Counted]
  version := rfl
  air := rfl
  length_le := by simp
  state_nonneg := by simp

namespace Settled

theorem ensureLayer (h : sub.Settled) {layer : UInt8} (hlayer : layer.toNat < 2) :
    (sub.ensureLayer layer).Settled where
  counted := h.counted.ensureLayer layer
  version := h.version
  air := h.air
  length_le := by
    have := h.length_le
    simp only [BedrockSubChunk.ensureLayer, List.length_append, List.length_replicate]
    omega
  state_nonneg := by
    intro found hfound entry hentry
    rcases List.mem_append.mp hfound with hold | hnew
    · exact h.state_nonneg found hold entry hentry
    · rw [List.eq_of_mem_replicate hnew] at hentry
      obtain rfl := List.mem_singleton.mp hentry
      simp [Layer.runtimeEntry, h.air]

theorem setBlockStateId (h : sub.Settled) {layer x y z : UInt8} {stateId : Int32}
    (hlayer : layer.toNat < 2) (hstate : 0 ≤ stateId)
    (hrun : sub.setBlockStateId layer x y z stateId = .ok sub') :
    sub'.Settled ∧ sub'.layers ≠ [] ∧ sub'.y = sub.y := by
  have hensured := h.ensureLayer hlayer
  have hcounted := h.counted.setBlockStateId hrun
  unfold BedrockSubChunk.setBlockStateId at hrun
  dsimp only at hrun
  split at hrun
  · cases hrun
  rename_i found hfound
  obtain ⟨next, hnext, hsub⟩ := bind_eq_ok.mp hrun
  rw [pure_eq_ok, Except.ok.injEq] at hsub
  subst hsub
  refine ⟨⟨hcounted, hensured.version, hensured.air, ?_, ?_⟩, ?_, rfl⟩
  · simpa using hensured.length_le
  · intro other hother entry hentry
    rcases List.mem_or_eq_of_mem_set hother with hold | rfl
    · exact hensured.state_nonneg other hold entry hentry
    · have hid := (hensured.counted.of_getElem? hfound).mem_stateId_setBlockStateId hnext
        (List.mem_map_of_mem hentry)
      rcases hid with hid | hid
      · obtain ⟨old, hold, hsame⟩ := List.mem_map.mp hid
        rw [← hsame]
        exact hensured.state_nonneg found (List.mem_of_getElem? hfound) old hold
      · rwa [hid]
  · have hindex := (List.getElem?_eq_some_iff.mp hfound).1
    simp only [ne_eq, List.set_eq_nil_iff]
    exact List.ne_nil_of_length_pos ((Nat.zero_le _).trans_lt hindex)

/-- A section with layers is written, and reads back with the same states. -/
theorem reads_decodeFrom (h : sub.Settled) (hne : sub.layers ≠ []) :
    ∃ bytes sub', sub.encodeTo .runtime true none = .ok bytes ∧
      Reads (into.decodeFrom .runtime 0 none) bytes sub' ∧ sub'.y = sub.y ∧
      ∀ layer x y z, sub'.getBlockStateId layer x y z = sub.getBlockStateId layer x y z := by
  have hpos := List.length_pos_of_ne_nil hne
  have hle := h.length_le
  have hsome : ∀ layer ∈ sub.layers, ∃ bytes,
      (stored true layer).writeStorage .runtime none = .ok bytes :=
    fun layer hlayer ↦ (h.counted layer hlayer).writeStorage_compact
  choose! write hwrite using hsome
  have hstorages := mapM_eq_ok hwrite
  have hencode : ∃ bytes, sub.encodeTo .runtime true none = .ok bytes := by
    unfold encodeTo
    rw [if_neg (by omega)]
    change ∃ bytes, (sub.layers.mapM (fun layer ↦
      (stored true layer).writeStorage .runtime none) >>= _) = _
    rw [hstorages]
    exact ⟨_, rfl⟩
  obtain ⟨bytes, hbytes⟩ := hencode
  obtain ⟨layers', hall, hread⟩ := @BedrockSubChunk.reads_decodeFrom sub into 0 true none none
    h.counted (.inr h.version) (by omega) bytes hbytes
  obtain ⟨hlength, hreloaded⟩ := List.forall₂_iff_get.mp hall
  refine ⟨bytes, _, hbytes, hread, by simp [h.version], fun layer x y z ↦ ?_⟩
  by_cases hlt : layer.toNat < sub.layers.length
  · have hkept : SignKept true (sub.layers.get ⟨layer.toNat, hlt⟩) := by
      intro entry hentry
      exact h.state_nonneg _ (List.get_mem _ _) entry
        (Layer.mem_stateId_stored (by rw [hentry]; simp))
    have hsame := (hreloaded layer.toNat hlt (hlength ▸ hlt)).mpr hkept x y z
    simpa [getBlockStateId, hlt, hlength ▸ hlt] using hsame
  · have hout : ¬ layer.toNat < layers'.length := hlength ▸ hlt
    simp [getBlockStateId, hlt, hout, h.air]

end Settled

end BedrockSubChunk

/-! ## Whole columns -/

/-- A block entity as a column stores it. -/
structure StoredEntity (key : Text) (document : NbtDocument) (raw : List UInt8) : Prop where
  write : BedrockNbt.write .littleVarInt {} document = .ok raw
  floats : BedrockNbt.FloatsRepresentable document.root
  position : ∃ pos, blockEntityPosition document = .ok pos ∧ blockEntityKey pos = key

namespace BedrockChunkColumn

/-- The columns that the setters build, and whether their bounds are those with
caves and cliffs. -/
inductive Built : Bool → BedrockChunkColumn → Prop
  | new (x z : ℤ) : Built false (new x z)
  | setBounds {x z : ℤ} {column : BedrockChunkColumn}
      (hrun : (BedrockChunkColumn.new x z).setBounds (-4) 20 = .ok column) : Built true column
  | setBlockStateId {caves : Bool} {column column' : BedrockChunkColumn} {pos : BlockPosition}
      {stateId : Int32} (h : Built caves column) (hlayer : (pos.layer.getD 0).toNat < 2)
      (hstate : 0 ≤ stateId ∧ stateId.toInt < 2 ^ 30)
      (hrun : column.setBlockStateId pos stateId = .ok column') : Built caves column'
  | setBiomeId {caves : Bool} {column column' : BedrockChunkColumn} {pos : BlockPosition}
      {biomeId : UInt32} (h : Built caves column) (hbiome : biomeId.toNat < 2 ^ 31)
      (hrun : column.setBiomeId pos biomeId = .ok column') : Built caves column'
  | addBlockEntity {caves : Bool} {column column' : BedrockChunkColumn} {tag : NbtDocument}
      (h : Built caves column) (hfloats : BedrockNbt.FloatsRepresentable tag.root)
      (hrun : column.addBlockEntity tag = .ok column') : Built caves column'

/-- The sections of a column that was built. -/
def SectionsSettled (column : BedrockChunkColumn) : Prop :=
  ∀ (i : ℕ) sub, column.sections[i]? = some (some sub) →
    sub.Settled ∧ sub.layers ≠ [] ∧ sub.y.toInt = i - column.co

def BiomesSettled (column : BedrockChunkColumn) : Prop :=
  ∀ area ∈ column.biomes, area.Tight ∧ area.proxy = false ∧
    ∀ biomeId ∈ area.palette, biomeId.toNat < 2 ^ 31

def EntitiesSettled (column : BedrockChunkColumn) : Prop :=
  ∀ key, (column.blockEntities.lookup key = none ∧ column.blockEntityNbt.lookup key = none) ∨
    ∃ document raw, column.blockEntities.lookup key = some raw ∧
      column.blockEntityNbt.lookup key = some document ∧ StoredEntity key document raw

/-- The invariant of building. -/
structure Settled (caves : Bool) (column : BedrockChunkColumn) : Prop where
  minCY : column.minCY = if caves then -4 else 0
  maxCY : column.maxCY = if caves then 20 else 16
  length_sections : column.sections.length = (column.maxCY - column.minCY).toNat
  length_biomes : column.biomes.length = (column.maxCY - column.minCY).toNat
  sections : column.SectionsSettled
  biomes : column.BiomesSettled
  entities : column.EntitiesSettled

variable {caves : Bool} {column column' : BedrockChunkColumn}

theorem settled_withBounds (x z : ℤ) (caves : Bool) :
    Settled caves (withBounds { x, z, minCY := 0, maxCY := 0, sections := [], biomes := [] }
      (if caves then -4 else 0) (if caves then 20 else 16)) where
  minCY := rfl
  maxCY := rfl
  length_sections := by simp [withBounds]
  length_biomes := by simp [withBounds]
  sections := by
    intro i sub hsub
    simp [withBounds, List.getElem?_replicate] at hsub
  biomes := by
    intro area harea
    obtain ⟨i, -, rfl⟩ := List.mem_map.mp harea
    exact ⟨BedrockBiomeSection.tight_new _, rfl, by simp⟩
  entities := fun key ↦ .inl ⟨rfl, rfl⟩

theorem toInt_ofInt_int8 {y : ℤ} (hlow : -128 ≤ y) (hhigh : y < 128) : (Int8.ofInt y).toInt = y :=
  Int8.toInt_ofInt_of_le hlow (by omega)

namespace Settled

variable (h : column.Settled caves)

include h

theorem co_eq : column.co = -column.minCY := by
  rw [co, h.minCY]
  cases caves <;> rfl

/-- The heights of the sections fit into eight bits. -/
theorem height_bounds : -4 ≤ column.minCY ∧ column.minCY ≤ 0 ∧ column.maxCY ≤ 20 ∧
    column.minCY < column.maxCY := by
  rw [h.minCY, h.maxCY]
  cases caves <;> simp

/-- The section that a block is set in, which may be a new one. -/
theorem ensureSection {blockY : ℤ} {index : ℕ} {found : BedrockSubChunk}
    (hrun : column.ensureSection blockY = .ok (index, found)) :
    index < column.sections.length ∧ found.Settled ∧ found.y.toInt = index - column.co := by
  unfold BedrockChunkColumn.ensureSection at hrun
  dsimp only at hrun
  split at hrun
  · cases hrun
  rename_i old hslot
  obtain ⟨rfl, rfl⟩ := Prod.mk.inj (Except.ok.inj hrun)
  obtain ⟨hpos, hold⟩ := slot_eq_some hslot
  have hlt := (List.getElem?_eq_some_iff.mp hold).1
  refine ⟨hlt, ?_⟩
  cases old with
  | none =>
      have hheights := h.height_bounds
      have hco := h.co_eq
      rw [h.length_sections] at hlt
      refine ⟨BedrockSubChunk.settled_new _, ?_⟩
      rw [Option.getD_none, toInt_ofInt_int8 (by omega) (by omega)]
      omega
  | some old =>
      obtain ⟨hsettled, -, hy⟩ := h.sections _ old hold
      exact ⟨hsettled, hy⟩

theorem setBlockStateId {pos : BlockPosition} {stateId : Int32}
    (hlayer : (pos.layer.getD 0).toNat < 2) (hstate : 0 ≤ stateId)
    (hrun : column.setBlockStateId pos stateId = .ok column') : column'.Settled caves := by
  obtain ⟨⟨index, found⟩, hensure, hset⟩ := bind_eq_ok.mp hrun
  obtain ⟨hindex, hfound, hy⟩ := h.ensureSection hensure
  obtain ⟨next, hnext, hcolumn⟩ := bind_eq_ok.mp hset
  rw [pure_eq_ok, Except.ok.injEq] at hcolumn
  subst hcolumn
  obtain ⟨hsettled, hne, hsame⟩ := hfound.setBlockStateId hlayer hstate hnext
  refine ⟨h.minCY, h.maxCY, by simpa using h.length_sections, h.length_biomes, ?_, h.biomes,
    h.entities⟩
  intro i sub hsub
  simp only [List.getElem?_set, hindex, ↓reduceIte] at hsub
  split at hsub
  · rename_i hi
    obtain rfl : next = sub := by simpa using hsub
    exact ⟨hsettled, hne, by rw [hsame, hy, hi]; rfl⟩
  · exact h.sections i sub hsub

theorem setBiomeId {pos : BlockPosition} {biomeId : UInt32} (hbiome : biomeId.toNat < 2 ^ 31)
    (hrun : column.setBiomeId pos biomeId = .ok column') : column'.Settled caves := by
  unfold BedrockChunkColumn.setBiomeId at hrun
  dsimp only at hrun
  split at hrun
  · cases hrun
  rename_i found hslot
  obtain ⟨-, hfound⟩ := slot_eq_some hslot
  obtain ⟨htight, hproxy, hids⟩ := h.biomes found (List.mem_of_getElem? hfound)
  obtain ⟨next, hnext, hcolumn⟩ := bind_eq_ok.mp hrun
  rw [pure_eq_ok, Except.ok.injEq] at hcolumn
  subst hcolumn
  rw [if_neg (by simp [hproxy])] at hnext
  obtain ⟨area', harea', htight', -, hproxy', hpalette, -⟩ := htight.setBiomeId
    (localCoord pos.x) (localCoord pos.y) (localCoord pos.z) biomeId
  rw [hnext, Except.ok.injEq] at harea'
  subst harea'
  refine ⟨h.minCY, h.maxCY, h.length_sections, by simpa using h.length_biomes, h.sections, ?_,
    h.entities⟩
  intro area harea
  rcases List.mem_or_eq_of_mem_set harea with hold | rfl
  · exact h.biomes area hold
  · refine ⟨htight', hproxy', fun id hid ↦ ?_⟩
    rcases hpalette with hsame | hlonger
    · exact hids id (hsame ▸ hid)
    · rw [hlonger, List.mem_append, List.mem_singleton] at hid
      rcases hid with hid | rfl
      · exact hids id hid
      · exact hbiome

theorem addBlockEntity {tag : NbtDocument} (hfloats : BedrockNbt.FloatsRepresentable tag.root)
    (hrun : column.addBlockEntity tag = .ok column') : column'.Settled caves := by
  obtain ⟨pos, hpos, hset⟩ := bind_eq_ok.mp hrun
  obtain ⟨raw, hwrite, hcolumn⟩ := bind_eq_ok.mp hset
  rw [pure_eq_ok, Except.ok.injEq] at hcolumn
  subst hcolumn
  refine ⟨h.minCY, h.maxCY, h.length_sections, h.length_biomes, h.sections, h.biomes, ?_⟩
  intro key
  by_cases hkey : key = blockEntityKey pos
  · subst hkey
    exact .inr ⟨tag, raw, AList.lookup_insert _, AList.lookup_insert _, hwrite, hfloats, pos, hpos,
      rfl⟩
  · simp only [AList.lookup_insert_ne hkey]
    exact h.entities key

end Settled

theorem Built.settled (h : Built caves column) : column.Settled caves := by
  induction h with
  | new x z => exact settled_withBounds x z false
  | @setBounds x z column hrun =>
      obtain rfl := Except.ok.inj hrun
      exact settled_withBounds x z true
  | setBlockStateId h hlayer hstate hrun ih => exact ih.setBlockStateId hlayer hstate.1 hrun
  | setBiomeId h hbiome hrun ih => exact ih.setBiomeId hbiome hrun
  | addBlockEntity h hfloats hrun ih => exact ih.addBlockEntity hfloats hrun

end BedrockChunkColumn

end BedrockProtocol
