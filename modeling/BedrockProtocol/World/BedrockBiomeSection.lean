import BedrockProtocol.World.SubChunkPalette

/-!
# Biome sections

`BedrockBiomeSection` of `BedrockChunk.cpp`: the biomes of 16 × 16 × 16 blocks
as a palette of ids and a storage of indices.  A proxy stands for the section
below it.  The palette of a section only grows, and its storage is always just
as wide as the palette needs.
-/

namespace BedrockProtocol

open PalettedStorage

structure BedrockBiomeSection where
  y : ℤ := 0
  proxy : Bool := false
  biomes : PalettedStorage := .ofBits 1 Nat.one_pos oneBit_le
  palette : List UInt32 := [0]

namespace BedrockBiomeSection

def proxyToPrevious (y : ℤ) : BedrockBiomeSection := { y, proxy := true }

variable (area : BedrockBiomeSection)

def setProxy (proxy : Bool) : BedrockBiomeSection := { area with proxy }

def getBiomeId (x y z : UInt8) : Except String UInt32 :=
  if area.palette = [] then .ok 0
  else
    match area.palette[area.biomes.get x y z]? with
    | none => .error "biome palette index out of range"
    | some biomeId => .ok biomeId

def ensureBiome (biomeId : UInt32) : Except String BedrockBiomeSection :=
  if biomeId ∈ area.palette then .ok area
  else do
    let palette := area.palette ++ [biomeId]
    let minBits := neededBits (lastIndex palette.length)
    if area.biomes.bitsPerBlock < minBits then
      let biomes ← area.biomes.resize minBits
      pure { area with palette, biomes }
    else pure { area with palette }

def setBiomeId (x y z : UInt8) (biomeId : UInt32) : Except String BedrockBiomeSection := do
  let area ← ensureBiome { area with proxy := false } biomeId
  pure { area with biomes := area.biomes.set x y z (area.palette.idxOf biomeId) }

/-- The order in which the loops over `x` and `z` visit the block columns. -/
def legacyPositions : List (UInt8 × UInt8) :=
  (List.range 16).flatMap fun x ↦ (List.range 16).map fun z ↦ (UInt8.ofNat x, UInt8.ofNat z)

/-- The loop over `y` that fills one block column. -/
def fillColumn (x z : UInt8) (biomeId : UInt32) : Except String BedrockBiomeSection :=
  (List.range 16).foldlM (fun area y ↦ area.setBiomeId x (UInt8.ofNat y) z biomeId) area

def readLegacy2D : Reader BedrockBiomeSection :=
  legacyPositions.foldlM
    (fun area p ↦ do
      let biomeId ← BinaryStream.readU8
      liftM (area.fillColumn p.1 p.2 biomeId.toUInt32))
    { area with proxy := false }

def exportLegacy2D : Except String (List UInt8) :=
  legacyPositions.mapM fun p ↦ UInt32.toUInt8 <$> area.getBiomeId p.1 0 p.2

def readRuntimeBiomeId : Reader UInt32 :=
  (fun value ↦ UInt32.ofNat (value >>> 1)) <$> BinaryStream.readVarUInt

def writeRuntimeBiomeId (value : UInt32) : List UInt8 :=
  BinaryStream.writeVarUInt (value <<< 1).toNat

def readU32LE : Reader UInt32 := UInt32.ofNat <$> BinaryStream.readWord 4

/-- A section other than a proxy, after its type byte. -/
def readPalette (type : ChunkStorageType) (bitsPerBlock : ℕ) : Reader BedrockBiomeSection := do
  if bitsPerBlock = 0 then
    let biomeId ← if type = .localPersistence then readU32LE else readRuntimeBiomeId
    pure { area with
      proxy := false, palette := [biomeId], biomes := .ofBits 1 Nat.one_pos oneBit_le }
  else
    let storage ← liftM (PalettedStorage.new bitsPerBlock)
    let biomes ← storage.read
    let paletteLength ← if type = .runtime then readRuntimeBiomeId else readU32LE
    let palette ← Reader.many (if type = .runtime then readRuntimeBiomeId else readU32LE)
      paletteLength.toNat
    pure { area with proxy := false, palette, biomes }

def read (type : ChunkStorageType) : Reader BedrockBiomeSection := do
  let paletteType ← BinaryStream.readU8
  if paletteType = 0xff then pure { area with proxy := true, palette := [] }
  else if paletteType.toNat &&& 1 = 0 then throw "biome palette type must use runtime IDs"
  else area.readPalette type (paletteType.toNat >>> 1)

def exportTo (type : ChunkStorageType) : List UInt8 :=
  if area.proxy then [0xff]
  else
    let bitsPerBlock := neededBits (lastIndex area.palette.length)
    let runtime := if type = .runtime then 1 else 0
    let writeId := if type = .runtime then writeRuntimeBiomeId else fun id ↦ leBytes 4 id.toNat
    UInt8.ofNat ((bitsPerBlock <<< 1) ||| runtime) ::
      if bitsPerBlock = 0 then
        let biome := area.palette.headD 0
        if type = .localPersistence then leBytes 4 biome.toNat else writeRuntimeBiomeId biome
      else
        area.biomes.write ++
          (writeId (UInt32.ofNat area.palette.length) ++ area.palette.flatMap writeId)

end BedrockBiomeSection

theorem neededBitsLoop_le_of_lt {fuel value k : ℕ} (h : value < 2 ^ k) :
    neededBitsLoop fuel value ≤ k := by
  induction fuel generalizing value k with
  | zero => exact Nat.zero_le k
  | succ fuel ih =>
      rw [neededBitsLoop]
      split
      · exact Nat.zero_le k
      · rename_i hne
        cases k with
        | zero => omega
        | succ k =>
            have hhalf : value >>> 1 < 2 ^ k := by
              rw [Nat.shiftRight_eq_div_pow]
              rw [pow_succ] at h
              omega
            exact Nat.succ_le_succ (ih hhalf)

theorem neededBits_mono {a b : ℕ} (hab : a ≤ b) (hb : b < 2 ^ 32) : neededBits a ≤ neededBits b :=
  neededBitsLoop_le_of_lt (hab.trans_lt (lt_two_pow_neededBits hb))

/-- Distinct numbers below `n` are at most `n`. -/
theorem length_le_of_nodup {l : List ℕ} {n : ℕ} (hl : l.Nodup) (h : ∀ a ∈ l, a < n) :
    l.length ≤ n := by
  have hsub : l ⊆ List.range n := fun a ha ↦ List.mem_range.mpr (h a ha)
  simpa using (List.subperm_of_subset hl hsub).length_le

namespace BedrockBiomeSection

variable {area area' : BedrockBiomeSection}

/-- The invariant of a section that was built by setting biomes. -/
structure Tight (area : BedrockBiomeSection) : Prop where
  nodup : area.palette.Nodup
  ne_nil : area.palette ≠ []
  index_lt : ∀ v ∈ area.biomes.indices, v < area.palette.length
  width : area.biomes.bitsPerBlock = max 1 (neededBits (area.palette.length - 1))

theorem tight_new (y : ℤ) : Tight { y } where
  nodup := by simp
  ne_nil := by simp
  index_lt v hv := by
    rw [indices_ofBits] at hv
    simp [List.eq_of_mem_replicate hv]
  width := rfl

namespace Tight

theorem get_lt (h : area.Tight) (x y z : UInt8) : area.biomes.get x y z < area.palette.length :=
  h.index_lt _ (get_mem_indices _ x y z)

theorem getBiomeId (h : area.Tight) (x y z : UInt8) :
    area.getBiomeId x y z = .ok (area.palette.get ⟨_, h.get_lt x y z⟩) := by
  rw [BedrockBiomeSection.getBiomeId, if_neg h.ne_nil, List.getElem?_eq_getElem (h.get_lt x y z),
    List.get_eq_getElem]

theorem length_pos (h : area.Tight) : 0 < area.palette.length := List.length_pos_of_ne_nil h.ne_nil

/-- A palette of 32-bit ids without room for another one has them all. -/
theorem length_lt (h : area.Tight) {biomeId : UInt32} (hnew : biomeId ∉ area.palette) :
    area.palette.length < 2 ^ 32 := by
  have hnodup : ((biomeId :: area.palette).map UInt32.toNat).Nodup :=
    (List.nodup_cons.mpr ⟨hnew, h.nodup⟩).map fun _ _ heq ↦ UInt32.toNat_inj.mp heq
  have hle := length_le_of_nodup (n := 2 ^ 32) hnodup fun a ha ↦ by
    obtain ⟨id, -, rfl⟩ := List.mem_map.mp ha
    exact id.toNat_lt
  rw [List.length_map, List.length_cons] at hle
  omega

/-- The storage holds the index of every palette entry. -/
theorem length_le_width (h : area.Tight) : area.palette.length ≤ 2 ^ area.biomes.bitsPerBlock := by
  have hnodup : (area.palette.map UInt32.toNat).Nodup :=
    h.nodup.map fun _ _ heq ↦ UInt32.toNat_inj.mp heq
  have hle := length_le_of_nodup (n := 2 ^ 32) hnodup fun a ha ↦ by
    obtain ⟨id, -, rfl⟩ := List.mem_map.mp ha
    exact id.toNat_lt
  rw [List.length_map] at hle
  have hpos := h.length_pos
  have hneeded := @lt_two_pow_neededBits (area.palette.length - 1) (by omega)
  have hwidth := Nat.pow_le_pow_right (n := 2) (by omega)
    (le_max_right 1 (neededBits (area.palette.length - 1)))
  rw [h.width]
  omega

/-- The palette and the storage after a biome was made available. -/
theorem ensureBiome (h : area.Tight) (biomeId : UInt32) :
    ∃ area', area.ensureBiome biomeId = .ok area' ∧ area'.Tight ∧ area'.y = area.y ∧
      area'.proxy = area.proxy ∧ area'.biomes.indices = area.biomes.indices ∧
      biomeId ∈ area'.palette ∧
      (area'.palette = area.palette ∨ area'.palette = area.palette ++ [biomeId]) := by
  unfold BedrockBiomeSection.ensureBiome
  by_cases hmem : biomeId ∈ area.palette
  · exact ⟨area, if_pos hmem, h, rfl, rfl, rfl, hmem, .inl rfl⟩
  · have hsize := h.length_lt hmem
    have hlast : lastIndex (area.palette ++ [biomeId]).length = area.palette.length := by
      rw [List.length_append, List.length_singleton, lastIndex_succ hsize]
    have hneeded := lt_two_pow_neededBits hsize
    have hnodup : (area.palette ++ [biomeId]).Nodup := by
      rw [List.nodup_append_comm]
      simpa using ⟨hmem, h.nodup⟩
    have hpos := neededBits_pos h.length_pos
    have hmono := neededBits_mono (Nat.sub_le area.palette.length 1) hsize
    have hgrown (biomes : PalettedStorage) (hindices : biomes.indices = area.biomes.indices)
        (hbits : biomes.bitsPerBlock = neededBits area.palette.length) :
        Tight { area with palette := area.palette ++ [biomeId], biomes } := by
      refine ⟨hnodup, by simp, ?_, ?_⟩
      · intro v hv
        have := h.index_lt v (hindices ▸ hv)
        simp
        omega
      · simp only [List.length_append, List.length_singleton, Nat.add_sub_cancel, hbits]
        omega
    rw [if_neg hmem]
    simp only [hlast]
    by_cases hwide : area.biomes.bitsPerBlock < neededBits area.palette.length
    · obtain ⟨biomes, hresize, hbits, hindices⟩ := area.biomes.resize_eq_ok (neededBits_le _)
        (fun v hv ↦ (h.index_lt v hv).trans hneeded) (by omega)
      refine ⟨{ area with palette := area.palette ++ [biomeId], biomes }, ?_,
        hgrown biomes hindices hbits, rfl, rfl, hindices, by simp, .inr rfl⟩
      rw [if_pos hwide, hresize]
      rfl
    · have hbits : area.biomes.bitsPerBlock = neededBits area.palette.length := by
        have := h.width
        omega
      exact ⟨{ area with palette := area.palette ++ [biomeId] }, if_neg hwide,
        hgrown area.biomes rfl hbits, rfl, rfl, rfl, by simp, .inr rfl⟩

/-- A biome that was set is found again, every other one is as before. -/
theorem setBiomeId (h : area.Tight) (x y z : UInt8) (biomeId : UInt32) :
    ∃ area', area.setBiomeId x y z biomeId = .ok area' ∧ area'.Tight ∧ area'.y = area.y ∧
      area'.proxy = false ∧
      (area'.palette = area.palette ∨ area'.palette = area.palette ++ [biomeId]) ∧
      ∀ x' y' z', area'.getBiomeId x' y' z' =
        if blockIndex x' y' z' = blockIndex x y z then .ok biomeId
        else area.getBiomeId x' y' z' := by
  have hset : Tight { area with proxy := false } := ⟨h.nodup, h.ne_nil, h.index_lt, h.width⟩
  obtain ⟨grown, hensure, hgrown, hy, hproxy, hindices, hmem, hpalette⟩ := hset.ensureBiome biomeId
  have hfits := hgrown.length_le_width
  have hindex : grown.palette.idxOf biomeId < grown.palette.length :=
    List.idxOf_lt_length_iff.mpr hmem
  refine ⟨{ grown with biomes := grown.biomes.set x y z (grown.palette.idxOf biomeId) }, ?_, ?_, hy,
    hproxy, hpalette, ?_⟩
  · rw [BedrockBiomeSection.setBiomeId, hensure]
    rfl
  · refine ⟨hgrown.nodup, hgrown.ne_nil, ?_, hgrown.width⟩
    intro v hv
    rw [indices_set, Nat.mod_eq_of_lt (hindex.trans_le hfits)] at hv
    rcases List.mem_or_eq_of_mem_set hv with hv | rfl
    · exact hgrown.index_lt v hv
    · exact hindex
  · intro x' y' z'
    rw [BedrockBiomeSection.getBiomeId, BedrockBiomeSection.getBiomeId, if_neg hgrown.ne_nil,
      if_neg h.ne_nil, get_set, Nat.mod_eq_of_lt (hindex.trans_le hfits)]
    by_cases heq : blockIndex x' y' z' = blockIndex x y z
    · rw [if_pos heq, if_pos heq, List.getElem?_eq_getElem hindex, List.getElem_idxOf hindex]
    · have hold : grown.palette[area.biomes.get x' y' z']? =
          area.palette[area.biomes.get x' y' z']? := by
        rcases hpalette with hsame | hlonger
        · rw [hsame]
        · rw [hlonger, List.getElem?_append_left (h.get_lt x' y' z')]
      rw [if_neg heq, if_neg heq, get_eq_of_indices hindices, hold]

end Tight

/-- A section that is more than its type byte is no proxy. -/
theorem yields_readPalette (area : BedrockBiomeSection) (type : ChunkStorageType) (bits : ℕ) :
    Yields (area.readPalette type bits) fun area' ↦ area'.proxy = false := by
  unfold readPalette
  split
  · dsimp only
    split
    · exact Yields.bind_any fun _ ↦ Yields.pure rfl
    · exact Yields.bind_any fun _ ↦ Yields.pure rfl
  · refine Yields.bind_any fun _ ↦ Yields.bind_any fun _ ↦ ?_
    dsimp only
    split
    · exact Yields.bind_any fun _ ↦ Yields.bind_any fun _ ↦ Yields.pure rfl
    · exact Yields.bind_any fun _ ↦ Yields.bind_any fun _ ↦ Yields.pure rfl

end BedrockBiomeSection

end BedrockProtocol
