import BedrockProtocol.World.ColumnBlocks

/-!
# The biomes of a column

What setting the biome of one position does to all the others.  A proxy shows the
nearest section below it that is none.  Setting a biome copies on write: a proxy
takes over the section just below it first.  A proxy above, which shows the
section that is written, does not keep what it showed.
-/

namespace BedrockProtocol

open PalettedStorage

namespace BedrockBiomeSection

variable {area area' : BedrockBiomeSection} {biomeId : UInt32} {x y z : UInt8}

/-- A biome can be set at a position and at no other.  The reader of sections takes
any palette and any indices, so this has to be asked of a section that was read. -/
structure TakesBiome (area : BedrockBiomeSection) (x y z : UInt8) (biomeId : UInt32) : Prop where
  empty : area.palette = [] → biomeId = 0 ∧ ∀ x' y' z',
    blockIndex x' y' z' ≠ blockIndex x y z → area.biomes.get x' y' z' = 0
  known : biomeId ∈ area.palette → area.palette.idxOf biomeId < 2 ^ area.biomes.bitsPerBlock
  new : biomeId ∉ area.palette → area.palette ≠ [] → area.palette.length < 2 ^ 32 ∧
    ∀ x' y' z', blockIndex x' y' z' ≠ blockIndex x y z →
      area.biomes.get x' y' z' ≠ area.palette.length

/-- A biome is in the palette already or appended to it, in a storage wide enough for
its index. -/
theorem ensureBiome_cases (area : BedrockBiomeSection) (biomeId : UInt32) :
    (biomeId ∈ area.palette ∧ area.ensureBiome biomeId = .ok area) ∨
      biomeId ∉ area.palette ∧ ∃ biomes : PalettedStorage,
        area.ensureBiome biomeId =
          .ok { area with palette := area.palette ++ [biomeId], biomes } ∧
        biomes.indices = area.biomes.indices ∧
        (area.palette.length < 2 ^ biomes.bitsPerBlock ↔ area.palette.length < 2 ^ 32) := by
  unfold ensureBiome
  by_cases hmem : biomeId ∈ area.palette
  · exact .inl ⟨hmem, if_pos hmem⟩
  refine .inr ⟨hmem, ?_⟩
  have hwidth {bits : ℕ} (hbits : bits ≤ 32)
      (hle : neededBits (lastIndex (area.palette ++ [biomeId]).length) ≤ bits) :
      area.palette.length < 2 ^ bits ↔ area.palette.length < 2 ^ 32 := by
    refine ⟨fun hlt ↦ hlt.trans_le (Nat.pow_le_pow_right (by omega) hbits), fun hlt ↦ ?_⟩
    rw [List.length_append, List.length_singleton, lastIndex_succ hlt] at hle
    exact (lt_two_pow_neededBits hlt).trans_le (Nat.pow_le_pow_right (by omega) hle)
  rw [if_neg hmem]
  dsimp only
  by_cases hnarrow : area.biomes.bitsPerBlock <
      neededBits (lastIndex (area.palette ++ [biomeId]).length)
  · obtain ⟨biomes, hresize, hbits, hindices⟩ := area.biomes.resize_eq_ok (neededBits_le _)
      (fun v hv ↦ (lt_of_mem_indices _ hv).trans_le (Nat.pow_le_pow_right (by omega) hnarrow.le))
      (by omega)
    refine ⟨biomes, ?_, hindices, ?_⟩
    · rw [if_pos hnarrow, hresize]
      rfl
    · rw [hbits]
      exact hwidth (neededBits_le _) le_rfl
  · exact ⟨area.biomes, if_neg hnarrow, rfl, hwidth area.biomes.bits_le (by omega)⟩

/-- An index cut to the width of the storage still finds the biome when it was not
cut at all: an earlier entry is another biome. -/
theorem getElem?_idxOf_mod_iff {palette : List UInt32} (hmem : biomeId ∈ palette) (bits : ℕ) :
    palette[palette.idxOf biomeId % 2 ^ bits]? = some biomeId ↔
      palette.idxOf biomeId < 2 ^ bits := by
  have hlt := List.idxOf_lt_length_iff.mpr hmem
  constructor
  · intro hfound
    by_contra hwide
    have hearlier : palette.idxOf biomeId % 2 ^ bits < palette.idxOf biomeId :=
      (Nat.mod_lt _ (Nat.two_pow_pos bits)).trans_le (by omega)
    have hother := List.not_of_lt_findIdx (p := (· == biomeId)) hearlier
    obtain ⟨hindex, heq⟩ := List.getElem?_eq_some_iff.mp hfound
    simp [heq] at hother
  · intro hfits
    rw [Nat.mod_eq_of_lt hfits, List.getElem?_eq_getElem hlt, List.getElem_idxOf hlt]

theorem exists_other_position (x y z : UInt8) :
    ∃ x' y' z', blockIndex x' y' z' ≠ blockIndex x y z := by
  by_cases h : blockIndex 0 0 0 = blockIndex x y z
  · refine ⟨1, 0, 0, ?_⟩
    rw [← h]
    decide
  · exact ⟨0, 0, 0, h⟩

/-- What setting a biome does to the palette and the storage. -/
theorem setBiomeId_cases (area : BedrockBiomeSection) (x y z : UInt8) (biomeId : UInt32) :
    ∃ area', area.setBiomeId x y z biomeId = .ok area' ∧ area'.proxy = false ∧
      ((biomeId ∈ area.palette ∧ area'.palette = area.palette ∧
        area'.biomes = area.biomes.set x y z (area.palette.idxOf biomeId)) ∨
      (biomeId ∉ area.palette ∧ area'.palette = area.palette ++ [biomeId] ∧
        ∃ biomes : PalettedStorage,
          area'.biomes = biomes.set x y z ((area.palette ++ [biomeId]).idxOf biomeId) ∧
          biomes.indices = area.biomes.indices ∧
          (area.palette.length < 2 ^ biomes.bitsPerBlock ↔ area.palette.length < 2 ^ 32))) := by
  rcases ensureBiome_cases { area with proxy := false } biomeId with
    ⟨hmem, hensure⟩ | ⟨hnew, biomes, hensure, hindices, hwidth⟩
  · refine ⟨{ area with
      proxy := false, biomes := area.biomes.set x y z (area.palette.idxOf biomeId) }, ?_, rfl,
      .inl ⟨hmem, rfl, rfl⟩⟩
    rw [setBiomeId, hensure]
    rfl
  · refine ⟨{ area with
      proxy := false, palette := area.palette ++ [biomeId]
      biomes := biomes.set x y z ((area.palette ++ [biomeId]).idxOf biomeId) }, ?_, rfl,
      .inr ⟨hnew, rfl, biomes, rfl, hindices, hwidth⟩⟩
    rw [setBiomeId, hensure]
    rfl

/-- The biome of an index. -/
def lookupBiome (palette : List UInt32) (index : ℕ) : Except String UInt32 :=
  match palette[index]? with
  | none => .error "biome palette index out of range"
  | some biomeId => .ok biomeId

theorem getBiomeId_eq_lookupBiome (hne : area.palette ≠ []) (x y z : UInt8) :
    area.getBiomeId x y z = lookupBiome area.palette (area.biomes.get x y z) :=
  if_neg hne

section Lookup

variable {palette : List UInt32} {biomes : PalettedStorage} {value : ℕ}

/-- Reading back the position that was set. -/
theorem getBiomeId_self (hpalette : area'.palette = palette)
    (hbiomes : area'.biomes = biomes.set x y z (palette.idxOf biomeId)) (hmem : biomeId ∈ palette) :
    area'.getBiomeId x y z = .ok biomeId ↔ palette.idxOf biomeId < 2 ^ biomes.bitsPerBlock := by
  rw [getBiomeId, if_neg (hpalette ▸ List.ne_nil_of_mem hmem), hpalette, hbiomes, get_set,
    if_pos rfl, ← getElem?_idxOf_mod_iff hmem]
  cases palette[palette.idxOf biomeId % 2 ^ biomes.bitsPerBlock]? with
  | none => simp
  | some found => simp

/-- Reading another position finds its old index in the new palette. -/
theorem getBiomeId_other {x' y' z' : UInt8} (hpalette : area'.palette = palette)
    (hbiomes : area'.biomes = biomes.set x y z value) (hne : palette ≠ [])
    (hother : blockIndex x' y' z' ≠ blockIndex x y z) :
    area'.getBiomeId x' y' z' = lookupBiome palette (biomes.get x' y' z') := by
  rw [getBiomeId_eq_lookupBiome (hpalette ▸ hne), hpalette, hbiomes, get_set, if_neg hother]

end Lookup

/-- The position that was set has the biome and every other position its own exactly
when the section takes the biome there. -/
theorem setBiomeId_spec (area : BedrockBiomeSection) (x y z : UInt8) (biomeId : UInt32) :
    ∃ area', area.setBiomeId x y z biomeId = .ok area' ∧ area'.proxy = false ∧
      (area.TakesBiome x y z biomeId ↔ area'.getBiomeId x y z = .ok biomeId ∧
        ∀ x' y' z', blockIndex x' y' z' ≠ blockIndex x y z →
          area'.getBiomeId x' y' z' = area.getBiomeId x' y' z') := by
  obtain ⟨area', hset, hproxy, ⟨hmem, hpalette, hbiomes⟩ |
    ⟨hnew, hpalette, biomes, hbiomes, hindices, hwidth⟩⟩ := area.setBiomeId_cases x y z biomeId
  · have hne : area.palette ≠ [] := List.ne_nil_of_mem hmem
    refine ⟨area', hset, hproxy, ?_⟩
    rw [getBiomeId_self hpalette hbiomes hmem]
    constructor
    · intro h
      refine ⟨h.known hmem, fun x' y' z' hother ↦ ?_⟩
      rw [getBiomeId_other hpalette hbiomes hne hother, getBiomeId_eq_lookupBiome hne]
    · rintro ⟨hfits, -⟩
      exact ⟨fun hempty ↦ (hne hempty).elim, fun _ ↦ hfits, fun hnew ↦ (hnew hmem).elim⟩
  · have hmem : biomeId ∈ area.palette ++ [biomeId] := by simp
    have hindex : (area.palette ++ [biomeId]).idxOf biomeId = area.palette.length := by
      rw [List.idxOf_append_of_notMem hnew, List.idxOf_cons_self, Nat.add_zero]
    have hother {x' y' z' : UInt8} (h : blockIndex x' y' z' ≠ blockIndex x y z) :=
      getBiomeId_other hpalette hbiomes (List.ne_nil_of_mem hmem) h
    refine ⟨area', hset, hproxy, ?_⟩
    rw [getBiomeId_self hpalette hbiomes hmem, hindex, hwidth]
    constructor
    · intro h
      by_cases hempty : area.palette = []
      · obtain ⟨rfl, hzero⟩ := h.empty hempty
        refine ⟨by simp [hempty], fun x' y' z' hne ↦ ?_⟩
        rw [hother hne, getBiomeId, if_pos hempty, get_eq_of_indices hindices, hzero x' y' z' hne,
          hempty]
        rfl
      · obtain ⟨hsize, hunused⟩ := h.new hnew hempty
        refine ⟨hsize, fun x' y' z' hne ↦ ?_⟩
        have hindex' := hunused x' y' z' hne
        rw [hother hne, getBiomeId_eq_lookupBiome hempty, get_eq_of_indices hindices, lookupBiome,
          lookupBiome, List.getElem?_append]
        by_cases hlt : area.biomes.get x' y' z' < area.palette.length
        · rw [if_pos hlt]
        · rw [if_neg hlt, List.getElem?_eq_none (l := [biomeId]) (by simp; omega),
            List.getElem?_eq_none (l := area.palette) (by omega)]
    · rintro ⟨hsize, hsame⟩
      refine ⟨fun hempty ↦ ?_, fun hmem ↦ (hnew hmem).elim, fun _ hne ↦ ⟨hsize, ?_⟩⟩
      · have hzero : ∀ x' y' z', blockIndex x' y' z' ≠ blockIndex x y z →
            area.biomes.get x' y' z' = 0 ∧ biomeId = 0 := by
          intro x' y' z' hne
          have h := hsame x' y' z' hne
          rw [hother hne, getBiomeId, if_pos hempty, get_eq_of_indices hindices, hempty] at h
          rcases Nat.eq_zero_or_pos (area.biomes.get x' y' z') with hz | hpos
          · rw [hz] at h
            exact ⟨hz, Except.ok.inj h⟩
          · rw [lookupBiome, List.getElem?_eq_none (by simp; omega)] at h
            cases h
        obtain ⟨x', y', z', hne⟩ := exists_other_position x y z
        exact ⟨(hzero x' y' z' hne).2, fun x' y' z' hne' ↦ (hzero x' y' z' hne').1⟩
      · intro x' y' z' hne' hunused
        have h := hsame x' y' z' hne'
        rw [hother hne', getBiomeId_eq_lookupBiome hne, get_eq_of_indices hindices, hunused,
          lookupBiome, lookupBiome, List.getElem?_append_right le_rfl, Nat.sub_self,
          List.getElem?_eq_none le_rfl] at h
        cases h

end BedrockBiomeSection

namespace BedrockChunkColumn

variable {column column' : BedrockChunkColumn}

/-! ## Proxies -/

/-- Proxies as `proxyToPrevious` makes them: one biome, which is 0. -/
def ProxiesBlank (column : BedrockChunkColumn) : Prop :=
  ∀ area ∈ column.biomes, area.proxy = true →
    area.palette = [0] ∧ ∀ x y z, area.biomes.get x y z = 0

theorem proxyToPrevious_blank (y : ℤ) :
    (BedrockBiomeSection.proxyToPrevious y).palette = [0] ∧
      ∀ x' y' z', (BedrockBiomeSection.proxyToPrevious y).biomes.get x' y' z' = 0 :=
  ⟨rfl, fun _ _ _ ↦ packedGet_replicate_zero 1 _ _⟩

/-- The legacy biomes are read into a section that is no proxy. -/
theorem yields_readLegacy2D (area : BedrockBiomeSection) :
    Yields area.readLegacy2D fun area' ↦ area'.proxy = false := by
  have hset (area : BedrockBiomeSection) (x z : UInt8) (biomeId : UInt32) (ys : List ℕ) :
      ∀ area', area.proxy = false → ys.foldlM
        (fun area y ↦ area.setBiomeId x (UInt8.ofNat y) z biomeId) area = .ok area' →
        area'.proxy = false := by
    induction ys generalizing area with
    | nil =>
        rintro area' hproxy hrun
        cases hrun
        exact hproxy
    | cons y ys ih =>
        intro area' _ hrun
        rw [List.foldlM_cons] at hrun
        obtain ⟨next, hnext, hrest⟩ := bind_eq_ok.mp hrun
        obtain ⟨next', hnext', hproxy, -⟩ := area.setBiomeId_spec x (UInt8.ofNat y) z biomeId
        obtain rfl := Except.ok.inj (hnext.symm.trans hnext')
        exact ih next area' hproxy hrest
  have hcolumns (area : BedrockBiomeSection) (hproxy : area.proxy = false)
      (positions : List (UInt8 × UInt8)) :
      Yields (positions.foldlM (fun area p ↦ do
        let biomeId ← BinaryStream.readU8
        liftM (area.fillColumn p.1 p.2 biomeId.toUInt32)) area : Reader BedrockBiomeSection)
        fun area' ↦ area'.proxy = false := by
    induction positions generalizing area with
    | nil => exact Yields.pure hproxy
    | cons p positions ih =>
        rw [List.foldlM_cons]
        refine Yields.bind (Yields.bind_any fun biomeId ↦ Yields.lift fun next hnext ↦
          hset area _ _ _ _ next hproxy hnext) fun next hnext ↦ ih next hnext
  exact hcolumns _ rfl _

/-- A section read after a byte other than 0xff is no proxy. -/
theorem read_not_proxy {area area' : BedrockBiomeSection} {type : ChunkStorageType} {next : UInt8}
    {rest : List UInt8} {offset : ℕ} {c' : Cursor} (hnext : next ≠ 0xff)
    (hrun : area.read type ⟨offset, next :: rest⟩ = .ok (area', c')) : area'.proxy = false := by
  obtain ⟨paletteType, c₁, hbyte, hrun⟩ := Reader.run_bind_eq_ok hrun
  cases hbyte
  rw [if_neg hnext] at hrun
  split at hrun
  · cases hrun
  exact area.yields_readPalette type _ _ _ _ hrun

theorem loadBiomeSections_blank {type : ChunkStorageType} {count : ℕ} {y : ℤ} {hasLast : Bool}
    {areas : List BedrockBiomeSection} {hasLast' : Bool} {c c' : Cursor}
    (hrun : loadBiomeSections type count y hasLast c = .ok ((areas, hasLast'), c')) :
    ∀ area ∈ areas, area.proxy = true →
      area.palette = [0] ∧ ∀ x y z, area.biomes.get x y z = 0 := by
  induction count generalizing y hasLast areas hasLast' c c' with
  | zero =>
      cases hrun
      simp
  | succ count ih =>
      obtain ⟨offset, rest⟩ := c
      obtain ⟨next?, c₁, hpeek, hrun⟩ := Reader.run_bind_eq_ok hrun
      cases hpeek
      cases rest with
      | nil =>
          cases hrun
          simp
      | cons next rest =>
          simp only [List.head?_cons] at hrun
          split at hrun
          · obtain ⟨_, c₂, -, hrun⟩ := Reader.run_bind_eq_ok hrun
            split at hrun
            · cases hrun
            obtain ⟨⟨areas', hasLast''⟩, c₃, hrest, hrun⟩ := Reader.run_bind_eq_ok hrun
            cases hrun
            intro area harea hproxy
            rcases List.mem_cons.mp harea with rfl | hold
            · exact proxyToPrevious_blank y
            · exact ih hrest area hold hproxy
          · rename_i hnext
            obtain ⟨first, c₂, hread, hrun⟩ := Reader.run_bind_eq_ok hrun
            obtain ⟨⟨areas', hasLast''⟩, c₃, hrest, hrun⟩ := Reader.run_bind_eq_ok hrun
            cases hrun
            intro area harea hproxy
            rcases List.mem_cons.mp harea with rfl | hold
            · rw [read_not_proxy hnext hread] at hproxy
              cases hproxy
            · exact ih hrest area hold hproxy

theorem setSection_biomes {sectionY : ℤ} {sub : BedrockSubChunk}
    (hrun : column.setSection sectionY sub = .ok column') : column'.biomes = column.biomes := by
  unfold setSection at hrun
  split at hrun
  · cases hrun
  · obtain rfl := Except.ok.inj hrun
    rfl

theorem decodeSections_biomes {count i : ℕ} {c c' : Cursor}
    (hrun : decodeSections count i column c = .ok (column', c')) :
    column'.biomes = column.biomes := by
  induction count generalizing i column c with
  | zero =>
      cases hrun
      rfl
  | succ count ih =>
      obtain ⟨found, c₁, -, hrun⟩ := Reader.run_bind_eq_ok hrun
      obtain ⟨next, c₂, hnext, hrun⟩ := Reader.run_bind_eq_ok hrun
      obtain ⟨next', hset, hsame⟩ := bind_eq_ok.mp hnext
      cases hsame
      rw [ih hrun, setSection_biomes hset]

theorem setBiomeId_blank {pos : BlockPosition} {biomeId : UInt32} (h : column.ProxiesBlank)
    (hrun : column.setBiomeId pos biomeId = .ok column') : column'.ProxiesBlank := by
  unfold setBiomeId at hrun
  dsimp only at hrun
  split at hrun
  · cases hrun
  obtain ⟨area, harea, hcolumn⟩ := bind_eq_ok.mp hrun
  obtain rfl := Except.ok.inj hcolumn
  intro other hother hproxy
  rcases List.mem_or_eq_of_mem_set hother with hold | rfl
  · exact h other hold hproxy
  · obtain ⟨area', hset, hfalse, -⟩ := BedrockBiomeSection.setBiomeId_spec _ _ _ _ _
    obtain rfl := Except.ok.inj (harea.symm.trans hset)
    rw [hfalse] at hproxy
    cases hproxy

theorem withBounds_blank (column : BedrockChunkColumn) (minCY maxCY : ℤ) :
    (column.withBounds minCY maxCY).ProxiesBlank := by
  intro area harea hproxy
  obtain ⟨i, -, rfl⟩ := List.mem_map.mp harea
  cases hproxy

theorem length_loadBiomeSections {type : ChunkStorageType} {count : ℕ} {y : ℤ} {hasLast : Bool}
    {areas : List BedrockBiomeSection} {hasLast' : Bool} {c c' : Cursor}
    (hrun : loadBiomeSections type count y hasLast c = .ok ((areas, hasLast'), c')) :
    areas.length ≤ count := by
  induction count generalizing y hasLast areas hasLast' c c' with
  | zero =>
      cases hrun
      exact le_rfl
  | succ count ih =>
      obtain ⟨next?, c₁, -, hrun⟩ := Reader.run_bind_eq_ok hrun
      cases next? with
      | none =>
          cases hrun
          exact Nat.zero_le _
      | some next =>
          dsimp only at hrun
          split at hrun
          · obtain ⟨_, c₂, -, hrun⟩ := Reader.run_bind_eq_ok hrun
            split at hrun
            · cases hrun
            obtain ⟨⟨areas', hasLast''⟩, c₃, hrest, hrun⟩ := Reader.run_bind_eq_ok hrun
            cases hrun
            exact Nat.succ_le_succ (ih hrest)
          · obtain ⟨first, c₂, -, hrun⟩ := Reader.run_bind_eq_ok hrun
            obtain ⟨⟨areas', hasLast''⟩, c₃, hrest, hrun⟩ := Reader.run_bind_eq_ok hrun
            cases hrun
            exact Nat.succ_le_succ (ih hrest)

theorem setSection_bounds {sectionY : ℤ} {sub : BedrockSubChunk}
    (hrun : column.setSection sectionY sub = .ok column') :
    column'.minCY = column.minCY ∧ column'.maxCY = column.maxCY := by
  unfold setSection at hrun
  split at hrun
  · cases hrun
  · obtain rfl := Except.ok.inj hrun
    exact ⟨rfl, rfl⟩

theorem decodeSections_bounds {count i : ℕ} {c c' : Cursor}
    (hrun : decodeSections count i column c = .ok (column', c')) :
    column'.minCY = column.minCY ∧ column'.maxCY = column.maxCY := by
  induction count generalizing i column c with
  | zero =>
      cases hrun
      exact ⟨rfl, rfl⟩
  | succ count ih =>
      obtain ⟨found, c₁, -, hrun⟩ := Reader.run_bind_eq_ok hrun
      obtain ⟨next, c₂, hnext, hrun⟩ := Reader.run_bind_eq_ok hrun
      obtain ⟨next', hset, hsame⟩ := bind_eq_ok.mp hnext
      cases hsame
      obtain ⟨hmin, hmax⟩ := setSection_bounds hset
      obtain ⟨hmin', hmax'⟩ := ih hrun
      exact ⟨hmin'.trans hmin, hmax'.trans hmax⟩

/-- There is a biome section for every section between the bounds. -/
theorem Reachable.length_biomes (h : column.Reachable) :
    column.biomes.length = (column.maxCY - column.minCY).toNat := by
  induction h with
  | new x z => simp [BedrockChunkColumn.new, withBounds]
  | setBounds _ hrun _ =>
      unfold BedrockChunkColumn.setBounds at hrun
      split at hrun
      · cases hrun
      · obtain rfl := Except.ok.inj hrun
        simp [withBounds]
  | setSection _ _ hrun ih =>
      obtain ⟨hmin, hmax⟩ := setSection_bounds hrun
      rw [setSection_biomes hrun, hmin, hmax, ih]
  | changeSection _ _ _ ih => exact ih
  | setBlockStateId _ hrun ih =>
      obtain ⟨place, -, hset⟩ := bind_eq_ok.mp hrun
      obtain ⟨next, -, hcolumn⟩ := bind_eq_ok.mp hset
      obtain rfl := Except.ok.inj hcolumn
      exact ih
  | readSections _ hrun ih =>
      unfold BedrockChunkColumn.readSections at hrun
      split at hrun
      · cases hrun
        exact ih
      · obtain ⟨hmin, hmax⟩ := decodeSections_bounds hrun
        rw [decodeSections_biomes hrun, hmin, hmax]
        exact ih
  | setBiomeId _ hrun ih =>
      unfold BedrockChunkColumn.setBiomeId at hrun
      dsimp only at hrun
      split at hrun
      · cases hrun
      · obtain ⟨area, -, hcolumn⟩ := bind_eq_ok.mp hrun
        obtain rfl := Except.ok.inj hcolumn
        simpa using ih
  | loadLegacyBiomes h hrun ih =>
      have hbounds := h.sound.bounds
      obtain ⟨⟨first, c⟩, -, hcolumn⟩ := bind_eq_ok.mp hrun
      obtain rfl := Except.ok.inj hcolumn
      simp only [List.length_cons, List.length_map, List.length_range]
      omega
  | loadBiomes _ hrun _ =>
      obtain ⟨⟨areas, hasLast⟩, c, hareas, hcolumn⟩ := Reader.run_bind_eq_ok hrun
      cases hcolumn
      have hle := length_loadBiomeSections hareas
      simp only [List.length_append, List.length_map, List.length_range]
      omega
  | entities _ blockEntities blockEntityNbt ih => exact ih

theorem Reachable.proxiesBlank (h : column.Reachable) : column.ProxiesBlank := by
  induction h with
  | new x z => exact withBounds_blank _ 0 16
  | setBounds _ hrun _ =>
      unfold BedrockChunkColumn.setBounds at hrun
      split at hrun
      · cases hrun
      · obtain rfl := Except.ok.inj hrun
        exact withBounds_blank _ _ _
  | setSection _ _ hrun ih =>
      intro area harea
      exact ih area (setSection_biomes hrun ▸ harea)
  | changeSection _ _ _ ih => exact ih
  | setBlockStateId _ hrun ih =>
      obtain ⟨place, -, hset⟩ := bind_eq_ok.mp hrun
      obtain ⟨next, -, hcolumn⟩ := bind_eq_ok.mp hset
      obtain rfl := Except.ok.inj hcolumn
      exact ih
  | readSections _ hrun ih =>
      unfold BedrockChunkColumn.readSections at hrun
      split at hrun
      · cases hrun
        exact ih
      · intro area harea
        rw [decodeSections_biomes hrun] at harea
        exact ih area harea
  | setBiomeId _ hrun ih => exact setBiomeId_blank ih hrun
  | loadLegacyBiomes _ hrun ih =>
      obtain ⟨⟨first, c⟩, hfirst, hcolumn⟩ := bind_eq_ok.mp hrun
      obtain rfl := Except.ok.inj hcolumn
      intro area harea hproxy
      rcases List.mem_cons.mp harea with rfl | hold
      · rw [yields_readLegacy2D _ _ _ _ hfirst] at hproxy
        cases hproxy
      · obtain ⟨i, -, rfl⟩ := List.mem_map.mp hold
        exact proxyToPrevious_blank _
  | loadBiomes _ hrun ih =>
      obtain ⟨⟨areas, hasLast⟩, c, hareas, hcolumn⟩ := Reader.run_bind_eq_ok hrun
      cases hcolumn
      intro area harea hproxy
      rcases List.mem_append.mp harea with hread | hmissing
      · exact loadBiomeSections_blank hareas area hread hproxy
      · obtain ⟨i, -, rfl⟩ := List.mem_map.mp hmissing
        cases hasLast with
        | true => exact proxyToPrevious_blank _
        | false => cases hproxy
  | entities _ blockEntities blockEntityNbt ih => exact ih

/-! ## What a height shows -/

variable {biomes : List BedrockBiomeSection} {area : BedrockBiomeSection} {i j : ℕ}

theorem biomeIndex_le (biomes : List BedrockBiomeSection) (i : ℕ) : biomeIndex biomes i ≤ i := by
  induction i with
  | zero => exact le_rfl
  | succ i ih =>
      rw [biomeIndex]
      split
      · exact ih.trans (Nat.le_succ i)
      · exact le_rfl

/-- Sections up to `j` that show one from below `i` are proxies, all down to `i`. -/
theorem biomeIndex_eq_of_le (hij : i ≤ j) (h : biomeIndex biomes j ≤ i) :
    biomeIndex biomes j = biomeIndex biomes i ∧
      (i < j → (biomes[i + 1]?).any BedrockBiomeSection.proxy) := by
  induction j with
  | zero =>
      obtain rfl : i = 0 := by omega
      exact ⟨rfl, fun hlt ↦ by omega⟩
  | succ j ih =>
      rcases Nat.eq_or_lt_of_le hij with rfl | hlt
      · exact ⟨rfl, fun hlt ↦ by omega⟩
      rw [biomeIndex] at h ⊢
      split at h
      · rename_i hproxy
        obtain ⟨hsame, habove⟩ := ih (by omega) h
        rw [if_pos hproxy]
        refine ⟨hsame, fun _ ↦ ?_⟩
        rcases Nat.eq_or_lt_of_le (Nat.le_of_lt_succ hlt) with rfl | hlt'
        · exact hproxy
        · exact habove hlt'
      · omega

/-- Once the section at `i` is no proxy, nothing above shows a section below it. -/
theorem biomeIndex_set (hlt : i < biomes.length) (harea : area.proxy = false) (j : ℕ) :
    biomeIndex (biomes.set i area) j =
      if j < i then biomeIndex biomes j else max i (biomeIndex biomes j) := by
  induction j with
  | zero =>
      split
      · rfl
      · obtain rfl : i = 0 := by omega
        rfl
  | succ j ih =>
      rw [biomeIndex, biomeIndex]
      by_cases hsame : i = j + 1
      · have hle := biomeIndex_le biomes j
        have hget : (biomes.set i area)[j + 1]? = some area := by
          rw [← hsame, List.getElem?_set_self hlt]
        rw [hget, Option.any_some, harea, if_neg Bool.false_ne_true]
        split_ifs <;> omega
      · rw [List.getElem?_set_ne hsame, ih]
        by_cases hproxy : (biomes[j + 1]?).any BedrockBiomeSection.proxy
        · rw [if_pos hproxy, if_pos hproxy]
          split
          · rw [if_pos (by omega)]
          · rw [if_neg (by omega)]
        · rw [if_neg hproxy, if_neg hproxy]
          split <;> omega

/-- The number of the biome section of a block height. -/
def biomePlace (column : BedrockChunkColumn) (blockY : ℤ) : ℕ := (column.co + blockY / 16).toNat

/-- The height has a biome section. -/
def hasBiomes (column : BedrockChunkColumn) (blockY : ℤ) : Bool :=
  (slot column.biomes (column.co + blockY >>> (4 : ℕ))).isSome

theorem hasBiomes_iff (column : BedrockChunkColumn) (blockY : ℤ) :
    column.hasBiomes blockY ↔ 0 ≤ column.co + blockY / 16 ∧
      column.co + blockY / 16 < column.biomes.length := by
  rw [hasBiomes, slot_isSome_iff, shiftRight_four]

/-- The section whose biomes the height shows. -/
def shownArea (column : BedrockChunkColumn) (i : ℕ) : BedrockBiomeSection :=
  (column.biomes[biomeIndex column.biomes i]?).getD {}

/-- The section that `setBiomeId` changes, before it does. -/
def writtenArea (column : BedrockChunkColumn) (i : ℕ) : BedrockBiomeSection :=
  match column.biomes[i]? with
  | none => {}
  | some found => if found.proxy ∧ 0 < i then (column.biomes[i - 1]?).getD found else found

theorem getBiomeId_eq_shownArea {pos : BlockPosition} (h : column.hasBiomes pos.y) :
    column.getBiomeId pos = (column.shownArea (column.biomePlace pos.y)).getBiomeId
      (localCoord pos.x) (localCoord pos.y) (localCoord pos.z) := by
  obtain ⟨hpos, hlt⟩ := (column.hasBiomes_iff pos.y).mp h
  have hle := biomeIndex_le column.biomes (column.co + pos.y / 16).toNat
  have hplace : biomeIndex column.biomes (column.co + pos.y / 16).toNat < column.biomes.length := by
    omega
  rw [getBiomeId, shownArea, biomePlace, shiftRight_four, slot_of_lt hpos (by omega),
    List.getElem?_eq_getElem hplace]
  rfl

theorem getBiomeId_of_not_hasBiomes {pos : BlockPosition} (h : ¬ column.hasBiomes pos.y) :
    column.getBiomeId pos = .ok 0 := by
  rw [hasBiomes, Bool.not_eq_true, Option.isSome_eq_false_iff, Option.isNone_iff_eq_none] at h
  rw [getBiomeId, h]

theorem setBiomeId_eq {pos : BlockPosition} (h : column.hasBiomes pos.y) (biomeId : UInt32) :
    column.setBiomeId pos biomeId =
      (fun area ↦ { column with biomes := column.biomes.set (column.biomePlace pos.y) area }) <$>
        (column.writtenArea (column.biomePlace pos.y)).setBiomeId (localCoord pos.x)
          (localCoord pos.y) (localCoord pos.z) biomeId := by
  obtain ⟨hpos, hlt⟩ := (column.hasBiomes_iff pos.y).mp h
  have hplace : (column.co + pos.y / 16).toNat < column.biomes.length := by omega
  rw [setBiomeId, writtenArea, biomePlace, shiftRight_four, slot_of_lt hpos hplace,
    List.getElem?_eq_getElem hplace]
  dsimp only
  by_cases hcopy : column.biomes[(column.co + pos.y / 16).toNat].proxy ∧ 0 < column.co + pos.y / 16
  · rw [if_pos hcopy, if_pos ⟨hcopy.1, by omega⟩]
    rfl
  · rw [if_neg hcopy, if_neg fun h ↦ hcopy ⟨h.1, by omega⟩]
    rfl

/-! ## Setting one biome -/

def SamePlace (p q : BlockPosition) : Prop := p.x % 16 = q.x % 16 ∧ p.y = q.y ∧ p.z % 16 = q.z % 16

/-- The biome that is set reads back and no other biome changes. -/
def SetsBiome (column : BedrockChunkColumn) (pos : BlockPosition) (biomeId : UInt32) : Prop :=
  ∃ column', column.setBiomeId pos biomeId = .ok column' ∧
    column'.getBiomeId pos = .ok biomeId ∧
    ∀ other, ¬ SamePlace other pos → column'.getBiomeId other = column.getBiomeId other

/-- A block position in the biome section `i`. -/
def positionIn (column : BedrockChunkColumn) (i : ℕ) (x y z : UInt8) : BlockPosition where
  x := x.toNat
  y := 16 * (i - column.co) + y.toNat % 16
  z := z.toNat

theorem positionIn_div (column : BedrockChunkColumn) (i : ℕ) (x y z : UInt8) :
    column.co + (column.positionIn i x y z).y / 16 = i := by
  simp only [positionIn]
  omega

theorem blockIndex_positionIn (column : BedrockChunkColumn) (i : ℕ) (x y z : UInt8) :
    blockIndex (localCoord (column.positionIn i x y z).x) (localCoord (column.positionIn i x y z).y)
      (localCoord (column.positionIn i x y z).z) = blockIndex x y z := by
  rw [blockIndex_eq_iff, toNat_localCoord, toNat_localCoord, toNat_localCoord]
  simp only [positionIn]
  omega

theorem getBiomeId_of_blockIndex {area : BedrockBiomeSection} {x y z x' y' z' : UInt8}
    (h : blockIndex x y z = blockIndex x' y' z') :
    area.getBiomeId x y z = area.getBiomeId x' y' z' := by
  unfold BedrockBiomeSection.getBiomeId PalettedStorage.get
  rw [h]

/-- Inside one section, different places have different numbers. -/
theorem samePlace_iff {p q : BlockPosition} (h : p.y / 16 = q.y / 16) :
    SamePlace p q ↔ blockIndex (localCoord p.x) (localCoord p.y) (localCoord p.z) =
      blockIndex (localCoord q.x) (localCoord q.y) (localCoord q.z) := by
  rw [blockIndex_localCoord_iff, SamePlace]
  constructor
  · rintro ⟨hx, hy, hz⟩
    exact ⟨hx, by rw [hy], hz⟩
  · rintro ⟨hx, hy, hz⟩
    exact ⟨hx, by omega, hz⟩

/-- The section that is written is the one shown, or a proxy that shows another. -/
theorem writtenArea_cases (column : BedrockChunkColumn) {i : ℕ} (hlt : i < column.biomes.length) :
    column.writtenArea i = column.shownArea i ∨
      column.writtenArea i ∈ column.biomes ∧ (column.writtenArea i).proxy = true := by
  rw [writtenArea, shownArea, List.getElem?_eq_getElem hlt]
  dsimp only
  cases i with
  | zero =>
      rw [if_neg (by omega), biomeIndex, List.getElem?_eq_getElem hlt]
      exact .inl rfl
  | succ i =>
      rw [biomeIndex, List.getElem?_eq_getElem hlt, Option.any_some]
      by_cases hproxy : column.biomes[i + 1].proxy
      · have hprev : i < column.biomes.length := by omega
        rw [if_pos ⟨hproxy, Nat.succ_pos i⟩, if_pos hproxy, Nat.add_sub_cancel,
          List.getElem?_eq_getElem hprev, Option.getD_some]
        by_cases hchain : column.biomes[i].proxy
        · exact .inr ⟨List.getElem_mem hprev, hchain⟩
        · refine .inl ?_
          have hself : biomeIndex column.biomes i = i := by
            cases i with
            | zero => rfl
            | succ i =>
                rw [biomeIndex, List.getElem?_eq_getElem hprev, Option.any_some, if_neg hchain]
          rw [hself, List.getElem?_eq_getElem hprev, Option.getD_some]
      · rw [if_neg fun h ↦ hproxy h.1, if_neg hproxy, List.getElem?_eq_getElem hlt]
        exact .inl rfl

/-- A blank proxy takes every biome everywhere. -/
theorem takesBiome_of_single {area : BedrockBiomeSection} {only : UInt32}
    (hpalette : area.palette = [only])
    (hzero : ∀ x y z, area.biomes.get x y z = 0) (x y z : UInt8) (biomeId : UInt32) :
    area.TakesBiome x y z biomeId where
  empty h := by simp [hpalette] at h
  known h := by
    have hwidth : 2 ^ 1 ≤ 2 ^ area.biomes.bitsPerBlock :=
      Nat.pow_le_pow_right (by omega) area.biomes.bits_pos
    have hindex := List.idxOf_lt_length_iff.mpr h
    rw [hpalette, List.length_singleton] at hindex
    rw [hpalette]
    omega
  new _ _ := by
    refine ⟨by simp [hpalette], fun x' y' z' _ ↦ ?_⟩
    rw [hzero, hpalette]
    exact Nat.zero_ne_one

/-- What every height shows after the section at `i` was replaced by one that is no
proxy. -/
theorem getBiomeId_set {area : BedrockBiomeSection} {i : ℕ} (hlt : i < column.biomes.length)
    (harea : area.proxy = false) (pos : BlockPosition) (hplace : column.hasBiomes pos.y) :
    getBiomeId { column with biomes := column.biomes.set i area } pos =
      if i ≤ column.biomePlace pos.y ∧
          biomeIndex column.biomes (column.biomePlace pos.y) ≤ i then
        area.getBiomeId (localCoord pos.x) (localCoord pos.y) (localCoord pos.z)
      else column.getBiomeId pos := by
  set column' : BedrockChunkColumn := { column with biomes := column.biomes.set i area }
    with hcolumn'
  have hplace' : column'.hasBiomes pos.y := by
    rw [hasBiomes_iff] at hplace ⊢
    simpa [hcolumn', co] using hplace
  have hsame : column'.biomePlace pos.y = column.biomePlace pos.y := rfl
  have hbiomes : column'.biomes = column.biomes.set i area := rfl
  have hle := biomeIndex_le column.biomes (column.biomePlace pos.y)
  rw [getBiomeId_eq_shownArea hplace', getBiomeId_eq_shownArea hplace, hsame, shownArea, shownArea,
    hbiomes, biomeIndex_set hlt harea]
  by_cases hbelow : column.biomePlace pos.y < i
  · rw [if_pos hbelow, if_neg (by omega), List.getElem?_set_ne (by omega)]
  · rw [if_neg hbelow]
    by_cases hshown : biomeIndex column.biomes (column.biomePlace pos.y) ≤ i
    · rw [if_pos ⟨by omega, hshown⟩, max_eq_left hshown, List.getElem?_set_self hlt,
        Option.getD_some]
    · rw [if_neg fun h ↦ hshown h.2, max_eq_right (by omega), List.getElem?_set_ne (by omega)]

section Replaced

variable {area : BedrockBiomeSection} {pos : BlockPosition}

/-- The column with another section at the height of a position. -/
def replaceArea (column : BedrockChunkColumn) (pos : BlockPosition) (area : BedrockBiomeSection) :
    BedrockChunkColumn :=
  { column with biomes := column.biomes.set (column.biomePlace pos.y) area }

theorem biomePlace_eq (h : column.hasBiomes pos.y) :
    column.co + pos.y / 16 = column.biomePlace pos.y ∧
      column.biomePlace pos.y < column.biomes.length := by
  have h := (column.hasBiomes_iff pos.y).mp h
  rw [biomePlace]
  omega

theorem getBiomeId_replaceArea_inside (h : column.hasBiomes pos.y) (harea : area.proxy = false)
    {other : BlockPosition} (hother : other.y / 16 = pos.y / 16) :
    (column.replaceArea pos area).getBiomeId other =
      area.getBiomeId (localCoord other.x) (localCoord other.y) (localCoord other.z) := by
  have hfound : column.hasBiomes other.y := by
    rwa [hasBiomes_iff, hother, ← hasBiomes_iff]
  have hplace : column.biomePlace other.y = column.biomePlace pos.y := by
    rw [biomePlace, biomePlace, hother]
  rw [replaceArea, getBiomeId_set (biomePlace_eq h).2 harea other hfound, hplace,
    if_pos ⟨le_rfl, biomeIndex_le _ _⟩]

/-- A proxy just above shows the section that was replaced, before and after. -/
theorem getBiomeId_replaceArea_above (h : column.hasBiomes pos.y) (harea : area.proxy = false)
    (hany : (column.biomes[column.biomePlace pos.y + 1]?).any BedrockBiomeSection.proxy)
    {above : BlockPosition} (hx : above.x = pos.x) (hy : above.y = pos.y + 16)
    (hz : above.z = pos.z) :
    (column.replaceArea pos area).getBiomeId above =
        area.getBiomeId (localCoord pos.x) (localCoord pos.y) (localCoord pos.z) ∧
      column.getBiomeId above = column.getBiomeId pos := by
  obtain ⟨hindex, hlt⟩ := biomePlace_eq h
  have hnext : column.biomePlace pos.y + 1 < column.biomes.length := by
    by_contra hout
    rw [List.getElem?_eq_none (by omega)] at hany
    cases hany
  have hplace : column.biomePlace above.y = column.biomePlace pos.y + 1 := by
    rw [biomePlace, hy]
    omega
  have hfound : column.hasBiomes above.y := by
    rw [hasBiomes_iff, hy]
    omega
  have hdown : biomeIndex column.biomes (column.biomePlace pos.y + 1) =
      biomeIndex column.biomes (column.biomePlace pos.y) := by
    rw [biomeIndex, if_pos hany]
  have hblock : blockIndex (localCoord above.x) (localCoord above.y) (localCoord above.z) =
      blockIndex (localCoord pos.x) (localCoord pos.y) (localCoord pos.z) := by
    rw [blockIndex_localCoord_iff, hx, hy, hz]
    omega
  constructor
  · rw [replaceArea, getBiomeId_set hlt harea above hfound, hplace, hdown,
      if_pos ⟨Nat.le_succ _, biomeIndex_le _ _⟩]
    exact getBiomeId_of_blockIndex hblock
  · rw [getBiomeId_eq_shownArea hfound, getBiomeId_eq_shownArea h, hplace, shownArea, hdown]
    exact getBiomeId_of_blockIndex hblock

/-- Every other position keeps its biome when the section keeps those it showed and no
proxy above showed the one that was lost. -/
theorem getBiomeId_replaceArea_other (h : column.hasBiomes pos.y) (harea : area.proxy = false)
    (hkeeps : ∀ x y z, blockIndex x y z ≠
        blockIndex (localCoord pos.x) (localCoord pos.y) (localCoord pos.z) →
      area.getBiomeId x y z = (column.shownArea (column.biomePlace pos.y)).getBiomeId x y z)
    (habove : (column.biomes[column.biomePlace pos.y + 1]?).any BedrockBiomeSection.proxy →
      column.getBiomeId pos =
        area.getBiomeId (localCoord pos.x) (localCoord pos.y) (localCoord pos.z))
    {other : BlockPosition} (hother : ¬ SamePlace other pos) :
    (column.replaceArea pos area).getBiomeId other = column.getBiomeId other := by
  by_cases hfound : column.hasBiomes other.y
  swap
  · have hfound' : ¬ (column.replaceArea pos area).hasBiomes other.y := by
      rw [hasBiomes_iff] at hfound ⊢
      simpa [replaceArea, co] using hfound
    rw [getBiomeId_of_not_hasBiomes hfound, getBiomeId_of_not_hasBiomes hfound']
  rw [replaceArea, getBiomeId_set (biomePlace_eq h).2 harea other hfound]
  split
  swap
  · rfl
  rename_i hshows
  obtain ⟨hdown, hproxy⟩ := biomeIndex_eq_of_le hshows.1 hshows.2
  rw [getBiomeId_eq_shownArea hfound, shownArea, hdown, ← shownArea]
  by_cases hblock : blockIndex (localCoord other.x) (localCoord other.y) (localCoord other.z) =
      blockIndex (localCoord pos.x) (localCoord pos.y) (localCoord pos.z)
  · -- The same place of a section above, which shows this one through proxies.
    have hlt : column.biomePlace pos.y < column.biomePlace other.y := by
      refine lt_of_le_of_ne hshows.1 fun heq ↦ hother ?_
      have hindex := (biomePlace_eq h).1
      have hindex' := (biomePlace_eq hfound).1
      exact (samePlace_iff (by omega)).mpr hblock
    rw [getBiomeId_of_blockIndex hblock, getBiomeId_of_blockIndex hblock, ← habove (hproxy hlt),
      getBiomeId_eq_shownArea h]
  · exact hkeeps _ _ _ hblock

/-- Setting a biome is right when the new section is right at its own height and a
proxy above showed the new biome before. -/
theorem setsBiome_iff_replaceArea (h : column.hasBiomes pos.y) (harea : area.proxy = false)
    {biomeId : UInt32} (hrun : column.setBiomeId pos biomeId = .ok (column.replaceArea pos area)) :
    column.SetsBiome pos biomeId ↔
      (area.getBiomeId (localCoord pos.x) (localCoord pos.y) (localCoord pos.z) = .ok biomeId ∧
        ∀ x y z, blockIndex x y z ≠
            blockIndex (localCoord pos.x) (localCoord pos.y) (localCoord pos.z) →
          area.getBiomeId x y z =
            (column.shownArea (column.biomePlace pos.y)).getBiomeId x y z) ∧
      ((column.biomes[column.biomePlace pos.y + 1]?).any BedrockBiomeSection.proxy →
        column.getBiomeId pos = .ok biomeId) := by
  constructor
  · rintro ⟨column', hrun', hread, hframe⟩
    obtain rfl := Except.ok.inj (hrun.symm.trans hrun')
    rw [getBiomeId_replaceArea_inside h harea rfl] at hread
    refine ⟨⟨hread, fun x y z hne ↦ ?_⟩, fun habove ↦ ?_⟩
    · have hplace := (biomePlace_eq h).1
      have hdiv := column.positionIn_div (column.biomePlace pos.y) x y z
      have hblock := column.blockIndex_positionIn (column.biomePlace pos.y) x y z
      have hsection : (column.positionIn (column.biomePlace pos.y) x y z).y / 16 = pos.y / 16 := by
        omega
      have hfound : column.hasBiomes (column.positionIn (column.biomePlace pos.y) x y z).y := by
        rwa [hasBiomes_iff, hsection, ← hasBiomes_iff]
      have hplace' : column.biomePlace (column.positionIn (column.biomePlace pos.y) x y z).y =
          column.biomePlace pos.y := by
        rw [biomePlace, hsection, biomePlace]
      have hkeep := hframe (column.positionIn (column.biomePlace pos.y) x y z) (by
        rw [samePlace_iff hsection, hblock]
        exact hne)
      rw [getBiomeId_replaceArea_inside h harea hsection, getBiomeId_eq_shownArea hfound,
        getBiomeId_of_blockIndex hblock, hplace', getBiomeId_of_blockIndex hblock] at hkeep
      exact hkeep
    · obtain ⟨hnew, hold⟩ := @getBiomeId_replaceArea_above _ _ _ h harea habove
        { pos with y := pos.y + 16 } rfl rfl rfl
      rw [← hold, ← hframe { pos with y := pos.y + 16 }, hnew, hread]
      intro hsame
      have : pos.y + 16 = pos.y := hsame.2.1
      omega
  · rintro ⟨⟨hread, hkeeps⟩, habove⟩
    refine ⟨_, hrun, ?_, fun other hother ↦ ?_⟩
    · rw [getBiomeId_replaceArea_inside h harea rfl, hread]
    · exact getBiomeId_replaceArea_other h harea hkeeps (fun hany ↦ by rw [habove hany, hread])
        hother

end Replaced

/-- In a reachable column setting a biome between the bounds is right exactly when the
height has a biome section, the section that is written shows what the position's
section showed, it takes the biome, and no proxy above shows the old one. -/
theorem setsBiome_iff (h : column.Reachable) {pos : BlockPosition} (biomeId : UInt32)
    (hlow : 16 * column.minCY ≤ pos.y) (hhigh : pos.y < 16 * column.maxCY) :
    column.SetsBiome pos biomeId ↔
      (column.minCY ≤ 0 ∨ pos.y / 16 + 2 * column.minCY < column.maxCY) ∧
      (∀ x y z, blockIndex x y z ≠
          blockIndex (localCoord pos.x) (localCoord pos.y) (localCoord pos.z) →
        (column.writtenArea (column.biomePlace pos.y)).getBiomeId x y z =
          (column.shownArea (column.biomePlace pos.y)).getBiomeId x y z) ∧
      (column.writtenArea (column.biomePlace pos.y)).TakesBiome (localCoord pos.x)
        (localCoord pos.y) (localCoord pos.z) biomeId ∧
      ((column.biomes[column.biomePlace pos.y + 1]?).any BedrockBiomeSection.proxy →
        column.getBiomeId pos = .ok biomeId) := by
  have hplace : (column.minCY ≤ 0 ∨ pos.y / 16 + 2 * column.minCY < column.maxCY) ↔
      column.hasBiomes pos.y := by
    have hbounds := h.sound.bounds
    rw [hasBiomes_iff, co, h.length_biomes]
    omega
  rw [hplace]
  by_cases hfound : column.hasBiomes pos.y
  swap
  · refine iff_of_false ?_ fun hall ↦ hfound hall.1
    rintro ⟨column', hrun, -⟩
    rw [hasBiomes, Bool.not_eq_true, Option.isSome_eq_false_iff, Option.isNone_iff_eq_none] at hfound
    rw [setBiomeId, hfound] at hrun
    cases hrun
  obtain ⟨area, hset, hproxy, hspec⟩ :=
    (column.writtenArea (column.biomePlace pos.y)).setBiomeId_spec (localCoord pos.x)
      (localCoord pos.y) (localCoord pos.z) biomeId
  have hrun : column.setBiomeId pos biomeId = .ok (column.replaceArea pos area) := by
    rw [setBiomeId_eq hfound, hset]
    rfl
  rw [setsBiome_iff_replaceArea hfound hproxy hrun]
  rcases column.writtenArea_cases (biomePlace_eq hfound).2 with hsame | ⟨hmem, hchain⟩
  · rw [← hsame, ← hspec]
    constructor
    · rintro ⟨htakes, habove⟩
      exact ⟨hfound, fun _ _ _ _ ↦ rfl, htakes, habove⟩
    · rintro ⟨-, -, htakes, habove⟩
      exact ⟨htakes, habove⟩
  · -- A proxy shows nothing but 0 itself, so it takes any biome and shows 0 elsewhere.
    obtain ⟨hpalette, hzero⟩ := h.proxiesBlank _ hmem hchain
    have htakes := takesBiome_of_single hpalette hzero (localCoord pos.x) (localCoord pos.y)
      (localCoord pos.z) biomeId
    obtain ⟨hread, hothers⟩ := hspec.mp htakes
    constructor
    · rintro ⟨⟨-, hkeeps⟩, habove⟩
      exact ⟨hfound, fun x y z hne ↦ by rw [← hothers x y z hne, hkeeps x y z hne], htakes, habove⟩
    · rintro ⟨-, hkeeps, -, habove⟩
      exact ⟨⟨hread, fun x y z hne ↦ by rw [hothers x y z hne, hkeeps x y z hne]⟩, habove⟩

/-- The two sections of a column whose upper one repeats the lower one. -/
def repeated : BedrockChunkColumn :=
  { (new 0 0).withBounds 0 2 with
    biomes := [{ palette := [1] }, BedrockBiomeSection.proxyToPrevious 1] }

theorem repeated_reachable : repeated.Reachable := by
  have hbounds : ((new 0 0).withBounds 0 2).Reachable :=
    @Reachable.setBounds _ _ 0 2 (.new 0 0) rfl
  exact @Reachable.loadBiomes _ _ .runtime (Cursor.start [1, 2]) ⟨2, []⟩ hbounds rfl

/-- The section that repeats the other one can be changed. -/
theorem setsBiome_repeated : repeated.SetsBiome { x := 3, y := 20, z := -2 } 9 := by
  have hwritten : repeated.writtenArea (repeated.biomePlace 20) = { palette := [1] } := rfl
  have hshown : repeated.shownArea (repeated.biomePlace 20) = { palette := [1] } := rfl
  have hnone : (repeated.biomes[repeated.biomePlace 20 + 1]?).any BedrockBiomeSection.proxy = false :=
    rfl
  refine (setsBiome_iff repeated_reachable 9 (by decide) (by decide)).mpr
    ⟨.inl (by decide), ?_, ?_, ?_⟩
  · rw [hwritten, hshown]
    exact fun _ _ _ _ ↦ rfl
  · rw [hwritten]
    refine @takesBiome_of_single { palette := [1] } 1 rfl ?_ _ _ _ 9
    exact fun _ _ _ ↦ packedGet_replicate_zero 1 _ _
  · intro habove
    rw [hnone] at habove
    cases habove

/-- The biomes of the second section are those of the first, which changes under it. -/
theorem biome_above_changed :
    repeated.Reachable ∧ ¬ repeated.SetsBiome { x := 0, y := 0, z := 0 } 5 := by
  refine ⟨repeated_reachable, ?_⟩
  rintro ⟨column', hrun, -, hframe⟩
  obtain rfl := Except.ok.inj hrun
  have habove := hframe { x := 0, y := 16, z := 0 } (by unfold SamePlace; decide)
  revert habove
  decide

end BedrockChunkColumn

end BedrockProtocol
