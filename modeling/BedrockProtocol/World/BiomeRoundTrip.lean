import BedrockProtocol.World.BedrockBiomeSection
import BedrockProtocol.World.SubChunkRoundTrip

/-!
# Reading back biomes

A section is written as its palette and its storage and reads back as it was,
as long as the ids and the number of them survive the shift by one bit.  The
legacy form has one byte for every block column.
-/

namespace BedrockProtocol

open PalettedStorage

namespace BedrockBiomeSection

variable {area area' into : BedrockBiomeSection}

theorem toNat_shiftLeft_one {value : UInt32} (h : value.toNat < 2 ^ 31) :
    (value <<< 1).toNat = 2 * value.toNat := by
  rw [UInt32.toNat_shiftLeft]
  have hone : (1 : UInt32).toNat % 32 = 1 := rfl
  rw [hone, Nat.shiftLeft_eq, Nat.mod_eq_of_lt (by omega)]
  omega

theorem reads_readRuntimeBiomeId {value : UInt32} (h : value.toNat < 2 ^ 31) :
    Reads readRuntimeBiomeId (writeRuntimeBiomeId value) value := by
  have hshift := toNat_shiftLeft_one h
  have hlt : (value <<< 1).toNat < 2 ^ 32 := by omega
  have hread := (BinaryStream.reads_readVarUInt hlt).map (f := fun value ↦ UInt32.ofNat (value >>> 1))
  have hback : UInt32.ofNat ((value <<< 1).toNat >>> 1) = value := by
    rw [hshift, Nat.shiftRight_eq_div_pow, pow_one, Nat.mul_div_cancel_left _ (by omega),
      UInt32.ofNat_toNat]
  rwa [hback] at hread

/-- The width in the type byte, which the length of the palette gives, is the one that the
words were packed with. -/
def HeaderFits (area : BedrockBiomeSection) : Prop :=
  (area.palette.length = 1 ∧ ∀ x y z, area.biomes.get x y z = 0) ∨
    (2 ≤ area.palette.length ∧ area.palette.length < 2 ^ 31 ∧
      area.biomes.bitsPerBlock = neededBits (area.palette.length - 1))

theorem HeaderFits.length_lt (h : area.HeaderFits) :
    0 < area.palette.length ∧ area.palette.length < 2 ^ 31 := by
  rcases h with ⟨hone, -⟩ | ⟨htwo, hlt, -⟩
  · omega
  · omega

theorem HeaderFits.lastIndex (h : area.HeaderFits) :
    lastIndex area.palette.length = area.palette.length - 1 := by
  have hlength := h.length_lt
  rw [BedrockProtocol.lastIndex]
  omega

theorem paletteType_toNat (bits : ℕ) (h : bits ≤ 32) :
    (UInt8.ofNat ((bits <<< 1) ||| 1)).toNat = 2 * bits + 1 :=
  Layer.paletteType_eq h (by omega)

/-- The type byte of a section is not the one of a proxy. -/
theorem paletteType_ne (n : ℕ) : UInt8.ofNat ((neededBits n <<< 1) ||| 1) ≠ 0xff := by
  have htype := paletteType_toNat (neededBits n) (neededBits_le n)
  intro heq
  rw [heq] at htype
  have := neededBits_le n
  have hff : (0xff : UInt8).toNat = 255 := rfl
  omega

/-- A section whose type byte fits reads back with the same biome at every position. -/
theorem HeaderFits.reads_read (h : area.HeaderFits) (hproxy : area.proxy = false)
    (hids : ∀ biomeId ∈ area.palette, biomeId.toNat < 2 ^ 31) :
    ∃ area', Reads (into.read .runtime) (area.exportTo .runtime) area' ∧ area'.proxy = false ∧
      ∀ x y z, area'.getBiomeId x y z = area.getBiomeId x y z := by
  have hread (payload : List UInt8) (area' : BedrockBiomeSection)
      (hpalette : Reads (into.readPalette .runtime (neededBits (area.palette.length - 1))) payload
        area') :
      Reads (into.read .runtime)
        (UInt8.ofNat ((neededBits (area.palette.length - 1) <<< 1) ||| 1) :: payload) area' := by
    refine (BinaryStream.reads_readU8 _).bind_cons ?_
    rw [if_neg (paletteType_ne _), paletteType_toNat _ (neededBits_le _),
      if_neg (by rw [Nat.and_one_is_mod]; omega), Nat.shiftRight_eq_div_pow]
    have hbits : (2 * neededBits (area.palette.length - 1) + 1) / 2 ^ 1 =
        neededBits (area.palette.length - 1) := by omega
    rwa [hbits]
  rw [exportTo, hproxy, h.lastIndex]
  simp only [Bool.false_eq_true, reduceCtorEq, ↓reduceIte]
  rcases h with ⟨hone, hzero⟩ | ⟨htwo, hlength, hwidth⟩
  · obtain ⟨biomeId, hsingle⟩ := List.length_eq_one_iff.mp hone
    have hnone : neededBits (area.palette.length - 1) = 0 := by
      rw [hone]
      rfl
    refine ⟨{ into with
      proxy := false, palette := [biomeId], biomes := .ofBits 1 (by decide) (by decide) },
      hread _ _ ?_, rfl, fun x y z ↦ ?_⟩
    · rw [if_pos hnone, hsingle, readPalette, if_pos (by simp [neededBits, neededBitsLoop])]
      exact (reads_readRuntimeBiomeId (hids biomeId (by simp [hsingle]))).bind_last (Reads.pure _)
    · have hget : (PalettedStorage.ofBits 1 (by decide) (by decide)).get x y z = 0 :=
        packedGet_replicate_zero 1 _ _
      simp [getBiomeId, hsingle, hzero, hget]
  · have hsome : neededBits (area.palette.length - 1) ≠ 0 :=
      (neededBits_pos (by omega)).ne'
    refine ⟨{ into with proxy := false, palette := area.palette, biomes := area.biomes },
      hread _ _ ?_, rfl, fun x y z ↦ rfl⟩
    have hcount : (UInt32.ofNat area.palette.length).toNat = area.palette.length := by
      rw [UInt32.toNat_ofNat']
      omega
    have hpalette : Reads (Reader.many readRuntimeBiomeId (UInt32.ofNat area.palette.length).toNat)
        (area.palette.flatMap writeRuntimeBiomeId) area.palette := by
      have hmany := Reads.many (f := id) area.palette fun biomeId hmem ↦
        reads_readRuntimeBiomeId (hids biomeId hmem)
      rwa [List.map_id, ← hcount] at hmany
    rw [if_neg hsome, readPalette, if_neg hsome]
    refine (Reads.lift (new_eq_ok (neededBits_le _))).bind_nil ?_
    refine (area.biomes.reads_read ?_).bind ?_
    · rw [ofBits_bitsPerBlock, hwidth]
      omega
    refine (reads_readRuntimeBiomeId (by rw [hcount]; exact hlength)).bind ?_
    exact hpalette.bind_last (Reads.pure _)

/-! ## Sections built by setting biomes -/

/-- The section can be written and read without losing a bit of an id. -/
structure Writable (area : BedrockBiomeSection) : Prop where
  tight : area.Tight
  not_proxy : area.proxy = false
  id_lt : ∀ biomeId ∈ area.palette, biomeId.toNat < 2 ^ 31
  length_lt : area.palette.length < 2 ^ 31

theorem Writable.headerFits (h : area.Writable) : area.HeaderFits := by
  have hpos := h.tight.length_pos
  by_cases hone : area.palette.length = 1
  · refine .inl ⟨hone, fun x y z ↦ ?_⟩
    have := h.tight.get_lt x y z
    omega
  · have hneeded := @neededBits_pos (area.palette.length - 1) (by omega)
    have hwidth := h.tight.width
    exact .inr ⟨by omega, h.length_lt, by omega⟩

theorem Writable.lastIndex (h : area.Writable) :
    lastIndex area.palette.length = area.palette.length - 1 := h.headerFits.lastIndex

theorem Writable.exportTo_eq (h : area.Writable) :
    ∃ rest, area.exportTo .runtime =
        UInt8.ofNat ((neededBits (area.palette.length - 1) <<< 1) ||| 1) :: rest ∧
      UInt8.ofNat ((neededBits (area.palette.length - 1) <<< 1) ||| 1) ≠ 0xff := by
  exact ⟨_, by rw [exportTo, h.not_proxy, h.lastIndex]; rfl, paletteType_ne _⟩

/-- A section of one biome. -/
theorem Tight.getBiomeId_single (h : area.Tight) {biomeId : UInt32}
    (hsingle : area.palette = [biomeId]) (x y z : UInt8) : area.getBiomeId x y z = .ok biomeId := by
  have hlt := h.get_lt x y z
  rw [hsingle] at hlt
  have hindex : area.biomes.get x y z = 0 := by simpa using hlt
  simp [BedrockBiomeSection.getBiomeId, hsingle, hindex]

/-- A section reads back with the same biome at every position. -/
theorem Writable.reads_read (h : area.Writable) :
    ∃ area', Reads (into.read .runtime) (area.exportTo .runtime) area' ∧ area'.proxy = false ∧
      ∀ x y z, area'.getBiomeId x y z = area.getBiomeId x y z :=
  h.headerFits.reads_read h.not_proxy h.id_lt

/-! ## The legacy form -/

theorem Tight.foldlM_setBiomeId (h : area.Tight) (x z : UInt8) (biomeId : UInt32) (ys : List ℕ) :
    ∃ area', ys.foldlM (fun area y ↦ area.setBiomeId x (UInt8.ofNat y) z biomeId) area =
        .ok area' ∧ area'.Tight ∧ (area.proxy = false → area'.proxy = false) ∧
      ∀ x' y' z', area'.getBiomeId x' y' z' =
        if ∃ y ∈ ys, blockIndex x' y' z' = blockIndex x (UInt8.ofNat y) z then .ok biomeId
        else area.getBiomeId x' y' z' := by
  induction ys generalizing area with
  | nil => exact ⟨area, rfl, h, id, by simp⟩
  | cons y ys ih =>
      obtain ⟨first, hfirst, htight, -, hproxy, -, hget⟩ := h.setBiomeId x (UInt8.ofNat y) z biomeId
      obtain ⟨area', hrest, htight', hproxy', hget'⟩ := ih htight
      refine ⟨area', ?_, htight', fun _ ↦ hproxy' hproxy, fun x' y' z' ↦ ?_⟩
      · rw [List.foldlM_cons, hfirst]
        exact hrest
      · rw [hget', hget]
        by_cases hhead : blockIndex x' y' z' = blockIndex x (UInt8.ofNat y) z
        · simp [hhead]
        · simp [hhead]

/-- One block column gets the biome, the others keep theirs. -/
theorem Tight.fillColumn (h : area.Tight) (x z : UInt8) (biomeId : UInt32) :
    ∃ area', area.fillColumn x z biomeId = .ok area' ∧ area'.Tight ∧
      (area.proxy = false → area'.proxy = false) ∧
      ∀ x' y' z', area'.getBiomeId x' y' z' =
        if x'.toNat % 16 = x.toNat % 16 ∧ z'.toNat % 16 = z.toNat % 16 then .ok biomeId
        else area.getBiomeId x' y' z' := by
  obtain ⟨area', hfill, htight, hproxy, hget⟩ := h.foldlM_setBiomeId x z biomeId (List.range 16)
  refine ⟨area', hfill, htight, hproxy, fun x' y' z' ↦ ?_⟩
  have hcolumn : (∃ y ∈ List.range 16, blockIndex x' y' z' = blockIndex x (UInt8.ofNat y) z) ↔
      x'.toNat % 16 = x.toNat % 16 ∧ z'.toNat % 16 = z.toNat % 16 := by
    constructor
    · rintro ⟨y, -, hindex⟩
      exact ⟨(blockIndex_eq_iff.mp hindex).1, (blockIndex_eq_iff.mp hindex).2.2⟩
    · rintro ⟨hx, hz⟩
      refine ⟨y'.toNat % 16, by simp; omega, blockIndex_eq_iff.mpr ⟨hx, ?_, hz⟩⟩
      rw [toNat_ofNat_of_lt (by omega)]
      omega
  rw [hget]
  simp only [hcolumn]

/-- The loop that reads one byte for every block column of a list. -/
theorem Tight.reads_columns (h : area.Tight) (hproxy : area.proxy = false) (biome : ℕ → ℕ → UInt8)
    (ps : List (UInt8 × UInt8)) :
    ∃ area', Reads
        (ps.foldlM (fun area p ↦ do
          let biomeId ← BinaryStream.readU8
          liftM (area.fillColumn p.1 p.2 biomeId.toUInt32)) area)
        (ps.map fun p ↦ biome (p.1.toNat % 16) (p.2.toNat % 16)) area' ∧
      area'.Tight ∧ area'.proxy = false ∧
      ∀ x y z, area'.getBiomeId x y z =
        if ∃ p ∈ ps, x.toNat % 16 = p.1.toNat % 16 ∧ z.toNat % 16 = p.2.toNat % 16 then
          .ok (biome (x.toNat % 16) (z.toNat % 16)).toUInt32
        else area.getBiomeId x y z := by
  induction ps generalizing area with
  | nil => exact ⟨area, Reads.pure area, h, hproxy, by simp⟩
  | cons p ps ih =>
      obtain ⟨first, hfill, htight, hkeep, hget⟩ :=
        h.fillColumn p.1 p.2 (biome (p.1.toNat % 16) (p.2.toNat % 16)).toUInt32
      obtain ⟨area', hreads, htight', hproxy', hget'⟩ := ih htight (hkeep hproxy)
      refine ⟨area', ?_, htight', hproxy', fun x y z ↦ ?_⟩
      · rw [List.foldlM_cons, List.map_cons]
        refine Reads.bind_cons ?_ hreads
        exact (BinaryStream.reads_readU8 _).bind_last (Reads.lift hfill)
      · rw [hget', hget]
        simp only [List.mem_cons, exists_eq_or_imp]
        by_cases hhead : x.toNat % 16 = p.1.toNat % 16 ∧ z.toNat % 16 = p.2.toNat % 16
        · simp only [hhead, and_self, true_or, ↓reduceIte, ite_self]
        · simp only [hhead, false_or, ↓reduceIte]

theorem mem_legacyPositions (x z : UInt8) :
    ∃ p ∈ legacyPositions, x.toNat % 16 = p.1.toNat % 16 ∧ z.toNat % 16 = p.2.toNat % 16 := by
  refine ⟨(UInt8.ofNat (x.toNat % 16), UInt8.ofNat (z.toNat % 16)), ?_, ?_⟩
  · simp only [legacyPositions, List.mem_flatMap, List.mem_map, List.mem_range]
    exact ⟨x.toNat % 16, by omega, z.toNat % 16, by omega, rfl⟩
  · simp only
    rw [toNat_ofNat_of_lt (by omega), toNat_ofNat_of_lt (by omega)]
    omega

/-- Every block column reads back with its byte. -/
theorem Tight.reads_readLegacy2D (h : area.Tight) (biome : ℕ → ℕ → UInt8) :
    ∃ area', Reads area.readLegacy2D
        (legacyPositions.map fun p ↦ biome (p.1.toNat % 16) (p.2.toNat % 16)) area' ∧
      area'.Tight ∧ area'.proxy = false ∧
      ∀ x y z, area'.getBiomeId x y z = .ok (biome (x.toNat % 16) (z.toNat % 16)).toUInt32 := by
  have hset : Tight { area with proxy := false } := ⟨h.nodup, h.ne_nil, h.index_lt, h.width⟩
  obtain ⟨area', hreads, htight, hproxy, hget⟩ := hset.reads_columns rfl biome legacyPositions
  refine ⟨area', hreads, htight, hproxy, fun x y z ↦ ?_⟩
  rw [hget, if_pos (mem_legacyPositions x z)]

theorem length_legacyPositions : legacyPositions.length = 256 := by
  simp [legacyPositions, List.length_flatMap]

/-- The legacy form of a section whose lowest biomes are known. -/
theorem exportLegacy2D_eq_ok {biome : ℕ → ℕ → UInt32}
    (h : ∀ x z, area.getBiomeId x 0 z = .ok (biome (x.toNat % 16) (z.toNat % 16))) :
    area.exportLegacy2D = .ok
      (legacyPositions.map fun p ↦ (biome (p.1.toNat % 16) (p.2.toNat % 16)).toUInt8) := by
  refine mapM_eq_ok fun p _ ↦ ?_
  rw [h]
  rfl

/-! ## Sections that were read -/

/-- The sections that setting and reading biomes builds, with ids that survive the shift. -/
inductive Reachable : BedrockBiomeSection → Prop
  | new (y : ℤ) : Reachable { y }
  | proxyToPrevious (y : ℤ) : Reachable (proxyToPrevious y)
  | setBiomeId {area area' : BedrockBiomeSection} {x y z : UInt8} {biomeId : UInt32}
      (h : Reachable area) (hid : biomeId.toNat < 2 ^ 31)
      (hrun : area.setBiomeId x y z biomeId = .ok area') : Reachable area'
  | read {area area' : BedrockBiomeSection} {type : ChunkStorageType} {c c' : Cursor}
      (h : Reachable area) (hrun : area.read type c = .ok (area', c'))
      (hids : ∀ biomeId ∈ area'.palette, biomeId.toNat < 2 ^ 31) : Reachable area'

/-- What `exportTo` writes reads back, as a whole and no further, with the same biome at
every position. -/
def RoundTrips (area : BedrockBiomeSection) (type : ChunkStorageType) : Prop :=
  ∀ into : BedrockBiomeSection, ∃ area', Reads (into.read type) (area.exportTo type) area' ∧
    ∀ x y z, area'.getBiomeId x y z = area.getBiomeId x y z

theorem ensureBiome_palette {biomeId : UInt32} (hrun : area.ensureBiome biomeId = .ok area') :
    (∀ id ∈ area'.palette, id = biomeId ∨ id ∈ area.palette) ∧ area'.proxy = area.proxy := by
  have happend {id : UInt32} (hid : id ∈ area.palette ++ [biomeId]) :
      id = biomeId ∨ id ∈ area.palette := by
    rcases List.mem_append.mp hid with hold | hnew
    · exact .inr hold
    · exact .inl (List.mem_singleton.mp hnew)
  unfold ensureBiome at hrun
  split at hrun
  · obtain rfl := Except.ok.inj hrun
    exact ⟨fun _ hid ↦ .inr hid, rfl⟩
  · dsimp only at hrun
    split at hrun
    · obtain ⟨biomes, -, hrun⟩ := bind_eq_ok.mp hrun
      obtain rfl := Except.ok.inj hrun
      exact ⟨fun _ hid ↦ happend hid, rfl⟩
    · obtain rfl := Except.ok.inj hrun
      exact ⟨fun _ hid ↦ happend hid, rfl⟩

theorem setBiomeId_palette {x y z : UInt8} {biomeId : UInt32}
    (hrun : area.setBiomeId x y z biomeId = .ok area') :
    (∀ id ∈ area'.palette, id = biomeId ∨ id ∈ area.palette) ∧ area'.proxy = false := by
  obtain ⟨next, hensure, hrun⟩ := bind_eq_ok.mp hrun
  obtain rfl := Except.ok.inj hrun
  exact ensureBiome_palette hensure

/-- Reading yields a proxy without a palette or no proxy. -/
theorem yields_read (area : BedrockBiomeSection) (type : ChunkStorageType) :
    Yields (area.read type) fun area' ↦ area'.proxy = true → area'.palette = [] := by
  refine Yields.bind_any fun paletteType ↦ ?_
  split
  · exact Yields.pure fun _ ↦ rfl
  split
  · exact Yields.throw _
  refine (area.yields_readPalette type _).mono fun area' hfalse htrue ↦ ?_
  rw [hfalse] at htrue
  cases htrue

namespace Reachable

theorem id_lt (h : area.Reachable) : ∀ biomeId ∈ area.palette, biomeId.toNat < 2 ^ 31 := by
  induction h with
  | new y => exact List.forall_mem_singleton.mpr (by decide)
  | proxyToPrevious y => exact List.forall_mem_singleton.mpr (by decide)
  | setBiomeId _ hid hrun ih =>
      intro id hmem
      rcases (setBiomeId_palette hrun).1 id hmem with rfl | hold
      · exact hid
      · exact ih id hold
  | read _ _ hids => exact hids

/-- A proxy has no biome but 0. -/
theorem getBiomeId_of_proxy (h : area.Reachable) (hproxy : area.proxy = true) (x y z : UInt8) :
    area.getBiomeId x y z = .ok 0 := by
  have hempty (hnone : area.palette = []) : area.getBiomeId x y z = .ok 0 := by
    rw [BedrockBiomeSection.getBiomeId, if_pos hnone]
  cases h with
  | new y => cases hproxy
  | proxyToPrevious y' =>
      have hget : (BedrockBiomeSection.proxyToPrevious y').biomes.get x y z = 0 :=
        packedGet_replicate_zero 1 _ _
      rw [BedrockBiomeSection.getBiomeId, hget]
      rfl
  | setBiomeId _ _ hrun =>
      rw [(setBiomeId_palette hrun).2] at hproxy
      cases hproxy
  | read _ hrun _ => exact hempty (yields_read _ _ _ _ _ hrun hproxy)

theorem roundTrips_of_proxy (h : area.Reachable) (hproxy : area.proxy = true)
    (type : ChunkStorageType) : area.RoundTrips type := by
  intro into
  refine ⟨{ into with proxy := true, palette := [] }, ?_, fun x y z ↦ ?_⟩
  · rw [exportTo, hproxy]
    exact (BinaryStream.reads_readU8 _).bind_last (Reads.pure _)
  · rw [h.getBiomeId_of_proxy hproxy]
    rfl

end Reachable

theorem read_even (into : BedrockBiomeSection) (type : ChunkStorageType) {paletteType : UInt8}
    (hne : paletteType ≠ 0xff) (heven : paletteType.toNat &&& 1 = 0) (offset : ℕ)
    (rest : List UInt8) : into.read type ⟨offset, paletteType :: rest⟩ =
      .error "biome palette type must use runtime IDs" := by
  have hbyte : BinaryStream.readU8 ⟨offset, paletteType :: rest⟩ =
      .ok (paletteType, ⟨offset + 1, rest⟩) := rfl
  rw [read, Reader.bind_run hbyte, if_neg hne, if_pos heven]
  rfl

/-- The type byte of the persistent formats is the width and a low bit of 0. -/
theorem exportTo_persistent (hproxy : area.proxy = false) {type : ChunkStorageType}
    (htype : type ≠ .runtime) :
    ∃ bits rest, bits ≤ 32 ∧ area.exportTo type = UInt8.ofNat ((bits <<< 1) ||| 0) :: rest := by
  have hbits := neededBits_le (lastIndex area.palette.length)
  rw [exportTo, hproxy, if_neg Bool.false_ne_true]
  simp only [if_neg htype]
  exact ⟨_, _, hbits, rfl⟩

/-- The reader refuses that low bit. -/
theorem not_roundTrips_persistent (hproxy : area.proxy = false) {type : ChunkStorageType}
    (htype : type ≠ .runtime) : ¬ area.RoundTrips type := by
  intro h
  obtain ⟨bits, rest, hbits, hexport⟩ := exportTo_persistent hproxy htype
  have hbyte : (UInt8.ofNat ((bits <<< 1) ||| 0)).toNat = 2 * bits := by
    rw [Nat.or_zero, Nat.shiftLeft_eq, toNat_ofNat_of_lt (by omega)]
    omega
  have hne : UInt8.ofNat ((bits <<< 1) ||| 0) ≠ 0xff := by
    intro heq
    rw [heq] at hbyte
    have hff : (0xff : UInt8).toNat = 255 := rfl
    omega
  have heven : (UInt8.ofNat ((bits <<< 1) ||| 0)).toNat &&& 1 = 0 := by
    rw [hbyte, Nat.and_one_is_mod]
    omega
  obtain ⟨area', hreads, -⟩ := h {}
  have hrun := hreads 0 []
  rw [hexport, List.cons_append, read_even _ _ hne heven] at hrun
  cases hrun

/-- The persistent formats lose every section but proxies.  The runtime format keeps
proxies and the sections whose words are as wide as their type byte says. -/
theorem Reachable.roundTrips_by_type (h : area.Reachable) :
    (∀ type, type ≠ .runtime → (area.RoundTrips type ↔ area.proxy = true)) ∧
      (area.proxy = true ∨ area.HeaderFits → area.RoundTrips .runtime) := by
  refine ⟨fun type htype ↦ ⟨fun hround ↦ ?_, fun hproxy ↦ h.roundTrips_of_proxy hproxy type⟩, ?_⟩
  · by_contra hproxy
    exact not_roundTrips_persistent (by simpa using hproxy) htype hround
  · intro hfits
    by_cases hproxy : area.proxy = true
    · exact h.roundTrips_of_proxy hproxy .runtime
    · intro into
      have hheader := hfits.resolve_left hproxy
      obtain ⟨area', hreads, -, hget⟩ := @HeaderFits.reads_read _ into hheader
        (by simpa using hproxy) h.id_lt
      exact ⟨area', hreads, hget⟩

/-- A section of three biomes comes back in the runtime format and in no persistent one. -/
theorem roundTrips_threeBiomes : ∃ area three,
    setBiomeId { y := 2 } 1 2 3 7 = .ok area ∧ area.setBiomeId 4 5 6 9 = .ok three ∧
      three.palette = [0, 7, 9] ∧ three.RoundTrips .runtime ∧
      ¬ three.RoundTrips .localPersistence := by
  obtain ⟨area, harea⟩ : ∃ area, setBiomeId { y := 2 } 1 2 3 7 = .ok area := ⟨_, rfl⟩
  obtain ⟨three, hthree⟩ : ∃ three, area.setBiomeId 4 5 6 9 = .ok three := by
    cases harea
    exact ⟨_, rfl⟩
  have hreachable : Reachable three :=
    .setBiomeId (.setBiomeId (.new 2) (by decide) harea) (by decide) hthree
  obtain ⟨hpalette, hproxy, hwidth⟩ : three.palette = [0, 7, 9] ∧ three.proxy = false ∧
      three.biomes.bitsPerBlock = 2 := by
    cases harea
    cases hthree
    decide +kernel
  have hfits : three.HeaderFits := by
    refine .inr ?_
    rw [hpalette, hwidth]
    decide
  obtain ⟨hpersistent, hruntime⟩ := hreachable.roundTrips_by_type
  refine ⟨area, three, harea, hthree, hpalette, hruntime (.inr hfits), ?_⟩
  rw [hpersistent .localPersistence (by decide), hproxy]
  exact Bool.false_ne_true

/-- Five zero bytes, the first of which is refused. -/
theorem fresh_not_persistent :
    Reachable { y := 0 } ∧ exportTo { y := 0 } .localPersistence = [0, 0, 0, 0, 0] ∧
      ¬ RoundTrips { y := 0 } .localPersistence := by
  refine ⟨.new 0, by decide, fun h ↦ ?_⟩
  obtain ⟨area', hreads, -⟩ := h {}
  have hrun := hreads 0 []
  cases hrun

end BedrockBiomeSection

end BedrockProtocol
