import BedrockProtocol.World.BedrockChunkColumn

/-!
# The blocks of a column

Which section a block height belongs to, and what setting one block does to all
the others.  The index of a section is its height plus the absolute value of the
lowest height, which is the intended index for a column that starts at or below
zero and no other.
-/

namespace BedrockProtocol

open PalettedStorage

namespace Layer

variable {layer : Layer} {airStateId stateId : Int32} {x y z : UInt8}

/-- The palette has the state, or its search ends. -/
def Settable (layer : Layer) (stateId : Int32) : Prop :=
  stateId ∈ layer.palette.map BedrockBlockState.stateId ∨ layer.palette.length < 2 ^ 32

theorem Counted.exists_setBlockStateId_iff (h : layer.Counted) :
    (∃ layer', layer.setBlockStateId airStateId x y z stateId = .ok layer') ↔
      layer.Settable stateId := by
  have hlt := h.get_lt x y z
  rw [Layer.setBlockStateId, List.getElem?_eq_getElem hlt]
  dsimp only
  by_cases hsame : layer.palette[layer.blocks.get x y z].stateId = stateId
  · rw [if_pos hsame]
    exact iff_of_true ⟨_, rfl⟩ (.inl (hsame ▸ List.mem_map_of_mem (List.getElem_mem hlt)))
  rw [if_neg hsame]
  have hids := modify_stateId countDown_stateId layer.palette (layer.blocks.get x y z)
  cases hfound : (layer.palette.modify (layer.blocks.get x y z) countDown).findIdx?
      fun entry ↦ entry.stateId = stateId with
  | some i =>
      obtain ⟨hi, hid, -⟩ := List.findIdx?_eq_some_iff_getElem.mp hfound
      refine iff_of_true ⟨_, rfl⟩ (.inl ?_)
      rw [← hids]
      exact List.mem_map.mpr ⟨_, List.getElem_mem hi, by simpa using hid⟩
  | none =>
      have hnew : stateId ∉ layer.palette.map BedrockBlockState.stateId := by
        rw [← hids, List.mem_map]
        rintro ⟨entry, hentry, hid⟩
        have := List.findIdx?_eq_none_iff.mp hfound entry hentry
        simp [hid] at this
      dsimp only
      rw [List.length_modify]
      by_cases hsize : 2 ^ 32 ≤ layer.palette.length
      · rw [if_pos hsize]
        refine iff_of_false ?_ ?_
        · rintro ⟨layer', hlayer'⟩
          cases hlayer'
        · rintro (hmem | hlt)
          · exact hnew hmem
          · omega
      · obtain ⟨blocks, hadd, -, -⟩ := @addToPalette_eq_ok
          ⟨layer.palette.modify (layer.blocks.get x y z) countDown, layer.blocks⟩ airStateId stateId
          1 (fun v hv ↦ by simpa using (h.index_lt hv).le) (by simpa using hsize)
        rw [if_neg hsize, hadd]
        exact iff_of_true ⟨_, rfl⟩ (.inr (by omega))

theorem getBlockStateId_ofAir (airStateId : Int32) (x y z : UInt8) :
    (ofAir airStateId).getBlockStateId x y z = .ok airStateId := by
  have hzero : (ofAir airStateId).blocks.get x y z = 0 := packedGet_replicate_zero 4 _ _
  rw [getBlockStateId, hzero]
  rfl

end Layer

namespace BedrockSubChunk

variable {sub sub' : BedrockSubChunk} {layer x y z : UInt8} {stateId : Int32}

/-- The layer as a reader sees it: one that does not exist is all air. -/
def layerAt (sub : BedrockSubChunk) (layer : UInt8) : Layer :=
  sub.layers.getD layer.toNat (.ofAir sub.airStateId)

theorem getBlockStateId_eq_layerAt (sub : BedrockSubChunk) (layer x y z : UInt8) :
    sub.getBlockStateId layer x y z = (sub.layerAt layer).getBlockStateId x y z := by
  rw [getBlockStateId, layerAt, List.getD_eq_getElem?_getD]
  cases sub.layers[layer.toNat]? with
  | none => exact (Layer.getBlockStateId_ofAir _ x y z).symm
  | some found => rfl

theorem Counted.layerAt (h : sub.Counted) (layer : UInt8) : (sub.layerAt layer).Counted := by
  rw [BedrockSubChunk.layerAt, List.getD_eq_getElem?_getD]
  cases hfound : sub.layers[layer.toNat]? with
  | none => exact .ofAir sub.airStateId
  | some found => exact h.of_getElem? hfound

theorem ensureLayer_getElem? (sub : BedrockSubChunk) (layer : UInt8) :
    (sub.ensureLayer layer).layers[layer.toNat]? = some (sub.layerAt layer) := by
  rw [ensureLayer, layerAt, List.getD_eq_getElem?_getD]
  by_cases hlt : layer.toNat < sub.layers.length
  · rw [List.getElem?_append_left hlt, List.getElem?_eq_getElem hlt, Option.getD_some]
  · rw [List.getElem?_append_right (by omega), List.getElem?_replicate, if_pos (by omega),
      List.getElem?_eq_none (by omega), Option.getD_none]

/-- What setting a block does, as a reader sees it. -/
theorem setBlockStateId_eq (sub : BedrockSubChunk) (layer x y z : UInt8) (stateId : Int32) :
    sub.setBlockStateId layer x y z stateId =
      (fun found ↦ { sub with layers := (sub.ensureLayer layer).layers.set layer.toNat found }) <$>
        (sub.layerAt layer).setBlockStateId sub.airStateId x y z stateId := by
  rw [setBlockStateId]
  simp only [ensureLayer_getElem?]
  rfl

theorem layerAt_set (sub : BedrockSubChunk) (layer layer' : UInt8) (found : Layer) :
    layerAt { sub with layers := (sub.ensureLayer layer).layers.set layer.toNat found } layer' =
      if layer' = layer then found else sub.layerAt layer' := by
  have hlength : layer.toNat < (sub.ensureLayer layer).layers.length :=
    (List.getElem?_eq_some_iff.mp (sub.ensureLayer_getElem? layer)).1
  rw [layerAt, List.getD_eq_getElem?_getD, List.getElem?_set, layerAt, List.getD_eq_getElem?_getD]
  by_cases hsame : layer' = layer
  · rw [if_pos hsame, hsame, if_pos rfl, if_pos hlength, Option.getD_some]
  · have hne : layer.toNat ≠ layer'.toNat := fun heq ↦ hsame (UInt8.toNat_inj.mp heq).symm
    rw [if_neg hsame, if_neg hne, ensureLayer]
    by_cases hlt : layer'.toNat < sub.layers.length
    · rw [List.getElem?_append_left hlt]
    · rw [List.getElem?_append_right (by omega), List.getElem?_replicate,
        List.getElem?_eq_none (l := sub.layers) (by omega)]
      split <;> rfl

/-- The block that was set has the new state, every block of every layer its own. -/
theorem Counted.getBlockStateId_setBlockStateId (h : sub.Counted)
    (hrun : sub.setBlockStateId layer x y z stateId = .ok sub') (layer' x' y' z' : UInt8) :
    sub'.getBlockStateId layer' x' y' z' =
      if layer' = layer ∧ blockIndex x' y' z' = blockIndex x y z then .ok stateId
      else sub.getBlockStateId layer' x' y' z' := by
  rw [setBlockStateId_eq] at hrun
  obtain ⟨found, hfound, rfl⟩ := map_eq_ok.mp hrun
  have hlayer := (h.layerAt layer).getBlockStateId_setBlockStateId hfound x' y' z'
  rw [getBlockStateId_eq_layerAt, layerAt_set, getBlockStateId_eq_layerAt]
  by_cases hsame : layer' = layer
  · subst hsame
    simpa using hlayer
  · simp [hsame]

theorem Counted.exists_setBlockStateId_iff (h : sub.Counted) :
    (∃ sub', sub.setBlockStateId layer x y z stateId = .ok sub') ↔
      (sub.layerAt layer).Settable stateId := by
  have hlayer := @Layer.Counted.exists_setBlockStateId_iff _ sub.airStateId stateId x y z
    (h.layerAt layer)
  rw [← hlayer, setBlockStateId_eq]
  constructor
  · rintro ⟨sub', hsub'⟩
    obtain ⟨found, hfound, -⟩ := map_eq_ok.mp hsub'
    exact ⟨found, hfound⟩
  · rintro ⟨found, hfound⟩
    exact ⟨_, map_eq_ok.mpr ⟨found, hfound, rfl⟩⟩

end BedrockSubChunk

namespace BedrockChunkColumn

variable {column column' : BedrockChunkColumn}

/-! ## Reachable columns -/

/-- The columns that the public operations build. -/
inductive Reachable : BedrockChunkColumn → Prop
  | new (x z : ℤ) : Reachable (new x z)
  | setBounds {column column' : BedrockChunkColumn} {minCY maxCY : ℤ} (h : Reachable column)
      (hrun : column.setBounds minCY maxCY = .ok column') : Reachable column'
  | setSection {column column' : BedrockChunkColumn} {sectionY : ℤ} {sub : BedrockSubChunk}
      (h : Reachable column) (hsub : sub.Reachable)
      (hrun : column.setSection sectionY sub = .ok column') : Reachable column'
  /-- A section changed through the pointer that `getSection` returns. -/
  | changeSection {column : BedrockChunkColumn} {i : ℕ} {sub sub' : BedrockSubChunk}
      (h : Reachable column) (hsub : column.sections[i]? = some (some sub))
      (hsub' : sub'.Reachable) :
      Reachable { column with sections := column.sections.set i (some sub') }
  | setBlockStateId {column column' : BedrockChunkColumn} {pos : BlockPosition} {stateId : Int32}
      (h : Reachable column) (hrun : column.setBlockStateId pos stateId = .ok column') :
      Reachable column'
  | readSections {column column' : BedrockChunkColumn} {count : ℤ} {c c' : Cursor}
      (h : Reachable column) (hrun : column.readSections count c = .ok (column', c')) :
      Reachable column'
  | setBiomeId {column column' : BedrockChunkColumn} {pos : BlockPosition} {biomeId : UInt32}
      (h : Reachable column) (hrun : column.setBiomeId pos biomeId = .ok column') :
      Reachable column'
  | loadLegacyBiomes {column column' : BedrockChunkColumn} {data : List UInt8}
      (h : Reachable column) (hrun : column.loadLegacyBiomes data = .ok column') :
      Reachable column'
  | loadBiomes {column column' : BedrockChunkColumn} {type : ChunkStorageType} {c c' : Cursor}
      (h : Reachable column) (hrun : column.loadBiomes type c = .ok (column', c')) :
      Reachable column'
  /-- The operations on block entities leave the rest alone. -/
  | entities {column : BedrockChunkColumn} (h : Reachable column)
      (blockEntities : AList fun _ : Text ↦ List UInt8)
      (blockEntityNbt : AList fun _ : Text ↦ NbtDocument) :
      Reachable { column with blockEntities, blockEntityNbt }

/-- The bounds are proper, every height between them has a place for a section and
every section is a reachable sub-chunk. -/
structure Sound (column : BedrockChunkColumn) : Prop where
  bounds : column.minCY < column.maxCY
  length_sections : column.sections.length = (column.maxCY - column.minCY).toNat
  sections : ∀ sub, some sub ∈ column.sections → sub.Reachable

namespace Sound

theorem withBounds (column : BedrockChunkColumn) {minCY maxCY : ℤ} (h : minCY < maxCY) :
    (column.withBounds minCY maxCY).Sound where
  bounds := h
  length_sections := by simp [BedrockChunkColumn.withBounds]
  sections := by
    intro sub hsub
    cases List.eq_of_mem_replicate hsub

/-- A section replaced by a reachable one. -/
theorem set (h : column.Sound) (i : ℕ) {sub : BedrockSubChunk} (hsub : sub.Reachable) :
    Sound { column with sections := column.sections.set i (some sub) } where
  bounds := h.bounds
  length_sections := by
    rw [List.length_set]
    exact h.length_sections
  sections := by
    intro other hother
    rcases List.mem_or_eq_of_mem_set hother with hold | hnew
    · exact h.sections other hold
    · rwa [Option.some.inj hnew]

theorem setSection (h : column.Sound) {sectionY : ℤ} {sub : BedrockSubChunk}
    (hsub : sub.Reachable) (hrun : column.setSection sectionY sub = .ok column') :
    column'.Sound := by
  unfold BedrockChunkColumn.setSection at hrun
  split at hrun
  · cases hrun
  · obtain rfl := Except.ok.inj hrun
    exact h.set _ (hsub.setY _)

theorem ensureSection (h : column.Sound) {blockY : ℤ} {index : ℕ} {sub : BedrockSubChunk}
    (hrun : column.ensureSection blockY = .ok (index, sub)) : sub.Reachable := by
  unfold BedrockChunkColumn.ensureSection at hrun
  dsimp only at hrun
  split at hrun
  · cases hrun
  rename_i found hslot
  obtain ⟨-, rfl⟩ := Prod.mk.inj (Except.ok.inj hrun)
  cases found with
  | none => exact .new _ 9
  | some found => exact h.sections found (List.mem_of_getElem? (slot_eq_some hslot).2)

theorem setBlockStateId (h : column.Sound) {pos : BlockPosition} {stateId : Int32}
    (hrun : column.setBlockStateId pos stateId = .ok column') : column'.Sound := by
  obtain ⟨⟨index, sub⟩, hensure, hset⟩ := bind_eq_ok.mp hrun
  obtain ⟨next, hnext, hcolumn⟩ := bind_eq_ok.mp hset
  obtain rfl := Except.ok.inj hcolumn
  exact h.set index (.setBlockStateId (h.ensureSection hensure) hnext)

theorem decodeSections {count i : ℕ} {c c' : Cursor} (h : column.Sound)
    (hrun : decodeSections count i column c = .ok (column', c')) : column'.Sound := by
  induction count generalizing i column c with
  | zero =>
      cases hrun
      exact h
  | succ count ih =>
      obtain ⟨found, c₁, hfound, hrun⟩ := Reader.run_bind_eq_ok hrun
      obtain ⟨next, c₂, hnext, hrun⟩ := Reader.run_bind_eq_ok hrun
      obtain ⟨next', hset, hsame⟩ := bind_eq_ok.mp hnext
      cases hsame
      exact ih (h.setSection (.decodeFrom (.new _ 9) hfound) hset) hrun

theorem readSections {count : ℤ} {c c' : Cursor} (h : column.Sound)
    (hrun : column.readSections count c = .ok (column', c')) : column'.Sound := by
  unfold BedrockChunkColumn.readSections at hrun
  split at hrun
  · cases hrun
    exact h
  · have hempty : Sound { column with
        sections := List.replicate (column.maxCY - column.minCY).toNat none } := by
      refine ⟨h.bounds, by simp, ?_⟩
      intro sub hsub
      cases List.eq_of_mem_replicate hsub
    exact hempty.decodeSections hrun

/-- Nothing but the biomes and the block entities was changed. -/
theorem of_sections (h : column.Sound) (hmin : column'.minCY = column.minCY)
    (hmax : column'.maxCY = column.maxCY) (hsections : column'.sections = column.sections) :
    column'.Sound where
  bounds := by
    rw [hmin, hmax]
    exact h.bounds
  length_sections := by
    rw [hmin, hmax, hsections]
    exact h.length_sections
  sections := by
    rw [hsections]
    exact h.sections

end Sound

theorem Reachable.sound (h : Reachable column) : column.Sound := by
  induction h with
  | new x z => exact .withBounds _ (by decide)
  | setBounds _ hrun _ =>
      unfold BedrockChunkColumn.setBounds at hrun
      split at hrun
      · cases hrun
      · obtain rfl := Except.ok.inj hrun
        exact .withBounds _ (by omega)
  | setSection _ hsub hrun ih => exact ih.setSection hsub hrun
  | changeSection _ _ hsub' ih => exact ih.set _ hsub'
  | setBlockStateId _ hrun ih => exact ih.setBlockStateId hrun
  | readSections _ hrun ih => exact ih.readSections hrun
  | setBiomeId _ hrun ih =>
      unfold BedrockChunkColumn.setBiomeId at hrun
      dsimp only at hrun
      split at hrun
      · cases hrun
      · obtain ⟨area, -, hcolumn⟩ := bind_eq_ok.mp hrun
        obtain rfl := Except.ok.inj hcolumn
        exact ih.of_sections rfl rfl rfl
  | loadLegacyBiomes _ hrun ih =>
      obtain ⟨⟨first, c⟩, -, hcolumn⟩ := bind_eq_ok.mp hrun
      obtain rfl := Except.ok.inj hcolumn
      exact ih.of_sections rfl rfl rfl
  | loadBiomes _ hrun ih =>
      obtain ⟨areas, c, -, hcolumn⟩ := Reader.run_bind_eq_ok hrun
      cases hcolumn
      exact ih.of_sections rfl rfl rfl
  | entities _ blockEntities blockEntityNbt ih => exact ih.of_sections rfl rfl rfl

/-- What the loop over the block entities leaves alone. -/
theorem yields_decodeBlockEntityLoop (encoding : BedrockNbtEncoding) (turns : ℕ)
    (column : BedrockChunkColumn) :
    Yields (decodeBlockEntityLoop encoding turns column) fun column' ↦
      ∃ blockEntities blockEntityNbt,
        column' = { column with blockEntities, blockEntityNbt } := by
  induction turns generalizing column with
  | zero => exact Yields.pure ⟨column.blockEntities, column.blockEntityNbt, rfl⟩
  | succ turns ih =>
      refine Yields.bind_any fun next ↦ ?_
      split
      · have hstep : Yields (column.decodeBlockEntity encoding) fun column' ↦
            ∃ blockEntities blockEntityNbt,
              column' = { column with blockEntities, blockEntityNbt } := by
          refine Yields.bind_any fun _ ↦ Yields.bind_any fun _ ↦ ?_
          cases encoding with
          | littleVarInt => exact Yields.bind_any fun _ ↦ Yields.pure ⟨_, _, rfl⟩
          | littleEndian => exact Yields.bind_any fun _ ↦ Yields.pure ⟨_, _, rfl⟩
        refine hstep.bind ?_
        rintro _ ⟨_, _, rfl⟩
        refine (ih _).mono ?_
        rintro _ ⟨_, _, rfl⟩
        exact ⟨_, _, rfl⟩
      · exact Yields.pure ⟨column.blockEntities, column.blockEntityNbt, rfl⟩

theorem Reachable.readTail (h : column.Reachable) {message : String} {c c' : Cursor}
    (hrun : column.readTail message c = .ok (column', c')) : column'.Reachable := by
  have hentities : Yields (column.decodeBlockEntities .littleVarInt) Reachable := by
    refine Yields.bind_any fun turns ↦ (yields_decodeBlockEntityLoop _ turns column).mono ?_
    rintro _ ⟨blockEntities, blockEntityNbt, rfl⟩
    exact .entities h blockEntities blockEntityNbt
  suffices htail : Yields (column.readTail message) Reachable from htail c column' c' hrun
  refine Yields.bind_any fun left ↦ ?_
  split
  · exact hentities
  · exact Yields.bind_any fun _ ↦ hentities

/-- A decoded column is reachable. -/
theorem Reachable.networkDecodeNoCache (h : column.Reachable) {payload : List UInt8} {count : ℤ}
    {use3DBiomes : Bool}
    (hrun : column.networkDecodeNoCache payload count use3DBiomes = .ok column') :
    column'.Reachable := by
  obtain ⟨⟨decoded, c⟩, hread, rfl⟩ := map_eq_ok.mp hrun
  obtain ⟨column₁, c₁, hsections, hrest⟩ := Reader.run_bind_eq_ok hread
  obtain ⟨column₂, c₂, hbiomes, htail⟩ := Reader.run_bind_eq_ok hrest
  have hreached : column₂.Reachable := by
    cases use3DBiomes with
    | true => exact .loadBiomes (h.readSections hsections) hbiomes
    | false =>
        have hlegacy : Yields column₁.readLegacyBiomes Reachable := by
          refine Yields.bind_any fun left ↦ ?_
          split
          · exact .throw _
          · exact Yields.bind_any fun data ↦ Yields.lift fun _ hload ↦
              .loadLegacyBiomes (h.readSections hsections) hload
        exact hlegacy _ _ _ hbiomes
  exact hreached.readTail htail

/-! ## Heights and sections -/

/-- The place of the section of a block height. -/
def hasPlace (column : BedrockChunkColumn) (blockY : ℤ) : Bool :=
  (slot column.sections (column.co + blockY >>> (4 : ℕ))).isSome

theorem hasPlace_iff (column : BedrockChunkColumn) (blockY : ℤ) :
    column.hasPlace blockY ↔ 0 ≤ column.co + blockY / 16 ∧
      column.co + blockY / 16 < column.sections.length := by
  rw [hasPlace, slot_isSome_iff, shiftRight_four]

theorem exists_ensureSection_iff (column : BedrockChunkColumn) (blockY : ℤ) :
    (∃ place, column.ensureSection blockY = .ok place) ↔ column.hasPlace blockY := by
  rw [ensureSection, hasPlace]
  cases slot column.sections (column.co + blockY >>> (4 : ℕ)) <;> simp

theorem ensureSection_eq_ok {blockY : ℤ} (h : column.hasPlace blockY) :
    column.ensureSection blockY = .ok ((column.co + blockY / 16).toNat,
      (column.getSection blockY).getD
        { y := Int8.ofInt (blockY / 16), subChunkVersion := 9 }) := by
  obtain ⟨found, hfound⟩ := Option.isSome_iff_exists.mp h
  rw [ensureSection, getSection, hfound, shiftRight_four]
  rfl

/-- What a lookup finds after the section of a height was replaced. -/
theorem getSection_set {blockY : ℤ} (h : column.hasPlace blockY) (sub : BedrockSubChunk)
    (blockY' : ℤ) :
    getSection { column with
        sections := column.sections.set (column.co + blockY / 16).toNat (some sub) } blockY' =
      if blockY' / 16 = blockY / 16 then some sub else column.getSection blockY' := by
  obtain ⟨hpos, hlt⟩ := (column.hasPlace_iff blockY).mp h
  have hco : co { column with
      sections := column.sections.set (column.co + blockY / 16).toNat (some sub) } = column.co := rfl
  rw [getSection, getSection, hco, shiftRight_four, slot, slot]
  by_cases hneg : column.co + blockY' / 16 < 0
  · rw [if_pos hneg, if_neg (by omega), if_pos hneg]
  rw [if_neg hneg, if_neg hneg, List.getElem?_set]
  by_cases hsame : blockY' / 16 = blockY / 16
  · rw [if_pos hsame, if_pos (by rw [hsame]), if_pos (by omega)]
    rfl
  · rw [if_neg hsame, if_neg (by omega)]

/-- A lookup succeeds for the heights between the bounds and no others, heights of
different sections have different places, and a section stored for a height is found
at the heights of that section only. -/
structure HeightsFound (column : BedrockChunkColumn) : Prop where
  found_iff : ∀ y, (∃ place, column.ensureSection y = .ok place) ↔
    16 * column.minCY ≤ y ∧ y < 16 * column.maxCY
  separate : ∀ y y' i i' sub sub', column.ensureSection y = .ok (i, sub) →
    column.ensureSection y' = .ok (i', sub') → y / 16 ≠ y' / 16 → i ≠ i'
  stored : ∀ y y' sub column', column.setSection (y / 16) sub = .ok column' →
    column'.getSection y' =
      if y' / 16 = y / 16 then some (sub.setY (Int8.ofInt (y / 16))) else column.getSection y'

theorem co_of_nonpos (h : column.minCY ≤ 0) : column.co = -column.minCY := by
  rw [co]
  omega

theorem separate_places {y y' : ℤ} {i i' : ℕ} {sub sub' : BedrockSubChunk}
    (h : column.ensureSection y = .ok (i, sub)) (h' : column.ensureSection y' = .ok (i', sub'))
    (hne : y / 16 ≠ y' / 16) : i ≠ i' := by
  have hplace := (column.exists_ensureSection_iff y).mp ⟨_, h⟩
  have hplace' := (column.exists_ensureSection_iff y').mp ⟨_, h'⟩
  rw [ensureSection_eq_ok hplace] at h
  rw [ensureSection_eq_ok hplace'] at h'
  obtain ⟨rfl, -⟩ := Prod.mk.inj (Except.ok.inj h)
  obtain ⟨rfl, -⟩ := Prod.mk.inj (Except.ok.inj h')
  have hindex := ((column.hasPlace_iff y).mp hplace).1
  have hindex' := ((column.hasPlace_iff y').mp hplace').1
  omega

theorem getSection_setSection {y : ℤ} {sub : BedrockSubChunk}
    (h : column.setSection (y / 16) sub = .ok column') (y' : ℤ) :
    column'.getSection y' =
      if y' / 16 = y / 16 then some (sub.setY (Int8.ofInt (y / 16))) else column.getSection y' := by
  unfold setSection at h
  split at h
  · cases h
  rename_i found hslot
  obtain rfl := Except.ok.inj h
  refine getSection_set ?_ _ y'
  rw [hasPlace, shiftRight_four, hslot]
  rfl

/-- Between proper bounds the lookups are right exactly when the column does not
start above zero. -/
theorem heightsFound_iff {minCY maxCY : ℤ} (hrun : column.setBounds minCY maxCY = .ok column') :
    column'.HeightsFound ↔ minCY ≤ 0 := by
  unfold setBounds at hrun
  split at hrun
  · cases hrun
  rename_i hbounds
  obtain rfl := Except.ok.inj hrun
  have hlength : (column.withBounds minCY maxCY).sections.length = (maxCY - minCY).toNat := by
    simp [withBounds]
  constructor
  · intro h
    by_contra hpositive
    -- The highest section of the column is looked up past the end.
    have hlast := (h.found_iff (16 * (maxCY - 1))).mpr ⟨by simp [withBounds]; omega,
      by simp [withBounds]⟩
    rw [exists_ensureSection_iff, hasPlace_iff, hlength] at hlast
    have hco : (column.withBounds minCY maxCY).co = minCY := by
      simp only [co, withBounds]
      omega
    omega
  · intro hle
    have hco : (column.withBounds minCY maxCY).co = -minCY := co_of_nonpos hle
    refine ⟨fun y ↦ ?_, fun _ _ _ _ _ _ ↦ separate_places, fun _ y' _ _ h ↦
      getSection_setSection h y'⟩
    rw [exists_ensureSection_iff, hasPlace_iff, hlength, hco]
    simp only [withBounds]
    omega

theorem heightsFound_overworld : ((new 0 0).withBounds (-4) 20).HeightsFound :=
  (heightsFound_iff (show (new 0 0).setBounds (-4) 20 = .ok _ from rfl)).mpr (by decide)

/-- Height 32 lies in the lowest of the sections 2 to 4 and is not found. -/
theorem heights_not_found : (new 0 0).setBounds 2 5 = .ok ((new 0 0).withBounds 2 5) ∧
    ¬ ((new 0 0).withBounds 2 5).HeightsFound := by
  refine ⟨rfl, fun h ↦ ?_⟩
  obtain ⟨place, hplace⟩ := (h.found_iff 32).mpr ⟨by decide, by decide⟩
  cases hplace

/-! ## Setting one block -/

/-- The same block of the same layer; a column only looks at four bits of `x` and `z`. -/
def SameBlock (p q : BlockPosition) : Prop :=
  p.x % 16 = q.x % 16 ∧ p.y = q.y ∧ p.z % 16 = q.z % 16 ∧ p.layer.getD 0 = q.layer.getD 0

instance (p q : BlockPosition) : Decidable (SameBlock p q) :=
  inferInstanceAs (Decidable (_ ∧ _))

/-- The block that is written reads back and no other block changes. -/
def WritesBlock (column : BedrockChunkColumn) (pos : BlockPosition) (stateId : Int32) : Prop :=
  ∃ column', column.setBlockStateId pos stateId = .ok column' ∧
    column'.getBlockStateId pos = .ok stateId ∧
    ∀ other, ¬ SameBlock other pos →
      column'.getBlockStateId other = column.getBlockStateId other

theorem blockIndex_localCoord_iff {p q : BlockPosition} :
    blockIndex (localCoord p.x) (localCoord p.y) (localCoord p.z) =
        blockIndex (localCoord q.x) (localCoord q.y) (localCoord q.z) ↔
      p.x % 16 = q.x % 16 ∧ p.y % 16 = q.y % 16 ∧ p.z % 16 = q.z % 16 := by
  simp only [blockIndex_eq_iff, toNat_localCoord]
  omega

/-- The section of a height as a reader sees it: one that is missing is empty. -/
def sectionAt (column : BedrockChunkColumn) (blockY : ℤ) : BedrockSubChunk :=
  (column.getSection blockY).getD { y := Int8.ofInt (blockY / 16), subChunkVersion := 9 }

theorem getBlockStateId_eq_sectionAt (column : BedrockChunkColumn) (pos : BlockPosition) :
    column.getBlockStateId pos =
      (column.sectionAt pos.y).getBlockStateId (pos.layer.getD 0) (localCoord pos.x)
        (localCoord pos.y) (localCoord pos.z) := by
  rw [getBlockStateId, sectionAt]
  cases column.getSection pos.y <;> rfl

theorem Sound.sectionAt (h : column.Sound) (blockY : ℤ) : (column.sectionAt blockY).Counted := by
  rw [BedrockChunkColumn.sectionAt, getSection]
  cases hslot : slot column.sections (column.co + blockY >>> (4 : ℕ)) with
  | none => exact (BedrockSubChunk.Reachable.new _ 9).counted
  | some found =>
      cases found with
      | none => exact (BedrockSubChunk.Reachable.new _ 9).counted
      | some sub => exact (h.sections sub (List.mem_of_getElem? (slot_eq_some hslot).2)).counted

theorem setBlockStateId_eq {pos : BlockPosition} (h : column.hasPlace pos.y) (stateId : Int32) :
    column.setBlockStateId pos stateId =
      (fun sub ↦ { column with
        sections := column.sections.set (column.co + pos.y / 16).toNat (some sub) }) <$>
        (column.sectionAt pos.y).setBlockStateId (pos.layer.getD 0) (localCoord pos.x)
          (localCoord pos.y) (localCoord pos.z) stateId := by
  rw [setBlockStateId, ensureSection_eq_ok h]
  rfl

/-- A write that succeeds changes the block it is for and no other. -/
theorem Sound.getBlockStateId_setBlockStateId (h : column.Sound) {pos : BlockPosition}
    {stateId : Int32} (hrun : column.setBlockStateId pos stateId = .ok column')
    (other : BlockPosition) :
    column'.getBlockStateId other =
      if SameBlock other pos then .ok stateId else column.getBlockStateId other := by
  have hplace : column.hasPlace pos.y := by
    obtain ⟨place, hplace, -⟩ := bind_eq_ok.mp hrun
    exact (column.exists_ensureSection_iff pos.y).mp ⟨place, hplace⟩
  rw [setBlockStateId_eq hplace] at hrun
  obtain ⟨sub, hsub, rfl⟩ := map_eq_ok.mp hrun
  have hwrite := (h.sectionAt pos.y).getBlockStateId_setBlockStateId hsub (other.layer.getD 0)
    (localCoord other.x) (localCoord other.y) (localCoord other.z)
  rw [getBlockStateId_eq_sectionAt, getBlockStateId_eq_sectionAt, BedrockChunkColumn.sectionAt,
    getSection_set hplace]
  by_cases hsection : other.y / 16 = pos.y / 16
  · have hsame : SameBlock other pos ↔ (other.layer.getD 0 = pos.layer.getD 0 ∧
        blockIndex (localCoord other.x) (localCoord other.y) (localCoord other.z) =
          blockIndex (localCoord pos.x) (localCoord pos.y) (localCoord pos.z)) := by
      rw [blockIndex_localCoord_iff, SameBlock]
      constructor
      · rintro ⟨hx, hy, hz, hlayer⟩
        exact ⟨hlayer, hx, by rw [hy], hz⟩
      · rintro ⟨hlayer, hx, hy, hz⟩
        exact ⟨hx, by omega, hz, hlayer⟩
    have hsectionAt : column.sectionAt other.y = column.sectionAt pos.y := by
      rw [BedrockChunkColumn.sectionAt, BedrockChunkColumn.sectionAt, getSection, getSection,
        shiftRight_four, shiftRight_four, hsection]
    rw [if_pos hsection, Option.getD_some, hwrite, hsectionAt]
    exact if_congr hsame.symm rfl rfl
  · have hother : ¬ SameBlock other pos := fun hsame ↦ hsection (by rw [hsame.2.1])
    rw [if_neg hsection, if_neg hother]
    rfl

/-- A column above zero does not give every height between its bounds a place. -/
theorem Sound.hasPlace_iff_bounds (h : column.Sound) {blockY : ℤ}
    (hlow : 16 * column.minCY ≤ blockY) (hhigh : blockY < 16 * column.maxCY) :
    (column.hasPlace blockY : Prop) ↔
      (column.minCY ≤ 0 ∨ blockY / 16 + 2 * column.minCY < column.maxCY) := by
  have hlength := h.length_sections
  have hbounds := h.bounds
  rw [hasPlace_iff, co, hlength]
  omega

/-- A write succeeds when its height has a place and the palette takes the state. -/
theorem Sound.exists_setBlockStateId_iff (h : column.Sound) {pos : BlockPosition}
    {stateId : Int32} :
    (∃ column', column.setBlockStateId pos stateId = .ok column') ↔
      column.hasPlace pos.y ∧
        ((column.sectionAt pos.y).layerAt (pos.layer.getD 0)).Settable stateId := by
  rw [← (h.sectionAt pos.y).exists_setBlockStateId_iff]
  constructor
  · rintro ⟨column', hrun⟩
    have hfound : column.hasPlace pos.y := by
      obtain ⟨place, hensure, -⟩ := bind_eq_ok.mp hrun
      exact (column.exists_ensureSection_iff pos.y).mp ⟨place, hensure⟩
    rw [setBlockStateId_eq hfound] at hrun
    obtain ⟨sub, hsub, -⟩ := map_eq_ok.mp hrun
    exact ⟨hfound, sub, hsub⟩
  · rintro ⟨hfound, sub, hsub⟩
    exact ⟨_, (setBlockStateId_eq hfound stateId).trans (map_eq_ok.mpr ⟨sub, hsub, rfl⟩)⟩

/-- In a reachable column a write between the bounds is right exactly when its
height has a place, which a column above zero does not give all of them, and the
palette of its layer has the state or fewer than `2 ^ 32` entries. -/
theorem writesBlock_iff (h : column.Reachable) {pos : BlockPosition} {stateId : Int32}
    (hlow : 16 * column.minCY ≤ pos.y) (hhigh : pos.y < 16 * column.maxCY) :
    column.WritesBlock pos stateId ↔
      (column.minCY ≤ 0 ∨ pos.y / 16 + 2 * column.minCY < column.maxCY) ∧
        ((column.sectionAt pos.y).layerAt (pos.layer.getD 0)).Settable stateId := by
  have hsound := h.sound
  rw [← hsound.hasPlace_iff_bounds hlow hhigh, ← hsound.exists_setBlockStateId_iff]
  constructor
  · rintro ⟨column', hrun, -, -⟩
    exact ⟨column', hrun⟩
  · rintro ⟨column', hrun⟩
    have hwrite := fun other ↦ hsound.getBlockStateId_setBlockStateId hrun other
    refine ⟨column', hrun, ?_, fun other hother ↦ ?_⟩
    · rw [hwrite, if_pos ⟨rfl, rfl, rfl, rfl⟩]
    · rw [hwrite, if_neg hother]

theorem writesBlock_fresh : (new 0 0).WritesBlock { x := 3, y := 70, z := -2, layer := some 1 } 9 :=
  (writesBlock_iff (.new 0 0) (by decide) (by decide)).mpr ⟨.inl (by decide), .inr (by decide)⟩

/-- The column starts at the section of height 32, and the write throws. -/
theorem block_not_written :
    ((new 0 0).withBounds 2 5).Reachable ∧ ¬ ((new 0 0).withBounds 2 5).WritesBlock
      { x := 0, y := 32, z := 0, layer := some 0 } 9 := by
  refine ⟨@Reachable.setBounds _ _ 2 5 (.new 0 0) rfl, ?_⟩
  rintro ⟨column', hrun, -, -⟩
  cases hrun

end BedrockChunkColumn

end BedrockProtocol
