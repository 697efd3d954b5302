import BedrockProtocol.World.ColumnSubChunks

/-!
# Block writes that fail

`setBlock` of `BedrockChunk.cpp` puts the states and the lights of a block into the section where
it is, and the block entity after them.  The entity is encoded first, which may fail; by then the
section has been changed, and in a world the column has not been queued for saving.
-/

namespace BedrockProtocol

open PalettedStorage

namespace BedrockSubChunk

variable {sub sub' : BedrockSubChunk} {x y z : UInt8}

/-- The states that `setBlock` writes, with their layers. -/
def writtenStates (layer : Option UInt8) (block : BedrockBlock) : List (UInt8 × Int32) :=
  match layer with
  | some layer => [(layer, block.stateId)]
  | none => (0, block.stateId) :: (block.superimposed.map fun stateId ↦ (1, stateId)).toList

/-- The writes to the section. -/
def setBlockStates (sub : BedrockSubChunk) (layer : Option UInt8) (x y z : UInt8)
    (block : BedrockBlock) : Except String BedrockSubChunk :=
  match layer with
  | some layer => sub.setBlockStateId layer x y z block.stateId
  | none => do
      let sub ← sub.setBlockStateId 0 x y z block.stateId
      match block.superimposed with
      | none => pure sub
      | some stateId => sub.setBlockStateId 1 x y z stateId

def setLights (sub : BedrockSubChunk) (x y z : UInt8) (block : BedrockBlock) : BedrockSubChunk :=
  (sub.setBlockLight x y z block.light).setSkyLight x y z block.skyLight

/-- Every state that is written is in its layer already. -/
def HoldsStates (sub : BedrockSubChunk) (x y z : UInt8) (states : List (UInt8 × Int32)) : Prop :=
  ∀ w ∈ states, w.1.toNat < sub.layers.length ∧ sub.getBlockStateId w.1 x y z = .ok w.2

/-- The searches of the palettes end. -/
def TakesStates (sub : BedrockSubChunk) (states : List (UInt8 × Int32)) : Prop :=
  ∀ w ∈ states, (sub.layerAt w.1).Settable w.2

end BedrockSubChunk

namespace BedrockChunkColumn

/-- `setBlock` where the column is: what became of the call, if it comes back, and the column then.
Writing a state throws nothing; its errors are searches without an end. -/
def setBlockInPlace (pos : BlockPosition) (block : BedrockBlock) (column : BedrockChunkColumn) :
    Option (Except String Unit × BedrockChunkColumn) :=
  match column.ensureSection pos.y with
  | .error e => some (.error e, column)
  | .ok (index, found) =>
      match found.setBlockStates pos.layer (localCoord pos.x) (localCoord pos.y) (localCoord pos.z)
        block with
      | .error _ => none
      | .ok found =>
          let found := found.setLights (localCoord pos.x) (localCoord pos.y) (localCoord pos.z) block
          let column := { column with sections := column.sections.set index (some found) }
          match block.entity with
          | none => some (.ok (), column)
          | some entity => some (column.changed (column.setBlockEntityNbt pos entity))

/-- `setBlock` with a registry, of which the state of air matters. -/
def setBlockFromInPlace (pos : BlockPosition) (block : BedrockBlock) (air : Option Int32)
    (column : BedrockChunkColumn) : Option (Except String Unit × BedrockChunkColumn) :=
  match column.getSection pos.y with
  | some _ => column.setBlockInPlace pos block
  | none =>
      match air with
      | none => some (.error "Bedrock block registry does not contain air", column)
      | some stateId =>
          match column.setSection (pos.y >>> (4 : ℕ))
            (.createAir (Int8.ofInt (pos.y >>> (4 : ℕ))) stateId) with
          | .error e => some (.error e, column)
          | .ok column => column.setBlockInPlace pos block

/-- The same blocks and the same block entities. -/
structure Same (column column' : BedrockChunkColumn) : Prop where
  sections : column.sections = column'.sections
  blockEntities (key : Text) : column.blockEntities.lookup key = column'.blockEntities.lookup key
  blockEntityNbt (key : Text) : column.blockEntityNbt.lookup key = column'.blockEntityNbt.lookup key

end BedrockChunkColumn

namespace BedrockWorld

/-- The world after a change of a column where it is. -/
def withColumn (world : BedrockWorld) (pos : BlockPosition) (column : BedrockChunkColumn) :
    BedrockWorld :=
  { world with columns := world.columns.insert (key (chunkCoord pos.x) (chunkCoord pos.z)) column }

/-- A setter of the world, given the one of the column and what the handlers of the update do. -/
def changeInPlace (world : BedrockWorld) (pos : BlockPosition)
    (set : BedrockChunkColumn → Option (Except String Unit × BedrockChunkColumn))
    (handlers : Except String Unit) : Option (Except String Unit × BedrockWorld) :=
  match world.getLoadedColumnAt pos with
  | none => some (.ok (), world)
  | some column =>
      match column.snapshot pos with
      | .error e => some (.error e, world)
      | .ok _ =>
          match set column with
          | none => none
          | some (result, column) =>
              let world := world.withColumn pos column
              match result with
              | .error e => some (.error e, world)
              | .ok () =>
                  let world := world.saveAt pos
                  match column.snapshot pos with
                  | .error e => some (.error e, world)
                  | .ok _ => some (handlers, world)

def setBlockInPlace (world : BedrockWorld) (pos : BlockPosition) (block : BedrockBlock)
    (handlers : Except String Unit) : Option (Except String Unit × BedrockWorld) :=
  world.changeInPlace pos (fun column ↦ column.setBlockInPlace pos block) handlers

def setBlockFromInPlace (world : BedrockWorld) (pos : BlockPosition) (block : BedrockBlock)
    (air : Option Int32) (handlers : Except String Unit) :
    Option (Except String Unit × BedrockWorld) :=
  world.changeInPlace pos (fun column ↦ column.setBlockFromInPlace pos block air) handlers

end BedrockWorld

/-! ## One section -/

namespace BedrockSubChunk

variable {sub sub' : BedrockSubChunk} {x y z : UInt8} {states : List (UInt8 × Int32)}

/-- The writes to a section, one after the other. -/
def setStates (sub : BedrockSubChunk) (x y z : UInt8) (states : List (UInt8 × Int32)) :
    Except String BedrockSubChunk :=
  states.foldlM (fun sub w ↦ sub.setBlockStateId w.1 x y z w.2) sub

theorem setBlockStates_eq (sub : BedrockSubChunk) (layer : Option UInt8) (x y z : UInt8)
    (block : BedrockBlock) :
    sub.setBlockStates layer x y z block = sub.setStates x y z (writtenStates layer block) := by
  cases layer with
  | some layer =>
      rw [setBlockStates, setStates, writtenStates, List.foldlM_cons]
      exact (bind_pure _).symm
  | none =>
      cases hsuperimposed : block.superimposed with
      | none => simp [setBlockStates, setStates, writtenStates, hsuperimposed]
      | some stateId =>
          simp only [setBlockStates, setStates, writtenStates, hsuperimposed, Option.map_some,
            Option.toList_some, List.foldlM_cons, List.foldlM_nil, bind_pure]

/-- No layer is written twice. -/
theorem writtenStates_nodup (layer : Option UInt8) (block : BedrockBlock) :
    ((writtenStates layer block).map Prod.fst).Nodup := by
  cases layer with
  | some layer => simp [writtenStates]
  | none => cases hsuperimposed : block.superimposed <;> simp [writtenStates, hsuperimposed]

theorem setBlockStateId_of_holds {layer : UInt8} {stateId : Int32}
    (hlayer : layer.toNat < sub.layers.length)
    (hstate : sub.getBlockStateId layer x y z = .ok stateId) :
    sub.setBlockStateId layer x y z stateId = .ok sub := by
  have hensure : sub.ensureLayer layer = sub := by
    rw [ensureLayer, Nat.sub_eq_zero_of_le hlayer, List.replicate_zero, List.append_nil]
  have hget := List.getElem?_eq_getElem hlayer
  rw [getBlockStateId, hget] at hstate
  have hfound : sub.layers[layer.toNat].setBlockStateId sub.airStateId x y z stateId =
      .ok sub.layers[layer.toNat] := by
    dsimp only at hstate
    rw [Layer.getBlockStateId] at hstate
    rw [Layer.setBlockStateId]
    dsimp only
    split at hstate
    · cases hstate
    · rw [if_pos (Except.ok.inj hstate)]
  rw [setBlockStateId, hensure]
  simp only [hget, hfound, ok_bind]
  rw [List.set_getElem_self]
  rfl

theorem setStates_of_holds (h : sub.HoldsStates x y z states) :
    sub.setStates x y z states = .ok sub := by
  induction states with
  | nil => rfl
  | cons w states ih =>
      obtain ⟨hlayer, hstate⟩ := h w (by simp)
      rw [setStates, List.foldlM_cons, setBlockStateId_of_holds hlayer hstate]
      exact ih fun w' hw' ↦ h w' (by simp [hw'])

theorem length_layers_setBlockStateId {layer : UInt8} {stateId : Int32}
    (hrun : sub.setBlockStateId layer x y z stateId = .ok sub') :
    sub.layers.length ≤ sub'.layers.length ∧ layer.toNat < sub'.layers.length ∧
      sub'.blockLight = sub.blockLight ∧ sub'.skyLight = sub.skyLight := by
  rw [setBlockStateId_eq] at hrun
  obtain ⟨found, -, rfl⟩ := map_eq_ok.mp hrun
  have hlength : (sub.ensureLayer layer).layers.length =
      sub.layers.length + (layer.toNat + 1 - sub.layers.length) := by simp [ensureLayer]
  refine ⟨?_, ?_, rfl, rfl⟩
  · rw [List.length_set, hlength]
    omega
  · rw [List.length_set, hlength]
    omega

/-- After the writes every state is in its layer, and the other layers are as they were. -/
theorem setStates_holds (h : sub.Counted) (hnodup : (states.map Prod.fst).Nodup)
    (hrun : sub.setStates x y z states = .ok sub') :
    sub'.HoldsStates x y z states ∧ sub.layers.length ≤ sub'.layers.length ∧
      ∀ layer ∉ states.map Prod.fst,
        sub'.getBlockStateId layer x y z = sub.getBlockStateId layer x y z := by
  induction states generalizing sub with
  | nil =>
      obtain rfl := Except.ok.inj hrun
      exact ⟨by simp [HoldsStates], le_rfl, fun _ _ ↦ rfl⟩
  | cons w states ih =>
      rw [setStates, List.foldlM_cons] at hrun
      obtain ⟨first, hfirst, hrest⟩ := bind_eq_ok.mp hrun
      rw [List.map_cons, List.nodup_cons] at hnodup
      obtain ⟨hholds, hlength, hframe⟩ := ih (h.setBlockStateId hfirst) hnodup.2 hrest
      obtain ⟨hgrow, hlayer, -, -⟩ := length_layers_setBlockStateId hfirst
      have hread := fun layer ↦ h.getBlockStateId_setBlockStateId hfirst layer x y z
      refine ⟨?_, hgrow.trans hlength, ?_⟩
      · intro w' hw'
        rcases List.mem_cons.mp hw' with rfl | hw'
        · exact ⟨hlayer.trans_le hlength, by rw [hframe _ hnodup.1, hread, if_pos ⟨rfl, rfl⟩]⟩
        · exact hholds w' hw'
      · intro layer hlayer
        rw [List.map_cons, List.mem_cons, not_or] at hlayer
        rw [hframe layer hlayer.2, hread, if_neg (by simp [hlayer.1])]

/-- The writes end when the search of every palette does. -/
theorem exists_setStates_iff (h : sub.Counted) (hnodup : (states.map Prod.fst).Nodup) :
    (∃ sub', sub.setStates x y z states = .ok sub') ↔ sub.TakesStates states := by
  induction states generalizing sub with
  | nil => exact iff_of_true ⟨sub, rfl⟩ (by simp [TakesStates])
  | cons w states ih =>
      rw [List.map_cons, List.nodup_cons] at hnodup
      have hothers : ∀ first, sub.setBlockStateId w.1 x y z w.2 = .ok first →
          (first.TakesStates states ↔ sub.TakesStates states) := by
        intro first hfirst
        rw [setBlockStateId_eq] at hfirst
        obtain ⟨found, -, rfl⟩ := map_eq_ok.mp hfirst
        refine forall₂_congr fun w' hw' ↦ ?_
        have hne : w'.1 ≠ w.1 := by
          intro heq
          exact hnodup.1 (heq ▸ List.mem_map_of_mem hw')
        rw [layerAt_set, if_neg hne]
      constructor
      · rintro ⟨sub', hrun⟩
        rw [setStates, List.foldlM_cons] at hrun
        obtain ⟨first, hfirst, hrest⟩ := bind_eq_ok.mp hrun
        have htakes := (ih (h.setBlockStateId hfirst) hnodup.2).mp ⟨sub', hrest⟩
        intro w' hw'
        rcases List.mem_cons.mp hw' with rfl | hw'
        · exact h.exists_setBlockStateId_iff.mp ⟨first, hfirst⟩
        · exact (hothers first hfirst).mp htakes w' hw'
      · intro htakes
        obtain ⟨first, hfirst⟩ := h.exists_setBlockStateId_iff.mpr (htakes w (by simp))
        obtain ⟨sub', hrest⟩ := (ih (h.setBlockStateId hfirst) hnodup.2).mpr
          ((hothers first hfirst).mpr fun w' hw' ↦ htakes w' (by simp [hw']))
        exact ⟨sub', by rw [setStates, List.foldlM_cons, hfirst]; exact hrest⟩

theorem Reachable.setStates (h : sub.Reachable) (hrun : sub.setStates x y z states = .ok sub') :
    sub'.Reachable := by
  induction states generalizing sub with
  | nil =>
      obtain rfl := Except.ok.inj hrun
      exact h
  | cons w states ih =>
      rw [BedrockSubChunk.setStates, List.foldlM_cons] at hrun
      obtain ⟨first, hfirst, hrest⟩ := bind_eq_ok.mp hrun
      exact ih (h.setBlockStateId hfirst) hrest

/-- Lights take four bits. -/
theorem Reachable.lightBits (h : sub.Reachable) :
    sub.blockLight.bitsPerBlock = 4 ∧ sub.skyLight.bitsPerBlock = 4 := by
  induction h with
  | new y subChunkVersion => exact ⟨rfl, rfl⟩
  | createAir y airStateId => exact ⟨rfl, rfl⟩
  | decodeFrom h hrun ih =>
      obtain ⟨header, c₁, -, hrun⟩ := Reader.run_bind_eq_ok hrun
      dsimp only at hrun
      split at hrun
      · cases hrun
      · obtain ⟨layers, c₂, -, hrun⟩ := Reader.run_bind_eq_ok hrun
        cases hrun
        exact ih
  | ensureLayer h layer ih => exact ih
  | setBlockStateId h hrun ih =>
      obtain ⟨-, -, hblock, hsky⟩ := length_layers_setBlockStateId hrun
      rwa [hblock, hsky]
  | compact h layer ih => exact ih
  | setY h y ih => exact ih
  | setSubChunkVersion h version ih => exact ih
  | setBlockLight h x y z value ih => exact ih
  | setSkyLight h x y z value ih => exact ih
  | setPaletteEntryDescriptor h hrun ih =>
      unfold BedrockSubChunk.setPaletteEntryDescriptor at hrun
      split at hrun
      · cases hrun
      split_ifs at hrun
      rw [← Except.ok.inj hrun]
      exact ih

/-- A light that is written changes the storage unless the position has it already. -/
theorem set_light_eq_self_iff {storage : PalettedStorage} (hbits : storage.bitsPerBlock = 4)
    (value : UInt8) :
    storage.set x y z (value.toNat &&& 0x0f) = storage ↔
      UInt8.ofNat (storage.get x y z) = value &&& 0x0f := by
  have hlt : storage.get x y z < 2 ^ storage.bitsPerBlock := storage.indexAt_lt _
  have hmask : (value &&& 0x0f).toNat = value.toNat &&& 0x0f := rfl
  have hnibble : value.toNat &&& 0x0f = value.toNat % 16 := Nat.and_two_pow_sub_one_eq_mod _ 4
  rw [hbits] at hlt
  rw [storage.set_eq_self_iff, hbits, ← UInt8.toNat_inj, hmask, hnibble,
    toNat_ofNat_of_lt (by omega)]
  omega

/-- The block that is written is there already. -/
structure Holds (sub : BedrockSubChunk) (layer : Option UInt8) (x y z : UInt8)
    (block : BedrockBlock) : Prop where
  states : sub.HoldsStates x y z (writtenStates layer block)
  light : sub.getBlockLight x y z = block.light &&& 0x0f
  skyLight : sub.getSkyLight x y z = block.skyLight &&& 0x0f

theorem setLights_eq_iff (h : sub.Reachable) {block : BedrockBlock} :
    sub.setLights x y z block = sub ↔
      sub.getBlockLight x y z = block.light &&& 0x0f ∧
        sub.getSkyLight x y z = block.skyLight &&& 0x0f := by
  obtain ⟨hblock, hsky⟩ := h.lightBits
  rw [getBlockLight, getSkyLight, ← set_light_eq_self_iff hblock, ← set_light_eq_self_iff hsky]
  constructor
  · intro heq
    exact ⟨congrArg BedrockSubChunk.blockLight heq, congrArg BedrockSubChunk.skyLight heq⟩
  · rintro ⟨hlight, hskyLight⟩
    rw [setLights, setBlockLight, setSkyLight]
    dsimp only
    rw [hlight, hskyLight]

/-- The writes to a section leave it as it was only if the block is there already. -/
theorem Reachable.write_eq_iff (h : sub.Reachable) {layer : Option UInt8} {block : BedrockBlock}
    (hrun : sub.setBlockStates layer x y z block = .ok sub') :
    sub'.setLights x y z block = sub ↔ sub.Holds layer x y z block := by
  rw [setBlockStates_eq] at hrun
  obtain ⟨hholds, -⟩ := setStates_holds h.counted (writtenStates_nodup layer block) hrun
  constructor
  · intro heq
    have hstates : sub.HoldsStates x y z (writtenStates layer block) := by
      rw [← heq]
      exact hholds
    have hsame : sub' = sub := by
      have hself := setStates_of_holds hstates
      exact Except.ok.inj (hrun.symm.trans hself)
    rw [hsame] at heq
    obtain ⟨hlight, hskyLight⟩ := (setLights_eq_iff h).mp heq
    exact ⟨hstates, hlight, hskyLight⟩
  · intro hold
    have hself := setStates_of_holds hold.states
    obtain rfl := Except.ok.inj (hrun.symm.trans hself)
    exact (setLights_eq_iff h).mpr ⟨hold.light, hold.skyLight⟩

end BedrockSubChunk

/-! ## One column -/

namespace BedrockChunkColumn

variable {column column' : BedrockChunkColumn} {pos : BlockPosition} {block : BedrockBlock}

theorem Same.refl (column : BedrockChunkColumn) : column.Same column := ⟨rfl, fun _ ↦ rfl, fun _ ↦ rfl⟩

/-- The tag of the block entity cannot be encoded. -/
def EntityRefused (block : BedrockBlock) : Prop :=
  ∃ tag ∈ block.entity, ∃ e, BedrockNbt.write .littleVarInt {} tag = .error e

/-- The block is in the column already, the entity aside. -/
def Holds (column : BedrockChunkColumn) (pos : BlockPosition) (block : BedrockBlock) : Prop :=
  ∃ sub ∈ column.getSection pos.y,
    sub.Holds pos.layer (localCoord pos.x) (localCoord pos.y) (localCoord pos.z) block

/-- The entity is in the column already. -/
def HoldsEntity (column : BedrockChunkColumn) (pos : BlockPosition) (block : BedrockBlock) : Prop :=
  ∀ tag ∈ block.entity, ∀ bytes, BedrockNbt.write .littleVarInt {} tag = .ok bytes →
    column.blockEntities.lookup (blockEntityKey pos) = some bytes ∧
      column.blockEntityNbt.lookup (blockEntityKey pos) = some tag

/-- The height has a place and the palettes take the states. -/
def Takes (column : BedrockChunkColumn) (pos : BlockPosition) (block : BedrockBlock) : Prop :=
  column.hasPlace pos.y ∧
    (column.sectionAt pos.y).TakesStates (BedrockSubChunk.writtenStates pos.layer block)

/-- The end of `setBlock`. -/
def putEntity (pos : BlockPosition) (block : BedrockBlock) (column : BedrockChunkColumn) :
    Except String Unit × BedrockChunkColumn :=
  match block.entity with
  | none => (.ok (), column)
  | some entity => column.changed (column.setBlockEntityNbt pos entity)

/-- What a call does that starts with the writes to the section: where they are not reached
nothing happens, and otherwise the entity follows them. -/
structure WritesBlockThen (set : BedrockChunkColumn → Option (Except String Unit × BedrockChunkColumn))
    (column : BedrockChunkColumn) (pos : BlockPosition) (block : BedrockBlock) (reached : Prop) :
    Prop where
  refused : ¬ reached → set column = none ∨ ∃ e, set column = some (.error e, column)
  written : reached → ∃ sections, { column with sections := sections }.Sound ∧
    (getSection { column with sections := sections } pos.y).isSome ∧
    (sections = column.sections ↔ column.Holds pos block) ∧
    set column = some (putEntity pos block { column with sections := sections })

/-- The column with one section replaced. -/
def putSection (column : BedrockChunkColumn) (blockY : ℤ) (sub : BedrockSubChunk) :
    BedrockChunkColumn :=
  { column with sections := column.sections.set (column.co + blockY / 16).toNat (some sub) }

theorem hasPlace_putSection (blockY blockY' : ℤ) (sub : BedrockSubChunk) :
    (column.putSection blockY sub).hasPlace blockY' = column.hasPlace blockY' := by
  rw [Bool.eq_iff_iff, hasPlace_iff, hasPlace_iff, putSection]
  simp only [List.length_set]
  rfl

theorem getSection_putSection {blockY : ℤ} (hplace : column.hasPlace blockY) (sub : BedrockSubChunk) :
    (column.putSection blockY sub).getSection blockY = some sub := by
  rw [putSection, getSection_set hplace, if_pos rfl]

theorem putSection_putSection (blockY : ℤ) (sub sub' : BedrockSubChunk) :
    (column.putSection blockY sub).putSection blockY sub' = column.putSection blockY sub' := by
  have hco : (column.putSection blockY sub).co = column.co := rfl
  rw [putSection, hco, putSection, putSection, List.set_set]

theorem setBlockStateId_putSection (hplace : column.hasPlace pos.y) (layer : Option UInt8)
    (sub : BedrockSubChunk) (stateId : Int32) :
    (column.putSection pos.y sub).setBlockStateId { pos with layer } stateId =
      (column.putSection pos.y ·) <$> sub.setBlockStateId (layer.getD 0) (localCoord pos.x)
        (localCoord pos.y) (localCoord pos.z) stateId := by
  have hplace' : (column.putSection pos.y sub).hasPlace pos.y := by rwa [hasPlace_putSection]
  rw [@setBlockStateId_eq _ { pos with layer } hplace', sectionAt,
    getSection_putSection hplace, Option.getD_some]
  congr 1
  funext sub'
  exact putSection_putSection pos.y sub sub'

theorem modifySection_putSection {blockY : ℤ} (hplace : column.hasPlace blockY)
    (sub : BedrockSubChunk) (missing : String) (f : BedrockSubChunk → BedrockSubChunk) :
    (column.putSection blockY sub).modifySection blockY missing f =
      .ok (column.putSection blockY (f sub)) := by
  rw [modifySection, getSection_putSection hplace, shiftRight_four]
  exact congrArg Except.ok (putSection_putSection blockY sub (f sub))

/-- The writes of `setBlock` to its section. -/
theorem setBlock_eq_of_states {sub : BedrockSubChunk} (hplace : column.hasPlace pos.y)
    (hstates : (column.sectionAt pos.y).setBlockStates pos.layer (localCoord pos.x)
      (localCoord pos.y) (localCoord pos.z) block = .ok sub) :
    column.setBlock pos block =
      let column := column.putSection pos.y
        (sub.setLights (localCoord pos.x) (localCoord pos.y) (localCoord pos.z) block)
      match block.entity with
      | none => .ok column
      | some entity => column.setBlockEntityNbt pos entity := by
  have hfirst := setBlockStateId_eq hplace block.stateId
  have hlight : (column.putSection pos.y sub).setBlockLight pos block.light = _ :=
    modifySection_putSection hplace _ _ _
  have hskyLight : ∀ sub, (column.putSection pos.y sub).setSkyLight pos block.skyLight = _ :=
    fun sub ↦ modifySection_putSection hplace sub _ _
  have hwrites : column.setBlock pos block = (do
      let column ← (column.putSection pos.y sub).setBlockLight pos block.light
      let column ← column.setSkyLight pos block.skyLight
      match block.entity with
      | none => pure column
      | some entity => column.setBlockEntityNbt pos entity) := by
    unfold setBlock
    cases hlayer : pos.layer with
    | some layer =>
        rw [hlayer] at hstates
        have hwrite : (column.sectionAt pos.y).setBlockStateId layer (localCoord pos.x)
            (localCoord pos.y) (localCoord pos.z) block.stateId = .ok sub := hstates
        rw [hlayer, Option.getD_some, hwrite] at hfirst
        dsimp only
        rw [hfirst]
        rfl
    | none =>
        rw [hlayer] at hstates
        obtain ⟨first, hset, hrest⟩ := bind_eq_ok.mp hstates
        rw [hlayer, Option.getD_none, hset] at hfirst
        dsimp only
        rw [hfirst]
        cases hsuperimposed : block.superimposed with
        | none =>
            rw [hsuperimposed] at hrest
            obtain rfl := Except.ok.inj hrest
            rfl
        | some stateId =>
            rw [hsuperimposed] at hrest
            have hsecond := setBlockStateId_putSection hplace (some 1) first stateId
            dsimp only at hrest
            rw [Option.getD_some, hrest] at hsecond
            change ((column.putSection pos.y first).setBlockStateId
              { pos with layer := some 1 } stateId >>= _) = _
            rw [hsecond]
            rfl
  rw [hwrites, hlight, ok_bind, hskyLight, ok_bind]
  rfl

theorem putSection_sections_eq_iff {sub : BedrockSubChunk} (h : column.hasPlace pos.y) :
    (column.putSection pos.y sub).sections = column.sections ↔
      column.getSection pos.y = some sub := by
  obtain ⟨hpos, hlt⟩ := (column.hasPlace_iff pos.y).mp h
  have hindex : (column.co + pos.y / 16).toNat < column.sections.length := by omega
  rw [getSection, shiftRight_four, slot_of_lt hpos hindex, putSection]
  constructor
  · intro heq
    have hget := congrArg (fun sections ↦ sections[(column.co + pos.y / 16).toNat]?) heq
    simp only [List.getElem?_set_self hindex, List.getElem?_eq_getElem hindex,
      Option.some.injEq] at hget
    rw [← hget]
    rfl
  · intro hget
    have hfound : column.sections[(column.co + pos.y / 16).toNat] = some sub := by
      simpa using hget
    rw [← hfound, List.set_getElem_self]

theorem Sound.sectionAt_reachable (h : column.Sound) (blockY : ℤ) :
    (column.sectionAt blockY).Reachable := by
  rw [BedrockChunkColumn.sectionAt, getSection]
  cases hslot : slot column.sections (column.co + blockY >>> (4 : ℕ)) with
  | none => exact .new _ 9
  | some found =>
      cases found with
      | none => exact .new _ 9
      | some sub => exact h.sections sub (List.mem_of_getElem? (slot_eq_some hslot).2)

theorem setBlockInPlace_of_noPlace (h : ¬ column.hasPlace pos.y) :
    ∃ e, column.setBlockInPlace pos block = some (.error e, column) := by
  cases hrun : column.ensureSection pos.y with
  | error e => exact ⟨e, by rw [setBlockInPlace, hrun]⟩
  | ok place => exact absurd ((column.exists_ensureSection_iff pos.y).mp ⟨place, hrun⟩) h

theorem setBlockInPlace_eq (h : column.hasPlace pos.y) :
    column.setBlockInPlace pos block =
      match (column.sectionAt pos.y).setBlockStates pos.layer (localCoord pos.x) (localCoord pos.y)
        (localCoord pos.z) block with
      | .error _ => none
      | .ok found => some (putEntity pos block (column.putSection pos.y
          (found.setLights (localCoord pos.x) (localCoord pos.y) (localCoord pos.z) block))) := by
  rw [setBlockInPlace, ensureSection_eq_ok h, sectionAt]
  dsimp only
  generalize BedrockSubChunk.setBlockStates _ pos.layer _ _ _ block = written
  cases written with
  | error e => rfl
  | ok found =>
      dsimp only
      unfold putEntity
      cases block.entity <;> rfl

/-- Where the call comes back without an exception, it did what `setBlock` says. -/
theorem setBlock_of_inPlace (hrun : column.setBlockInPlace pos block = some (.ok (), column')) :
    column.setBlock pos block = .ok column' := by
  by_cases hplace : column.hasPlace pos.y
  swap
  · obtain ⟨e, herror⟩ := @setBlockInPlace_of_noPlace _ _ block hplace
    rw [herror] at hrun
    cases hrun
  rw [setBlockInPlace_eq hplace] at hrun
  cases hstates : (column.sectionAt pos.y).setBlockStates pos.layer (localCoord pos.x)
      (localCoord pos.y) (localCoord pos.z) block with
  | error e =>
      rw [hstates] at hrun
      cases hrun
  | ok sub =>
      rw [hstates] at hrun
      have hput := Option.some.inj hrun
      rw [setBlock_eq_of_states hplace hstates]
      dsimp only
      generalize column.putSection pos.y _ = written at hput ⊢
      cases hentity : block.entity with
      | none =>
          rw [putEntity, hentity] at hput
          exact congrArg Except.ok (Prod.mk.inj hput).2
      | some entity =>
          rw [putEntity, hentity] at hput
          dsimp only at hput ⊢
          cases hset : written.setBlockEntityNbt pos entity with
          | error e =>
              rw [hset] at hput
              cases hput
          | ok column'' =>
              rw [hset] at hput
              exact congrArg Except.ok (Prod.mk.inj hput).2

theorem writesBlock (h : column.Sound) (pos : BlockPosition) (block : BedrockBlock) :
    WritesBlockThen (setBlockInPlace pos block) column pos block (column.Takes pos block) := by
  by_cases hplace : column.hasPlace pos.y
  swap
  · exact ⟨fun _ ↦ .inr (setBlockInPlace_of_noPlace hplace),
      fun htakes ↦ absurd htakes.1 hplace⟩
  have hends := @BedrockSubChunk.exists_setStates_iff _ (localCoord pos.x) (localCoord pos.y)
    (localCoord pos.z) _ (h.sectionAt pos.y)
    (BedrockSubChunk.writtenStates_nodup pos.layer block)
  rw [← BedrockSubChunk.setBlockStates_eq] at hends
  have hrun := @setBlockInPlace_eq _ _ block hplace
  constructor
  · intro hrefused
    left
    rw [hrun]
    split
    · rfl
    · rename_i found hfound
      exact absurd ⟨hplace, hends.mp ⟨found, hfound⟩⟩ hrefused
  · rintro ⟨-, htakes⟩
    obtain ⟨found, hfound⟩ := hends.mpr htakes
    have hreachable := h.sectionAt_reachable pos.y
    have hwrite := hreachable.write_eq_iff hfound
    refine ⟨_, h.set _ ?_, ?_, ?_, by rw [hrun, hfound]; rfl⟩
    · rw [BedrockSubChunk.setBlockStates_eq] at hfound
      exact ((hreachable.setStates hfound).setBlockLight _ _ _ _).setSkyLight _ _ _ _
    · rw [getSection_set hplace, if_pos rfl]
      rfl
    · refine (putSection_sections_eq_iff hplace).trans ?_
      rw [Holds]
      rw [BedrockChunkColumn.sectionAt] at hwrite
      cases hsection : column.getSection pos.y with
      | none => simp
      | some sub =>
          rw [hsection, Option.getD_some] at hwrite
          simpa [eq_comm] using hwrite

theorem takesStates_of_length {sub : BedrockSubChunk} {states : List (UInt8 × Int32)}
    (h : ∀ layer ∈ sub.layers, layer.palette.length < 2 ^ 32) : sub.TakesStates states := by
  intro w hw
  right
  rw [BedrockSubChunk.layerAt, List.getD_eq_getElem?_getD]
  cases hfound : sub.layers[w.1.toNat]? with
  | none => exact Nat.one_lt_two_pow (by decide)
  | some found => exact h found (List.mem_of_getElem? hfound)

/-- The call with a registry where the section is missing: a section of air comes first. -/
theorem writesBlock_air (h : column.Sound) (pos : BlockPosition) (block : BedrockBlock)
    (hsection : column.getSection pos.y = none) (hplace : column.hasPlace pos.y) (stateId : Int32) :
    ∃ sections, Sound { column with sections := sections } ∧
      (getSection { column with sections := sections } pos.y).isSome ∧
      (sections = column.sections ↔ column.Holds pos block) ∧
      column.setBlockFromInPlace pos block (some stateId) =
        some (putEntity pos block { column with sections := sections }) := by
  let fresh := (BedrockSubChunk.createAir (Int8.ofInt (pos.y >>> (4 : ℕ))) stateId).setY
    (Int8.ofInt (pos.y >>> (4 : ℕ)))
  have hstored : column.setSection (pos.y >>> (4 : ℕ))
      (.createAir (Int8.ofInt (pos.y >>> (4 : ℕ))) stateId) =
        .ok (column.putSection pos.y fresh) := by
    obtain ⟨place, hslot⟩ := Option.isSome_iff_exists.mp hplace
    rw [setSection, hslot, putSection, ← shiftRight_four]
  have hset : column.setBlockFromInPlace pos block (some stateId) =
      (column.putSection pos.y fresh).setBlockInPlace pos block := by
    rw [setBlockFromInPlace, hsection]
    dsimp only
    rw [hstored]
  have htakes : (column.putSection pos.y fresh).Takes pos block := by
    refine ⟨by rwa [hasPlace_putSection], ?_⟩
    rw [sectionAt, getSection_putSection hplace]
    exact takesStates_of_length (by simp [fresh, BedrockSubChunk.createAir, BedrockSubChunk.setY])
  obtain ⟨-, hwritten⟩ := writesBlock (h.setSection (.createAir _ stateId) hstored) pos block
  obtain ⟨sections, hsound, hsome, -, hrun⟩ := hwritten htakes
  refine ⟨sections, hsound, hsome, iff_of_false ?_ ?_, hset.trans hrun⟩
  · rintro rfl
    have hfound : (column.getSection pos.y).isSome := hsome
    rw [hsection] at hfound
    cases hfound
  · rintro ⟨sub, hsub, -⟩
    rw [hsection] at hsub
    cases hsub

theorem writesBlockFrom (h : column.Sound) (pos : BlockPosition) (block : BedrockBlock)
    (air : Option Int32) :
    WritesBlockThen (setBlockFromInPlace pos block air) column pos block
      (column.Takes pos block ∧ ((column.getSection pos.y).isSome ∨ air.isSome)) := by
  cases hsection : column.getSection pos.y with
  | some sub =>
      have hset : column.setBlockFromInPlace pos block air = column.setBlockInPlace pos block := by
        unfold setBlockFromInPlace
        rw [hsection]
      obtain ⟨hrefused, hwritten⟩ := writesBlock h pos block
      rw [← hset] at hrefused hwritten
      exact ⟨fun hno ↦ hrefused fun htakes ↦ hno ⟨htakes, .inl rfl⟩, fun hyes ↦ hwritten hyes.1⟩
  | none =>
      cases air with
      | none =>
          refine ⟨fun _ ↦ .inr ⟨"Bedrock block registry does not contain air", ?_⟩, fun hyes ↦ ?_⟩
          · rw [setBlockFromInPlace, hsection]
          · simp at hyes
      | some stateId =>
          by_cases hplace : column.hasPlace pos.y
          · have htakes : column.Takes pos block := by
              refine ⟨hplace, ?_⟩
              rw [sectionAt, hsection]
              exact takesStates_of_length (by simp)
            exact ⟨fun hno ↦ absurd ⟨htakes, .inr rfl⟩ hno,
              fun _ ↦ writesBlock_air h pos block hsection hplace stateId⟩
          · have hnone : slot column.sections (column.co + pos.y >>> (4 : ℕ)) = none := by
              rwa [hasPlace, Bool.not_eq_true, Option.isSome_eq_false_iff,
                Option.isNone_iff_eq_none] at hplace
            refine ⟨fun _ ↦ .inr ⟨"section Y outside chunk bounds", ?_⟩,
              fun hyes ↦ absurd hyes.1.1 hplace⟩
            rw [setBlockFromInPlace, hsection]
            dsimp only
            rw [setSection, hnone]

/-- A call that throws leaves the blocks and the block entities as they were. -/
def FailsCleanly (column : BedrockChunkColumn)
    (run : Option (Except String Unit × BedrockChunkColumn)) : Prop :=
  ∀ e column', run = some (.error e, column') → column'.Same column

/-- What `putEntity` does: it fails and leaves the column alone, or stores the entity. -/
theorem putEntity_cases (pos : BlockPosition) (block : BedrockBlock) (column : BedrockChunkColumn) :
    (EntityRefused block ∧ ∃ e, putEntity pos block column = (.error e, column)) ∨
      ¬ EntityRefused block ∧ ∃ column', putEntity pos block column = (.ok (), column') ∧
        column'.sections = column.sections ∧ (column.Sound → column'.Sound) ∧
        (∀ other, column'.getBiomeId other = column.getBiomeId other) ∧
        (column'.Same column ↔ column.HoldsEntity pos block) := by
  cases hentity : block.entity with
  | none =>
      refine .inr ⟨?_, column, ?_, rfl, id, fun _ ↦ rfl, iff_of_true (.refl column) ?_⟩
      · rintro ⟨tag, htag, -⟩
        rw [hentity] at htag
        cases htag
      · rw [putEntity, hentity]
      · intro tag htag
        rw [hentity] at htag
        cases htag
  | some tag =>
      have hput : putEntity pos block column = column.changed (column.setBlockEntityNbt pos tag) := by
        rw [putEntity, hentity]
      cases hwrite : BedrockNbt.write .littleVarInt {} tag with
      | error e =>
          refine .inl ⟨⟨tag, hentity, e, hwrite⟩, e, ?_⟩
          rw [hput, setBlockEntityNbt, hwrite]
          rfl
      | ok bytes =>
          refine .inr ⟨?_, { column with
            blockEntities := column.blockEntities.insert (blockEntityKey pos) bytes
            blockEntityNbt := column.blockEntityNbt.insert (blockEntityKey pos) tag },
            ?_, rfl, fun h ↦ h.of_sections rfl rfl rfl, fun _ ↦ rfl, ?_⟩
          · rintro ⟨tag', htag, e, he⟩
            obtain rfl := Option.some.inj (hentity.symm.trans htag)
            rw [hwrite] at he
            cases he
          · rw [hput, setBlockEntityNbt, hwrite]
            rfl
          · constructor
            · intro hsame tag' htag bytes' hbytes
              obtain rfl := Option.some.inj (hentity.symm.trans htag)
              obtain rfl := Except.ok.inj (hwrite.symm.trans hbytes)
              have hraw := hsame.blockEntities (blockEntityKey pos)
              have hnbt := hsame.blockEntityNbt (blockEntityKey pos)
              rw [AList.lookup_insert] at hraw hnbt
              exact ⟨hraw.symm, hnbt.symm⟩
            · intro hholds
              obtain ⟨hraw, hnbt⟩ := hholds tag hentity bytes hwrite
              refine ⟨rfl, fun key ↦ ?_, fun key ↦ ?_⟩
              · by_cases hkey : key = blockEntityKey pos
                · rw [hkey, AList.lookup_insert, hraw]
                · rw [AList.lookup_insert_ne hkey]
              · by_cases hkey : key = blockEntityKey pos
                · rw [hkey, AList.lookup_insert, hnbt]
                · rw [AList.lookup_insert_ne hkey]

variable {set : BedrockChunkColumn → Option (Except String Unit × BedrockChunkColumn)}
  {reached : Prop}

theorem WritesBlockThen.failsCleanly_iff (h : WritesBlockThen set column pos block reached) :
    column.FailsCleanly (set column) ↔
      ¬ (reached ∧ EntityRefused block ∧ ¬ column.Holds pos block) := by
  constructor
  · rintro hclean ⟨hreached, hrefused, hnot⟩
    obtain ⟨sections, -, -, hholds, hrun⟩ := h.written hreached
    rcases putEntity_cases pos block { column with sections := sections } with
      ⟨-, e, hput⟩ | ⟨haccepted, -⟩
    · rw [hput] at hrun
      exact hnot (hholds.mp (hclean e _ hrun).sections)
    · exact haccepted hrefused
  · intro hnot e column' hrun
    by_cases hreached : reached
    · obtain ⟨sections, -, -, hholds, hset⟩ := h.written hreached
      rcases putEntity_cases pos block { column with sections := sections } with
        ⟨hrefused, e', hput⟩ | ⟨-, column'', hput, -⟩
      · rw [hset, hput] at hrun
        obtain rfl := (Prod.mk.inj (Option.some.inj hrun)).2
        have hsame : sections = column.sections :=
          hholds.mpr (by_contra fun hno ↦ hnot ⟨hreached, hrefused, hno⟩)
        exact ⟨hsame, fun _ ↦ rfl, fun _ ↦ rfl⟩
      · rw [hset, hput] at hrun
        cases hrun
    · rcases h.refused hreached with hnone | ⟨e', herror⟩
      · rw [hnone] at hrun
        cases hrun
      · rw [herror] at hrun
        obtain rfl := (Prod.mk.inj (Option.some.inj hrun)).2
        exact .refl _

end BedrockChunkColumn

/-! ## The world -/

namespace BedrockWorld

open BedrockChunkColumn (WritesBlockThen EntityRefused)

variable {world : BedrockWorld} {pos : BlockPosition} {block : BedrockBlock}
  {set : BedrockChunkColumn → Option (Except String Unit × BedrockChunkColumn)}
  {handlers : Except String Unit}

def keyAt (pos : BlockPosition) : Text := key (chunkCoord pos.x) (chunkCoord pos.z)

/-- A call that throws leaves the column and its place in the saving queue as they were. -/
def FailsCleanly (world : BedrockWorld) (pos : BlockPosition)
    (run : Option (Except String Unit × BedrockWorld)) : Prop :=
  ∀ e world', run = some (.error e, world') →
    (∀ column, world.getLoadedColumnAt pos = some column →
      ∃ column', world'.getLoadedColumnAt pos = some column' ∧ column'.Same column) ∧
    (keyAt pos ∈ world'.savingQueue ↔ keyAt pos ∈ world.savingQueue)

/-- The column is saved by nobody or waits for it. -/
def SavingQueued (world : BedrockWorld) (pos : BlockPosition) : Prop :=
  world.savesColumns = true → keyAt pos ∈ world.savingQueue

theorem getLoadedColumnAt_withColumn (world : BedrockWorld) (pos : BlockPosition)
    (column : BedrockChunkColumn) : (world.withColumn pos column).getLoadedColumnAt pos = some column := by
  rw [getLoadedColumnAt, getLoadedColumn, withColumn, AList.lookup_insert]

theorem getLoadedColumnAt_saveAt (world : BedrockWorld) (pos : BlockPosition) :
    (world.saveAt pos).getLoadedColumnAt pos = world.getLoadedColumnAt pos := by
  rw [getLoadedColumnAt, getLoadedColumnAt, getLoadedColumn, getLoadedColumn, saveAt_columns]

/-- Once its column is queued for saving, nothing of the queue changes if it was there. -/
theorem mem_savingQueue_saveAt (world : BedrockWorld) (pos : BlockPosition)
    (hload : (world.getLoadedColumnAt pos).isSome) :
    (keyAt pos ∈ (world.saveAt pos).savingQueue ↔ keyAt pos ∈ world.savingQueue) ↔
      world.SavingQueued pos := by
  have hcolumn : world.hasColumn (chunkCoord pos.x) (chunkCoord pos.z) = true := hload
  rw [saveAt, queueSaving, SavingQueued, hcolumn]
  cases world.savesColumns with
  | false => simp
  | true => simp [keyAt]

/-- The outcome of a call that throws, with the column and the queue it leaves. -/
theorem failsCleanly_error_iff {column column' : BedrockChunkColumn} {world' : BedrockWorld}
    {e : String} (hload : world.getLoadedColumnAt pos = some column)
    (hload' : world'.getLoadedColumnAt pos = some column') :
    world.FailsCleanly pos (some (.error e, world')) ↔
      column'.Same column ∧ (keyAt pos ∈ world'.savingQueue ↔ keyAt pos ∈ world.savingQueue) := by
  constructor
  · intro hclean
    obtain ⟨hcolumn, hqueue⟩ := hclean e world' rfl
    obtain ⟨found, hfound, hsame⟩ := hcolumn column hload
    obtain rfl := Option.some.inj (hload'.symm.trans hfound)
    exact ⟨hsame, hqueue⟩
  · rintro ⟨hsame, hqueue⟩ e' world'' hrun
    obtain ⟨-, rfl⟩ := Prod.mk.inj (Option.some.inj hrun)
    refine ⟨fun found hfound ↦ ⟨column', hload', ?_⟩, hqueue⟩
    obtain rfl := Option.some.inj (hload.symm.trans hfound)
    exact hsame

theorem failsCleanly_ok (world' : BedrockWorld) : world.FailsCleanly pos (some (.ok (), world')) := by
  intro e world'' hrun
  cases hrun

/-- The call throws with something changed: the entity is refused after the writes to the section,
or a handler throws after the entity was stored and the column queued. -/
def LeavesHalf (world : BedrockWorld) (pos : BlockPosition) (block : BedrockBlock)
    (handlers : Except String Unit) (column : BedrockChunkColumn) : Prop :=
  (EntityRefused block ∧ ¬ column.Holds pos block) ∨
    (¬ EntityRefused block ∧ (∃ e, handlers = .error e) ∧
      ¬ (column.Holds pos block ∧ column.HoldsEntity pos block ∧ world.SavingQueued pos))

theorem changeInPlace_loaded {column : BedrockChunkColumn} {reached : Prop}
    (hload : world.getLoadedColumnAt pos = some column) (hsound : column.Sound)
    (hset : WritesBlockThen set column pos block reached) :
    world.FailsCleanly pos (world.changeInPlace pos set handlers) ↔
      ¬ ((∃ biomeId, column.getBiomeId pos = .ok biomeId) ∧ reached ∧
        world.LeavesHalf pos block handlers column) := by
  rw [changeInPlace, hload]
  dsimp only
  have hsnapshot := exists_snapshot_iff hsound pos
  cases hbefore : column.snapshot pos with
  | error e =>
      have hno : ¬ ∃ biomeId, column.getBiomeId pos = .ok biomeId := by
        rw [← hsnapshot, hbefore]
        rintro ⟨block, hblock⟩
        cases hblock
      exact iff_of_true ((failsCleanly_error_iff hload hload).mpr ⟨.refl column, Iff.rfl⟩)
        fun h ↦ hno h.1
  | ok oldBlock =>
      have hbiome := hsnapshot.mp ⟨oldBlock, hbefore⟩
      dsimp only
      by_cases hreached : reached
      swap
      · refine iff_of_true ?_ fun h ↦ hreached h.2.1
        rcases hset.refused hreached with hnone | ⟨e, herror⟩
        · rw [hnone]
          intro e world' hrun
          cases hrun
        · rw [herror]
          exact (failsCleanly_error_iff hload (getLoadedColumnAt_withColumn _ _ _)).mpr
            ⟨.refl column, Iff.rfl⟩
      obtain ⟨sections, hsound', -, hholds, hrun⟩ := hset.written hreached
      rw [hrun]
      rcases BedrockChunkColumn.putEntity_cases pos block { column with sections := sections } with
        ⟨hrefused, e, hput⟩ | ⟨haccepted, column₂, hput, hsections, hsound₂, hbiomes, hentity⟩
      · rw [hput]
        dsimp only
        rw [failsCleanly_error_iff hload (getLoadedColumnAt_withColumn _ _ _), LeavesHalf]
        have hsame : BedrockChunkColumn.Same { column with sections := sections } column ↔
            column.Holds pos block := by
          rw [← hholds]
          exact ⟨fun h ↦ h.sections, fun h ↦ ⟨h, fun _ ↦ rfl, fun _ ↦ rfl⟩⟩
        rw [hsame]
        constructor
        · rintro ⟨hholds, -⟩ ⟨-, -, ⟨-, hno⟩ | ⟨haccepted, -, -⟩⟩
          · exact hno hholds
          · exact haccepted hrefused
        · intro h
          exact ⟨by_contra fun hno ↦ h ⟨hbiome, hreached, .inl ⟨hrefused, hno⟩⟩, Iff.rfl⟩
      · obtain ⟨newBlock, hafter⟩ := (exists_snapshot_iff (hsound₂ hsound') pos).mpr (by
          rw [hbiomes]
          exact hbiome)
        rw [hput]
        dsimp only
        rw [hafter]
        dsimp only
        cases handlers with
        | ok _ =>
            refine iff_of_true (failsCleanly_ok _) ?_
            rintro ⟨-, -, ⟨hrefused, -⟩ | ⟨-, ⟨e, he⟩, -⟩⟩
            · exact haccepted hrefused
            · cases he
        | error e =>
            have hload₂ : ((world.withColumn pos column₂).saveAt pos).getLoadedColumnAt pos =
                some column₂ := by
              rw [getLoadedColumnAt_saveAt, getLoadedColumnAt_withColumn]
            have hqueue : (keyAt pos ∈ ((world.withColumn pos column₂).saveAt pos).savingQueue ↔
                keyAt pos ∈ world.savingQueue) ↔ world.SavingQueued pos :=
              mem_savingQueue_saveAt _ pos (by rw [getLoadedColumnAt_withColumn]; rfl)
            have hsame : column₂.Same column ↔
                column.Holds pos block ∧ column.HoldsEntity pos block := by
              have hmaps : BedrockChunkColumn.HoldsEntity { column with sections := sections } pos
                  block ↔ column.HoldsEntity pos block := Iff.rfl
              rw [← hholds, ← hmaps, ← hentity]
              constructor
              · intro h
                exact ⟨hsections.symm.trans h.sections,
                  ⟨hsections, h.blockEntities, h.blockEntityNbt⟩⟩
              · rintro ⟨hsame, h⟩
                exact ⟨hsections.trans hsame, h.blockEntities, h.blockEntityNbt⟩
            rw [failsCleanly_error_iff hload hload₂, hsame, hqueue, LeavesHalf]
            constructor
            · rintro ⟨⟨hholds, hentity⟩, hqueued⟩ ⟨-, -, ⟨hrefused, -⟩ | ⟨-, -, hno⟩⟩
              · exact haccepted hrefused
              · exact hno ⟨hholds, hentity, hqueued⟩
            · intro h
              obtain ⟨hholds, hentity, hqueued⟩ := by_contra fun hno ↦
                h ⟨hbiome, hreached, .inr ⟨haccepted, ⟨e, rfl⟩, hno⟩⟩
              exact ⟨⟨hholds, hentity⟩, hqueued⟩

/-- Of a write that throws something is left exactly when its height has a place, the palettes take
its states (with a registry, air is known or the section there), the states or lights are not there
already and the block entity is refused.  A world whose biome can be read leaves the same, and also
what a handler that throws finds done. -/
theorem setBlock_failsCleanly_iff (pos : BlockPosition) (block : BedrockBlock) (air : Option Int32)
    (handlers : Except String Unit) :
    (∀ column : BedrockChunkColumn, column.Reachable →
      (column.FailsCleanly (column.setBlockInPlace pos block) ↔
        ¬ (column.Takes pos block ∧ EntityRefused block ∧ ¬ column.Holds pos block)) ∧
      (column.FailsCleanly (column.setBlockFromInPlace pos block air) ↔
        ¬ ((column.Takes pos block ∧ ((column.getSection pos.y).isSome ∨ air.isSome)) ∧
          EntityRefused block ∧ ¬ column.Holds pos block))) ∧
    (∀ (world : BedrockWorld) (column : BedrockChunkColumn),
      world.getLoadedColumnAt pos = some column → column.Reachable →
      (world.FailsCleanly pos (world.setBlockInPlace pos block handlers) ↔
        ¬ ((∃ biomeId, column.getBiomeId pos = .ok biomeId) ∧ column.Takes pos block ∧
          world.LeavesHalf pos block handlers column)) ∧
      (world.FailsCleanly pos (world.setBlockFromInPlace pos block air handlers) ↔
        ¬ ((∃ biomeId, column.getBiomeId pos = .ok biomeId) ∧
          (column.Takes pos block ∧ ((column.getSection pos.y).isSome ∨ air.isSome)) ∧
          world.LeavesHalf pos block handlers column))) ∧
    ∀ world : BedrockWorld, world.getLoadedColumnAt pos = none →
      world.FailsCleanly pos (world.setBlockInPlace pos block handlers) ∧
        world.FailsCleanly pos (world.setBlockFromInPlace pos block air handlers) := by
  refine ⟨fun column h ↦ ?_, fun world column hload h ↦ ?_, fun world hload ↦ ?_⟩
  · exact ⟨(BedrockChunkColumn.writesBlock h.sound pos block).failsCleanly_iff,
      (BedrockChunkColumn.writesBlockFrom h.sound pos block air).failsCleanly_iff⟩
  · exact ⟨changeInPlace_loaded hload h.sound (BedrockChunkColumn.writesBlock h.sound pos block),
      changeInPlace_loaded hload h.sound (BedrockChunkColumn.writesBlockFrom h.sound pos block air)⟩
  · rw [setBlockInPlace, setBlockFromInPlace, changeInPlace, changeInPlace, hload]
    exact ⟨failsCleanly_ok world, failsCleanly_ok world⟩

def stone (entity : Option NbtDocument) : BedrockBlock :=
  { stateId := 5, light := 0, skyLight := 0, superimposed := none, entity }

/-- A byte of value 300. -/
def oversized : NbtDocument := ⟨[], { type := .byte, integerValue := 300 }⟩

/-- The lowest section is of stone. -/
def pavedColumn : BedrockChunkColumn :=
  { BedrockChunkColumn.new 0 0 with
    sections := (BedrockChunkColumn.new 0 0).sections.set 0 (some (.createAir 0 5)) }

/-- The column waits for the saving. -/
def pavedWorld : BedrockWorld where
  savesColumns := true
  columns := AList.insert (key 0 0) pavedColumn ∅
  savingQueue := AList.insert (key 0 0) (0, 0) ∅

/-- Where the stone is there already nothing is left of a call, though its entity is refused or
its handler throws. -/
theorem setBlock_failsCleanly_paved :
    let pos : BlockPosition := { x := 3, y := 7, z := 2 }
    let refused := pavedWorld.setBlockFromInPlace pos (stone (some oversized)) none (.ok ())
    let thrown := pavedWorld.setBlockFromInPlace pos (stone none) none (.error "listener")
    (refused.map fun run ↦ run.1.isOk) = some false ∧ pavedWorld.FailsCleanly pos refused ∧
      (thrown.map fun run ↦ run.1.isOk) = some false ∧ pavedWorld.FailsCleanly pos thrown := by
  intro pos refused thrown
  have hreachable : pavedColumn.Reachable :=
    @BedrockChunkColumn.Reachable.setSection _ _ 0 (.createAir 0 5) (.new 0 0) (.createAir 0 5) rfl
  have hload : pavedWorld.getLoadedColumnAt pos = some pavedColumn :=
    AList.lookup_insert ∅
  have hstate : (BedrockSubChunk.createAir 0 5).getBlockStateId 0 (localCoord pos.x)
      (localCoord pos.y) (localCoord pos.z) = .ok 5 := by decide +kernel
  have hlight : (BedrockSubChunk.createAir 0 5).getBlockLight (localCoord pos.x)
      (localCoord pos.y) (localCoord pos.z) = (stone none).light &&& 0x0f := by decide +kernel
  have hskyLight : (BedrockSubChunk.createAir 0 5).getSkyLight (localCoord pos.x)
      (localCoord pos.y) (localCoord pos.z) = (stone none).skyLight &&& 0x0f := by decide +kernel
  have hholds (entity : Option NbtDocument) : pavedColumn.Holds pos (stone entity) := by
    refine ⟨.createAir 0 5, rfl, fun w hw ↦ ?_, hlight, hskyLight⟩
    obtain rfl := List.mem_singleton.mp hw
    exact ⟨Nat.one_pos, hstate⟩
  refine ⟨by decide +kernel, ?_, by decide +kernel, ?_⟩
  · refine (((setBlock_failsCleanly_iff pos (stone (some oversized)) none (.ok ())).2.1
      pavedWorld pavedColumn hload hreachable).2).mpr ?_
    rintro ⟨-, -, ⟨-, hno⟩ | ⟨-, ⟨e, he⟩, -⟩⟩
    · exact hno (hholds _)
    · cases he
  · refine (((setBlock_failsCleanly_iff pos (stone none) none (.error "listener")).2.1
      pavedWorld pavedColumn hload hreachable).2).mpr ?_
    rintro ⟨-, -, ⟨-, hno⟩ | ⟨-, -, hno⟩⟩
    · exact hno (hholds _)
    · refine hno ⟨hholds _, fun tag htag ↦ ?_, fun _ ↦ by decide⟩
      cases htag

/-- The block stays without its entity. -/
theorem setBlock_fails_half :
    ¬ (BedrockChunkColumn.new 0 0).FailsCleanly ((BedrockChunkColumn.new 0 0).setBlockInPlace
      { x := 0, y := 0, z := 0 } (stone (some oversized))) := by
  have hsound := (BedrockChunkColumn.Reachable.new 0 0).sound
  rw [(BedrockChunkColumn.writesBlock hsound _ _).failsCleanly_iff, not_not]
  have hempty : ((BedrockChunkColumn.new 0 0).sectionAt 0).layers = [] := rfl
  refine ⟨⟨rfl, BedrockChunkColumn.takesStates_of_length ?_⟩, ⟨_, rfl, _, rfl⟩, ?_⟩
  · rw [hempty]
    simp
  · rintro ⟨sub, hsub, -⟩
    cases hsub

end BedrockWorld

end BedrockProtocol
