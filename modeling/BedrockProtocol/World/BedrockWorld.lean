import BedrockProtocol.World.ColumnBiomes

/-!
# The world

`BedrockWorld` of `BedrockChunk.cpp`: the loaded columns by chunk, those that have
changed since they were saved and those that wait for the saving to be unloaded.
The callbacks are the events of an operation, in their order.
-/

namespace BedrockProtocol

/-- What a signed 32-bit operation leaves of its value.  An overflow is undefined in the
code and wraps here. -/
def wrap32 (value : ℤ) : ℤ := value.bmod (2 ^ 32)

structure BedrockWorldBlockSnapshot where
  position : BlockPosition
  stateId : Int32 := 0
  blockLight : UInt8 := 0
  skyLight : UInt8 := 0
  biomeId : UInt32 := 0
  blockEntity : Option NbtDocument := none

inductive BedrockWorldEvent where
  | columnLoad (chunkX chunkZ : ℤ) (column : BedrockChunkColumn)
  | columnUnload (chunkX chunkZ : ℤ) (column : BedrockChunkColumn)
  | saveColumn (chunkX chunkZ : ℤ) (column : BedrockChunkColumn)
  | blockUpdate (oldBlock newBlock : BedrockWorldBlockSnapshot)
  | doneSaving

structure BedrockWorld where
  /-- The option `saveColumn` is set. -/
  savesColumns : Bool
  columns : AList fun _ : Text ↦ BedrockChunkColumn := ∅
  savingQueue : AList fun _ : Text ↦ ℤ × ℤ := ∅
  unloadQueue : AList fun _ : Text ↦ ℤ × ℤ := ∅

namespace BedrockChunkColumn

variable (column : BedrockChunkColumn)

def getBlockLight (pos : BlockPosition) : Except String UInt8 :=
  match column.getSection pos.y with
  | none => .error "block-light section is not loaded"
  | some found => .ok (found.getBlockLight (localCoord pos.x) (localCoord pos.y) (localCoord pos.z))

def getSkyLight (pos : BlockPosition) : Except String UInt8 :=
  match column.getSection pos.y with
  | none => .error "sky-light section is not loaded"
  | some found => .ok (found.getSkyLight (localCoord pos.x) (localCoord pos.y) (localCoord pos.z))

def getBlockEntityNbt (pos : BlockPosition) : Option NbtDocument :=
  column.blockEntityNbt.lookup (blockEntityKey pos)

/-- What `BedrockWorld::getBlock` reads of the column. -/
def snapshot (pos : BlockPosition) : Except String BedrockWorldBlockSnapshot := do
  let stateId ← column.getBlockStateId pos
  let biomeId ← column.getBiomeId pos
  let blockEntity := column.getBlockEntityNbt pos
  if (column.getSection pos.y).isSome then
    let blockLight ← column.getBlockLight pos
    let skyLight ← column.getSkyLight pos
    pure { position := pos, stateId, blockLight, skyLight, biomeId, blockEntity }
  else pure { position := pos, stateId, biomeId, blockEntity }

end BedrockChunkColumn

namespace BedrockWorld

def key (chunkX chunkZ : ℤ) : Text := decimalInt chunkX ++ txt "," ++ decimalInt chunkZ

/-- The chunk of a block coordinate, with the division of C++. -/
def chunkCoord (blockCoord : ℤ) : ℤ :=
  if 0 ≤ blockCoord then blockCoord.tdiv 16
  else -(wrap32 (wrap32 (-blockCoord) + 15)).tdiv 16

variable (world : BedrockWorld)

/-! ## Columns -/

def getLoadedColumn (chunkX chunkZ : ℤ) : Option BedrockChunkColumn :=
  world.columns.lookup (key chunkX chunkZ)

def hasColumn (chunkX chunkZ : ℤ) : Bool := (world.getLoadedColumn chunkX chunkZ).isSome

def getLoadedColumnAt (pos : BlockPosition) : Option BedrockChunkColumn :=
  world.getLoadedColumn (chunkCoord pos.x) (chunkCoord pos.z)

/-! ## Saving and unloading -/

def queueSaving (chunkX chunkZ : ℤ) : BedrockWorld :=
  if world.savesColumns = false ∨ world.hasColumn chunkX chunkZ = false then world
  else
    { world with savingQueue := world.savingQueue.insert (key chunkX chunkZ) (chunkX, chunkZ) }

def saveAt (pos : BlockPosition) : BedrockWorld :=
  world.queueSaving (chunkCoord pos.x) (chunkCoord pos.z)

def setLoadedColumn (chunkX chunkZ : ℤ) (column : BedrockChunkColumn) (save : Bool) :
    BedrockWorld × List BedrockWorldEvent :=
  let world := { world with columns := world.columns.insert (key chunkX chunkZ) column }
  (if save ∧ world.savesColumns then world.queueSaving chunkX chunkZ else world,
    [.columnLoad chunkX chunkZ column])

def setColumn (chunkX chunkZ : ℤ) (column : BedrockChunkColumn) (save : Bool) :
    BedrockWorld × List BedrockWorldEvent :=
  world.setLoadedColumn chunkX chunkZ column save

/-- `getColumn`, given what the loader and the generator return for the chunk. -/
def getColumn (chunkX chunkZ : ℤ) (loaded generated : Option BedrockChunkColumn) :
    BedrockWorld × List BedrockWorldEvent :=
  match world.getLoadedColumn chunkX chunkZ with
  | some _ => (world, [])
  | none =>
      match loaded with
      | some column => world.setLoadedColumn chunkX chunkZ column false
      | none =>
          match generated with
          | some column => world.setLoadedColumn chunkX chunkZ column true
          | none => (world, [])

def forceUnloadColumn (chunkX chunkZ : ℤ) : BedrockWorld × List BedrockWorldEvent :=
  ({ world with
      columns := world.columns.erase (key chunkX chunkZ)
      savingQueue := world.savingQueue.erase (key chunkX chunkZ)
      unloadQueue := world.unloadQueue.erase (key chunkX chunkZ) },
    match world.getLoadedColumn chunkX chunkZ with
    | none => []
    | some column => [.columnUnload chunkX chunkZ column])

def unloadColumn (chunkX chunkZ : ℤ) : BedrockWorld × List BedrockWorldEvent :=
  if world.hasColumn chunkX chunkZ = false then (world, [])
  else if world.savesColumns ∧ key chunkX chunkZ ∈ world.savingQueue then
    ({ world with unloadQueue := world.unloadQueue.insert (key chunkX chunkZ) (chunkX, chunkZ) },
      [])
  else world.forceUnloadColumn chunkX chunkZ

/-- The call of `saveColumn` for one element of the queue, whose column may be gone. -/
def saveEvents (item : Sigma fun _ : Text ↦ ℤ × ℤ) : List BedrockWorldEvent :=
  match world.columns.lookup item.1 with
  | none => []
  | some column => [.saveColumn item.2.1 item.2.2 column]

/-- The loop over the columns that waited for the saving. -/
def forceUnloadAll : List (Sigma fun _ : Text ↦ ℤ × ℤ) → BedrockWorld →
    BedrockWorld × List BedrockWorldEvent
  | [], world => (world, [])
  | item :: unloads, world =>
      let (world, events) := world.forceUnloadColumn item.2.1 item.2.2
      let (world, later) := forceUnloadAll unloads world
      (world, events ++ later)

/-- `saveNow`, given the elements of both queues in the order of their hash tables. -/
def saveNow (queue unloads : List (Sigma fun _ : Text ↦ ℤ × ℤ)) :
    BedrockWorld × List BedrockWorldEvent :=
  if queue = [] ∨ world.savesColumns = false then (world, [])
  else
    let saves := queue.flatMap world.saveEvents
    let savingQueue := queue.foldl (fun queued item ↦ queued.erase item.1) world.savingQueue
    let world := { world with savingQueue }
    let (world, removals) := forceUnloadAll unloads world
    (world, saves ++ (removals ++ [.doneSaving]))

/-! ## Blocks -/

def getBlock (pos : BlockPosition) : Except String (Option BedrockWorldBlockSnapshot) :=
  match world.getLoadedColumnAt pos with
  | none => .ok none
  | some column => some <$> column.snapshot pos

def getBlockStateId (pos : BlockPosition) : Except String Int32 :=
  match world.getLoadedColumnAt pos with
  | none => .ok 0
  | some column => column.getBlockStateId pos

/-- What the setters of a block share: nothing happens where no column is loaded. -/
def change (pos : BlockPosition)
    (set : BedrockChunkColumn → Except String BedrockChunkColumn) :
    Except String (BedrockWorld × List BedrockWorldEvent) :=
  match world.getLoadedColumnAt pos with
  | none => .ok (world, [])
  | some column => do
      let oldBlock ← column.snapshot pos
      let column ← set column
      let world :=
        { world with
          columns := world.columns.insert (key (chunkCoord pos.x) (chunkCoord pos.z)) column }
      let world := world.saveAt pos
      let newBlock ← column.snapshot pos
      pure (world, [.blockUpdate oldBlock newBlock])

def setBlock (pos : BlockPosition) (block : BedrockBlock) :
    Except String (BedrockWorld × List BedrockWorldEvent) :=
  world.change pos fun column ↦ column.setBlock pos block

/-- `setBlock` with a registry, of which the state of air matters. -/
def setBlockFrom (pos : BlockPosition) (block : BedrockBlock) (air : Option Int32) :
    Except String (BedrockWorld × List BedrockWorldEvent) :=
  world.change pos fun column ↦ column.setBlockFrom pos block air

def setBlockStateId (pos : BlockPosition) (stateId : Int32) :
    Except String (BedrockWorld × List BedrockWorldEvent) :=
  world.change pos fun column ↦ column.setBlockStateId pos stateId

def setBlockLight (pos : BlockPosition) (value : UInt8) :
    Except String (BedrockWorld × List BedrockWorldEvent) :=
  world.change pos fun column ↦ column.setBlockLight pos value

def setSkyLight (pos : BlockPosition) (value : UInt8) :
    Except String (BedrockWorld × List BedrockWorldEvent) :=
  world.change pos fun column ↦ column.setSkyLight pos value

def setBiomeId (pos : BlockPosition) (biomeId : UInt32) :
    Except String (BedrockWorld × List BedrockWorldEvent) :=
  world.change pos fun column ↦ column.setBiomeId pos biomeId

/-! ## Addresses -/

theorem key_inj {x z x' z' : ℤ} : key x z = key x' z' ↔ x = x' ∧ z = z' := by
  have hcomma : txt "," = [0x2c] := by decide
  simp only [key, hcomma, List.append_assoc, List.singleton_append]
  rw [List.append_cons_inj_of_notMem (comma_not_mem_decimalInt x) (comma_not_mem_decimalInt z)]
  rw [decimalInt_injective.eq_iff, decimalInt_injective.eq_iff]
  exact ⟨fun ⟨hx, _, hz⟩ ↦ ⟨hx, hz⟩, fun ⟨hx, hz⟩ ↦ ⟨hx, rfl, hz⟩⟩

/-- The values that `chunkCoord` goes through. -/
def chunkSteps (blockCoord : ℤ) : List ℤ :=
  if 0 ≤ blockCoord then [blockCoord.tdiv 16]
  else
    [-blockCoord, -blockCoord + 15, (-blockCoord + 15).tdiv 16, -(-blockCoord + 15).tdiv 16]

/-- Only the sixteen lowest coordinates overflow. -/
theorem chunkSteps_inSigned_iff {b : ℤ} (hb : InSigned 32 b) :
    (∀ v ∈ chunkSteps b, InSigned 32 v) ↔ -2 ^ 31 + 16 ≤ b := by
  simp only [InSigned] at hb ⊢
  rw [chunkSteps]
  by_cases hpos : 0 ≤ b
  · rw [if_pos hpos, Int.tdiv_eq_ediv_of_nonneg hpos]
    simp only [List.mem_singleton, forall_eq]
    omega
  · rw [if_neg hpos, Int.tdiv_eq_ediv_of_nonneg (by omega)]
    simp only [List.mem_cons, List.not_mem_nil, or_false, forall_eq_or_imp, forall_eq]
    omega

theorem wrap32_of_inSigned {v : ℤ} (h : InSigned 32 v) : wrap32 v = v := by
  simp only [InSigned] at h
  rw [wrap32, Int.bmod_eq_of_le] <;> omega

/-- Without an overflow the division rounds down. -/
theorem chunkCoord_eq {b : ℤ} (hb : InSigned 32 b) (hlow : -2 ^ 31 + 16 ≤ b) :
    chunkCoord b = b / 16 := by
  have hsteps := (chunkSteps_inSigned_iff hb).mpr hlow
  rw [chunkSteps] at hsteps
  rw [chunkCoord]
  by_cases hpos : 0 ≤ b
  · rw [if_pos hpos, Int.tdiv_eq_ediv_of_nonneg hpos]
  · rw [if_neg hpos] at hsteps ⊢
    have hneg : wrap32 (-b) = -b := wrap32_of_inSigned (hsteps _ (by simp))
    have hsum : wrap32 (-b + 15) = -b + 15 := wrap32_of_inSigned (hsteps _ (by simp))
    rw [hneg, hsum, Int.tdiv_eq_ediv_of_nonneg (by omega)]
    omega

/-- The same block of the same layer. -/
def SameWorldBlock (p q : BlockPosition) : Prop :=
  p.x = q.x ∧ p.y = q.y ∧ p.z = q.z ∧ p.layer.getD 0 = q.layer.getD 0

/-- The arithmetic on both positions stays within 32 bits, the block that is written at
one reads back and the block at the other does not change. -/
def Addresses (world : BedrockWorld) (pos other : BlockPosition) (stateId : Int32) : Prop :=
  (∀ b ∈ [pos.x, pos.z, other.x, other.z], ∀ v ∈ chunkSteps b, InSigned 32 v) ∧
  ∃ world' events, world.setBlockStateId pos stateId = .ok (world', events) ∧
    world'.getBlockStateId pos = .ok stateId ∧
    world'.getBlockStateId other = world.getBlockStateId other

theorem saveAt_columns (world : BedrockWorld) (pos : BlockPosition) :
    (world.saveAt pos).columns = world.columns := by
  rw [saveAt, queueSaving]
  split <;> rfl

/-- A setter that succeeds has read the column before and after. -/
theorem change_eq_ok {world world' : BedrockWorld} {pos : BlockPosition}
    {set : BedrockChunkColumn → Except String BedrockChunkColumn} {column : BedrockChunkColumn}
    {events : List BedrockWorldEvent} (hload : world.getLoadedColumnAt pos = some column) :
    world.change pos set = .ok (world', events) ↔
      ∃ oldBlock column' newBlock, column.snapshot pos = .ok oldBlock ∧
        set column = .ok column' ∧ column'.snapshot pos = .ok newBlock ∧
        world' = saveAt { world with
          columns := world.columns.insert (key (chunkCoord pos.x) (chunkCoord pos.z)) column' }
            pos ∧ events = [.blockUpdate oldBlock newBlock] := by
  rw [change, hload]
  dsimp only
  constructor
  · intro hrun
    obtain ⟨oldBlock, hold, hrun⟩ := bind_eq_ok.mp hrun
    obtain ⟨column', hset, hrun⟩ := bind_eq_ok.mp hrun
    obtain ⟨newBlock, hnew, hrun⟩ := bind_eq_ok.mp hrun
    obtain ⟨rfl, rfl⟩ := Prod.mk.inj (Except.ok.inj hrun)
    exact ⟨oldBlock, column', newBlock, hold, hset, hnew, rfl, rfl⟩
  · rintro ⟨oldBlock, column', newBlock, hold, hset, hnew, rfl, rfl⟩
    rw [hold, ok_bind, hset, ok_bind, hnew, ok_bind]
    rfl

theorem exists_snapshot_iff {column : BedrockChunkColumn} (h : column.Sound) (pos : BlockPosition) :
    (∃ block, column.snapshot pos = .ok block) ↔ ∃ biomeId, column.getBiomeId pos = .ok biomeId := by
  have hstate : ∃ stateId, column.getBlockStateId pos = .ok stateId := by
    have hlt := ((h.sectionAt pos.y).layerAt (pos.layer.getD 0)).get_lt (localCoord pos.x)
      (localCoord pos.y) (localCoord pos.z)
    rw [BedrockChunkColumn.getBlockStateId_eq_sectionAt, BedrockSubChunk.getBlockStateId_eq_layerAt,
      Layer.getBlockStateId, List.getElem?_eq_getElem hlt]
    exact ⟨_, rfl⟩
  obtain ⟨stateId, hstate⟩ := hstate
  rw [BedrockChunkColumn.snapshot, hstate, ok_bind]
  constructor
  · rintro ⟨block, hblock⟩
    obtain ⟨biomeId, hbiome, -⟩ := bind_eq_ok.mp hblock
    exact ⟨biomeId, hbiome⟩
  · rintro ⟨biomeId, hbiome⟩
    rw [hbiome, ok_bind]
    dsimp only
    cases hsection : column.getSection pos.y with
    | none =>
        rw [if_neg (by simp)]
        exact ⟨_, rfl⟩
    | some found =>
        rw [if_pos (by simp), BedrockChunkColumn.getBlockLight, hsection,
          BedrockChunkColumn.getSkyLight, hsection]
        exact ⟨_, rfl⟩

/-- Blocks and biomes of a column do not meet. -/
theorem getBiomeId_setBlockStateId {column column' : BedrockChunkColumn} {pos : BlockPosition}
    {stateId : Int32} (hrun : column.setBlockStateId pos stateId = .ok column')
    (other : BlockPosition) : column'.getBiomeId other = column.getBiomeId other := by
  obtain ⟨place, -, hset⟩ := bind_eq_ok.mp hrun
  obtain ⟨sub, -, hcolumn⟩ := bind_eq_ok.mp hset
  obtain rfl := Except.ok.inj hcolumn
  rfl

/-- Without an overflow, positions of one chunk that have the same place in it are the
same. -/
theorem sameWorldBlock_of_sameBlock {pos other : BlockPosition}
    (hx : chunkCoord other.x = chunkCoord pos.x) (hz : chunkCoord other.z = chunkCoord pos.z)
    (hdiv : ∀ b ∈ [pos.x, pos.z, other.x, other.z], chunkCoord b = b / 16)
    (hsame : BedrockChunkColumn.SameBlock other pos) : SameWorldBlock pos other := by
  obtain ⟨hlowX, hy, hlowZ, hlayer⟩ := hsame
  have hpx := hdiv pos.x (by simp)
  have hpz := hdiv pos.z (by simp)
  have hox := hdiv other.x (by simp)
  have hoz := hdiv other.z (by simp)
  exact ⟨by omega, hy.symm, by omega, hlayer.symm⟩

/-- What a successful write at a position of a loaded column does to every read, where
no coordinate overflows. -/
theorem getBlockStateId_setBlockStateId {world world' : BedrockWorld} {pos other : BlockPosition}
    {column : BedrockChunkColumn} {stateId : Int32} {events : List BedrockWorldEvent}
    (hload : world.getLoadedColumnAt pos = some column) (h : column.Sound)
    (hrun : world.setBlockStateId pos stateId = .ok (world', events)) :
    world'.getBlockStateId pos = .ok stateId ∧
      ((∀ b ∈ [pos.x, pos.z, other.x, other.z], chunkCoord b = b / 16) →
        ¬ SameWorldBlock pos other →
        world'.getBlockStateId other = world.getBlockStateId other) := by
  obtain ⟨_, column', _, -, hset, -, rfl, -⟩ := (change_eq_ok hload).mp hrun
  have hwrite := fun block ↦ h.getBlockStateId_setBlockStateId hset block
  constructor
  · rw [getBlockStateId, getLoadedColumnAt, getLoadedColumn, saveAt_columns, AList.lookup_insert]
    dsimp only
    rw [hwrite, if_pos ⟨rfl, rfl, rfl, rfl⟩]
  · intro hdiv hne
    rw [getBlockStateId, getLoadedColumnAt, getLoadedColumn, saveAt_columns]
    by_cases hchunk : key (chunkCoord other.x) (chunkCoord other.z) =
        key (chunkCoord pos.x) (chunkCoord pos.z)
    · obtain ⟨hx, hz⟩ := key_inj.mp hchunk
      have hother : ¬ BedrockChunkColumn.SameBlock other pos :=
        fun hsame ↦ hne (sameWorldBlock_of_sameBlock hx hz hdiv hsame)
      have hload' : world.getLoadedColumnAt other = some column := by
        rw [getLoadedColumnAt, hx, hz]
        exact hload
      rw [hchunk, AList.lookup_insert, getBlockStateId, hload']
      dsimp only
      rw [hwrite, if_neg hother]
    · rw [AList.lookup_insert_ne hchunk]
      rfl

/-- Blocks are addressed injectively exactly when no coordinate is one of the sixteen
lowest, the biome at the position can be read and its column takes the write. -/
theorem addresses_iff {world : BedrockWorld} {pos other : BlockPosition}
    {column : BedrockChunkColumn} (stateId : Int32)
    (hload : world.getLoadedColumnAt pos = some column) (h : column.Reachable)
    (hcoords : ∀ b ∈ [pos.x, pos.z, other.x, other.z], InSigned 32 b)
    (hlow : 16 * column.minCY ≤ pos.y) (hhigh : pos.y < 16 * column.maxCY)
    (hne : ¬ SameWorldBlock pos other) :
    world.Addresses pos other stateId ↔
      (∀ b ∈ [pos.x, pos.z, other.x, other.z], -2 ^ 31 + 16 ≤ b) ∧
      (∃ biomeId, column.getBiomeId pos = .ok biomeId) ∧
      (column.minCY ≤ 0 ∨ pos.y / 16 + 2 * column.minCY < column.maxCY) ∧
      ((column.sectionAt pos.y).layerAt (pos.layer.getD 0)).Settable stateId := by
  have hsound := h.sound
  rw [← hsound.hasPlace_iff_bounds hlow hhigh, ← hsound.exists_setBlockStateId_iff,
    ← exists_snapshot_iff hsound]
  have hsteps : (∀ b ∈ [pos.x, pos.z, other.x, other.z], ∀ v ∈ chunkSteps b, InSigned 32 v) ↔
      ∀ b ∈ [pos.x, pos.z, other.x, other.z], -2 ^ 31 + 16 ≤ b :=
    forall₂_congr fun b hb ↦ chunkSteps_inSigned_iff (hcoords b hb)
  rw [Addresses, hsteps]
  refine and_congr_right fun hcoarse ↦ ?_
  constructor
  · rintro ⟨world', events, hrun, -, -⟩
    obtain ⟨oldBlock, column', -, hold, hset, -, -, -⟩ := (change_eq_ok hload).mp hrun
    exact ⟨⟨oldBlock, hold⟩, column', hset⟩
  · rintro ⟨⟨oldBlock, hold⟩, column', hset⟩
    have hnew : ∃ newBlock, column'.snapshot pos = .ok newBlock := by
      rw [exists_snapshot_iff (hsound.setBlockStateId hset), getBiomeId_setBlockStateId hset,
        ← exists_snapshot_iff hsound]
      exact ⟨oldBlock, hold⟩
    obtain ⟨newBlock, hnew⟩ := hnew
    have hrun : world.setBlockStateId pos stateId = .ok (_, _) :=
      (change_eq_ok hload).mpr ⟨oldBlock, column', newBlock, hold, hset, hnew, rfl, rfl⟩
    obtain ⟨hread, hframe⟩ := @getBlockStateId_setBlockStateId _ _ pos other _ stateId _ hload
      hsound hrun
    exact ⟨_, _, hrun, hread,
      hframe (fun b hb ↦ chunkCoord_eq (hcoords b hb) (hcoarse b hb)) hne⟩

theorem addresses_negative :
    let world : BedrockWorld :=
      { savesColumns := true
        columns := .insert (key (-1) 0) (.new (-1) 0) (.insert (key (-2) 0) (.new (-2) 0) ∅) }
    (world.getLoadedColumnAt { x := -17, y := 70, z := 2 }).isSome ∧
      world.Addresses { x := -1, y := 70, z := 2 } { x := -17, y := 70, z := 2 } 9 := by
  refine ⟨rfl, (addresses_iff 9 rfl (.new (-1) 0) (by decide) (by decide) (by decide) ?_).mpr
    ⟨by decide, ⟨0, rfl⟩, .inl (by decide), .inr (by decide)⟩⟩
  unfold SameWorldBlock
  decide

/-- The lowest block coordinate has no 32-bit negation.  Where it wraps, the block is in the
column of the highest one. -/
theorem lowest_block_overflows :
    let world : BedrockWorld :=
      { savesColumns := true, columns := .insert (key (2 ^ 27 - 1) 0) (.new (2 ^ 27 - 1) 0) ∅ }
    (world.getLoadedColumnAt { x := -2 ^ 31, y := 0, z := 0 }).isSome ∧
      chunkCoord (-2 ^ 31) = chunkCoord (2 ^ 31 - 16) ∧
      ¬ world.Addresses { x := -2 ^ 31, y := 0, z := 0 } { x := 2 ^ 31 - 16, y := 0, z := 0 } 9 := by
  refine ⟨rfl, by decide, ?_⟩
  rintro ⟨hsteps, -⟩
  have hneg := hsteps (-2 ^ 31) (by decide) (2 ^ 31) (by decide)
  revert hneg
  decide

end BedrockWorld

end BedrockProtocol
