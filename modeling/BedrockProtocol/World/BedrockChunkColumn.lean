import BedrockProtocol.World.BedrockBiomeSection
import Mathlib.Data.List.AList

/-!
# Chunk columns

`BedrockChunkColumn` and `BedrockLevelChunkCodec` of `BedrockChunk.cpp`: the
sections of a column, its biomes and its block entities, and their level-chunk
encoding.  Coordinates are 32-bit integers in the code and integers here: only
bounds beyond `2 ^ 27`, for which `minCY_ * 16` is undefined, would overflow.
-/

namespace BedrockProtocol

structure BlockPosition where
  x : ℤ
  y : ℤ
  z : ℤ
  layer : Option UInt8 := none
  deriving DecidableEq, Repr

structure BedrockBlock where
  stateId : Int32
  light : UInt8
  skyLight : UInt8
  /-- The state of the superimposed block. -/
  superimposed : Option Int32
  entity : Option NbtDocument

structure BedrockChunkColumn where
  x : ℤ
  z : ℤ
  minCY : ℤ
  maxCY : ℤ
  sections : List (Option BedrockSubChunk)
  biomes : List BedrockBiomeSection
  /-- The encoded tag of every block entity. -/
  blockEntities : AList fun _ : Text ↦ List UInt8 := ∅
  blockEntityNbt : AList fun _ : Text ↦ NbtDocument := ∅

/-- The four low bits of a coordinate. -/
def localCoord (value : ℤ) : UInt8 := UInt8.ofNat (value % 16).toNat

/-- The element at a signed index. -/
def slot {α : Type} (items : List α) (index : ℤ) : Option α :=
  if index < 0 then none else items[index.toNat]?

theorem toNat_localCoord (value : ℤ) : (localCoord value).toNat = (value % 16).toNat := by
  rw [localCoord, toNat_ofNat_of_lt (by omega)]

theorem shiftRight_four (y : ℤ) : y >>> (4 : ℕ) = y / 16 := Int.shiftRight_eq_div_pow y 4

theorem slot_eq_some {α : Type} {items : List α} {index : ℤ} {a : α}
    (h : slot items index = some a) : 0 ≤ index ∧ items[index.toNat]? = some a := by
  unfold slot at h
  split at h
  · cases h
  · exact ⟨by omega, h⟩

theorem slot_of_lt {α : Type} {items : List α} {index : ℤ} (hpos : 0 ≤ index)
    (hlt : index.toNat < items.length) : slot items index = some items[index.toNat] := by
  rw [slot, if_neg (by omega), List.getElem?_eq_getElem hlt]

/-- An index finds something when it is not negative and below the length. -/
theorem slot_isSome_iff {α : Type} {items : List α} {index : ℤ} :
    (slot items index).isSome ↔ 0 ≤ index ∧ index < items.length := by
  unfold slot
  split
  · simp
    omega
  · rw [isSome_getElem?]
    omega

def blockEntityKey (pos : BlockPosition) : Text :=
  decimalInt (pos.x % 16) ++ txt "," ++ decimalInt pos.y ++ txt "," ++ decimalInt (pos.z % 16)

/-- One coordinate of a block entity, which the tag holds in any integer type. -/
def coordinate (tag : NbtDocument) (name : String) : Except String ℤ :=
  match tag.root.find (txt name) with
  | none => .error ("block-entity NBT is missing int " ++ name)
  | some value =>
      if value.type ∈ [.byte, .short, .int, .long] ∧ InSigned 32 value.integerValue.toInt then
        .ok value.integerValue.toInt
      else .error ("block-entity NBT is missing int " ++ name)

def blockEntityPosition (tag : NbtDocument) : Except String BlockPosition :=
  if tag.root.type ≠ .compound then .error "block-entity NBT root must be a compound"
  else do
    let x ← coordinate tag "x"
    let y ← coordinate tag "y"
    let z ← coordinate tag "z"
    pure { x, y, z }

namespace BedrockChunkColumn

variable (column : BedrockChunkColumn)

/-! ## Bounds and sections -/

/-- The empty column between two section heights. -/
def withBounds (minCY maxCY : ℤ) : BedrockChunkColumn :=
  { column with
    minCY, maxCY
    sections := List.replicate (maxCY - minCY).toNat none
    biomes := (List.range (maxCY - minCY).toNat).map fun i : ℕ ↦ { y := minCY + i } }

def setBounds (minCY maxCY : ℤ) : Except String BedrockChunkColumn :=
  if maxCY ≤ minCY then .error "maxCY must be greater than minCY"
  else .ok (column.withBounds minCY maxCY)

/-- The constructor. -/
def new (x z : ℤ) : BedrockChunkColumn :=
  withBounds { x, z, minCY := 0, maxCY := 0, sections := [], biomes := [] } 0 16

/-- `co_`: the index of the section at height 0. -/
def co : ℤ := column.minCY.natAbs

def getSection (blockY : ℤ) : Option BedrockSubChunk :=
  (slot column.sections (column.co + blockY >>> (4 : ℕ))).join

/-- The section of a block, a new one without layers if it is missing, and its
index. -/
def ensureSection (blockY : ℤ) : Except String (ℕ × BedrockSubChunk) :=
  let sectionY := blockY >>> (4 : ℕ)
  match slot column.sections (column.co + sectionY) with
  | none => .error "block Y outside chunk bounds"
  | some found =>
      .ok ((column.co + sectionY).toNat,
        found.getD { y := Int8.ofInt sectionY, subChunkVersion := 9 })

def setSection (sectionY : ℤ) (sub : BedrockSubChunk) : Except String BedrockChunkColumn :=
  match slot column.sections (column.co + sectionY) with
  | none => .error "section Y outside chunk bounds"
  | some _ =>
      .ok { column with
        sections := column.sections.set (column.co + sectionY).toNat
          (some (sub.setY (Int8.ofInt sectionY))) }

/-! ## Blocks and light -/

def getBlockStateId (pos : BlockPosition) : Except String Int32 :=
  match column.getSection pos.y with
  | none => .ok 0
  | some found =>
      found.getBlockStateId (pos.layer.getD 0) (localCoord pos.x) (localCoord pos.y)
        (localCoord pos.z)

/-- Replace the section at `index` by what a block of it was set to. -/
def setInSection (index : ℕ) (found : BedrockSubChunk) (pos : BlockPosition) (layer : UInt8)
    (stateId : Int32) : Except String BedrockChunkColumn := do
  let found ← found.setBlockStateId layer (localCoord pos.x) (localCoord pos.y) (localCoord pos.z)
    stateId
  pure { column with sections := column.sections.set index (some found) }

def setBlockStateId (pos : BlockPosition) (stateId : Int32) : Except String BedrockChunkColumn := do
  let (index, found) ← column.ensureSection pos.y
  column.setInSection index found pos (pos.layer.getD 0) stateId

/-- A change of the section of a block, which has to be there. -/
def modifySection (blockY : ℤ) (missing : String) (f : BedrockSubChunk → BedrockSubChunk) :
    Except String BedrockChunkColumn :=
  match column.getSection blockY with
  | none => .error missing
  | some found =>
      .ok { column with
        sections := column.sections.set (column.co + blockY >>> (4 : ℕ)).toNat (some (f found)) }

def setBlockLight (pos : BlockPosition) (value : UInt8) : Except String BedrockChunkColumn :=
  column.modifySection pos.y "block-light section is not loaded" fun found ↦
    found.setBlockLight (localCoord pos.x) (localCoord pos.y) (localCoord pos.z) value

def setSkyLight (pos : BlockPosition) (value : UInt8) : Except String BedrockChunkColumn :=
  column.modifySection pos.y "sky-light section is not loaded" fun found ↦
    found.setSkyLight (localCoord pos.x) (localCoord pos.y) (localCoord pos.z) value

/-! ## Block entities -/

def setBlockEntityNbt (pos : BlockPosition) (tag : NbtDocument) :
    Except String BedrockChunkColumn := do
  let bytes ← BedrockNbt.write .littleVarInt {} tag
  pure { column with
    blockEntities := column.blockEntities.insert (blockEntityKey pos) bytes
    blockEntityNbt := column.blockEntityNbt.insert (blockEntityKey pos) tag }

def addBlockEntity (tag : NbtDocument) : Except String BedrockChunkColumn := do
  let pos ← blockEntityPosition tag
  column.setBlockEntityNbt pos tag

def setBlock (pos : BlockPosition) (block : BedrockBlock) : Except String BedrockChunkColumn := do
  let column ← match pos.layer with
    | some _ => column.setBlockStateId pos block.stateId
    | none => do
        let column ← column.setBlockStateId pos block.stateId
        match block.superimposed with
        | none => pure column
        | some stateId => column.setBlockStateId { pos with layer := some 1 } stateId
  let column ← column.setBlockLight pos block.light
  let column ← column.setSkyLight pos block.skyLight
  match block.entity with
  | none => pure column
  | some entity => column.setBlockEntityNbt pos entity

/-- `setBlock` with a registry, which matters for the state of its air block. -/
def setBlockFrom (pos : BlockPosition) (block : BedrockBlock) (air : Option Int32) :
    Except String BedrockChunkColumn := do
  let column ← match column.getSection pos.y with
    | some _ => pure column
    | none =>
        match air with
        | none => throw "Bedrock block registry does not contain air"
        | some stateId =>
            column.setSection (pos.y >>> (4 : ℕ))
              (.createAir (Int8.ofInt (pos.y >>> (4 : ℕ))) stateId)
  column.setBlock pos block

/-! ## Biomes -/

/-- The nearest section from `index` down that is no proxy. -/
def biomeIndex (biomes : List BedrockBiomeSection) : ℕ → ℕ
  | 0 => 0
  | index + 1 =>
      if (biomes[index + 1]?).any BedrockBiomeSection.proxy then biomeIndex biomes index
      else index + 1

/-- Only the four low bits of a coordinate matter. -/
theorem getBiomeId_localCoord (area : BedrockBiomeSection) (x y z : UInt8) :
    area.getBiomeId (localCoord x.toNat) (localCoord y.toNat) (localCoord z.toNat) =
      area.getBiomeId x y z := by
  have hindex : PalettedStorage.blockIndex (localCoord x.toNat) (localCoord y.toNat)
      (localCoord z.toNat) = PalettedStorage.blockIndex x y z := by
    rw [PalettedStorage.blockIndex_eq_iff, toNat_localCoord, toNat_localCoord, toNat_localCoord]
    omega
  unfold BedrockBiomeSection.getBiomeId PalettedStorage.get
  rw [hindex]

def getBiomeId (pos : BlockPosition) : Except String UInt32 :=
  let index := column.co + pos.y >>> (4 : ℕ)
  match slot column.biomes index with
  | none => .ok 0
  | some _ =>
      match column.biomes[biomeIndex column.biomes index.toNat]? with
      | none => .ok 0
      | some area => area.getBiomeId (localCoord pos.x) (localCoord pos.y) (localCoord pos.z)

def setBiomeId (pos : BlockPosition) (biomeId : UInt32) : Except String BedrockChunkColumn :=
  let index := column.co + pos.y >>> (4 : ℕ)
  match slot column.biomes index with
  | none => .error "biome Y outside chunk bounds"
  | some found => do
      let area :=
        if found.proxy ∧ 0 < index then
          ((column.biomes[index.toNat - 1]?).getD found).setProxy false
        else found
      let area ← area.setBiomeId (localCoord pos.x) (localCoord pos.y) (localCoord pos.z) biomeId
      pure { column with biomes := column.biomes.set index.toNat area }

def loadLegacyBiomes (data : List UInt8) : Except String BedrockChunkColumn := do
  let first := column.biomes.headD { y := 0 }
  let (first, _) ← first.readLegacy2D (Cursor.start data)
  let proxies := (List.range (column.biomes.length - 1)).map fun i : ℕ ↦
    BedrockBiomeSection.proxyToPrevious (column.minCY + (i + 1))
  pure { column with biomes := first :: proxies }

def dumpLegacyBiomes : Except String (List UInt8) :=
  (column.biomes.headD {}).exportLegacy2D

/-- The loop of `loadBiomes` over the heights from `y` on, `count` of them left;
`hasLast` says that a section other than a proxy was read. -/
def loadBiomeSections (type : ChunkStorageType) :
    ℕ → ℤ → Bool → Reader (List BedrockBiomeSection × Bool)
  | 0, _, hasLast => pure ([], hasLast)
  | count + 1, y, hasLast => do
      match ← Reader.peek with
      | none => pure ([], hasLast)
      | some next =>
          if next = 0xff then do
            let _ ← BinaryStream.readU8
            if hasLast = false then throw "proxy biome section has no previous section"
            else
              let (areas, hasLast) ← loadBiomeSections type count (y + 1) hasLast
              pure (BedrockBiomeSection.proxyToPrevious y :: areas, hasLast)
          else do
            let area ← BedrockBiomeSection.read { y } type
            let (areas, hasLast) ← loadBiomeSections type count (y + 1) true
            pure (area :: areas, hasLast)

def loadBiomes (type : ChunkStorageType) : Reader BedrockChunkColumn := do
  let count := (column.maxCY - column.minCY).toNat
  let (areas, hasLast) ← loadBiomeSections type count column.minCY false
  let missing := (List.range (count - areas.length)).map fun i : ℕ ↦
    let y := column.minCY + (areas.length + i : ℕ)
    if hasLast then BedrockBiomeSection.proxyToPrevious y else { y }
  pure { column with biomes := areas ++ missing }

def writeBiomes : List UInt8 := column.biomes.flatMap (·.exportTo .runtime)

/-! ## The level-chunk payload -/

/-- The order of the keys in the encoding. -/
def sortedKeys : List Text := column.blockEntities.keys.mergeSort fun a b ↦ decide (a ≤ b)

/-- The tag of one block entity in an encoding. -/
def encodeBlockEntity (encoding : BedrockNbtEncoding) (key : Text) : Except String (List UInt8) :=
  match encoding, column.blockEntities.lookup key with
  | .littleVarInt, some raw => .ok raw
  | _, raw =>
      match column.blockEntityNbt.lookup key with
      | some document => BedrockNbt.write encoding {} document
      | none =>
          match raw with
          | none => .error "block-entity storage is inconsistent"
          | some raw => do
              let (document, rest) ← BedrockNbt.read .littleVarInt {} (Cursor.start raw)
              if rest.rest ≠ [] then .error "raw block entity contains trailing bytes"
              else BedrockNbt.write encoding {} document

def encodeBlockEntities (encoding : BedrockNbtEncoding) : Except String (List UInt8) :=
  List.flatten <$> column.sortedKeys.mapM (column.encodeBlockEntity encoding)

/-- One turn of the loop over the block entities, at the first byte of a tag. -/
def decodeBlockEntity (encoding : BedrockNbtEncoding) : Reader BedrockChunkColumn := do
  let (document, consumed) ← Reader.captured
    (Reader.mapError (fun error ↦ "invalid block-entity NBT: " ++ error)
      (BedrockNbt.read encoding {}))
  let pos ← liftM (blockEntityPosition document)
  let raw ← match encoding with
    | .littleVarInt => pure consumed
    | .littleEndian => liftM (BedrockNbt.write .littleVarInt {} document)
  pure { column with
    blockEntityNbt := column.blockEntityNbt.insert (blockEntityKey pos) document
    blockEntities := column.blockEntities.insert (blockEntityKey pos) raw }

/-- The loop itself.  A tag takes at least one byte, so the number of bytes
left is enough turns. -/
def decodeBlockEntityLoop (encoding : BedrockNbtEncoding) :
    ℕ → BedrockChunkColumn → Reader BedrockChunkColumn
  | 0, column => pure column
  | turns + 1, column => do
      if (← Reader.peek) = some NbtTagType.compound.toByte then do
        let column ← column.decodeBlockEntity encoding
        decodeBlockEntityLoop encoding turns column
      else pure column

def decodeBlockEntities (encoding : BedrockNbtEncoding) : Reader BedrockChunkColumn := do
  let turns ← Reader.remaining
  decodeBlockEntityLoop encoding turns column

/-- The border blocks, of which there must be none. -/
def readBorderBlocks (message : String) : Reader Unit := do
  let encodedLength ← BinaryStream.readVarUInt
  let left ← Reader.remaining
  let borderBlocksLength := toSigned 32 (decodeZigZag 32 encodedLength)
  if borderBlocksLength < 0 ∨ left < borderBlocksLength.toNat then throw message
  else
    let borderBlocks ← BinaryStream.readBytes borderBlocksLength.toNat
    if borderBlocks ≠ [] then throw "border blocks are not supported yet"
    else pure ()

/-- What follows the biomes: border blocks, unless the stream ends, and block
entities. -/
def readTail (message : String) : Reader BedrockChunkColumn := do
  let left ← Reader.remaining
  if left = 0 then column.decodeBlockEntities .littleVarInt
  else
    readBorderBlocks message
    column.decodeBlockEntities .littleVarInt

/-- The loop that reads `count` sections, the first one numbered `i`. -/
def decodeSections : ℕ → ℕ → BedrockChunkColumn → Reader BedrockChunkColumn
  | 0, _, column => pure column
  | count + 1, i, column => do
      let fresh : BedrockSubChunk := { y := Int8.ofInt i, subChunkVersion := 9 }
      let found ← fresh.decodeFrom .runtime 0 none
      let column ← liftM (column.setSection found.y.toInt found)
      decodeSections count (i + 1) column

def readSections (sectionCount : ℤ) : Reader BedrockChunkColumn :=
  if sectionCount = -1 ∨ sectionCount = -2 then pure column
  else
    decodeSections sectionCount.toNat 0
      { column with sections := List.replicate (column.maxCY - column.minCY).toNat none }

def readLegacyBiomes : Reader BedrockChunkColumn := do
  let left ← Reader.remaining
  if left < 256 then throw "legacy biome data is truncated"
  else
    let data ← BinaryStream.readBytes 256
    liftM (column.loadLegacyBiomes data)

def networkDecodeNoCache (payload : List UInt8) (sectionCount : ℤ) (use3DBiomes : Bool) :
    Except String BedrockChunkColumn := Prod.fst <$> (do
  let column ← column.readSections sectionCount
  let column ← (if use3DBiomes then column.loadBiomes .runtime else column.readLegacyBiomes)
  column.readTail "invalid border block length" : Reader BedrockChunkColumn) (Cursor.start payload)

/-- The flag that the encoder takes for the bounds of the column. -/
def uses3DBiomes : Bool := column.minCY < 0 ∨ 16 < column.maxCY

def encodeSections : Except String (List UInt8) :=
  List.flatten <$> (column.sections.filterMap id).mapM (·.encodeTo .runtime true none)

def networkEncodeNoCache : Except String (List UInt8) := do
  let sections ← column.encodeSections
  let biomes ← (if column.uses3DBiomes then pure column.writeBiomes else column.dumpLegacyBiomes)
  let entities ← column.encodeBlockEntities .littleVarInt
  pure (sections ++ (biomes ++ (BinaryStream.writeVarUInt 0 ++ entities)))

end BedrockChunkColumn

structure BedrockLevelChunkPacket where
  x : ℤ
  z : ℤ
  dimension : ℤ
  subChunkCount : ℤ
  highestSubChunkCount : Option UInt16 := none
  cacheEnabled : Bool
  blobHashes : List UInt64 := []
  payload : List UInt8

namespace BedrockLevelChunkCodec

def decodeNoCacheColumn (packet : BedrockLevelChunkPacket) (useCavesAndCliffsBounds : Bool) :
    Except String BedrockChunkColumn := do
  if packet.cacheEnabled then throw "decodeNoCacheColumn requires cacheEnabled=false"
  else
    let column := BedrockChunkColumn.new packet.x packet.z
    let column := if useCavesAndCliffsBounds then column.withBounds (-4) 20 else column
    column.networkDecodeNoCache packet.payload packet.subChunkCount useCavesAndCliffsBounds

def encodeNoCacheColumn (column : BedrockChunkColumn) (dimension : ℤ) :
    Except String BedrockLevelChunkPacket := do
  let payload ← column.networkEncodeNoCache
  pure
    { x := column.x, z := column.z, dimension, cacheEnabled := false, payload
      subChunkCount := (column.sections.filterMap id).length }

end BedrockLevelChunkCodec

end BedrockProtocol
