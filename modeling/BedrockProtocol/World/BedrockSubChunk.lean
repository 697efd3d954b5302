import BedrockProtocol.Lib.Text
import BedrockProtocol.Nbt.BedrockNbt
import BedrockProtocol.World.PalettedStorage

/-!
# Sub-chunks

`BedrockSubChunk` of `BedrockChunk.cpp`: a section of 16 × 16 × 16 blocks.  Each
layer has a palette of block states and a storage of indices into it.  The code
keeps palettes and storages in two vectors that always grow together; here a
layer is one record.
-/

namespace BedrockProtocol

inductive ChunkStorageType
  | localPersistence
  | networkPersistence
  | runtime
  deriving DecidableEq, Repr

structure BedrockBlockState where
  stateId : Int32
  name : Text
  count : ℕ
  states : NbtValue := .compound []
  version : Int32 := 0
  hasPersistentData : Bool := false

structure BedrockBlockStateDescriptor where
  name : Text
  states : NbtValue
  version : Int32

/-- The entry with the data of a descriptor. -/
def BedrockBlockState.describe (descriptor : BedrockBlockStateDescriptor)
    (entry : BedrockBlockState) : BedrockBlockState :=
  { entry with
    name := descriptor.name, states := descriptor.states, version := descriptor.version
    hasPersistentData := true }

/-- A resolver finds the state id of a persistent block state; it may throw. -/
abbrev BedrockBlockStateResolver := Text → NbtValue → Int32 → Except String (Option Int32)

abbrev BedrockBlockStateProvider := Int32 → Except String (Option BedrockBlockStateDescriptor)

/-- `palettes_[layer]` and `blocks_[layer]`. -/
structure Layer where
  palette : List BedrockBlockState
  blocks : PalettedStorage

structure BedrockSubChunk where
  y : Int8 := 0
  subChunkVersion : UInt8 := 9
  airStateId : Int32 := 0
  layers : List Layer := []
  blockLight : PalettedStorage := .ofBits 4 PalettedStorage.fourBits_pos PalettedStorage.fourBits_le
  skyLight : PalettedStorage := .ofBits 4 PalettedStorage.fourBits_pos PalettedStorage.fourBits_le

/-- The loop that counts the bits of a word; 32 turns are enough. -/
def neededBitsLoop : ℕ → ℕ → ℕ
  | 0, _ => 0
  | fuel + 1, value => if value = 0 then 0 else neededBitsLoop fuel (value >>> 1) + 1

def neededBits (value : ℕ) : ℕ := neededBitsLoop 32 value

/-- `static_cast<uint32_t>(size - 1)`, which wraps at an empty palette. -/
def lastIndex (size : ℕ) : ℕ := (size + 2 ^ 32 - 1) % 2 ^ 32

def int32OfBits (bits : ℕ) : Int32 := (UInt32.ofNat bits).toInt32

def readZigZagVarInt : Reader Int32 :=
  (fun value ↦ int32OfBits (decodeZigZag 32 value)) <$> BinaryStream.readVarUInt

def readRuntimeSingleStateId : Reader Int32 :=
  (fun value ↦ int32OfBits (value >>> 1)) <$> BinaryStream.readVarUInt

def writeZigZagVarInt (value : Int32) : List UInt8 :=
  BinaryStream.writeVarUInt (encodeZigZag 32 value.toUInt32.toNat)

theorem neededBitsLoop_le (fuel value : ℕ) : neededBitsLoop fuel value ≤ fuel := by
  induction fuel generalizing value with
  | zero => exact le_rfl
  | succ fuel ih =>
      rw [neededBitsLoop]
      split
      · omega
      · exact Nat.succ_le_succ (ih _)

theorem neededBits_le (value : ℕ) : neededBits value ≤ 32 := neededBitsLoop_le 32 value

namespace Layer

variable (layer : Layer)

def getBlockStateId (x y z : UInt8) : Except String Int32 :=
  match layer.palette[layer.blocks.get x y z]? with
  | none => .error "subchunk palette index out of range"
  | some entry => .ok entry.stateId

/-- A palette entry that has a state id only. -/
def runtimeEntry (airStateId stateId : Int32) (count : ℕ) : BedrockBlockState where
  stateId := stateId
  name := if stateId = airStateId then txt "minecraft:air" else []
  count := count

def addToPalette (airStateId stateId : Int32) (count : ℕ) : Except String Layer := do
  let palette := layer.palette ++ [runtimeEntry airStateId stateId count]
  let minBits := neededBits (lastIndex palette.length)
  if layer.blocks.bitsPerBlock < minBits then
    let blocks ← layer.blocks.resize minBits
    pure { palette, blocks }
  else pure { palette, blocks := layer.blocks }

/-- What `ensureLayer` appends: four bits a block, every block air. -/
def ofAir (airStateId : Int32) : Layer where
  palette := [runtimeEntry airStateId airStateId 4096]
  blocks := .ofBits 4 PalettedStorage.fourBits_pos PalettedStorage.fourBits_le

def countUp (entry : BedrockBlockState) : BedrockBlockState :=
  { entry with count := entry.count + 1 }

def countDown (entry : BedrockBlockState) : BedrockBlockState :=
  if 0 < entry.count then { entry with count := entry.count - 1 } else entry

/-- The part of `setBlockStateId` after `ensureLayer`. -/
def setBlockStateId (airStateId : Int32) (x y z : UInt8) (stateId : Int32) :
    Except String Layer :=
  let currentIndex := layer.blocks.get x y z
  match layer.palette[currentIndex]? with
  -- the code would read past the end of the palette
  | none => .error "palette index out of range"
  | some current =>
      if current.stateId = stateId then .ok layer
      else
        let palette := layer.palette.modify currentIndex countDown
        match palette.findIdx? fun entry ↦ entry.stateId = stateId with
        | some i =>
            .ok { palette := palette.modify i countUp, blocks := layer.blocks.set x y z i }
        | none =>
            -- the 32-bit loop counter never reaches the size
            if 2 ^ 32 ≤ palette.length then .error "the search of the palette does not end"
            else do
              let layer ← addToPalette { layer with palette } airStateId stateId 1
              pure { layer with blocks := layer.blocks.set x y z (layer.palette.length - 1) }

/-- `compactedPalette`: the entries in use. -/
def compactedPalette : List BedrockBlockState := layer.palette.filter fun entry ↦ 0 < entry.count

def isCompactable : Bool := layer.compactedPalette.length < layer.palette.length

/-- The new index of every palette entry, `used` entries having been kept. -/
def remapFrom (used : ℕ) : List BedrockBlockState → List ℕ
  | [] => []
  | entry :: palette =>
      let used := if 0 < entry.count then used + 1 else used
      (used - 1) :: remapFrom used palette

def remap : List ℕ := remapFrom 0 layer.palette

def compact : Layer :=
  if layer.isCompactable then
    let bits := neededBits (lastIndex layer.compactedPalette.length)
    let newStorage := PalettedStorage.ofBits (max 1 bits) (by omega)
      (max_le (by decide) (neededBits_le _))
    { palette := layer.compactedPalette
      blocks := newStorage.fill fun x y z ↦ layer.remap.getD (layer.blocks.get x y z) 0 }
  else layer

/-- `incrementPalette`: count every index of the storage. -/
def incrementPalette (indices : List ℕ) (palette : List BedrockBlockState) :
    Except String (List BedrockBlockState) :=
  indices.foldlM (fun palette index ↦
    if palette.length ≤ index then .error "paletted storage index exceeds palette size"
    else .ok (palette.modify index countUp)) palette

/-! ## Reading -/

def persistenceNbtEncoding (format : ChunkStorageType) : BedrockNbtEncoding :=
  if format = .localPersistence then .littleEndian else .littleVarInt

/-- An empty `std::function` resolves nothing. -/
def resolve (resolver : Option BedrockBlockStateResolver) (name : Text) (states : NbtValue)
    (version : Int32) : Except String (Option Int32) :=
  match resolver with
  | none => .ok none
  | some resolver => resolver name states version

/-- The persistent palette entry of a document. -/
def persistentState (airStateId : Int32) (resolver : Option BedrockBlockStateResolver)
    (document : NbtDocument) : Except String BedrockBlockState :=
  if document.root.type ≠ .compound then
    .error "persistent block-state NBT root must be a compound"
  else
    match document.root.find (txt "name") with
    | none => .error "persistent block-state NBT is missing string name"
    | some nameTag =>
      if nameTag.type ≠ .string then .error "persistent block-state NBT is missing string name"
      else
        let states := (document.root.find (txt "states")).getD (.compound [])
        if states.type ≠ .compound then
          .error "persistent block-state states must be an NBT compound"
        else
          match document.root.find (txt "version") with
          | none => .error "persistent block-state NBT is missing int version"
          | some versionTag =>
            if versionTag.type ≠ .int ∨ ¬ InSigned 32 versionTag.integerValue.toInt then
              .error "persistent block-state NBT is missing int version"
            else do
              let version := Int32.ofInt versionTag.integerValue.toInt
              let resolved ← resolve resolver nameTag.stringValue states version
              pure
                { stateId := resolved.getD airStateId, name := nameTag.stringValue, count := 0
                  states, version, hasPersistentData := true }

/-- The palette entry at `index`, as each format stores it. -/
def readState (format : ChunkStorageType) (airStateId : Int32)
    (resolver : Option BedrockBlockStateResolver) (index : ℕ) : Reader BedrockBlockState :=
  match format with
  | .runtime => do
      let stateId ← readZigZagVarInt
      pure (runtimeEntry airStateId stateId 0)
  | _ => do
      let document ← Reader.mapError
        (fun error ↦ "invalid persistent block-state NBT at palette index " ++ toString index ++
          ": " ++ error)
        (BedrockNbt.read (persistenceNbtEncoding format) {})
      liftM (persistentState airStateId resolver document)

/-- The loop over the palette, from entry `index` on. -/
def readStates (format : ChunkStorageType) (airStateId : Int32)
    (resolver : Option BedrockBlockStateResolver) : ℕ → ℕ → Reader (List BedrockBlockState)
  | _, 0 => pure []
  | index, size + 1 => do
      let entry ← readState format airStateId resolver index
      let entries ← readStates format airStateId resolver (index + 1) size
      pure (entry :: entries)

def readPaletteSize (format : ChunkStorageType) : Reader ℤ :=
  match format with
  | .localPersistence => (fun size : ℕ ↦ (size : ℤ)) <$> BinaryStream.readWord 4
  | _ => Int32.toInt <$> readZigZagVarInt

def loadPalettedBlocks (format : ChunkStorageType) (airStateId : Int32)
    (resolver : Option BedrockBlockStateResolver) (bitsPerBlock : ℕ) : Reader Layer := do
  if format = .runtime ∧ bitsPerBlock = 0 then
    let stateId ← readRuntimeSingleStateId
    liftM
      (addToPalette ⟨[], .ofBits 1 Nat.one_pos PalettedStorage.oneBit_le⟩ airStateId stateId 4096)
  else
    let storage ← liftM (PalettedStorage.new bitsPerBlock)
    let blocks ← storage.read
    let size ← readPaletteSize format
    if size < 1 ∨ 4096 < size then throw ("invalid subchunk palette size: " ++ toString size)
    else if bitsPerBlock < 32 ∧ 2 ^ max 1 bitsPerBlock < size.toNat then
      throw "subchunk palette does not fit bitsPerBlock"
    else
      let palette ← readStates format airStateId resolver 0 size.toNat
      let palette ← liftM (incrementPalette blocks.indices palette)
      pure { palette, blocks }

/-! ## Writing -/

/-- The descriptor of a persistent palette entry. -/
def descriptor (provider : Option BedrockBlockStateProvider) (entry : BedrockBlockState) :
    Except String BedrockBlockStateDescriptor :=
  if entry.hasPersistentData then .ok ⟨entry.name, entry.states, entry.version⟩
  else
    match provider with
    | none =>
        .error ("persistent subchunk encoding requires block-state descriptors; missing state " ++
          toString entry.stateId)
    | some provider => do
        match ← provider entry.stateId with
        | none => .error ("no persistent descriptor for block state " ++ toString entry.stateId)
        | some supplied => .ok supplied

def writeState (format : ChunkStorageType) (provider : Option BedrockBlockStateProvider)
    (entry : BedrockBlockState) : Except String (List UInt8) :=
  match format with
  | .runtime => .ok (writeZigZagVarInt entry.stateId)
  | _ => do
      let descriptor ← descriptor provider entry
      if descriptor.name = [] then .error "persistent block-state name must not be empty"
      else if descriptor.states.type ≠ .compound then
        .error "persistent block-state states must be an NBT compound"
      else
        BedrockNbt.write (persistenceNbtEncoding format) {}
          ⟨[], .compound [(txt "name", .string descriptor.name), (txt "states", descriptor.states),
            (txt "version", .integer descriptor.version)]⟩

def writePaletteSize (format : ChunkStorageType) (size : ℕ) : List UInt8 :=
  match format with
  | .localPersistence => leBytes 4 size
  | _ => writeZigZagVarInt (int32OfBits size)

def writeStorage (format : ChunkStorageType) (provider : Option BedrockBlockStateProvider) :
    Except String (List UInt8) :=
  if layer.palette = [] ∨ 4096 < layer.palette.length then
    .error "invalid palette size while encoding subchunk"
  else
    match format, layer.palette with
    | .runtime, [entry] => .ok (1 :: writeZigZagVarInt entry.stateId)
    | _, _ => do
        let runtime := if format = .runtime then 1 else 0
        let paletteType := UInt8.ofNat ((layer.blocks.bitsPerBlock <<< 1) ||| runtime)
        let states ← layer.palette.mapM (writeState format provider)
        pure (paletteType :: (layer.blocks.write ++
          (writePaletteSize format layer.palette.length ++ states.flatten)))

end Layer

namespace BedrockSubChunk

variable (sub : BedrockSubChunk)

def createAir (y : Int8) (airStateId : Int32) : BedrockSubChunk where
  y := y
  airStateId := airStateId
  layers :=
    [{ palette := [{ stateId := airStateId, name := txt "minecraft:air", count := 4096 }]
       blocks := .ofBits 1 Nat.one_pos PalettedStorage.oneBit_le }]

def setY (y : Int8) : BedrockSubChunk := { sub with y }

def setSubChunkVersion (version : UInt8) : BedrockSubChunk := { sub with subChunkVersion := version }

def getBlockStateId (layer x y z : UInt8) : Except String Int32 :=
  match sub.layers[layer.toNat]? with
  | none => .ok sub.airStateId
  | some found => found.getBlockStateId x y z

/-- Append layers of air until there is one at `layer`. -/
def ensureLayer (layer : UInt8) : BedrockSubChunk :=
  { sub with
    layers := sub.layers ++
      List.replicate (layer.toNat + 1 - sub.layers.length) (.ofAir sub.airStateId) }

def setBlockStateId (layer x y z : UInt8) (stateId : Int32) : Except String BedrockSubChunk :=
  let sub := sub.ensureLayer layer
  match sub.layers[layer.toNat]? with
  | none => .error "unreachable"
  | some found => do
      let found ← found.setBlockStateId sub.airStateId x y z stateId
      pure { sub with layers := sub.layers.set layer.toNat found }

def compact (layer : UInt8) : BedrockSubChunk :=
  { sub with layers := sub.layers.modify layer.toNat Layer.compact }

def getBlockLight (x y z : UInt8) : UInt8 := UInt8.ofNat (sub.blockLight.get x y z)

def setBlockLight (x y z value : UInt8) : BedrockSubChunk :=
  { sub with blockLight := sub.blockLight.set x y z (value.toNat &&& 0x0f) }

def getSkyLight (x y z : UInt8) : UInt8 := UInt8.ofNat (sub.skyLight.get x y z)

def setSkyLight (x y z value : UInt8) : BedrockSubChunk :=
  { sub with skyLight := sub.skyLight.set x y z (value.toNat &&& 0x0f) }

def setPaletteEntryDescriptor (layer : UInt8) (paletteIndex : ℕ)
    (descriptor : BedrockBlockStateDescriptor) : Except String BedrockSubChunk :=
  match sub.layers[layer.toNat]? with
  | none => .error "palette entry out of range"
  | some found =>
      if found.palette.length ≤ paletteIndex then .error "palette entry out of range"
      else if descriptor.name = [] then .error "persistent block-state name must not be empty"
      else if descriptor.states.type ≠ .compound then
        .error "persistent block-state states must be an NBT compound"
      else
        .ok { sub with
          layers := sub.layers.set layer.toNat
            { found with palette := found.palette.modify paletteIndex (·.describe descriptor) } }

/-- One turn of the loop over the layers. -/
def readLayer (format : ChunkStorageType) (airStateId : Int32)
    (resolver : Option BedrockBlockStateResolver) : Reader Layer := do
  let paletteType ← BinaryStream.readU8
  if paletteType.toNat &&& 1 = 0 ∧ format = .runtime then
    throw "expected runtime palette while decoding subchunk"
  else Layer.loadPalettedBlocks format airStateId resolver (paletteType.toNat >>> 1)

/-- The version, the number of layers and the height, which only version 9 has. -/
def readHeader (y : Int8) : Reader (UInt8 × UInt8 × Int8) := do
  let subChunkVersion ← BinaryStream.readU8
  if subChunkVersion = 1 then pure (8, 1, y)
  else if subChunkVersion = 8 then do
    let storageCount ← BinaryStream.readU8
    pure (subChunkVersion, storageCount, y)
  else if subChunkVersion = 9 then do
    let storageCount ← BinaryStream.readU8
    let y ← BinaryStream.readU8
    pure (subChunkVersion, storageCount, y.toInt8)
  else throw ("unsupported sub chunk version: " ++ toString subChunkVersion.toNat)

/-- Decode into `sub`, whose own `y` and lights stay where the bytes have none. -/
def decodeFrom (format : ChunkStorageType) (airStateId : Int32)
    (resolver : Option BedrockBlockStateResolver) : Reader BedrockSubChunk := do
  let (subChunkVersion, storageCount, y) ← readHeader sub.y
  if storageCount = 0 ∨ 2 < storageCount then
    throw ("expected storage count 1 or 2, got " ++ toString storageCount.toNat)
  else
    let layers ← Reader.many (readLayer format airStateId resolver) storageCount.toNat
    pure { sub with subChunkVersion, airStateId, y, layers }

/-- `decode`: a whole buffer into a fresh sub-chunk. -/
def decode (format : ChunkStorageType) (airStateId : Int32)
    (resolver : Option BedrockBlockStateResolver) (data : List UInt8) :
    Except String BedrockSubChunk :=
  Prod.fst <$> decodeFrom {} format airStateId resolver (Cursor.start data)

def encodeTo (format : ChunkStorageType) (compactStorage : Bool)
    (provider : Option BedrockBlockStateProvider) : Except String (List UInt8) :=
  -- the 8-bit loop counter never reaches 256 layers
  if 256 ≤ sub.layers.length then .error "the loop over the layers does not end"
  else do
    let storages ← sub.layers.mapM fun layer ↦
      (if compactStorage then layer.compact else layer).writeStorage format provider
    let header := [sub.subChunkVersion, UInt8.ofNat sub.layers.length]
    let height := if 9 ≤ sub.subChunkVersion then [sub.y.toUInt8] else []
    pure (header ++ (height ++ storages.flatten))

end BedrockSubChunk

end BedrockProtocol
