import BedrockProtocol.World.SubChunkRoundTrip

/-!
# The stand-alone reader of paletted storages

`PalettedStorageParser` scans a storage wherever it lies in a buffer, on its
own terms: it reads the words and the palette, refuses negative runtime ids and
never looks at the indices.  The loader of a sub-chunk reads the same bytes,
takes every state id and refuses an index beyond the palette.  Apart from these
two the readers agree.
-/

namespace BedrockProtocol

open PalettedStorage

structure PalettedStorageHeader where
  raw : UInt8
  bitsPerBlock : ℕ
  runtime : Bool

structure PalettedStorageInfo where
  header : PalettedStorageHeader
  offset : ℕ
  wordCount : ℕ
  paletteCount : ℕ
  totalBytes : ℕ
  words : List (BitVec 32)
  runtimePalette : List UInt32
  persistentPalette : List NbtDocument

namespace PalettedStorageInfo

variable (info : PalettedStorageInfo)

def getPaletteIndex (blockIndex : ℕ) : Except String ℕ :=
  if 4096 ≤ blockIndex then .error "block index outside paletted storage"
  else if info.header.bitsPerBlock = 0 then .ok 0
  else
    let blocksPerWord := 32 / info.header.bitsPerBlock
    if blocksPerWord = 0 then .error "invalid paletted storage bits per block"
    else
      match info.words[blockIndex / blocksPerWord]? with
      | none => .error "paletted storage word index outside data"
      | some word =>
          .ok (field info.header.bitsPerBlock
            (blockIndex % blocksPerWord * info.header.bitsPerBlock) word).toNat

def getBlockRuntimeId (blockIndex : ℕ) : Except String UInt32 :=
  if info.header.runtime = false ∨ info.runtimePalette = [] then .error "runtime palette is empty"
  else do
    let paletteIndex ← info.getPaletteIndex blockIndex
    match info.runtimePalette[paletteIndex]? with
    | none => .error "palette index outside runtime palette"
    | some runtimeId => .ok runtimeId

end PalettedStorageInfo

namespace PalettedStorageParser

def readHeader (byte : UInt8) : PalettedStorageHeader where
  raw := byte
  bitsPerBlock := byte.toNat >>> 1
  runtime := byte.toNat &&& 1 ≠ 0

def wordsFor4096Blocks (bitsPerBlock : ℕ) : Except String ℕ :=
  if bitsPerBlock = 0 then .ok 0
  else if 32 < bitsPerBlock then .error "paletted storage bits per block exceeds 32"
  else
    let blocksPerWord := 32 / bitsPerBlock
    .ok ((4096 + blocksPerWord - 1) / blocksPerWord)

def require (size : ℕ) (what : String) : Reader Unit := do
  if (← Reader.remaining) < size then throw ("not enough bytes for " ++ what)

def readByte (what : String) : Reader UInt8 := Reader.byte fun _ ↦ "not enough bytes for " ++ what

def readU32LE : Reader ℕ := leValue <$> Reader.take 4 fun _ ↦ "not enough bytes for u32le"

def readUVarInt : Reader ℕ := readLeb128 (fun _ ↦ readByte "uvarint") "uvarint too long" 32 5 0 0

def readZigZagVarInt : Reader Int32 := (fun value ↦ int32OfBits (decodeZigZag 32 value)) <$> readUVarInt

def readRuntimeId : Reader UInt32 := do
  let runtimeId ← readZigZagVarInt
  if runtimeId < 0 then throw "negative runtime id in paletted storage" else pure runtimeId.toUInt32

def readPaletteCount (runtime : Bool) (persistentEncoding : BedrockNbtEncoding) : Reader ℤ :=
  if runtime = false ∧ persistentEncoding = .littleEndian then
    (fun count : ℕ ↦ (count : ℤ)) <$> readU32LE
  else Int32.toInt <$> readZigZagVarInt

/-- How many entries the palette has, and the entries: of the two lists one is empty. -/
def scanPalette (header : PalettedStorageHeader) (persistentEncoding : BedrockNbtEncoding) :
    Reader (ℕ × List UInt32 × List NbtDocument) := do
  if header.runtime ∧ header.bitsPerBlock = 0 then
    let runtimeId ← readRuntimeId
    pure (1, [runtimeId], [])
  else if header.bitsPerBlock = 0 then
    throw "persistent paletted storage cannot use zero bits per block"
  else
    let paletteCount ← readPaletteCount header.runtime persistentEncoding
    if paletteCount < 1 ∨ 4096 < paletteCount then
      throw "invalid paletted storage palette count"
    else if 2 ^ header.bitsPerBlock < paletteCount.toNat then
      throw "paletted storage palette does not fit bits per block"
    else if header.runtime then
      let runtimePalette ← Reader.many readRuntimeId paletteCount.toNat
      pure (paletteCount.toNat, runtimePalette, [])
    else
      let persistentPalette ← Reader.many (BedrockNbt.read persistentEncoding {}) paletteCount.toNat
      pure (paletteCount.toNat, [], persistentPalette)

def scan (persistentEncoding : BedrockNbtEncoding) : Reader PalettedStorageInfo := do
  let offset ← Reader.offset
  let byte ← readByte "paletted storage header"
  let header := readHeader byte
  let wordCount ← liftM (wordsFor4096Blocks header.bitsPerBlock)
  require (wordCount * 4) "paletted storage words"
  let words ← Reader.many readWord32 wordCount
  let (paletteCount, runtimePalette, persistentPalette) ← scanPalette header persistentEncoding
  let stop ← Reader.offset
  pure
    { header, offset, wordCount, paletteCount, totalBytes := stop - offset, words
      runtimePalette, persistentPalette }

def scanAt (data : List UInt8) (offset : ℕ) (persistentEncoding : BedrockNbtEncoding) :
    Except String PalettedStorageInfo :=
  Prod.fst <$> scan persistentEncoding ⟨offset, data.drop offset⟩

/-! ## The pieces of the two readers -/

theorem require_bind_eq_ok {α : Type} {size : ℕ} {what : String} {k : Unit → Reader α} {c : Cursor}
    {p : α × Cursor} :
    (require size what >>= k) c = .ok p ↔ size ≤ c.rest.length ∧ k () c = .ok p := by
  have hrun : require size what c =
      if c.rest.length < size then .error ("not enough bytes for " ++ what) else .ok ((), c) := by
    rw [require, Reader.remaining_run]
    split <;> rfl
  by_cases hshort : c.rest.length < size
  · rw [if_pos hshort] at hrun
    rw [Reader.bind_error hrun]
    exact iff_of_false (fun h ↦ by cases h) fun h ↦ by omega
  · rw [if_neg hshort] at hrun
    rw [Reader.bind_run hrun]
    exact ⟨fun h ↦ ⟨by omega, h⟩, fun h ↦ h.2⟩

/-- The check that there are enough words never refuses what the reader of the words accepts. -/
theorem words_eq_ok {α : Type} {n : ℕ} {what : String} {k : List (BitVec 32) → Reader α}
    {c : Cursor} {p : α × Cursor} :
    (require (n * 4) what >>= fun _ ↦ Reader.many readWord32 n >>= k) c = .ok p ↔
      ∃ words c', Reader.many readWord32 n c = .ok (words, c') ∧ k words c' = .ok p := by
  have hword : Consumes readWord32 4 := Consumes.take.map.map
  rw [require_bind_eq_ok]
  constructor
  · rintro ⟨-, h⟩
    exact Reader.run_bind_eq_ok h
  · rintro ⟨words, c', hwords, h⟩
    have hlength := hword.many n c words c' hwords
    exact ⟨by omega, by rw [Reader.bind_run hwords, h]⟩

theorem readUVarInt_alike : Reader.Alike readUVarInt BinaryStream.readVarUInt :=
  readLeb128_alike (fun _ ↦ .byte _ _) _ _ 32 5 0 0

theorem readZigZagVarInt_alike : Reader.Alike readZigZagVarInt BedrockProtocol.readZigZagVarInt :=
  readUVarInt_alike.map _

theorem readRuntimeId_eq_ok {c c' : Cursor} {runtimeId : UInt32} :
    readRuntimeId c = .ok (runtimeId, c') ↔
      ∃ stateId, BedrockProtocol.readZigZagVarInt c = .ok (stateId, c') ∧ 0 ≤ stateId ∧
        runtimeId = stateId.toUInt32 := by
  constructor
  · intro h
    obtain ⟨stateId, c₁, hread, h⟩ := Reader.run_bind_eq_ok h
    split at h
    · cases h
    · rename_i hneg
      cases h
      exact ⟨stateId, (readZigZagVarInt_alike c _).mp hread, Int32.not_lt.mp hneg, rfl⟩
  · rintro ⟨stateId, hread, hpos, rfl⟩
    rw [readRuntimeId, Reader.bind_run ((readZigZagVarInt_alike c _).mpr hread),
      if_neg (Int32.not_lt.mpr hpos)]
    rfl

/-- A palette is accepted when no state id in it is negative. -/
theorem many_readRuntimeId_eq_ok {n : ℕ} {c c' : Cursor} {runtimePalette : List UInt32} :
    Reader.many readRuntimeId n c = .ok (runtimePalette, c') ↔
      ∃ stateIds, Reader.many BedrockProtocol.readZigZagVarInt n c = .ok (stateIds, c') ∧
        (∀ stateId ∈ stateIds, 0 ≤ stateId) ∧ runtimePalette = stateIds.map Int32.toUInt32 := by
  induction n generalizing c runtimePalette with
  | zero =>
      constructor
      · intro h
        cases h
        exact ⟨[], rfl, by simp, rfl⟩
      · rintro ⟨stateIds, h, -, rfl⟩
        cases h
        rfl
  | succ n ih =>
      constructor
      · intro h
        obtain ⟨runtimeId, c₁, hfirst, h⟩ := Reader.run_bind_eq_ok h
        obtain ⟨rest, c₂, hrest, h⟩ := Reader.run_bind_eq_ok h
        cases h
        obtain ⟨stateId, hstate, hpos, rfl⟩ := readRuntimeId_eq_ok.mp hfirst
        obtain ⟨stateIds, hstates, hall, rfl⟩ := ih.mp hrest
        refine ⟨stateId :: stateIds, ?_, by simpa [hpos] using hall, rfl⟩
        rw [Reader.many, Reader.bind_run hstate, Reader.bind_run hstates]
        rfl
      · rintro ⟨stateIds, h, hall, rfl⟩
        obtain ⟨stateId, c₁, hfirst, h⟩ := Reader.run_bind_eq_ok h
        obtain ⟨rest, c₂, hrest, h⟩ := Reader.run_bind_eq_ok h
        cases h
        have hstate := readRuntimeId_eq_ok.mpr ⟨stateId, hfirst, hall stateId (by simp), rfl⟩
        have hstates := ih.mpr ⟨rest, hrest, fun id hid ↦ hall id (by simp [hid]), rfl⟩
        rw [Reader.many, Reader.bind_run hstate, Reader.bind_run hstates]
        rfl

theorem readStates_runtime (airStateId : Int32) (resolver : Option BedrockBlockStateResolver)
    (index size : ℕ) {c c' : Cursor} {palette : List BedrockBlockState} :
    Layer.readStates .runtime airStateId resolver index size c = .ok (palette, c') ↔
      ∃ stateIds, Reader.many BedrockProtocol.readZigZagVarInt size c = .ok (stateIds, c') ∧
        palette = stateIds.map fun stateId ↦ Layer.runtimeEntry airStateId stateId 0 := by
  induction size generalizing index c palette with
  | zero =>
      constructor
      · intro h
        cases h
        exact ⟨[], rfl, rfl⟩
      · rintro ⟨stateIds, h, rfl⟩
        cases h
        rfl
  | succ size ih =>
      constructor
      · intro h
        obtain ⟨entry, c₁, hfirst, h⟩ := Reader.run_bind_eq_ok h
        obtain ⟨entries, c₂, hrest, h⟩ := Reader.run_bind_eq_ok h
        cases h
        obtain ⟨stateId, c₃, hstate, h⟩ := Reader.run_bind_eq_ok hfirst
        cases h
        obtain ⟨stateIds, hstates, rfl⟩ := (ih (index + 1)).mp hrest
        refine ⟨stateId :: stateIds, ?_, rfl⟩
        rw [Reader.many, Reader.bind_run hstate, Reader.bind_run hstates]
        rfl
      · rintro ⟨stateIds, h, rfl⟩
        obtain ⟨stateId, c₁, hfirst, h⟩ := Reader.run_bind_eq_ok h
        obtain ⟨rest, c₂, hrest, h⟩ := Reader.run_bind_eq_ok h
        cases h
        have hentry : Layer.readState .runtime airStateId resolver index c =
            .ok (Layer.runtimeEntry airStateId stateId 0, c₁) := by
          rw [Layer.readState, Reader.bind_run hfirst]
          rfl
        rw [Layer.readStates, Reader.bind_run hentry,
          Reader.bind_run ((ih (index + 1)).mpr ⟨rest, hrest, rfl⟩)]
        rfl

theorem yields_readVarUInt : Yields BinaryStream.readVarUInt (· < 2 ^ 32) :=
  yields_readLeb128 _ _ 32 5 0 (by omega)

/-- An even word is a state id that is not negative, and its half. -/
theorem zigzag_nonneg_iff {value : ℕ} (hvalue : value < 2 ^ 32) :
    0 ≤ int32OfBits (decodeZigZag 32 value) ↔ value % 2 = 0 := by
  have hbits : ∀ n, n < 2 ^ 32 → (int32OfBits n).toUInt32.toNat = n := by
    intro n hn
    change (UInt32.ofNat n).toNat = n
    rw [UInt32.toNat_ofNat']
    omega
  rw [← toNat_toUInt32_lt_iff]
  rcases Nat.even_or_odd' value with ⟨half, rfl | rfl⟩
  · rw [decodeZigZag_two_mul, hbits half (by omega)]
    omega
  · rw [decodeZigZag_two_mul_add_one (by omega), hbits _ (by omega)]
    omega

theorem readRuntimeId_single {c c' : Cursor} {runtimeId : UInt32} :
    readRuntimeId c = .ok (runtimeId, c') ↔
      ∃ value, BinaryStream.readVarUInt c = .ok (value, c') ∧ value % 2 = 0 ∧
        runtimeId = (int32OfBits (value >>> 1)).toUInt32 := by
  have hhalf : ∀ value, value % 2 = 0 → decodeZigZag 32 value = value >>> 1 := by
    intro value heven
    obtain ⟨half, rfl⟩ : ∃ half, value = 2 * half := ⟨value / 2, by omega⟩
    rw [decodeZigZag_two_mul, Nat.shiftRight_eq_div_pow]
    omega
  rw [readRuntimeId_eq_ok]
  constructor
  · rintro ⟨stateId, hread, hpos, rfl⟩
    obtain ⟨⟨value, c₁⟩, hvalue, hstate⟩ := map_eq_ok.mp hread
    obtain ⟨rfl, rfl⟩ := Prod.mk.inj hstate
    have heven := (zigzag_nonneg_iff (yields_readVarUInt c value c₁ hvalue)).mp hpos
    refine ⟨value, hvalue, heven, ?_⟩
    dsimp only
    rw [hhalf value heven]
  · rintro ⟨value, hvalue, heven, rfl⟩
    have hpos := (zigzag_nonneg_iff (yields_readVarUInt c value c' hvalue)).mpr heven
    refine ⟨_, map_eq_ok.mpr ⟨(value, c'), hvalue, rfl⟩, hpos, ?_⟩
    dsimp only
    rw [hhalf value heven]

/-- In the words of a storage the scanner finds the indices of the storage. -/
theorem getPaletteIndex_eq {info : PalettedStorageInfo} {blocks : PalettedStorage}
    (hwords : info.words = blocks.words) (hbits : info.header.bitsPerBlock = blocks.bitsPerBlock)
    {i : ℕ} (hi : i < 4096) : info.getPaletteIndex i = .ok (blocks.indexAt i) := by
  have hpos := blocks.bits_pos
  have hlanes : 0 < 32 / blocks.bitsPerBlock := Nat.div_pos blocks.bits_le blocks.bits_pos
  have hword := blocks.word_lt hi
  rw [PalettedStorageInfo.getPaletteIndex, hwords, hbits, if_neg (by omega), if_neg (by omega)]
  dsimp only
  rw [if_neg (by omega), List.getElem?_eq_getElem hword, PalettedStorage.indexAt, packedGet,
    List.getD_eq_getElem?_getD, List.getElem?_eq_getElem hword, Option.getD_some]

end PalettedStorageParser

open PalettedStorageParser

/-- At every position the scanned storage has the state id of the layer. -/
def PalettedStorageInfo.SameStates (info : PalettedStorageInfo) (layer : Layer) : Prop :=
  ∀ x y z, ∃ stateId, layer.getBlockStateId x y z = .ok stateId ∧
    info.getBlockRuntimeId (blockIndex x y z) = .ok stateId.toUInt32

/-- Every one of the 4096 indices is one of the palette's. -/
def PalettedStorageInfo.IndicesFit (info : PalettedStorageInfo) : Prop :=
  ∀ i < 4096, ∃ paletteIndex, info.getPaletteIndex i = .ok paletteIndex ∧
    paletteIndex < info.paletteCount

/-- No state id of the storage is negative; the zero-width form stores an even word then. -/
def NonNegativeStates (data : List UInt8) (offset : ℕ) (layer : Layer) : Prop :=
  ∀ byte, data[offset]? = some byte →
    if (readHeader byte).bitsPerBlock = 0 then
      ∀ value c', BinaryStream.readVarUInt ⟨offset + 1, data.drop (offset + 1)⟩ = .ok (value, c') →
        value % 2 = 0
    else ∀ entry ∈ layer.palette, 0 ≤ entry.stateId

theorem PalettedStorageInfo.SameStates.of_palette {info : PalettedStorageInfo} {layer : Layer}
    {stateIds : List Int32} (hids : layer.palette.map BedrockBlockState.stateId = stateIds)
    (hruntime : info.header.runtime = true)
    (hpalette : info.runtimePalette = stateIds.map Int32.toUInt32)
    (hindex : ∀ i < 4096, info.getPaletteIndex i = .ok (layer.blocks.indexAt i) ∧
      layer.blocks.indexAt i < stateIds.length) : info.SameStates layer := by
  intro x y z
  obtain ⟨hget, hlt⟩ := hindex (blockIndex x y z) (blockIndex_lt x y z)
  have hlt' : layer.blocks.get x y z < stateIds.length := hlt
  have hne : info.runtimePalette ≠ [] := by
    rw [hpalette]
    intro hnil
    rw [List.map_eq_nil_iff.mp hnil] at hlt
    exact Nat.not_lt_zero _ hlt
  refine ⟨stateIds[layer.blocks.get x y z], ?_, ?_⟩
  · rw [Layer.getBlockStateId_eq, hids, List.getElem?_eq_getElem hlt']
  · rw [PalettedStorageInfo.getBlockRuntimeId, if_neg (by simp [hruntime, hne]), hget]
    change (match info.runtimePalette[layer.blocks.get x y z]? with
      | none => _
      | some runtimeId => _) = _
    rw [hpalette, List.getElem?_map, List.getElem?_eq_getElem hlt']
    rfl

/-! ## The two readers taken apart -/

namespace PalettedStorageParser

theorem scan_eq_ok {persistentEncoding : BedrockNbtEncoding} {c c' : Cursor}
    {info : PalettedStorageInfo} :
    scan persistentEncoding c = .ok (info, c') ↔
      ∃ byte c₁ wordCount words c₂ paletteCount runtimePalette persistentPalette,
        BinaryStream.readU8 c = .ok (byte, c₁) ∧
        wordsFor4096Blocks (readHeader byte).bitsPerBlock = .ok wordCount ∧
        Reader.many readWord32 wordCount c₁ = .ok (words, c₂) ∧
        scanPalette (readHeader byte) persistentEncoding c₂ =
          .ok ((paletteCount, runtimePalette, persistentPalette), c') ∧
        info =
          { header := readHeader byte, offset := c.offset, wordCount, paletteCount
            totalBytes := c'.offset - c.offset, words, runtimePalette, persistentPalette } := by
  constructor
  · intro h
    rw [scan, Reader.offset_run] at h
    obtain ⟨byte, c₁, hbyte, h⟩ := Reader.run_bind_eq_ok h
    dsimp only at h
    obtain ⟨wordCount, c₂, hcount, h⟩ := Reader.run_bind_eq_ok h
    obtain ⟨hcount', rfl⟩ := Reader.lift_eq_ok.mp hcount
    obtain ⟨words, c₃, hwords, h⟩ := words_eq_ok.mp h
    obtain ⟨⟨paletteCount, runtimePalette, persistentPalette⟩, c₄, hpalette, h⟩ :=
      Reader.run_bind_eq_ok h
    cases h
    exact ⟨byte, _, _, words, c₃, paletteCount, runtimePalette, persistentPalette,
      (Reader.Alike.byte _ _ c _).mp hbyte, hcount', hwords, hpalette, rfl⟩
  · rintro ⟨byte, c₁, wordCount, words, c₂, paletteCount, runtimePalette, persistentPalette, hbyte,
      hcount, hwords, hpalette, rfl⟩
    have hbyte : readByte "paletted storage header" c = .ok (byte, c₁) :=
      (Reader.Alike.byte _ _ c _).mpr hbyte
    rw [scan, Reader.offset_run, Reader.bind_run hbyte]
    dsimp only
    rw [Reader.bind_run (Reader.lift_eq_ok.mpr ⟨hcount, rfl⟩)]
    refine words_eq_ok.mpr ⟨words, c₂, hwords, ?_⟩
    rw [Reader.bind_run hpalette]
    rfl

theorem scanPalette_runtime {header : PalettedStorageHeader}
    {persistentEncoding : BedrockNbtEncoding} (hruntime : header.runtime = true)
    (hbits : header.bitsPerBlock ≠ 0) {c c' : Cursor}
    {palettes : ℕ × List UInt32 × List NbtDocument} :
    scanPalette header persistentEncoding c = .ok (palettes, c') ↔
      ∃ size c₁ stateIds, Layer.readPaletteSize .runtime c = .ok (size, c₁) ∧
        1 ≤ size ∧ size ≤ 4096 ∧ size.toNat ≤ 2 ^ header.bitsPerBlock ∧
        Reader.many BedrockProtocol.readZigZagVarInt size.toNat c₁ = .ok (stateIds, c') ∧
        (∀ stateId ∈ stateIds, 0 ≤ stateId) ∧
        palettes = (size.toNat, stateIds.map Int32.toUInt32, []) := by
  have hcount : Reader.Alike (readPaletteCount header.runtime persistentEncoding)
      (Layer.readPaletteSize .runtime) := by
    rw [readPaletteCount, if_neg (by simp [hruntime])]
    exact readZigZagVarInt_alike.map _
  rw [scanPalette, if_neg (by simp [hbits]), if_neg hbits]
  constructor
  · intro h
    obtain ⟨size, c₁, hsize, h⟩ := Reader.run_bind_eq_ok h
    split at h
    · cases h
    rename_i hrange
    split at h
    · cases h
    rename_i hfits
    obtain ⟨runtimePalette, c₂, hids, h⟩ := Reader.run_bind_eq_ok h
    cases h
    obtain ⟨stateIds, hstates, hall, rfl⟩ := many_readRuntimeId_eq_ok.mp hids
    exact ⟨size, c₁, stateIds, (hcount c _).mp hsize, by omega, by omega, by omega, hstates, hall,
      rfl⟩
  · rintro ⟨size, c₁, stateIds, hsize, hlo, hhi, hfits, hstates, hall, rfl⟩
    have hids := many_readRuntimeId_eq_ok.mpr ⟨stateIds, hstates, hall, rfl⟩
    rw [Reader.bind_run ((hcount c _).mpr hsize), if_neg (by omega), if_neg (by omega),
      if_pos hruntime, Reader.bind_run hids]
    rfl

end PalettedStorageParser

theorem Layer.loadPalettedBlocks_runtime {airStateId : Int32}
    {resolver : Option BedrockBlockStateResolver} {bits : ℕ} (hbits : bits ≠ 0) {c c' : Cursor}
    {layer : Layer} :
    loadPalettedBlocks .runtime airStateId resolver bits c = .ok (layer, c') ↔
      ∃ (blocks : PalettedStorage) (c₁ : Cursor) (size : ℤ) (c₂ : Cursor) (stateIds : List Int32)
        (palette : List BedrockBlockState), blocks.bitsPerBlock = bits ∧
        Reader.many readWord32 (packedLength 32 bits storageSize) c = .ok (blocks.words, c₁) ∧
        readPaletteSize .runtime c₁ = .ok (size, c₂) ∧
        1 ≤ size ∧ size ≤ 4096 ∧ size.toNat ≤ 2 ^ bits ∧
        Reader.many readZigZagVarInt size.toNat c₂ = .ok (stateIds, c') ∧
        incrementPalette blocks.indices
          (stateIds.map fun stateId ↦ runtimeEntry airStateId stateId 0) = .ok palette ∧
        layer = ⟨palette, blocks⟩ := by
  have hmax : max 1 bits = bits := by omega
  have hwide : ∀ size : ℤ, 1 ≤ size → size ≤ 4096 →
      ((bits < 32 ∧ 2 ^ max 1 bits < size.toNat) ↔ ¬ size.toNat ≤ 2 ^ bits) := by
    intro size hlo hhi
    rw [hmax]
    by_cases hlt : bits < 32
    · simp [hlt]
    · have : 2 ^ 32 ≤ 2 ^ bits := Nat.pow_le_pow_right (by omega) (by omega)
      simp only [hlt, false_and, false_iff, not_not]
      omega
  rw [loadPalettedBlocks, if_neg (by simp [hbits])]
  constructor
  · intro h
    obtain ⟨storage, c₀, hlift, h⟩ := Reader.run_bind_eq_ok h
    obtain ⟨hnew, rfl⟩ := Reader.lift_eq_ok.mp hlift
    have hstorage : storage.bitsPerBlock = bits := by rw [new_bitsPerBlock hnew, hmax]
    obtain ⟨blocks, c₁, hread, h⟩ := Reader.run_bind_eq_ok h
    obtain ⟨words, c₂, hwords, hblocks⟩ := Reader.run_bind_eq_ok hread
    cases hblocks
    have hwords := Reader.manyExactly_eq_ok.mp hwords
    obtain ⟨size, c₃, hsize, h⟩ := Reader.run_bind_eq_ok h
    split at h
    · cases h
    rename_i hrange
    have hfits := hwide size (by omega) (by omega)
    split at h
    · cases h
    rename_i hnarrow
    have hfits := not_not.mp (hfits.not.mp hnarrow)
    obtain ⟨palette, c₄, hstates, h⟩ := Reader.run_bind_eq_ok h
    obtain ⟨palette', c₅, hlift, h⟩ := Reader.run_bind_eq_ok h
    obtain ⟨hcounted, rfl⟩ := Reader.lift_eq_ok.mp hlift
    cases h
    obtain ⟨stateIds, hids, rfl⟩ :=
      (PalettedStorageParser.readStates_runtime airStateId resolver 0 _).mp hstates
    rw [← hstorage] at hfits ⊢
    exact ⟨{ storage with words := words.1, length_words := words.2 }, _, size, c₃, stateIds, _, rfl,
      hwords, hsize, by omega, by omega, hfits, hids, hcounted, rfl⟩
  · rintro ⟨blocks, c₁, size, c₂, stateIds, palette, rfl, hwords, hsize, hlo, hhi, hfits, hids,
      hcounted, rfl⟩
    have hread : ∀ storage : PalettedStorage, storage.bitsPerBlock = blocks.bitsPerBlock →
        storage.read c = .ok (blocks, c₁) := by
      intro storage hbits
      have hlength : blocks.words.length = packedLength 32 storage.bitsPerBlock storageSize := by
        rw [hbits, blocks.length_words]
      rw [← hbits] at hwords
      rw [PalettedStorage.read, Reader.bind_run ((@Reader.manyExactly_eq_ok _ _ _ c c₁
        ⟨blocks.words, hlength⟩).mpr hwords)]
      cases storage
      cases blocks
      cases hbits
      rfl
    have hstates := (PalettedStorageParser.readStates_runtime airStateId resolver 0 _).mpr
      ⟨stateIds, hids, rfl⟩
    rw [Reader.bind_run (Reader.lift_eq_ok.mpr ⟨new_eq_ok blocks.bits_le, rfl⟩),
      Reader.bind_run (hread _ (by rw [ofBits_bitsPerBlock, hmax])), Reader.bind_run hsize,
      if_neg (by omega), if_neg ((hwide size hlo hhi).not.mpr (not_not.mpr hfits)),
      Reader.bind_run hstates, Reader.bind_run (Reader.lift_eq_ok.mpr ⟨hcounted, rfl⟩)]
    rfl

/-! ## Agreement -/

namespace PalettedStorageParser

open BedrockSubChunk

variable {persistentEncoding : BedrockNbtEncoding} {airStateId : Int32}
  {resolver : Option BedrockBlockStateResolver} {c c₁ c' : Cursor} {byte : UInt8}
  {info : PalettedStorageInfo} {layer : Layer}

/-- The type byte is read alike. -/
theorem readLayer_run (hbyte : BinaryStream.readU8 c = .ok (byte, c₁))
    (hruntime : (readHeader byte).runtime = true) :
    readLayer .runtime airStateId resolver c =
      Layer.loadPalettedBlocks .runtime airStateId resolver (readHeader byte).bitsPerBlock c₁ := by
  have hbit : ¬ (byte.toNat &&& 1 = 0 ∧ ChunkStorageType.runtime = .runtime) := by
    simpa [readHeader] using hruntime
  rw [readLayer, Reader.bind_run hbyte, if_neg hbit]
  rfl

/-- The zero-width form: one state id, the same at every position. -/
theorem loadPalettedBlocks_single :
    Layer.loadPalettedBlocks .runtime airStateId resolver 0 c = .ok (layer, c') ↔
      ∃ value, BinaryStream.readVarUInt c = .ok (value, c') ∧
        Layer.addToPalette ⟨[], .ofBits 1 (by decide) (by decide)⟩ airStateId
          (int32OfBits (value >>> 1)) 4096 = .ok layer := by
  rw [Layer.loadPalettedBlocks, if_pos ⟨rfl, rfl⟩]
  constructor
  · intro h
    obtain ⟨stateId, c₁, hread, h⟩ := Reader.run_bind_eq_ok h
    obtain ⟨hadd, rfl⟩ := Reader.lift_eq_ok.mp h
    obtain ⟨⟨value, c₂⟩, hvalue, hstate⟩ := map_eq_ok.mp hread
    obtain ⟨rfl, rfl⟩ := Prod.mk.inj hstate
    exact ⟨value, hvalue, hadd⟩
  · rintro ⟨value, hvalue, hadd⟩
    have hread : readRuntimeSingleStateId c = .ok (int32OfBits (value >>> 1), c') :=
      map_eq_ok.mpr ⟨(value, c'), hvalue, rfl⟩
    rw [Reader.bind_run hread]
    exact Reader.lift_eq_ok.mpr ⟨hadd, rfl⟩

theorem sameStates_single {stateId : Int32}
    (hadd : Layer.addToPalette ⟨[], .ofBits 1 (by decide) (by decide)⟩ airStateId stateId 4096 =
      .ok layer)
    (hbits : info.header.bitsPerBlock = 0) (hruntime : info.header.runtime = true)
    (hpalette : info.runtimePalette = [stateId.toUInt32]) : info.SameStates layer := by
  obtain ⟨blocks, hadd', hindices, -⟩ := @Layer.addToPalette_eq_ok
    ⟨[], .ofBits 1 (by decide) (by decide)⟩ airStateId stateId 4096 (by simp +contextual) (by simp)
  obtain rfl := Except.ok.inj (hadd.symm.trans hadd')
  refine @PalettedStorageInfo.SameStates.of_palette _ _ [stateId] rfl hruntime hpalette fun i hi ↦ ?_
  have hzero : blocks.indexAt i = 0 := by
    have hlength : i < blocks.indices.length := by rwa [length_indices]
    rw [← blocks.getElem_indices hlength]
    simp only [hindices, indices_ofBits, List.getElem_replicate]
  refine ⟨?_, by simp [hzero]⟩
  rw [PalettedStorageInfo.getPaletteIndex, if_neg (by omega), if_pos hbits]
  simp only [hzero]

theorem sameStates_words {blocks : PalettedStorage} {stateIds : List Int32}
    {palette : List BedrockBlockState}
    (hcounted : Layer.incrementPalette blocks.indices
      (stateIds.map fun stateId ↦ Layer.runtimeEntry airStateId stateId 0) = .ok palette)
    (hwords : info.words = blocks.words) (hbits : info.header.bitsPerBlock = blocks.bitsPerBlock)
    (hruntime : info.header.runtime = true)
    (hpalette : info.runtimePalette = stateIds.map Int32.toUInt32) :
    info.SameStates ⟨palette, blocks⟩ := by
  obtain ⟨hlt, -⟩ := Layer.incrementPalette_eq_ok hcounted
  refine @PalettedStorageInfo.SameStates.of_palette _ _ stateIds ?_ hruntime hpalette fun i hi ↦
    ⟨getPaletteIndex_eq hwords hbits hi, ?_⟩
  · rw [Layer.incrementPalette_stateId hcounted, List.map_map]
    exact List.map_id _
  · simpa using hlt _ (List.mem_map.mpr ⟨i, List.mem_range.mpr hi, rfl⟩)

theorem wordsFor4096Blocks_eq {bits : ℕ} (hbits : bits ≠ 0) (hle : bits ≤ 32) :
    wordsFor4096Blocks bits = .ok (packedLength 32 bits storageSize) := by
  rw [wordsFor4096Blocks, if_neg hbits, if_neg (by omega)]
  rfl

/-- A runtime storage that is scanned, with its indices in the palette, is loaded. -/
theorem readLayer_of_scan (hscan : scan persistentEncoding c = .ok (info, c'))
    (hruntime : info.header.runtime = true) (hfit : info.IndicesFit) :
    ∃ layer, readLayer .runtime airStateId resolver c = .ok (layer, c') ∧ info.SameStates layer := by
  obtain ⟨byte, c₁, wordCount, words, c₂, paletteCount, runtimePalette, persistentPalette, hbyte,
    hcount, hwords, hpalette, rfl⟩ := scan_eq_ok.mp hscan
  dsimp only at hruntime
  rw [readLayer_run hbyte hruntime]
  by_cases hbits : (readHeader byte).bitsPerBlock = 0
  · rw [wordsFor4096Blocks, if_pos hbits] at hcount
    cases hcount
    cases hwords
    rw [scanPalette, if_pos ⟨hruntime, hbits⟩] at hpalette
    obtain ⟨runtimeId, c₂, hread, h⟩ := Reader.run_bind_eq_ok hpalette
    cases h
    obtain ⟨value, hvalue, -, rfl⟩ := readRuntimeId_single.mp hread
    obtain ⟨blocks, hadd, -, -⟩ := @Layer.addToPalette_eq_ok
      ⟨[], .ofBits 1 (by decide) (by decide)⟩ airStateId (int32OfBits (value >>> 1)) 4096
      (by simp +contextual) (by simp)
    rw [hbits]
    exact ⟨_, loadPalettedBlocks_single.mpr ⟨value, hvalue, hadd⟩,
      sameStates_single hadd hbits hruntime rfl⟩
  · have hle : (readHeader byte).bitsPerBlock ≤ 32 := by
      by_contra hwide
      rw [wordsFor4096Blocks, if_neg hbits, if_pos (by omega)] at hcount
      cases hcount
    obtain rfl := Except.ok.inj ((wordsFor4096Blocks_eq hbits hle).symm.trans hcount)
    obtain ⟨size, c₃, stateIds, hsize, hlo, hhi, hfits, hids, -, hpalettes⟩ :=
      (scanPalette_runtime hruntime hbits).mp hpalette
    obtain ⟨rfl, rfl, rfl⟩ : paletteCount = size.toNat ∧
        runtimePalette = stateIds.map Int32.toUInt32 ∧ persistentPalette = [] := by
      simpa using hpalettes
    have hlength : stateIds.length = size.toNat :=
      ((Yields.trivial _).many size.toNat _ _ _ hids).1
    have hwordsLength : words.length =
        packedLength 32 (readHeader byte).bitsPerBlock storageSize :=
      ((Yields.trivial _).many _ _ _ _ hwords).1
    let blocks : PalettedStorage :=
      ⟨(readHeader byte).bitsPerBlock, words, Nat.pos_of_ne_zero hbits, hle, hwordsLength⟩
    obtain ⟨palette, hcounted⟩ := @Layer.incrementPalette_of_lt blocks.indices
      (stateIds.map fun stateId ↦ Layer.runtimeEntry airStateId stateId 0) fun v hv ↦ by
        obtain ⟨i, hi, rfl⟩ := List.mem_map.mp hv
        obtain ⟨paletteIndex, hget, hlt⟩ := hfit i (List.mem_range.mp hi)
        rw [@getPaletteIndex_eq _ blocks rfl rfl i (List.mem_range.mp hi)] at hget
        cases hget
        simpa [hlength] using hlt
    exact ⟨⟨palette, blocks⟩, (Layer.loadPalettedBlocks_runtime hbits).mpr ⟨blocks, c₂, size, c₃,
      stateIds, palette, rfl, hwords, hsize, hlo, hhi, hfits, hids, hcounted, rfl⟩,
      sameStates_words hcounted rfl rfl hruntime rfl⟩

/-- A storage that is loaded, with no negative state id, is scanned. -/
theorem scan_of_readLayer (hbyte : BinaryStream.readU8 c = .ok (byte, c₁))
    (hload : readLayer .runtime airStateId resolver c = .ok (layer, c'))
    (hstates : if (readHeader byte).bitsPerBlock = 0 then
      ∀ value c₂, BinaryStream.readVarUInt c₁ = .ok (value, c₂) → value % 2 = 0
      else ∀ entry ∈ layer.palette, 0 ≤ entry.stateId) :
    ∃ info, scan persistentEncoding c = .ok (info, c') ∧ info.header.runtime = true ∧
      info.totalBytes = c'.offset - c.offset ∧ info.IndicesFit ∧ info.SameStates layer := by
  have hruntime : (readHeader byte).runtime = true := by
    by_contra hbit
    have hbit' : byte.toNat &&& 1 = 0 ∧ ChunkStorageType.runtime = .runtime := by
      simpa [readHeader] using hbit
    rw [readLayer, Reader.bind_run hbyte, if_pos hbit'] at hload
    cases hload
  rw [readLayer_run hbyte hruntime] at hload
  by_cases hbits : (readHeader byte).bitsPerBlock = 0
  · rw [hbits] at hload
    rw [if_pos hbits] at hstates
    obtain ⟨value, hvalue, hadd⟩ := loadPalettedBlocks_single.mp hload
    have hid := readRuntimeId_single.mpr ⟨value, hvalue, hstates value c' hvalue, rfl⟩
    have hpalette : scanPalette (readHeader byte) persistentEncoding c₁ =
        .ok ((1, [(int32OfBits (value >>> 1)).toUInt32], []), c') := by
      rw [scanPalette, if_pos ⟨hruntime, hbits⟩, Reader.bind_run hid]
      rfl
    have hcount : wordsFor4096Blocks (readHeader byte).bitsPerBlock = .ok 0 := by
      rw [wordsFor4096Blocks, if_pos hbits]
    refine ⟨_, scan_eq_ok.mpr ⟨byte, c₁, 0, [], c₁, _, _, _, hbyte, hcount, rfl, hpalette, rfl⟩,
      hruntime, rfl, ?_, sameStates_single hadd hbits hruntime rfl⟩
    intro i hi
    refine ⟨0, ?_, Nat.one_pos⟩
    rw [PalettedStorageInfo.getPaletteIndex, if_neg (by omega), if_pos hbits]
  · rw [if_neg hbits] at hstates
    obtain ⟨blocks, c₂, size, c₃, stateIds, palette, hwidth, hwords, hsize, hlo, hhi, hfits, hids,
      hcounted, rfl⟩ := (Layer.loadPalettedBlocks_runtime hbits).mp hload
    have hle : (readHeader byte).bitsPerBlock ≤ 32 := hwidth ▸ blocks.bits_le
    have hnonneg : ∀ stateId ∈ stateIds, 0 ≤ stateId := by
      intro stateId hmem
      have hmem' : stateId ∈ palette.map BedrockBlockState.stateId := by
        rw [Layer.incrementPalette_stateId hcounted, List.map_map]
        exact List.mem_map.mpr ⟨stateId, hmem, rfl⟩
      obtain ⟨entry, hentry, rfl⟩ := List.mem_map.mp hmem'
      exact hstates entry hentry
    have hpalette := (@scanPalette_runtime _ persistentEncoding hruntime hbits c₂ c' _).mpr
      ⟨size, c₃, stateIds, hsize, hlo, hhi, hfits, hids, hnonneg, rfl⟩
    refine ⟨_, scan_eq_ok.mpr ⟨byte, c₁, _, blocks.words, c₂, _, _, _, hbyte,
      wordsFor4096Blocks_eq hbits hle, hwords, hpalette, rfl⟩, hruntime, rfl, ?_,
      sameStates_words hcounted rfl hwidth.symm hruntime rfl⟩
    have hlength : stateIds.length = size.toNat :=
      ((Yields.trivial _).many size.toNat _ _ _ hids).1
    obtain ⟨hlt, -⟩ := Layer.incrementPalette_eq_ok hcounted
    intro i hi
    refine ⟨_, getPaletteIndex_eq rfl hwidth.symm hi, ?_⟩
    simpa [hlength] using hlt _ (List.mem_map.mpr ⟨i, List.mem_range.mpr hi, rfl⟩)

theorem advances_readVarUInt : Advances BinaryStream.readVarUInt :=
  advances_readLeb128 (fun _ ↦ .byte _) _ 32 5 0 0

theorem advances_readZigZagVarInt : Advances BedrockProtocol.readZigZagVarInt :=
  advances_readVarUInt.map _

theorem advances_readWord32 : Advances readWord32 := ((Advances.take 4 _).map _).map _

theorem advances_readLayer : Advances (readLayer .runtime airStateId resolver) := by
  refine (Advances.byte _).bind fun byte ↦ ?_
  split
  · exact .throw _
  intro c layer c' hload
  by_cases hbits : byte.toNat >>> 1 = 0
  · rw [hbits] at hload
    obtain ⟨value, hvalue, -⟩ := loadPalettedBlocks_single.mp hload
    exact advances_readVarUInt c value c' hvalue
  · obtain ⟨blocks, c₁, size, c₂, stateIds, palette, -, hwords, hsize, -, -, -, hids, -, -⟩ :=
      (Layer.loadPalettedBlocks_runtime hbits).mp hload
    obtain ⟨words, rfl⟩ := advances_readWord32.many _ _ _ _ hwords
    obtain ⟨count, rfl⟩ := advances_readZigZagVarInt.map _ _ _ _ hsize
    obtain ⟨ids, rfl⟩ := advances_readZigZagVarInt.many _ _ _ _ hids
    exact ⟨words + count + ids, by simp only [List.drop_drop, Nat.add_assoc]⟩

/-- The two readers agree at every offset of every buffer: what is scanned, with
every index in the palette, is loaded, and what is loaded, with no state id
negative, is scanned; each time from the same bytes and with the same state ids. -/
theorem scanAt_readLayer_agree (data : List UInt8) (offset : ℕ)
    (persistentEncoding : BedrockNbtEncoding) (airStateId : Int32)
    (resolver : Option BedrockBlockStateResolver) :
    (∀ info, scanAt data offset persistentEncoding = .ok info → info.header.runtime = true →
      info.IndicesFit →
      ∃ layer, readLayer .runtime airStateId resolver ⟨offset, data.drop offset⟩ =
          .ok (layer, ⟨offset + info.totalBytes, data.drop (offset + info.totalBytes)⟩) ∧
        info.SameStates layer) ∧
    (∀ layer c', readLayer .runtime airStateId resolver ⟨offset, data.drop offset⟩ =
        .ok (layer, c') → NonNegativeStates data offset layer →
      ∃ info, scanAt data offset persistentEncoding = .ok info ∧ info.header.runtime = true ∧
        c' = ⟨offset + info.totalBytes, data.drop (offset + info.totalBytes)⟩ ∧
        info.IndicesFit ∧ info.SameStates layer) := by
  constructor
  · intro info hscan hruntime hfit
    obtain ⟨⟨info', c'⟩, hrun, rfl⟩ := map_eq_ok.mp hscan
    obtain ⟨layer, hload, hsame⟩ := readLayer_of_scan hrun hruntime hfit
    refine ⟨layer, ?_, hsame⟩
    obtain ⟨n, rfl⟩ := advances_readLayer _ _ _ hload
    obtain ⟨_, _, _, _, _, _, _, _, -, -, -, -, hinfo⟩ := scan_eq_ok.mp hrun
    have htotal : info'.totalBytes = n := by
      rw [hinfo]
      exact Nat.add_sub_cancel_left offset n
    rw [hload, htotal, List.drop_drop]
  · intro layer c' hload hstates
    obtain ⟨byte, c₁, hbyte, -⟩ := Reader.run_bind_eq_ok hload
    have hfirst : data[offset]? = some byte ∧ c₁ = ⟨offset + 1, data.drop (offset + 1)⟩ := by
      cases hdrop : data.drop offset with
      | nil =>
          rw [hdrop] at hbyte
          cases hbyte
      | cons b rest =>
          rw [hdrop] at hbyte
          cases hbyte
          refine ⟨?_, ?_⟩
          · rw [← List.head?_drop, hdrop, List.head?_cons]
          · rw [← List.drop_drop, hdrop, List.drop_one, List.tail_cons]
    obtain ⟨hget, rfl⟩ := hfirst
    obtain ⟨info, hscan, hruntime, htotal, hfit, hsame⟩ :=
      @scan_of_readLayer persistentEncoding _ _ _ _ _ _ _ hbyte hload (hstates byte hget)
    refine ⟨info, by rw [scanAt, hscan]; rfl, hruntime, ?_, hfit, hsame⟩
    obtain ⟨n, rfl⟩ := advances_readLayer _ _ _ hload
    have htotal : info.totalBytes = n := by
      rw [htotal]
      exact Nat.add_sub_cancel_left offset n
    rw [htotal, List.drop_drop]

/-- A byte of something else, and a storage of one bit for each block: the first block has the
second of the states 7 and 9. -/
def pairData : List UInt8 := 0xff :: 3 :: 1 :: (List.replicate 511 0 ++ [4, 14, 18])

theorem scanAt_pairData : ∃ info, scanAt pairData 1 .littleVarInt = .ok info ∧
    info.header.bitsPerBlock = 1 ∧ info.header.runtime = true ∧ info.words.length = 128 ∧
    info.paletteCount = 2 ∧ info.totalBytes = 516 := by
  have hparts : (scanAt pairData 1 .littleVarInt).toOption.map (fun info ↦
      (info.header.bitsPerBlock, info.header.runtime, info.words.length, info.paletteCount,
        info.totalBytes)) = some (1, true, 128, 2, 516) := by decide +kernel
  cases hscan : scanAt pairData 1 .littleVarInt with
  | error message =>
      rw [hscan] at hparts
      cases hparts
  | ok info =>
      rw [hscan] at hparts
      simp only [Except.toOption, Option.map_some, Option.some.injEq, Prod.mk.injEq] at hparts
      exact ⟨info, rfl, hparts⟩

theorem indicesFit_of_oneBit {info : PalettedStorageInfo} (hbits : info.header.bitsPerBlock = 1)
    (hwords : info.words.length = 128) (hcount : info.paletteCount = 2) : info.IndicesFit := by
  intro i hi
  have hlt : i / 32 < info.words.length := by omega
  refine ⟨(field 1 (i % 32 * 1) info.words[i / 32]).toNat, ?_, ?_⟩
  · rw [PalettedStorageInfo.getPaletteIndex, if_neg (by omega), hbits, if_neg Nat.one_ne_zero]
    dsimp only
    rw [if_neg (by decide), Nat.div_one, List.getElem?_eq_getElem hlt]
  · rw [hcount]
    exact toNat_field_lt 1 _ _

/-- The storage is loaded because it is scanned, and scanned because it is loaded. -/
theorem scanAt_readLayer_agree_pair : ∃ info layer,
    scanAt pairData 1 .littleVarInt = .ok info ∧
      readLayer .runtime 0 none ⟨1, pairData.drop 1⟩ = .ok (layer, ⟨517, []⟩) ∧
      info.SameStates layer ∧
      ∃ info', scanAt pairData 1 .littleVarInt = .ok info' ∧ 1 + info'.totalBytes = 517 ∧
        info'.IndicesFit ∧ info'.SameStates layer := by
  obtain ⟨info, hscan, hbits, hruntime, hwords, hcount, htotal⟩ := scanAt_pairData
  obtain ⟨hloads, hscans⟩ := scanAt_readLayer_agree pairData 1 .littleVarInt 0 none
  obtain ⟨layer, hload, hsame⟩ :=
    hloads info hscan hruntime (indicesFit_of_oneBit hbits hwords hcount)
  have hnothing : pairData.drop (1 + 516) = [] := by decide +kernel
  rw [htotal, hnothing] at hload
  have hpalette : (readLayer .runtime 0 none ⟨1, pairData.drop 1⟩).toOption.map
      (fun read ↦ read.1.palette.all fun entry ↦ 0 ≤ entry.stateId) = some true := by decide +kernel
  rw [hload] at hpalette
  have hstates : ∀ entry ∈ layer.palette, 0 ≤ entry.stateId := fun entry hentry ↦
    of_decide_eq_true (List.all_eq_true.mp (Option.some.inj hpalette) entry hentry)
  have hheader : pairData[1]? = some 3 := rfl
  have hnonNegative : NonNegativeStates pairData 1 layer := by
    intro byte hbyte
    rw [hheader] at hbyte
    cases hbyte
    exact hstates
  obtain ⟨info', hscan', -, hend, hfits', hsame'⟩ := hscans layer _ hload hnonNegative
  have hlast := congrArg Cursor.offset hend
  exact ⟨info, layer, hscan, hload, hsame, info', hscan', hlast.symm, hfits', hsame'⟩

end PalettedStorageParser

end BedrockProtocol
