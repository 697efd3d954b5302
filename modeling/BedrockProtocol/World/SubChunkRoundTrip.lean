import BedrockProtocol.World.SubChunkPalette

/-!
# Reading back a sub-chunk

A layer with more than one palette entry is written as its words, the size of
the palette and the entries, and reads back as it was.  A runtime layer with a
single entry is written with the zigzag bit of its state id, which the reader
drops: a negative state id comes back as its complement.
-/

namespace BedrockProtocol

open PalettedStorage

theorem int32OfBits_toNat (value : Int32) : int32OfBits value.toUInt32.toNat = value := by
  rw [int32OfBits, UInt32.ofNat_toNat, Int32.toInt32_toUInt32]

theorem reads_readZigZagVarInt (value : Int32) :
    Reads readZigZagVarInt (writeZigZagVarInt value) value := by
  have hlt : value.toUInt32.toNat < 2 ^ 32 := value.toUInt32.toNat_lt
  have hread := (BinaryStream.reads_readVarUInt (encodeZigZag_lt (by omega) hlt)).map
    (f := fun value ↦ int32OfBits (decodeZigZag 32 value))
  rwa [decodeZigZag_encodeZigZag (by omega) hlt, int32OfBits_toNat] at hread

/-- What the reader of a single state makes of a state id. -/
def misread (stateId : Int32) : Int32 := int32OfBits (encodeZigZag 32 stateId.toUInt32.toNat >>> 1)

theorem reads_readRuntimeSingleStateId (stateId : Int32) :
    Reads readRuntimeSingleStateId (writeZigZagVarInt stateId) (misread stateId) := by
  have hlt : stateId.toUInt32.toNat < 2 ^ 32 := stateId.toUInt32.toNat_lt
  exact (BinaryStream.reads_readVarUInt (encodeZigZag_lt (by omega) hlt)).map
    (f := fun value ↦ int32OfBits (value >>> 1))

/-- The sign bit of a word. -/
theorem toNat_toUInt32_lt_iff (value : Int32) : value.toUInt32.toNat < 2 ^ 31 ↔ 0 ≤ value := by
  have hbits : value.toUInt32.toNat = value.toBitVec.toNat := rfl
  have hlt := value.toBitVec.isLt
  rw [Int32.le_iff_toInt_le, Int32.toInt_zero, ← Int32.toInt_toBitVec,
    BitVec.toInt_eq_toNat_cond, hbits]
  split <;> omega

theorem misread_eq_iff (stateId : Int32) : misread stateId = stateId ↔ 0 ≤ stateId := by
  have hlt : stateId.toUInt32.toNat < 2 ^ 32 := stateId.toUInt32.toNat_lt
  rw [← toNat_toUInt32_lt_iff, misread]
  constructor
  · intro h
    by_contra hneg
    have hbits := congrArg (fun value : Int32 ↦ value.toUInt32.toNat) h
    rw [encodeZigZag_of_ge (by omega) (by omega) hlt, Nat.shiftRight_eq_div_pow] at hbits
    simp [int32OfBits] at hbits
    omega
  · intro hpos
    rw [encodeZigZag_of_lt (by omega) hpos, Nat.shiftRight_eq_div_pow, pow_one,
      Nat.mul_div_cancel_left _ (by omega), int32OfBits_toNat]

namespace Layer

variable {layer layer' : Layer} {format : ChunkStorageType} {airStateId : Int32}
  {resolver : Option BedrockBlockStateResolver} {provider : Option BedrockBlockStateProvider}

theorem incrementPalette_of_lt {indices : List ℕ} {palette : List BedrockBlockState}
    (h : ∀ v ∈ indices, v < palette.length) :
    ∃ palette', incrementPalette indices palette = .ok palette' := by
  induction indices generalizing palette with
  | nil => exact ⟨palette, rfl⟩
  | cons v indices ih =>
      have hv : ¬ palette.length ≤ v := not_le.mpr (h v (by simp))
      obtain ⟨palette', hrest⟩ := @ih (palette.modify v countUp) fun w hw ↦ by
        simpa using h w (by simp [hw])
      refine ⟨palette', ?_⟩
      rw [incrementPalette, List.foldlM_cons, if_neg hv]
      exact hrest

/-- Counting leaves the state ids alone. -/
theorem incrementPalette_stateId {indices : List ℕ} {palette palette' : List BedrockBlockState}
    (h : incrementPalette indices palette = .ok palette') :
    palette'.map BedrockBlockState.stateId = palette.map BedrockBlockState.stateId := by
  obtain ⟨-, rfl⟩ := incrementPalette_eq_ok h
  apply List.ext_getElem (by simp)
  intro i hi hi'
  simp

theorem readPaletteSize_write {size : ℕ} (hsize : size ≤ 4096) :
    Reads (readPaletteSize format) (writePaletteSize format size) size := by
  have hzigzag : Reads (Int32.toInt <$> readZigZagVarInt)
      (writeZigZagVarInt (int32OfBits size)) (size : ℤ) := by
    have hvalue : (int32OfBits size).toInt = size := by
      have hbits : (int32OfBits size).toBitVec.toNat = size := by
        change (UInt32.ofNat size).toNat = size
        rw [UInt32.toNat_ofNat']
        omega
      rw [← Int32.toInt_toBitVec, BitVec.toInt_eq_toNat_cond, hbits, if_pos (by omega)]
    have hread := (reads_readZigZagVarInt (int32OfBits size)).map (f := Int32.toInt)
    rwa [hvalue] at hread
  cases format with
  | localPersistence =>
      have hlt : size < 256 ^ 4 := by omega
      exact (BinaryStream.reads_readWord hlt).map (f := fun size : ℕ ↦ (size : ℤ))
  | networkPersistence => exact hzigzag
  | runtime => exact hzigzag

/-- A storage with its palette reads back if its entries do. -/
theorem reads_loadPalettedBlocks (h : layer.Counted) (hsize : layer.palette.length ≤ 4096)
    {palette : List BedrockBlockState} {states : List UInt8}
    (hlength : palette.length = layer.palette.length)
    (hstates : Reads (readStates format airStateId resolver 0 layer.palette.length) states palette) :
    ∃ counted, Reads (loadPalettedBlocks format airStateId resolver layer.blocks.bitsPerBlock)
        (layer.blocks.write ++ (writePaletteSize format layer.palette.length ++ states))
        ⟨counted, layer.blocks⟩ ∧
      counted.map BedrockBlockState.stateId = palette.map BedrockBlockState.stateId := by
  have hpos := layer.blocks.bits_pos
  have hmax : max 1 layer.blocks.bitsPerBlock = layer.blocks.bitsPerBlock := by omega
  have hnonempty : 0 < layer.palette.length := List.length_pos_of_ne_nil h.palette_ne_nil
  obtain ⟨counted, hcounted⟩ := @incrementPalette_of_lt layer.blocks.indices palette fun v hv ↦ by
    rw [hlength]
    exact h.index_lt hv
  refine ⟨counted, ?_, incrementPalette_stateId hcounted⟩
  rw [loadPalettedBlocks, if_neg (by omega)]
  refine (Reads.lift (new_eq_ok layer.blocks.bits_le)).bind_nil ?_
  refine (layer.blocks.reads_read ?_).bind ?_
  · rw [ofBits_bitsPerBlock, hmax]
  refine (readPaletteSize_write hsize).bind ?_
  rw [if_neg (by omega), hmax, Int.toNat_natCast, if_neg (by have := h.fits; omega)]
  refine hstates.bind_last ?_
  exact (Reads.lift hcounted).bind_nil (Reads.pure _)

/-- A lookup in a layer that was read back, when its palette has the old state
ids. -/
theorem getBlockStateId_reloaded {palette : List BedrockBlockState}
    (h : palette.map BedrockBlockState.stateId = layer.palette.map BedrockBlockState.stateId)
    (x y z : UInt8) :
    (⟨palette, layer.blocks⟩ : Layer).getBlockStateId x y z = layer.getBlockStateId x y z := by
  rw [getBlockStateId_eq, getBlockStateId_eq, h]

theorem reads_readStates_runtime (palette : List BedrockBlockState) (index : ℕ) :
    Reads (readStates .runtime airStateId resolver index palette.length)
      (palette.map fun entry ↦ writeZigZagVarInt entry.stateId).flatten
      (palette.map fun entry ↦ runtimeEntry airStateId entry.stateId 0) := by
  induction palette generalizing index with
  | nil => exact Reads.pure []
  | cons entry palette ih =>
      refine Reads.bind ((reads_readZigZagVarInt entry.stateId).bind_last (Reads.pure _)) ?_
      exact (ih (index + 1)).bind_last (Reads.pure _)

/-- The two forms of a runtime layer. -/
theorem writeStorage_runtime_cases {bytes : List UInt8}
    (hwrite : layer.writeStorage .runtime provider = .ok bytes) :
    (∃ entry, layer.palette = [entry] ∧ bytes = 1 :: writeZigZagVarInt entry.stateId) ∨
    ((∀ entry, layer.palette ≠ [entry]) ∧ layer.palette.length ≤ 4096 ∧
      bytes = UInt8.ofNat ((layer.blocks.bitsPerBlock <<< 1) ||| 1) ::
        (layer.blocks.write ++ (writePaletteSize .runtime layer.palette.length ++
          (layer.palette.map fun entry ↦ writeZigZagVarInt entry.stateId).flatten))) := by
  have hstates : layer.palette.mapM (writeState .runtime provider) =
      .ok (layer.palette.map fun entry ↦ writeZigZagVarInt entry.stateId) := by
    induction layer.palette with
    | nil => rfl
    | cons entry palette ih =>
        rw [List.mapM_cons, ih]
        rfl
  unfold writeStorage at hwrite
  split at hwrite
  · cases hwrite
  rename_i hsize
  rw [not_or, not_lt] at hsize
  split at hwrite
  · rename_i entry _ hentry
    exact .inl ⟨entry, hentry, (Except.ok.inj hwrite).symm⟩
  · rename_i hsingle
    refine .inr ⟨fun entry hentry ↦ hsingle entry rfl hentry, hsize.2, ?_⟩
    rw [hstates] at hwrite
    exact (Except.ok.inj hwrite).symm

/-- The type byte of a storage. -/
theorem paletteType_eq {bits : ℕ} (hbits : bits ≤ 32) {runtime : ℕ} (hruntime : runtime < 2) :
    (UInt8.ofNat ((bits <<< 1) ||| runtime)).toNat = 2 * bits + runtime := by
  have hor : (bits <<< 1) ||| runtime = 2 * bits + runtime := by
    rw [← Nat.shiftLeft_add_eq_or_of_lt (by simpa using hruntime), Nat.shiftLeft_eq]
    omega
  rw [hor, toNat_ofNat_of_lt (by omega)]

/-- A layer of several entries reads back as it was; a layer of a single entry
reads back with the state id misread. -/
theorem reads_readLayer_runtime (h : layer.Counted) {bytes : List UInt8}
    (hwrite : layer.writeStorage .runtime provider = .ok bytes) :
    ∃ layer', Reads (BedrockSubChunk.readLayer .runtime airStateId resolver) bytes layer' ∧
      ((∀ entry, layer.palette ≠ [entry]) →
        ∀ x y z, layer'.getBlockStateId x y z = layer.getBlockStateId x y z) ∧
      ∀ entry, layer.palette = [entry] →
        ∀ x y z, layer'.getBlockStateId x y z = .ok (misread entry.stateId) := by
  rcases writeStorage_runtime_cases hwrite with ⟨entry, hentry, rfl⟩ | ⟨hmany, hsize, rfl⟩
  · obtain ⟨blocks, hadd, hindices, -⟩ := @addToPalette_eq_ok
      ⟨[], .ofBits 1 (by decide) (by decide)⟩ airStateId (misread entry.stateId) 4096
      (by simp +contextual) (by simp)
    refine ⟨⟨[runtimeEntry airStateId (misread entry.stateId) 4096], blocks⟩,
      (BinaryStream.reads_readU8 1).bind_cons ?_, fun hmany ↦ (hmany entry hentry).elim, ?_⟩
    · rw [if_neg (by decide)]
      refine (reads_readRuntimeSingleStateId entry.stateId).bind_last ?_
      exact Reads.lift hadd
    · rintro entry' hentry' x y z
      obtain rfl : entry = entry' := by simpa [hentry] using hentry'
      have hzero : blocks.get x y z = 0 := by
        have := get_mem_indices blocks x y z
        rw [hindices, indices_ofBits] at this
        exact List.eq_of_mem_replicate this
      simp [getBlockStateId, hzero, runtimeEntry]
  · have htype : (UInt8.ofNat ((layer.blocks.bitsPerBlock <<< 1) ||| 1)).toNat =
        2 * layer.blocks.bitsPerBlock + 1 := paletteType_eq layer.blocks.bits_le (by omega)
    obtain ⟨counted, hread, hids⟩ := @reads_loadPalettedBlocks layer .runtime airStateId resolver h
      hsize _ _ (by simp) (reads_readStates_runtime layer.palette 0)
    refine ⟨⟨counted, layer.blocks⟩, (BinaryStream.reads_readU8 _).bind_cons ?_, fun _ ↦ ?_,
      fun entry hentry ↦ (hmany entry hentry).elim⟩
    · rw [htype, if_neg (by rw [Nat.and_one_is_mod]; omega), Nat.shiftRight_eq_div_pow]
      have hbits : (2 * layer.blocks.bitsPerBlock + 1) / 2 ^ 1 = layer.blocks.bitsPerBlock := by omega
      rw [hbits]
      exact hread
    · refine getBlockStateId_reloaded ?_
      rw [hids, List.map_map]
      rfl

theorem Counted.getBlockStateId_single (h : layer.Counted) {entry : BedrockBlockState}
    (hentry : layer.palette = [entry]) (x y z : UInt8) :
    layer.getBlockStateId x y z = .ok entry.stateId := by
  have hlt := h.get_lt x y z
  rw [hentry] at hlt
  have hindex : layer.blocks.get x y z = 0 := by simpa using hlt
  simp [Layer.getBlockStateId, hindex, hentry]

end Layer

namespace BedrockSubChunk

variable {sub sub' into : BedrockSubChunk} {airStateId : Int32} {compactStorage : Bool}
  {resolver : Option BedrockBlockStateResolver} {provider : Option BedrockBlockStateProvider}

/-- The layer that `encodeTo` writes for a layer. -/
def stored (compactStorage : Bool) (layer : Layer) : Layer :=
  if compactStorage then layer.compact else layer

theorem stored_counted {layer : Layer} (h : layer.Counted) :
    (stored compactStorage layer).Counted := by
  unfold stored
  split
  · exact h.compact
  · exact h

theorem getBlockStateId_stored {layer : Layer} (h : layer.Counted) (x y z : UInt8) :
    (stored compactStorage layer).getBlockStateId x y z = layer.getBlockStateId x y z := by
  unfold stored
  split
  · exact h.getBlockStateId_compact x y z
  · rfl

/-- The layer is not written in the form whose reader loses the sign. -/
def SignKept (compactStorage : Bool) (layer : Layer) : Prop :=
  ∀ entry, (stored compactStorage layer).palette = [entry] → 0 ≤ entry.stateId

/-- What `layer'` has to be once `layer` was written and read. -/
def Reloaded (compactStorage : Bool) (layer layer' : Layer) : Prop :=
  (∀ x y z, layer'.getBlockStateId x y z = layer.getBlockStateId x y z) ↔
    SignKept compactStorage layer

theorem reloaded_of_reads {layer : Layer} (h : layer.Counted) {bytes : List UInt8}
    (hwrite : (stored compactStorage layer).writeStorage .runtime provider = .ok bytes) :
    ∃ layer', Reads (readLayer .runtime airStateId resolver) bytes layer' ∧
      Reloaded compactStorage layer layer' := by
  obtain ⟨layer', hread, hmany, hone⟩ := Layer.reads_readLayer_runtime (stored_counted h) hwrite
  refine ⟨layer', hread, ?_, ?_⟩
  · intro hsame entry hentry
    have hlookup := (stored_counted h).getBlockStateId_single hentry 0 0 0
    rw [getBlockStateId_stored h, ← hsame, hone entry hentry, Except.ok.injEq] at hlookup
    exact (misread_eq_iff entry.stateId).mp hlookup
  · intro hkept x y z
    by_cases hsingle : ∃ entry, (stored compactStorage layer).palette = [entry]
    · obtain ⟨entry, hentry⟩ := hsingle
      have hlookup := (stored_counted h).getBlockStateId_single hentry x y z
      rw [hone entry hentry, (misread_eq_iff entry.stateId).mpr (hkept entry hentry), ← hlookup,
        getBlockStateId_stored h]
    · rw [hmany (fun entry hentry ↦ hsingle ⟨entry, hentry⟩), getBlockStateId_stored h]

theorem reads_layers {layers : List Layer} (h : ∀ layer ∈ layers, layer.Counted)
    {storages : List (List UInt8)}
    (hwrite : layers.mapM (fun layer ↦
      (stored compactStorage layer).writeStorage .runtime provider) = .ok storages) :
    ∃ layers', List.Forall₂ (Reloaded compactStorage) layers layers' ∧
      Reads (Reader.many (readLayer .runtime airStateId resolver) layers.length) storages.flatten
        layers' := by
  induction layers generalizing storages with
  | nil =>
      obtain rfl := Except.ok.inj hwrite
      exact ⟨[], .nil, Reads.pure []⟩
  | cons layer layers ih =>
      rw [List.mapM_cons] at hwrite
      obtain ⟨bytes, hbytes, hrest⟩ := bind_eq_ok.mp hwrite
      obtain ⟨rest, hlayers, hstorages⟩ := bind_eq_ok.mp hrest
      obtain rfl := Except.ok.inj hstorages
      obtain ⟨layer', hread, hlayer⟩ := reloaded_of_reads (h layer (by simp)) hbytes
      obtain ⟨layers', hall, hreads⟩ := ih (fun l hl ↦ h l (by simp [hl])) hlayers
      exact ⟨layer' :: layers', .cons hlayer hall, hread.bind (hreads.bind_last (Reads.pure _))⟩

/-- What a successful encoding consists of. -/
theorem encodeTo_eq_ok {format : ChunkStorageType} {bytes : List UInt8}
    (hencode : sub.encodeTo format compactStorage provider = .ok bytes) :
    ∃ storages, sub.layers.mapM (fun layer ↦
        (stored compactStorage layer).writeStorage format provider) = .ok storages ∧
      bytes = [sub.subChunkVersion, UInt8.ofNat sub.layers.length] ++
        ((if 9 ≤ sub.subChunkVersion then [sub.y.toUInt8] else []) ++ storages.flatten) := by
  unfold encodeTo at hencode
  split at hencode
  · cases hencode
  obtain ⟨storages, hstorages, hbytes⟩ := bind_eq_ok.mp hencode
  exact ⟨storages, hstorages, (Except.ok.inj hbytes).symm⟩

/-- The header of version 8 or 9. -/
theorem reads_readHeader {y : Int8} {count : UInt8}
    (hversion : sub.subChunkVersion = 8 ∨ sub.subChunkVersion = 9) :
    Reads (readHeader y) ([sub.subChunkVersion, count] ++
        if 9 ≤ sub.subChunkVersion then [sub.y.toUInt8] else [])
      (sub.subChunkVersion, count, if 9 ≤ sub.subChunkVersion then sub.y else y) := by
  unfold readHeader
  rcases hversion with hversion | hversion
  · rw [hversion]
    refine (BinaryStream.reads_readU8 8).bind_cons ?_
    exact (BinaryStream.reads_readU8 count).bind_cons (Reads.pure _)
  · rw [hversion]
    refine (BinaryStream.reads_readU8 9).bind_cons ?_
    refine (BinaryStream.reads_readU8 count).bind_cons ?_
    exact (BinaryStream.reads_readU8 sub.y.toUInt8).bind_cons (Reads.pure _)

theorem reads_decodeFrom_of {format : ChunkStorageType} {version count : UInt8} {y : Int8}
    {header storages : List UInt8} {layers' : List Layer}
    (hheader : Reads (readHeader into.y) header (version, count, y))
    (hcount : count.toNat = 1 ∨ count.toNat = 2)
    (hlayers : Reads (Reader.many (readLayer format airStateId resolver) count.toNat) storages
      layers') :
    Reads (into.decodeFrom format airStateId resolver) (header ++ storages)
      { into with subChunkVersion := version, airStateId, y, layers := layers' } := by
  have hne : ¬ (count = 0 ∨ 2 < count) := by
    rw [not_or, UInt8.lt_iff_toNat_lt, ← UInt8.toNat_inj, UInt8.toNat_zero]
    have htwo : (2 : UInt8).toNat = 2 := rfl
    omega
  refine hheader.bind ?_
  dsimp only
  rw [if_neg hne]
  exact hlayers.bind_last (Reads.pure _)

/-- A sub-chunk of version 8 or 9 with one or two layers is read, layer by
layer, from exactly the bytes written. -/
theorem reads_decodeFrom (h : sub.Counted) (hversion : sub.subChunkVersion = 8 ∨
      sub.subChunkVersion = 9) (hlayers : sub.layers.length = 1 ∨ sub.layers.length = 2)
    {bytes : List UInt8} (hencode : sub.encodeTo .runtime compactStorage provider = .ok bytes) :
    ∃ layers', List.Forall₂ (Reloaded compactStorage) sub.layers layers' ∧
      Reads (into.decodeFrom .runtime airStateId resolver) bytes
        { into with
          subChunkVersion := sub.subChunkVersion, airStateId, layers := layers'
          y := if 9 ≤ sub.subChunkVersion then sub.y else into.y } := by
  obtain ⟨storages, hstorages, rfl⟩ := encodeTo_eq_ok hencode
  obtain ⟨layers', hall, hreads⟩ := @reads_layers airStateId _ resolver _ _ h _ hstorages
  have hcount : (UInt8.ofNat sub.layers.length).toNat = sub.layers.length :=
    toNat_ofNat_of_lt (by omega)
  refine ⟨layers', hall, ?_⟩
  rw [← List.append_assoc]
  exact reads_decodeFrom_of (reads_readHeader hversion) (by rwa [hcount]) (by rwa [hcount])

/-- Decoding gives the same state at every position of every layer and, for
version 9, the same height, and leaves no byte over. -/
def RoundTrips (sub into : BedrockSubChunk) (airStateId : Int32)
    (resolver : Option BedrockBlockStateResolver) (bytes : List UInt8) : Prop :=
  ∃ sub', into.decodeFrom .runtime airStateId resolver (Cursor.start bytes) =
      .ok (sub', ⟨bytes.length, []⟩) ∧
    (∀ layer x y z : UInt8, layer.toNat < sub.layers.length →
      sub'.getBlockStateId layer x y z = sub.getBlockStateId layer x y z) ∧
    (sub.subChunkVersion = 9 → sub'.y = sub.y)

/-- A storage takes at least two bytes, and the first one is small. -/
theorem writeStorage_two_bytes {layer : Layer} {bytes : List UInt8}
    (hwrite : layer.writeStorage .runtime provider = .ok bytes) :
    ∃ paletteType rest, bytes = paletteType :: rest ∧ rest ≠ [] ∧ paletteType.toNat < 128 := by
  rcases Layer.writeStorage_runtime_cases hwrite with ⟨entry, -, rfl⟩ | ⟨-, -, rfl⟩
  · exact ⟨1, _, rfl, leb128_ne_nil _ _, by decide⟩
  · have htype : (UInt8.ofNat ((layer.blocks.bitsPerBlock <<< 1) ||| 1)).toNat =
        2 * layer.blocks.bitsPerBlock + 1 := Layer.paletteType_eq layer.blocks.bits_le (by omega)
    refine ⟨_, _, rfl, ?_, by have := layer.blocks.bits_le; omega⟩
    simp [Layer.writePaletteSize, writeZigZagVarInt, BinaryStream.writeVarUInt, leb128_ne_nil]

/-- A reader that consumed a proper part of the bytes did not consume them all. -/
theorem not_roundTrips_of_reads {consumed rest : List UInt8}
    (hread : Reads (into.decodeFrom .runtime airStateId resolver) consumed sub') (hrest : rest ≠ []) :
    ¬ RoundTrips sub into airStateId resolver (consumed ++ rest) := by
  rintro ⟨other, hrun, -⟩
  rw [hread.start] at hrun
  have hcursor := congrArg Cursor.rest (congrArg Prod.snd (Except.ok.inj hrun))
  exact hrest hcursor

theorem not_roundTrips_of_error {bytes : List UInt8} {e : String}
    (hrun : into.decodeFrom .runtime airStateId resolver (Cursor.start bytes) = .error e) :
    ¬ RoundTrips sub into airStateId resolver bytes := by
  rintro ⟨other, hother, -⟩
  rw [hrun] at hother
  cases hother

/-- A version 1 header announces no number of layers, so the number that was
written is taken for a palette type. -/
theorem not_roundTrips_version_one {bytes : List UInt8} (hversion : sub.subChunkVersion = 1)
    (hlayers : sub.layers.length = 1 ∨ sub.layers.length = 2)
    (hencode : sub.encodeTo .runtime compactStorage provider = .ok bytes) :
    ¬ RoundTrips sub into airStateId resolver bytes := by
  obtain ⟨storages, hstorages, rfl⟩ := encodeTo_eq_ok hencode
  have hshort : ¬ 9 ≤ (1 : UInt8) := by decide
  have hheader : Reads (readHeader into.y) [1] (8, 1, into.y) :=
    (BinaryStream.reads_readU8 1).bind_last (Reads.pure _)
  rw [hversion, if_neg hshort, List.nil_append]
  rcases hlayers with hlayers | hlayers
  · obtain ⟨layer, hlayer⟩ := List.length_eq_one_iff.mp hlayers
    rw [hlayer, List.mapM_cons] at hstorages
    obtain ⟨bytes, hbytes, hrest⟩ := bind_eq_ok.mp hstorages
    obtain rfl := Except.ok.inj hrest
    obtain ⟨paletteType, rest, rfl, hne, hsmall⟩ := writeStorage_two_bytes hbytes
    have hword : Reads readRuntimeSingleStateId [paletteType] (int32OfBits (paletteType.toNat >>> 1)) := by
      have hread := BinaryStream.reads_readVarUInt (v := paletteType.toNat) (by omega)
      have hone : BinaryStream.writeVarUInt paletteType.toNat = [paletteType] := by
        simp [BinaryStream.writeVarUInt, leb128, hsmall]
      rw [hone] at hread
      exact hread.map (f := fun value ↦ int32OfBits (value >>> 1))
    obtain ⟨blocks, hadd, -, -⟩ := @Layer.addToPalette_eq_ok
      ⟨[], .ofBits 1 (by decide) (by decide)⟩ airStateId
      (int32OfBits (paletteType.toNat >>> 1)) 4096 (by simp +contextual) (by simp)
    have hreadLayer : Reads (readLayer .runtime airStateId resolver) [1, paletteType] _ :=
      (BinaryStream.reads_readU8 1).bind_cons (hword.bind_last (Reads.lift hadd))
    have hmany : Reads (Reader.many (readLayer .runtime airStateId resolver) 1) [1, paletteType] _ :=
      hreadLayer.bind_last ((Reads.pure []).bind_nil (Reads.pure _))
    have hdecode := reads_decodeFrom_of hheader (.inl rfl) hmany
    simpa [hlayer] using not_roundTrips_of_reads hdecode hne
  · rw [hlayers]
    apply not_roundTrips_of_error
    exact Reader.bind_run (hheader.start _)

/-- Other versions are refused. -/
theorem not_roundTrips_other_version {bytes : List UInt8} (hone : sub.subChunkVersion ≠ 1)
    (height : sub.subChunkVersion ≠ 8) (hnine : sub.subChunkVersion ≠ 9)
    (hencode : sub.encodeTo .runtime compactStorage provider = .ok bytes) :
    ¬ RoundTrips sub into airStateId resolver bytes := by
  obtain ⟨storages, hstorages, rfl⟩ := encodeTo_eq_ok hencode
  have hheader (rest : List UInt8) :
      readHeader into.y (Cursor.start (sub.subChunkVersion :: rest)) =
        .error ("unsupported sub chunk version: " ++ toString sub.subChunkVersion.toNat) := by
    have hbyte : BinaryStream.readU8 (Cursor.start (sub.subChunkVersion :: rest)) =
        .ok (sub.subChunkVersion, ⟨1, rest⟩) := rfl
    rw [readHeader, Reader.bind_run hbyte, if_neg hone, if_neg height, if_neg hnine]
    rfl
  exact not_roundTrips_of_error (Reader.bind_error (hheader _))

/-- Encoding a reachable sub-chunk with one or two layers and decoding the bytes
gives back its states, its height and the end of the bytes exactly when its
version is 8 or 9 and no layer is written as a single negative state. -/
theorem roundTrips_iff (h : Reachable sub) (hlayers : sub.layers.length = 1 ∨ sub.layers.length = 2)
    {bytes : List UInt8} (hencode : sub.encodeTo .runtime compactStorage provider = .ok bytes) :
    RoundTrips sub into airStateId resolver bytes ↔
      (sub.subChunkVersion = 8 ∨ sub.subChunkVersion = 9) ∧
        ∀ layer ∈ sub.layers, SignKept compactStorage layer := by
  by_cases hversion : sub.subChunkVersion = 8 ∨ sub.subChunkVersion = 9
  · obtain ⟨layers', hall, hread⟩ := reads_decodeFrom h.counted hversion hlayers hencode
    obtain ⟨hlength, hreloaded⟩ := List.forall₂_iff_get.mp hall
    have hrun := hread.start []
    rw [List.append_nil] at hrun
    constructor
    · rintro ⟨sub', hsub', hstates, -⟩
      refine ⟨hversion, fun layer hlayer ↦ ?_⟩
      rw [hrun] at hsub'
      obtain rfl := congrArg Prod.fst (Except.ok.inj hsub')
      obtain ⟨i, hi, rfl⟩ := List.mem_iff_getElem.mp hlayer
      have hnumber : (UInt8.ofNat i).toNat = i := toNat_ofNat_of_lt (by omega)
      apply (hreloaded i hi (by omega)).mp
      intro x y z
      have hsame := hstates (UInt8.ofNat i) x y z (by omega)
      simpa [getBlockStateId, hnumber, hi, hlength ▸ hi] using hsame
    · rintro ⟨-, hkept⟩
      refine ⟨_, hrun, ?_, ?_⟩
      · intro layer x y z hlt
        have hsame := (hreloaded layer.toNat hlt (hlength ▸ hlt)).mpr
          (hkept _ (List.getElem_mem hlt)) x y z
        simpa [getBlockStateId, hlt, hlength ▸ hlt] using hsame
      · intro hnine
        simp [hnine]
  · rw [not_or] at hversion
    refine iff_of_false ?_ fun hright ↦ hright.1.elim hversion.1 hversion.2
    by_cases hone : sub.subChunkVersion = 1
    · exact not_roundTrips_version_one hone hlayers hencode
    · exact not_roundTrips_other_version hone hversion.1 hversion.2 hencode

/-- A section with a block in each of two layers. -/
theorem exists_twoLayers : ∃ sub twoLayers, (createAir 3 7).setBlockStateId 0 1 2 3 8 = .ok sub ∧
    sub.setBlockStateId 1 4 5 6 9 = .ok twoLayers := by
  obtain ⟨sub, hsub⟩ : ∃ sub, (createAir 3 7).setBlockStateId 0 1 2 3 8 = .ok sub := ⟨_, rfl⟩
  obtain ⟨twoLayers, htwo⟩ : ∃ twoLayers, sub.setBlockStateId 1 4 5 6 9 = .ok twoLayers := by
    cases hsub
    exact ⟨_, rfl⟩
  exact ⟨sub, twoLayers, hsub, htwo⟩

theorem roundTrips_twoLayers : ∃ sub twoLayers bytes,
    (createAir 3 7).setBlockStateId 0 1 2 3 8 = .ok sub ∧
      sub.setBlockStateId 1 4 5 6 9 = .ok twoLayers ∧
      twoLayers.encodeTo .runtime true none = .ok bytes ∧ RoundTrips twoLayers {} 0 none bytes := by
  obtain ⟨sub, twoLayers, hsub, htwo⟩ := exists_twoLayers
  have hreachable := ((Reachable.createAir 3 7).setBlockStateId hsub).setBlockStateId htwo
  obtain ⟨hlayers, hversion, hkept⟩ : twoLayers.layers.length = 2 ∧ twoLayers.subChunkVersion = 9 ∧
      ∀ layer ∈ twoLayers.layers, (stored true layer).palette.length = 2 := by
    cases hsub
    cases htwo
    decide +kernel
  obtain ⟨bytes, hencode⟩ : ∃ bytes, twoLayers.encodeTo .runtime true none = .ok bytes := by
    cases hsub
    cases htwo
    exact ⟨_, rfl⟩
  refine ⟨sub, twoLayers, bytes, hsub, htwo, hencode,
    (roundTrips_iff hreachable (.inr hlayers) hencode).mpr ⟨.inr hversion, ?_⟩⟩
  intro layer hlayer entry hentry
  have hlength := hkept layer hlayer
  rw [hentry] at hlength
  cases hlength

/-- A section of state -1 comes back as a section of state 0. -/
theorem negative_state_misread :
    Reachable (createAir 0 (-1)) ∧ (createAir 0 (-1)).layers.length = 1 ∧
      (createAir 0 (-1)).encodeTo .runtime true none = .ok [9, 1, 0, 1, 1] ∧
      ¬ RoundTrips (createAir 0 (-1)) {} 0 none [9, 1, 0, 1, 1] := by
  refine ⟨.createAir 0 (-1), rfl, rfl, ?_⟩
  rintro ⟨sub', hrun, hstates, -⟩
  have hstate := hstates 0 0 0 0 (by decide)
  have hread : (sub'.getBlockStateId 0 0 0 0) = .ok 0 := by
    obtain rfl := congrArg Prod.fst (Except.ok.inj hrun)
    rfl
  rw [hread] at hstate
  cases hstate

end BedrockSubChunk

end BedrockProtocol
