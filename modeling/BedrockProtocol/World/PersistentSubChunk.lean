import BedrockProtocol.Nbt.RoundTrip
import BedrockProtocol.World.BuiltColumn

/-!
# Sub-chunks in the persistent format

In the persistent formats a palette entry is the NBT document of a block state.
The writer gets it from a provider, unless the entry has it, and the reader
turns it into a state id with a resolver.  A compacted sub-chunk reads back if
the resolver inverts what was written.
-/

namespace BedrockProtocol

open BedrockNbt (tidied tidiedDocument FloatsRepresentable)

/-- The document of a palette entry. -/
def BedrockBlockStateDescriptor.document (descriptor : BedrockBlockStateDescriptor) : NbtDocument :=
  ⟨[], .compound [(txt "name", .string descriptor.name), (txt "states", descriptor.states),
    (txt "version", .integer descriptor.version)]⟩

/-- A descriptor that NBT can hold. -/
structure BedrockBlockStateDescriptor.Storable (descriptor : BedrockBlockStateDescriptor) :
    Prop where
  name_ne_nil : descriptor.name ≠ []
  compound : descriptor.states.type = .compound
  tidy : tidied descriptor.states = descriptor.states
  floats : FloatsRepresentable descriptor.states
  written : ∃ bytes, BedrockNbt.write .littleVarInt {} descriptor.document = .ok bytes

namespace BedrockBlockStateDescriptor

variable {descriptor : BedrockBlockStateDescriptor}

theorem floats_document (h : descriptor.Storable) :
    FloatsRepresentable descriptor.document.root := by
  refine .intro (by simp [document, NbtValue.compound]) (by simp [document, NbtValue.compound]) ?_
  intro _ child hchild
  simp only [document, NbtValue.compound, List.mem_cons, List.not_mem_nil, or_false] at hchild
  rcases hchild with rfl | rfl | rfl
  · exact .intro (by simp [NbtValue.string]) (by simp [NbtValue.string]) (by simp [NbtValue.string])
  · exact h.floats
  · exact .intro (by simp [NbtValue.integer]) (by simp [NbtValue.integer])
      (by simp [NbtValue.integer])

theorem tidiedDocument_document (h : descriptor.Storable) :
    tidiedDocument descriptor.document = descriptor.document := by
  have hstates := h.tidy
  have hroot : tidied descriptor.document.root =
      .compound [(txt "name", .string descriptor.name), (txt "states", tidied descriptor.states),
        (txt "version", .integer descriptor.version)] := rfl
  rw [tidiedDocument, if_neg (by simp [document, NbtValue.compound]), hroot, hstates]
  rfl

end BedrockBlockStateDescriptor

namespace Layer

variable {layer : Layer} {airStateId : Int32} {provider : Option BedrockBlockStateProvider}
  {resolver : Option BedrockBlockStateResolver}

/-- The resolver finds the state of what is written for the entry. -/
def Described (provider : Option BedrockBlockStateProvider)
    (resolver : Option BedrockBlockStateResolver) (entry : BedrockBlockState) : Prop :=
  ∃ supplied, descriptor provider entry = .ok supplied ∧ supplied.Storable ∧
    resolve resolver supplied.name supplied.states supplied.version = .ok (some entry.stateId)

/-- A descriptor's document is read as its data and what the resolver makes of them. -/
theorem persistentState_eq {supplied : BedrockBlockStateDescriptor}
    (hcompound : supplied.states.type = .compound) :
    persistentState airStateId resolver supplied.document =
      (fun found ↦
        { stateId := found.getD airStateId, name := supplied.name, count := 0
          states := supplied.states, version := supplied.version, hasPersistentData := true }) <$>
        resolve resolver supplied.name supplied.states supplied.version := by
  have hname : supplied.document.root.find (txt "name") = some (.string supplied.name) := rfl
  have hstates : supplied.document.root.find (txt "states") = some supplied.states := rfl
  have hversion : supplied.document.root.find (txt "version") = some (.integer supplied.version) :=
    rfl
  have hlow := supplied.version.le_toInt
  have hhigh := supplied.version.toInt_lt
  have hinteger : (NbtValue.integer supplied.version).integerValue.toInt = supplied.version.toInt :=
    Int64.toInt_ofInt_of_le (by omega) (by omega)
  have hroot : supplied.document.root.type = .compound := rfl
  have hstring : (NbtValue.string supplied.name).type = .string := rfl
  have hint : (NbtValue.integer supplied.version).type = .int := rfl
  have hsigned : InSigned 32 (NbtValue.integer supplied.version).integerValue.toInt := by
    rw [hinteger]
    exact BedrockNbt.inSigned_int32 _
  unfold persistentState
  simp only [hroot, hname, hstring, hstates, Option.getD_some, hcompound, hversion, hint, hsigned,
    ne_eq, not_true_eq_false, or_self, ↓reduceIte]
  rw [hinteger, Int32.ofInt_toInt]
  change (resolve resolver supplied.name supplied.states supplied.version >>= _) = _
  cases resolve resolver supplied.name supplied.states supplied.version with
  | error e => rfl
  | ok found => rfl

theorem persistentState_document {supplied : BedrockBlockStateDescriptor} {stateId : Int32}
    (h : supplied.Storable)
    (hresolve : resolve resolver supplied.name supplied.states supplied.version =
      .ok (some stateId)) :
    persistentState airStateId resolver supplied.document =
      .ok { stateId, name := supplied.name, count := 0, states := supplied.states,
            version := supplied.version, hasPersistentData := true } := by
  rw [persistentState_eq h.compound, hresolve]
  rfl

/-- A palette entry reads back with its state. -/
theorem Described.reads_readState {entry : BedrockBlockState}
    (h : Described provider resolver entry) :
    ∃ bytes, writeState .networkPersistence provider entry = .ok bytes ∧
      ∀ index, ∃ entry', Reads (readState .networkPersistence airStateId resolver index) bytes entry' ∧
        entry'.stateId = entry.stateId := by
  obtain ⟨supplied, hsupplied, hstorable, hresolve⟩ := h
  obtain ⟨bytes, hbytes⟩ := hstorable.written
  refine ⟨bytes, ?_, fun index ↦ ?_⟩
  · have hwrite : writeState .networkPersistence provider entry =
        BedrockNbt.write .littleVarInt {} supplied.document := by
      unfold writeState
      rw [hsupplied, ok_bind, if_neg hstorable.name_ne_nil, if_neg (by simp [hstorable.compound])]
      rfl
    rw [hwrite, hbytes]
  · have hread := BedrockNbt.reads_read
      (BedrockBlockStateDescriptor.floats_document hstorable) hbytes
    rw [BedrockBlockStateDescriptor.tidiedDocument_document hstorable] at hread
    exact ⟨_, hread.mapError.bind_last (Reads.lift (persistentState_document hstorable hresolve)),
      rfl⟩

theorem reads_readStates_persistent {palette : List BedrockBlockState}
    (h : ∀ entry ∈ palette, Described provider resolver entry) :
    ∃ states, palette.mapM (writeState .networkPersistence provider) = .ok states ∧
      ∀ index, ∃ entries, Reads
          (readStates .networkPersistence airStateId resolver index palette.length) states.flatten
          entries ∧
        entries.map BedrockBlockState.stateId = palette.map BedrockBlockState.stateId := by
  induction palette with
  | nil => exact ⟨[], rfl, fun index ↦ ⟨[], Reads.pure _, rfl⟩⟩
  | cons entry palette ih =>
      obtain ⟨bytes, hbytes, hread⟩ := @Described.reads_readState airStateId _ _ _ (h entry (by simp))
      obtain ⟨states, hstates, hreads⟩ := ih fun e he ↦ h e (by simp [he])
      refine ⟨bytes :: states, ?_, fun index ↦ ?_⟩
      · rw [List.mapM_cons, hbytes, hstates]
        rfl
      · obtain ⟨entry', hentry, hid⟩ := hread index
        obtain ⟨entries, hentries, hids⟩ := hreads (index + 1)
        refine ⟨entry' :: entries, ?_, by rw [List.map_cons, List.map_cons, hid, hids]⟩
        exact hentry.bind (hentries.bind_last (Reads.pure _))

/-- A compacted layer is written and reads back with its states. -/
theorem Counted.reads_readLayer_persistent (h : layer.Counted)
    (hdescribed : ∀ entry ∈ layer.palette, 0 < entry.count → Described provider resolver entry) :
    ∃ bytes layer', layer.compact.writeStorage .networkPersistence provider = .ok bytes ∧
      Reads (BedrockSubChunk.readLayer .networkPersistence airStateId resolver) bytes layer' ∧
      512 ≤ bytes.length ∧
      ∀ x y z, layer'.getBlockStateId x y z = layer.getBlockStateId x y z := by
  have hpos := h.compactedPalette_pos
  have hle := h.length_compactedPalette_le
  obtain ⟨states, hstates, hreads⟩ := @reads_readStates_persistent airStateId provider resolver
    layer.compact.palette fun entry hentry ↦ by
      rw [compact_palette] at hentry
      obtain ⟨hmem, hused⟩ := List.mem_filter.mp hentry
      exact hdescribed entry hmem (of_decide_eq_true hused)
  obtain ⟨entries, hentries, hids⟩ := hreads 0
  obtain ⟨counted, hread, hsame⟩ := @reads_loadPalettedBlocks layer.compact .networkPersistence
    airStateId resolver h.compact (by rw [compact_palette]; exact hle) entries _
    (by simpa using congrArg List.length hids) hentries
  have htype : (UInt8.ofNat ((layer.compact.blocks.bitsPerBlock <<< 1) ||| 0)).toNat =
      2 * layer.compact.blocks.bitsPerBlock + 0 := paletteType_eq layer.compact.blocks.bits_le
        (by omega)
  have hwrite : layer.compact.writeStorage .networkPersistence provider =
      .ok (UInt8.ofNat ((layer.compact.blocks.bitsPerBlock <<< 1) ||| 0) ::
        (layer.compact.blocks.write ++
          (writePaletteSize .networkPersistence layer.compact.palette.length ++
            states.flatten))) := by
    unfold writeStorage
    rw [if_neg (by rw [compact_palette, ← List.length_eq_zero_iff]; omega)]
    simp only [hstates]
    rfl
  refine ⟨_, ⟨counted, layer.compact.blocks⟩, hwrite, ?_, ?_, fun x y z ↦ ?_⟩
  · refine (BinaryStream.reads_readU8 _).bind_cons ?_
    rw [htype, if_neg (by simp), Nat.add_zero, Nat.shiftRight_eq_div_pow, pow_one,
      Nat.mul_div_cancel_left _ (by omega)]
    exact hread
  · have := layer.compact.blocks.length_write_ge
    simp only [List.length_cons, List.length_append]
    omega
  · rw [← h.getBlockStateId_compact]
    exact getBlockStateId_reloaded (hsame.trans hids) x y z

end Layer

namespace BedrockSubChunk

variable {sub sub' : BedrockSubChunk} {provider : Option BedrockBlockStateProvider}
  {resolver : Option BedrockBlockStateResolver}

/-- A sub-chunk with counted layers whose states in use the resolver finds again. -/
structure Cacheable (provider : Option BedrockBlockStateProvider)
    (resolver : Option BedrockBlockStateResolver) (sub : BedrockSubChunk) : Prop where
  counted : sub.Counted
  described : ∀ layer ∈ sub.layers, ∀ entry ∈ layer.palette, 0 < entry.count →
    Layer.Described provider resolver entry

/-- A sub-chunk that the reader takes: the writer checks neither the version nor the number of
layers. -/
structure Recognized (sub : BedrockSubChunk) : Prop where
  version : sub.subChunkVersion = 8 ∨ sub.subChunkVersion = 9
  layers : sub.layers.length = 1 ∨ sub.layers.length = 2

instance (sub : BedrockSubChunk) : Decidable sub.Recognized :=
  decidable_of_iff ((sub.subChunkVersion = 8 ∨ sub.subChunkVersion = 9) ∧
    (sub.layers.length = 1 ∨ sub.layers.length = 2)) ⟨fun h ↦ ⟨h.1, h.2⟩, fun h ↦ ⟨h.1, h.2⟩⟩

/-- What a reader that starts at height `y` makes of a sub-chunk. -/
structure Restored (sub : BedrockSubChunk) (y : Int8) (sub' : BedrockSubChunk) : Prop where
  version : sub'.subChunkVersion = sub.subChunkVersion
  height : sub'.y = if sub.subChunkVersion = 9 then sub.y else y
  layers : sub'.layers.length = sub.layers.length
  air : sub'.airStateId = 0
  states : ∀ layer x y z : UInt8, layer.toNat < sub.layers.length →
    sub'.getBlockStateId layer x y z = sub.getBlockStateId layer x y z

theorem getBlockStateId_of_length_le {layer : UInt8} (h : sub.layers.length ≤ layer.toNat)
    (x y z : UInt8) : sub.getBlockStateId layer x y z = .ok sub.airStateId := by
  rw [getBlockStateId, List.getElem?_eq_none h]

/-- Every layer comes back, those that are not there as air. -/
theorem Restored.getBlockStateId_eq {y : Int8} (h : sub.Restored y sub') (hair : sub.airStateId = 0)
    (layer x y z : UInt8) :
    sub'.getBlockStateId layer x y z = sub.getBlockStateId layer x y z := by
  by_cases hlayer : layer.toNat < sub.layers.length
  · exact h.states layer x y z hlayer
  · have hle := not_lt.mp hlayer
    rw [getBlockStateId_of_length_le hle, getBlockStateId_of_length_le (h.layers ▸ hle), h.air, hair]

theorem reads_layers_persistent {layers : List Layer} (hcounted : ∀ layer ∈ layers, layer.Counted)
    (hdescribed : ∀ layer ∈ layers, ∀ entry ∈ layer.palette, 0 < entry.count →
      Layer.Described provider resolver entry) :
    ∃ storages layers', layers.mapM (fun layer ↦
        (stored true layer).writeStorage .networkPersistence provider) = .ok storages ∧
      Reads (Reader.many (readLayer .networkPersistence 0 resolver) layers.length) storages.flatten
        layers' ∧
      (layers ≠ [] → 512 ≤ storages.flatten.length) ∧
      List.Forall₂ (fun layer layer' : Layer ↦
        ∀ x y z, layer'.getBlockStateId x y z = layer.getBlockStateId x y z) layers layers' := by
  induction layers with
  | nil => exact ⟨[], [], rfl, Reads.pure [], by simp, .nil⟩
  | cons layer layers ih =>
      obtain ⟨bytes, layer', hbytes, hread, hlength, hstates⟩ :=
        @Layer.Counted.reads_readLayer_persistent layer 0 provider resolver
          (hcounted layer (by simp)) (hdescribed layer (by simp))
      obtain ⟨storages, layers', hstorages, hreads, -, hall⟩ :=
        ih (fun l hl ↦ hcounted l (by simp [hl])) fun l hl ↦ hdescribed l (by simp [hl])
      refine ⟨bytes :: storages, layer' :: layers', ?_, ?_, fun _ ↦ ?_, .cons hstates hall⟩
      · rw [List.mapM_cons, hstorages]
        change ((layer.compact.writeStorage .networkPersistence provider) >>= _) = _
        rw [hbytes]
        rfl
      · exact hread.bind (hreads.bind_last (Reads.pure _))
      · rw [List.flatten_cons, List.length_append]
        omega

/-- What is written: the layers behind the header. -/
theorem encodeTo_networkPersistence {storages : List (List UInt8)}
    (hstorages : sub.layers.mapM (fun layer ↦
      (stored true layer).writeStorage .networkPersistence provider) = .ok storages)
    (hlayers : sub.layers.length < 256) :
    sub.encodeTo .networkPersistence true provider = .ok
      ([sub.subChunkVersion, UInt8.ofNat sub.layers.length] ++
        ((if 9 ≤ sub.subChunkVersion then [sub.y.toUInt8] else []) ++ storages.flatten)) := by
  unfold encodeTo
  rw [if_neg (by omega)]
  change (sub.layers.mapM (fun layer ↦
    (stored true layer).writeStorage .networkPersistence provider) >>= _) = _
  rw [hstorages]
  rfl

theorem length_lt_of_encodeTo {bytes : List UInt8}
    (hbytes : sub.encodeTo .networkPersistence true provider = .ok bytes) :
    sub.layers.length < 256 := by
  unfold encodeTo at hbytes
  split at hbytes
  · cases hbytes
  · omega

/-- No blob of a sub-chunk is as long as one of legacy biomes: a storage alone is longer. -/
theorem Cacheable.length_encodeTo_ne (h : sub.Cacheable provider resolver) {bytes : List UInt8}
    (hbytes : sub.encodeTo .networkPersistence true provider = .ok bytes) : bytes.length ≠ 256 := by
  obtain ⟨storages, layers', hstorages, -, hlong, -⟩ := reads_layers_persistent h.counted h.described
  rw [encodeTo_networkPersistence hstorages (length_lt_of_encodeTo hbytes)] at hbytes
  obtain rfl := Except.ok.inj hbytes
  have hheight : (if 9 ≤ sub.subChunkVersion then [sub.y.toUInt8] else []).length ≤ 1 := by
    split <;> simp
  simp only [List.length_append, List.length_cons, List.length_nil]
  by_cases hnone : sub.layers = []
  · rw [hnone, List.mapM_nil] at hstorages
    obtain rfl := Except.ok.inj hstorages
    rw [List.flatten_nil, List.length_nil]
    omega
  · have := hlong hnone
    omega

/-- A recognized sub-chunk is written, and every reader restores it. -/
theorem Cacheable.reads_decodeFrom (h : sub.Cacheable provider resolver) (hr : sub.Recognized) :
    ∃ bytes, sub.encodeTo .networkPersistence true provider = .ok bytes ∧
      ∀ into : BedrockSubChunk, ∃ sub',
        Reads (into.decodeFrom .networkPersistence 0 resolver) bytes sub' ∧
        sub.Restored into.y sub' := by
  obtain ⟨storages, layers', hstorages, hreads, -, hall⟩ :=
    reads_layers_persistent h.counted h.described
  have hfew := hr.layers
  have hcount : (UInt8.ofNat sub.layers.length).toNat = sub.layers.length :=
    toNat_ofNat_of_lt (by omega)
  refine ⟨_, encodeTo_networkPersistence hstorages (by omega), fun into ↦ ?_⟩
  rw [← List.append_assoc]
  have hheader := @reads_readHeader sub into.y (UInt8.ofNat sub.layers.length) hr.version
  refine ⟨_, reads_decodeFrom_of hheader (by rwa [hcount]) (by rwa [hcount]), rfl, ?_,
    hall.length_eq.symm, rfl, fun layer x y z hlt ↦ ?_⟩
  · rcases hr.version with hversion | hversion <;> simp [hversion]
  · have hlt' : layer.toNat < layers'.length := hall.length_eq ▸ hlt
    have hsame := hall.get hlt hlt' x y z
    simpa [getBlockStateId, hlt, hlt'] using hsame

/-- A sub-chunk whose bytes are read is recognized.  Version 1 has no number of layers, so there
the reader takes the one that is written for the type of a storage. -/
theorem Cacheable.recognized_of_decodeFrom (h : sub.Cacheable provider resolver)
    {bytes : List UInt8} (hbytes : sub.encodeTo .networkPersistence true provider = .ok bytes)
    (hone : sub.subChunkVersion ≠ 1) {into : BedrockSubChunk} {found : BedrockSubChunk × Cursor}
    (hrun : into.decodeFrom .networkPersistence 0 resolver (Cursor.start bytes) = .ok found) :
    sub.Recognized := by
  obtain ⟨storages, -, hstorages, -⟩ := reads_layers_persistent h.counted h.described
  have hlt := length_lt_of_encodeTo hbytes
  have hcount : (UInt8.ofNat sub.layers.length).toNat = sub.layers.length := toNat_ofNat_of_lt hlt
  rw [encodeTo_networkPersistence hstorages hlt] at hbytes
  obtain rfl := Except.ok.inj hbytes
  obtain ⟨⟨version, storageCount, y⟩, c, hheader, hrest⟩ := Reader.run_bind_eq_ok hrun
  by_cases hversion : sub.subChunkVersion = 8 ∨ sub.subChunkVersion = 9
  · have hread := @reads_readHeader sub into.y (UInt8.ofNat sub.layers.length) hversion
    rw [← List.append_assoc, Cursor.start, hread] at hheader
    cases hheader
    refine ⟨hversion, ?_⟩
    by_contra hlayers
    have hbad : UInt8.ofNat sub.layers.length = 0 ∨ 2 < UInt8.ofNat sub.layers.length := by
      rw [UInt8.lt_iff_toNat_lt, ← UInt8.toNat_inj, hcount]
      have hzero : (0 : UInt8).toNat = 0 := rfl
      have htwo : (2 : UInt8).toNat = 2 := rfl
      omega
    dsimp only at hrest
    rw [if_pos hbad] at hrest
    cases hrest
  · obtain ⟨height, hne⟩ := not_or.mp hversion
    obtain ⟨first, c', hfirst, hheader⟩ := Reader.run_bind_eq_ok hheader
    cases hfirst
    rw [if_neg hone, if_neg height, if_neg hne] at hheader
    cases hheader

/-- In version 9 the bytes hold the height. -/
theorem Cacheable.y_of_encodeTo_eq (h : sub.Cacheable provider resolver)
    (h' : sub'.Cacheable provider resolver) {bytes : List UInt8}
    (hbytes : sub.encodeTo .networkPersistence true provider = .ok bytes)
    (hbytes' : sub'.encodeTo .networkPersistence true provider = .ok bytes)
    (hversion : sub.subChunkVersion = 9) : sub.y = sub'.y := by
  obtain ⟨storages, -, hstorages, -⟩ := reads_layers_persistent h.counted h.described
  obtain ⟨storages', -, hstorages', -⟩ := reads_layers_persistent h'.counted h'.described
  rw [encodeTo_networkPersistence hstorages (length_lt_of_encodeTo hbytes)] at hbytes
  rw [encodeTo_networkPersistence hstorages' (length_lt_of_encodeTo hbytes')] at hbytes'
  have hsame := Except.ok.inj (hbytes.trans hbytes'.symm)
  simp only [List.cons_append, List.nil_append, List.cons.injEq] at hsame
  obtain ⟨hversion', -, hrest⟩ := hsame
  have hnine : (9 : UInt8) ≤ 9 := by decide
  rw [← hversion', hversion, if_pos hnine, if_pos hnine] at hrest
  exact congrArg UInt8.toInt8 (List.cons.inj hrest).1

/-- Recognized sub-chunks with the same bytes have the same states, if their layers that are not
there are air. -/
theorem Cacheable.states_of_encodeTo_eq (h : sub.Cacheable provider resolver)
    (h' : sub'.Cacheable provider resolver) (hr : sub.Recognized) (hr' : sub'.Recognized)
    (hair : sub.airStateId = 0) (hair' : sub'.airStateId = 0)
    (hsame : sub.encodeTo .networkPersistence true provider =
      sub'.encodeTo .networkPersistence true provider) (layer x y z : UInt8) :
    sub.getBlockStateId layer x y z = sub'.getBlockStateId layer x y z := by
  obtain ⟨bytes, hbytes, hreads⟩ := h.reads_decodeFrom hr
  obtain ⟨bytes', hbytes', hreads'⟩ := h'.reads_decodeFrom hr'
  obtain rfl : bytes = bytes' := by
    rw [hbytes, hbytes'] at hsame
    exact Except.ok.inj hsame
  obtain ⟨found, hread, hfound⟩ := hreads {}
  obtain ⟨found', hread', hfound'⟩ := hreads' {}
  obtain rfl : found = found' := by
    have hrun := (hread 0 []).symm.trans (hread' 0 [])
    exact congrArg Prod.fst (Except.ok.inj hrun)
  rw [← hfound.getBlockStateId_eq hair, hfound'.getBlockStateId_eq hair']

end BedrockSubChunk

end BedrockProtocol
