import BedrockProtocol.World.PersistentSubChunk

/-!
# Persistent sub-chunks and their resolver

Decoding the bytes of a sub-chunk in a persistent format asks the resolver for every
palette entry, with the descriptor that the provider supplied as NBT keeps it.
-/

namespace BedrockProtocol

open BedrockNbt (keptDocument)
open PalettedStorage

/-- The descriptor as it comes back from NBT. -/
def BedrockBlockStateDescriptor.kept (descriptor : BedrockBlockStateDescriptor) :
    BedrockBlockStateDescriptor :=
  { descriptor with states := BedrockNbt.kept descriptor.states }

theorem BedrockBlockStateDescriptor.keptDocument_document
    (descriptor : BedrockBlockStateDescriptor) :
    keptDocument descriptor.document = descriptor.kept.document := by
  rw [keptDocument, if_neg (by simp [document, NbtValue.compound])]
  rfl

theorem BedrockNbt.kept_type (value : NbtValue) : (BedrockNbt.kept value).type = value.type := by
  obtain ⟨type⟩ := value
  cases type <;> rfl

/-- A provider and a resolver that are inverse to each other. -/
structure Inverse (provider : BedrockBlockStateProvider) (resolver : BedrockBlockStateResolver) :
    Prop where
  resolves : ∀ stateId found, provider stateId = .ok (some found) →
    resolver found.name found.states found.version = .ok (some stateId)
  provides : ∀ name states version stateId, resolver name states version = .ok (some stateId) →
    provider stateId = .ok (some ⟨name, states, version⟩)

/-- The provider that describes a state by its number. -/
def byVersion : BedrockBlockStateProvider := fun stateId ↦
  .ok (some ⟨txt "state", .compound [], stateId⟩)

def versionOf : BedrockBlockStateResolver := fun name states version ↦
  match states with
  | ⟨.compound, integer, floating, [], [], .endTag, [], [], [], []⟩ =>
      if name = txt "state" ∧ integer = 0 ∧ floating = 0 then .ok (some version) else .ok none
  | _ => .ok none

theorem inverse_byVersion : Inverse byVersion versionOf where
  resolves := by
    intro stateId found hfound
    obtain rfl := Option.some.inj (Except.ok.inj hfound)
    rfl
  provides := by
    intro name states version stateId hresolved
    unfold versionOf at hresolved
    split at hresolved
    · split_ifs at hresolved with hstate
      · obtain ⟨rfl, rfl, rfl⟩ := hstate
        obtain rfl := Option.some.inj (Except.ok.inj hresolved)
        rfl
      · cases hresolved
    · cases hresolved

namespace Layer

variable {layer : Layer} {airStateId : Int32} {provider : Option BedrockBlockStateProvider}
  {resolver : Option BedrockBlockStateResolver} {format : ChunkStorageType}

/-- The palette entry that an entry is read back as. -/
def restoredEntry (airStateId : Int32) (provider : Option BedrockBlockStateProvider)
    (resolver : Option BedrockBlockStateResolver) (entry : BedrockBlockState) :
    Except String BedrockBlockState := do
  let supplied ← descriptor provider entry
  persistentState airStateId resolver supplied.kept.document

def restoredLayer (airStateId : Int32) (provider : Option BedrockBlockStateProvider)
    (resolver : Option BedrockBlockStateResolver) (layer : Layer) : Except String Layer := do
  let palette ← layer.palette.mapM (restoredEntry airStateId provider resolver)
  let palette ← incrementPalette layer.blocks.indices palette
  pure { palette, blocks := layer.blocks }

/-- What is written for an entry. -/
theorem writeState_persistent (hformat : format ≠ .runtime) {entry : BedrockBlockState}
    {bytes : List UInt8} (hwrite : writeState format provider entry = .ok bytes) :
    ∃ supplied, descriptor provider entry = .ok supplied ∧ supplied.states.type = .compound ∧
      BedrockNbt.write (persistenceNbtEncoding format) {} supplied.document = .ok bytes := by
  have hboth : ∃ supplied, descriptor provider entry = .ok supplied ∧
      (if supplied.name = [] then .error "persistent block-state name must not be empty"
      else if supplied.states.type ≠ .compound then
        .error "persistent block-state states must be an NBT compound"
      else BedrockNbt.write (persistenceNbtEncoding format) {} supplied.document) = .ok bytes := by
    cases format with
    | runtime => exact (hformat rfl).elim
    | localPersistence => exact bind_eq_ok.mp hwrite
    | networkPersistence => exact bind_eq_ok.mp hwrite
  obtain ⟨supplied, hsupplied, hrest⟩ := hboth
  split_ifs at hrest with hname hcompound
  exact ⟨supplied, hsupplied, not_not.mp hcompound, hrest⟩

theorem readsTo_readState (hformat : format ≠ .runtime) {entry : BedrockBlockState}
    {bytes : List UInt8} (hwrite : writeState format provider entry = .ok bytes) (index : ℕ) :
    ReadsTo (readState format airStateId resolver index) bytes
      (restoredEntry airStateId provider resolver entry) := by
  obtain ⟨supplied, hsupplied, -, hdocument⟩ := writeState_persistent hformat hwrite
  have hread := BedrockNbt.reads_read_kept hdocument
  rw [supplied.keptDocument_document] at hread
  have hdocument (message : String → String) :
      ReadsTo (do
        let document ← Reader.mapError message
          (BedrockNbt.read (persistenceNbtEncoding format) {})
        liftM (persistentState airStateId resolver document)) bytes
        (persistentState airStateId resolver supplied.kept.document) :=
    ReadsTo.after_last hread.mapError (ReadsTo.lift _)
  rw [restoredEntry, hsupplied, ok_bind]
  cases format with
  | runtime => exact (hformat rfl).elim
  | localPersistence => exact hdocument _
  | networkPersistence => exact hdocument _

theorem readsTo_readStates (hformat : format ≠ .runtime) {palette : List BedrockBlockState}
    {states : List (List UInt8)} (hwrite : palette.mapM (writeState format provider) = .ok states)
    (index : ℕ) :
    ReadsTo (readStates format airStateId resolver index palette.length) states.flatten
      (palette.mapM (restoredEntry airStateId provider resolver)) := by
  induction palette generalizing index states with
  | nil =>
      obtain rfl := Except.ok.inj hwrite
      exact (Reads.pure []).readsTo
  | cons entry palette ih =>
      rw [List.mapM_cons] at hwrite
      obtain ⟨bytes, hbytes, hwrite⟩ := bind_eq_ok.mp hwrite
      obtain ⟨rest, hrest, hwrite⟩ := bind_eq_ok.mp hwrite
      obtain rfl := Except.ok.inj hwrite
      rw [List.flatten_cons, List.mapM_cons]
      refine (readsTo_readState hformat hbytes index).bind fun entry' _ ↦ ?_
      exact (ih hrest (index + 1)).bind_last fun entries _ ↦ (Reads.pure _).readsTo

/-- What is written for a layer, and what it is read back as. -/
theorem Counted.readsTo_readLayer (h : layer.Counted) (hformat : format ≠ .runtime)
    {bytes : List UInt8} (hwrite : layer.writeStorage format provider = .ok bytes) :
    ReadsTo (BedrockSubChunk.readLayer format airStateId resolver) bytes
      (restoredLayer airStateId provider resolver layer) := by
  unfold writeStorage at hwrite
  split at hwrite
  · cases hwrite
  rename_i hsize
  rw [not_or, not_lt] at hsize
  have hnonempty : 0 < layer.palette.length := List.length_pos_of_ne_nil hsize.1
  have hpos := layer.blocks.bits_pos
  have hmax : max 1 layer.blocks.bitsPerBlock = layer.blocks.bitsPerBlock := by omega
  have htype : (UInt8.ofNat ((layer.blocks.bitsPerBlock <<< 1) ||| 0)).toNat =
      2 * layer.blocks.bitsPerBlock + 0 := paletteType_eq layer.blocks.bits_le (by omega)
  obtain ⟨states, hstates, rfl⟩ : ∃ states, layer.palette.mapM (writeState format provider) =
      .ok states ∧ bytes = UInt8.ofNat ((layer.blocks.bitsPerBlock <<< 1) ||| 0) ::
        (layer.blocks.write ++
          (writePaletteSize format layer.palette.length ++ states.flatten)) := by
    cases format with
    | runtime => exact (hformat rfl).elim
    | localPersistence =>
        obtain ⟨states, hstates, hbytes⟩ := bind_eq_ok.mp hwrite
        exact ⟨states, hstates, (Except.ok.inj hbytes).symm⟩
    | networkPersistence =>
        obtain ⟨states, hstates, hbytes⟩ := bind_eq_ok.mp hwrite
        exact ⟨states, hstates, (Except.ok.inj hbytes).symm⟩
  refine ReadsTo.after_cons (BinaryStream.reads_readU8 _) ?_
  rw [if_neg fun hboth ↦ hformat hboth.2, htype, Nat.add_zero, Nat.shiftRight_eq_div_pow, pow_one,
    Nat.mul_div_cancel_left _ (by omega), loadPalettedBlocks, if_neg fun hboth ↦ hformat hboth.1]
  refine ReadsTo.after_nil (Reads.lift (new_eq_ok layer.blocks.bits_le)) ?_
  refine ReadsTo.after (layer.blocks.reads_read ?_) ?_
  · rw [ofBits_bitsPerBlock, hmax]
  refine ReadsTo.after (readPaletteSize_write hsize.2) ?_
  rw [if_neg (by omega), hmax, Int.toNat_natCast, if_neg (by have := h.fits; omega)]
  refine (readsTo_readStates hformat hstates 0).bind_last fun palette hpalette ↦ ?_
  exact (ReadsTo.lift (incrementPalette layer.blocks.indices palette)).bind_last fun counted _ ↦
    (Reads.pure _).readsTo

/-! ## Which layers come back -/

/-- What the resolver answers for an entry whose descriptor went through NBT. -/
def Resolves (provider : Option BedrockBlockStateProvider)
    (resolver : Option BedrockBlockStateResolver) (entry : BedrockBlockState)
    (found : Option Int32) : Prop :=
  ∃ supplied, descriptor provider entry = .ok supplied ∧
    resolve resolver supplied.name (BedrockNbt.kept supplied.states) supplied.version = .ok found

/-- The resolver answers, and knows the entry again if a position uses it. -/
def Recognized (airStateId : Int32) (provider : Option BedrockBlockStateProvider)
    (resolver : Option BedrockBlockStateResolver) (entry : BedrockBlockState) : Prop :=
  ∃ found, Resolves provider resolver entry found ∧
    (0 < entry.count → found.getD airStateId = entry.stateId)

/-- The provider describes the entry by a compound. -/
def Compound (provider : Option BedrockBlockStateProvider) (entry : BedrockBlockState) : Prop :=
  ∀ supplied, descriptor provider entry = .ok supplied → supplied.states.type = .compound

/-- A resolver that inverts the provider recognizes what NBT keeps. -/
theorem recognized_of_inverse {provider : BedrockBlockStateProvider}
    {resolver : BedrockBlockStateResolver} (h : Inverse provider resolver)
    {entry : BedrockBlockState} (hruntime : entry.hasPersistentData = false)
    {supplied : BedrockBlockStateDescriptor}
    (hsupplied : provider entry.stateId = .ok (some supplied))
    (hkept : BedrockNbt.kept supplied.states = supplied.states) :
    Recognized airStateId (some provider) (some resolver) entry := by
  refine ⟨some entry.stateId, ⟨supplied, ?_, ?_⟩, fun _ ↦ rfl⟩
  · rw [descriptor, if_neg (by simp [hruntime]), hsupplied]
    rfl
  · rw [hkept]
    exact h.resolves entry.stateId supplied hsupplied

theorem exists_restoredEntry_iff {entry : BedrockBlockState} (h : Compound provider entry)
    (stateId : Int32) :
    (∃ entry', restoredEntry airStateId provider resolver entry = .ok entry' ∧
        entry'.stateId = stateId) ↔
      ∃ found, Resolves provider resolver entry found ∧ found.getD airStateId = stateId := by
  constructor
  · rintro ⟨entry', hrestored, hid⟩
    obtain ⟨supplied, hsupplied, hstate⟩ := bind_eq_ok.mp hrestored
    have hkept : supplied.kept.states.type = .compound :=
      (BedrockNbt.kept_type _).trans (h supplied hsupplied)
    rw [persistentState_eq hkept] at hstate
    obtain ⟨found, hfound, rfl⟩ := map_eq_ok.mp hstate
    exact ⟨found, ⟨supplied, hsupplied, hfound⟩, hid⟩
  · rintro ⟨found, ⟨supplied, hsupplied, hfound⟩, hid⟩
    have hkept : supplied.kept.states.type = .compound :=
      (BedrockNbt.kept_type _).trans (h supplied hsupplied)
    rw [restoredEntry, hsupplied, ok_bind, persistentState_eq hkept]
    exact ⟨_, map_eq_ok.mpr ⟨found, hfound, rfl⟩, hid⟩

theorem compound_of_writeStorage (hformat : format ≠ .runtime) {bytes : List UInt8}
    (hwrite : layer.writeStorage format provider = .ok bytes) :
    ∀ entry ∈ layer.palette, Compound provider entry := by
  have hstates : ∃ states, layer.palette.mapM (writeState format provider) = .ok states := by
    unfold writeStorage at hwrite
    split at hwrite
    · cases hwrite
    cases format with
    | runtime => exact (hformat rfl).elim
    | localPersistence =>
        obtain ⟨states, hstates, -⟩ := bind_eq_ok.mp hwrite
        exact ⟨states, hstates⟩
    | networkPersistence =>
        obtain ⟨states, hstates, -⟩ := bind_eq_ok.mp hwrite
        exact ⟨states, hstates⟩
  obtain ⟨states, hstates⟩ := hstates
  obtain ⟨hlength, hall⟩ := List.forall₂_iff_get.mp (mapM_eq_ok_iff.mp hstates)
  intro entry hentry supplied hsupplied
  obtain ⟨i, hi, rfl⟩ := List.mem_iff_getElem.mp hentry
  obtain ⟨supplied', hsupplied', hcompound, -⟩ :=
    writeState_persistent hformat (hall i hi (hlength ▸ hi))
  obtain rfl := Except.ok.inj (hsupplied.symm.trans hsupplied')
  exact hcompound

/-- A lookup by the index of the position. -/
theorem getBlockStateId_of_getElem? {x y z : UInt8} {entry : BedrockBlockState}
    (h : layer.palette[layer.blocks.get x y z]? = some entry) :
    layer.getBlockStateId x y z = .ok entry.stateId := by
  rw [getBlockStateId, h]

/-- An entry that is counted is the entry of some position. -/
theorem Counted.exists_position (h : layer.Counted) {i : ℕ} (hi : i < layer.palette.length)
    (hused : 0 < layer.palette[i].count) : ∃ x y z, layer.blocks.get x y z = i := by
  rw [h.count_eq hi, List.countP_pos_iff] at hused
  obtain ⟨⟨x, y, z⟩, -, hget⟩ := hused
  exact ⟨x, y, z, of_decide_eq_true hget⟩

/-- A layer comes back with its states exactly when its entries are recognized. -/
theorem Counted.exists_restoredLayer_iff (h : layer.Counted)
    (hcompound : ∀ entry ∈ layer.palette, Compound provider entry) :
    (∃ layer', restoredLayer airStateId provider resolver layer = .ok layer' ∧
        ∀ x y z, layer'.getBlockStateId x y z = layer.getBlockStateId x y z) ↔
      ∀ entry ∈ layer.palette, Recognized airStateId provider resolver entry := by
  constructor
  · rintro ⟨layer', hrestored, hsame⟩ entry hentry
    obtain ⟨palette, hpalette, hrestored⟩ := bind_eq_ok.mp hrestored
    obtain ⟨counted, hcounted, hlayer⟩ := bind_eq_ok.mp hrestored
    obtain rfl := Except.ok.inj hlayer
    obtain ⟨hlength, hall⟩ := List.forall₂_iff_get.mp (mapM_eq_ok_iff.mp hpalette)
    obtain ⟨i, hi, rfl⟩ := List.mem_iff_getElem.mp hentry
    have hi' : i < palette.length := hlength ▸ hi
    obtain ⟨found, hfound, hid⟩ :=
      (exists_restoredEntry_iff (hcompound _ hentry) _).mp ⟨_, hall i hi hi', rfl⟩
    refine ⟨found, hfound, fun hused ↦ hid.trans ?_⟩
    obtain ⟨x, y, z, hget⟩ := h.exists_position hi hused
    have hlookup := hsame x y z
    rw [getBlockStateId_eq, incrementPalette_stateId hcounted,
      getBlockStateId_of_getElem? (by rw [hget, List.getElem?_eq_getElem hi])] at hlookup
    dsimp only at hlookup
    rw [hget, List.getElem?_map, List.getElem?_eq_getElem hi'] at hlookup
    exact Except.ok.inj hlookup
  · intro hrecognized
    obtain ⟨palette, hpalette, hall⟩ := @exists_mapM_eq_ok _ _ _
      (restoredEntry airStateId provider resolver) (fun entry entry' : BedrockBlockState ↦
        0 < entry.count → entry'.stateId = entry.stateId) layer.palette fun entry hentry ↦ by
      obtain ⟨found, hfound, hid⟩ := hrecognized entry hentry
      obtain ⟨entry', hentry', hid'⟩ :=
        (exists_restoredEntry_iff (hcompound entry hentry) _).mpr ⟨found, hfound, rfl⟩
      exact ⟨entry', hentry', fun hused ↦ hid'.trans (hid hused)⟩
    obtain ⟨hlength, hsame⟩ := List.forall₂_iff_get.mp hall
    obtain ⟨counted, hcounted⟩ := @incrementPalette_of_lt layer.blocks.indices palette fun v hv ↦
      hlength ▸ h.index_lt hv
    refine ⟨⟨counted, layer.blocks⟩, ?_, fun x y z ↦ ?_⟩
    · rw [restoredLayer, hpalette, ok_bind, hcounted]
      rfl
    · have hlt := h.get_lt x y z
      have hlt' : layer.blocks.get x y z < palette.length := hlength ▸ hlt
      rw [getBlockStateId_of_getElem? (List.getElem?_eq_getElem hlt), getBlockStateId_eq,
        incrementPalette_stateId hcounted]
      dsimp only
      rw [List.getElem?_map, List.getElem?_eq_getElem hlt']
      exact congrArg Except.ok (hsame _ hlt hlt' (h.count_pos (get_mem_indices _ x y z)))

end Layer

namespace BedrockSubChunk

variable {sub sub' into : BedrockSubChunk} {compactStorage : Bool} {format : ChunkStorageType}
  {provider : Option BedrockBlockStateProvider} {resolver : Option BedrockBlockStateResolver}

/-- The sub-chunks that setting blocks makes of a sub-chunk of air. -/
inductive Placed : BedrockSubChunk → Prop
  | createAir (y : Int8) (airStateId : Int32) : Placed (createAir y airStateId)
  | setBlockStateId {sub sub' : BedrockSubChunk} {layer x y z : UInt8} {stateId : Int32}
      (h : Placed sub) (hrun : sub.setBlockStateId layer x y z stateId = .ok sub') : Placed sub'

namespace Placed

theorem reachable (h : Placed sub) : Reachable sub := by
  induction h with
  | createAir y airStateId => exact .createAir y airStateId
  | setBlockStateId h hrun ih => exact ih.setBlockStateId hrun

/-- Setting a block changes the layers only, and keeps those there are. -/
theorem setBlockStateId_eq_ok {layer x y z : UInt8} {stateId : Int32}
    (hrun : sub.setBlockStateId layer x y z stateId = .ok sub') :
    ∃ layers, sub' = { sub with layers } ∧ sub.layers.length ≤ layers.length := by
  unfold BedrockSubChunk.setBlockStateId at hrun
  dsimp only at hrun
  split at hrun
  · cases hrun
  obtain ⟨next, -, hsub⟩ := bind_eq_ok.mp hrun
  obtain rfl := Except.ok.inj hsub
  exact ⟨_, rfl, by simp [ensureLayer]⟩

theorem version (h : Placed sub) : sub.subChunkVersion = 9 := by
  induction h with
  | createAir y airStateId => rfl
  | setBlockStateId h hrun ih =>
      obtain ⟨layers, rfl, -⟩ := setBlockStateId_eq_ok hrun
      exact ih

theorem layers_pos (h : Placed sub) : 0 < sub.layers.length := by
  induction h with
  | createAir y airStateId => exact Nat.one_pos
  | setBlockStateId h hrun ih =>
      obtain ⟨layers, rfl, hle⟩ := setBlockStateId_eq_ok hrun
      exact ih.trans_le hle

end Placed

/-- What the decoder makes of the bytes of a sub-chunk with one or two layers. -/
theorem readsTo_decodeFrom (h : sub.Counted) (hversion : sub.subChunkVersion = 8 ∨
      sub.subChunkVersion = 9) (hlayers : sub.layers.length = 1 ∨ sub.layers.length = 2)
    (hformat : format ≠ .runtime) {airStateId : Int32} {bytes : List UInt8}
    (hencode : sub.encodeTo format compactStorage provider = .ok bytes) :
    ReadsTo (into.decodeFrom format airStateId resolver) bytes
      (sub.layers.mapM (fun layer ↦
          Layer.restoredLayer airStateId provider resolver (stored compactStorage layer)) >>=
        fun layers ↦ .ok
          { into with
            subChunkVersion := sub.subChunkVersion, airStateId, layers
            y := if 9 ≤ sub.subChunkVersion then sub.y else into.y }) := by
  obtain ⟨storages, hstorages, rfl⟩ := encodeTo_eq_ok hencode
  have hcount : (UInt8.ofNat sub.layers.length).toNat = sub.layers.length :=
    toNat_ofNat_of_lt (by omega)
  have hne : ¬ (UInt8.ofNat sub.layers.length = 0 ∨ 2 < UInt8.ofNat sub.layers.length) := by
    have htwo : (2 : UInt8).toNat = 2 := rfl
    rw [not_or, UInt8.lt_iff_toNat_lt, ← UInt8.toNat_inj, UInt8.toNat_zero]
    omega
  rw [← List.append_assoc]
  refine ReadsTo.after (reads_readHeader hversion) ?_
  dsimp only
  rw [if_neg hne, hcount]
  refine ReadsTo.bind_last ?_ fun layers _ ↦ (Reads.pure _).readsTo
  refine ReadsTo.many (fun layer hlayer bytes hbytes ↦ ?_) hstorages
  exact (stored_counted (h layer hlayer)).readsTo_readLayer hformat hbytes

/-- Decoding consumes the bytes and gives the same state at every position of every layer. -/
def Persists (sub into : BedrockSubChunk) (format : ChunkStorageType)
    (resolver : Option BedrockBlockStateResolver) (bytes : List UInt8) : Prop :=
  ∃ sub', into.decodeFrom format sub.airStateId resolver (Cursor.start bytes) =
      .ok (sub', ⟨bytes.length, []⟩) ∧
    ∀ layer x y z : UInt8, sub'.getBlockStateId layer x y z = sub.getBlockStateId layer x y z

/-- Three layers and more are written, but not read. -/
theorem not_persists_of_three (hversion : sub.subChunkVersion = 9) (hlayers : 2 < sub.layers.length)
    {bytes : List UInt8} (hencode : sub.encodeTo format compactStorage provider = .ok bytes) :
    ¬ Persists sub into format resolver bytes := by
  have hfew : sub.layers.length < 256 := by
    by_contra hmany
    rw [encodeTo, if_pos (not_lt.mp hmany)] at hencode
    cases hencode
  obtain ⟨storages, -, rfl⟩ := encodeTo_eq_ok hencode
  have hcount : (UInt8.ofNat sub.layers.length).toNat = sub.layers.length :=
    toNat_ofNat_of_lt (by omega)
  have hmore : UInt8.ofNat sub.layers.length = 0 ∨ 2 < UInt8.ofNat sub.layers.length := by
    refine .inr ?_
    rw [UInt8.lt_iff_toNat_lt, hcount]
    exact hlayers
  rintro ⟨sub', hrun, -⟩
  rw [← List.append_assoc] at hrun
  have hheader := (@reads_readHeader sub into.y (UInt8.ofNat sub.layers.length) (.inr hversion)).start
    storages.flatten
  rw [decodeFrom, Reader.bind_run hheader] at hrun
  dsimp only at hrun
  rw [if_pos hmore] at hrun
  cases hrun

/-- Encoding a sub-chunk in a persistent format and decoding the bytes gives back its states,
and leaves no byte over, exactly when it has at most two layers and the resolver recognizes
the palette entries that are written. -/
theorem persists_iff (h : Placed sub) (hformat : format ≠ .runtime) {bytes : List UInt8}
    (hencode : sub.encodeTo format compactStorage provider = .ok bytes) :
    Persists sub into format resolver bytes ↔
      sub.layers.length ≤ 2 ∧ ∀ layer ∈ sub.layers, ∀ entry ∈ (stored compactStorage layer).palette,
        Layer.Recognized sub.airStateId provider resolver entry := by
  have hpos := h.layers_pos
  by_cases hmany : 2 < sub.layers.length
  · exact iff_of_false (not_persists_of_three h.version hmany hencode) fun hright ↦ by omega
  have hcounted := h.reachable.counted
  have hread := @readsTo_decodeFrom sub into compactStorage format provider resolver hcounted
    (.inr h.version) (by omega) hformat sub.airStateId bytes hencode
  have hcompound : ∀ layer ∈ sub.layers, ∀ entry ∈ (stored compactStorage layer).palette,
      Layer.Compound provider entry := by
    obtain ⟨storages, hstorages, -⟩ := encodeTo_eq_ok hencode
    obtain ⟨hlength, hall⟩ := List.forall₂_iff_get.mp (mapM_eq_ok_iff.mp hstorages)
    intro layer hlayer
    obtain ⟨i, hi, rfl⟩ := List.mem_iff_getElem.mp hlayer
    exact Layer.compound_of_writeStorage hformat (hall i hi (hlength ▸ hi))
  have hlayer (layer : Layer) (hmem : layer ∈ sub.layers) :=
    (@Layer.Counted.exists_restoredLayer_iff (stored compactStorage layer) sub.airStateId provider
      resolver (stored_counted (hcounted layer hmem)) (hcompound layer hmem))
  constructor
  · rintro ⟨sub', hrun, hsame⟩
    refine ⟨by omega, fun layer hmem ↦ (hlayer layer hmem).mp ?_⟩
    have hboth := hread 0 []
    rw [List.append_nil] at hboth
    obtain ⟨sub'', hrestored, hpair⟩ := map_eq_ok.mp (hboth.symm.trans hrun)
    obtain rfl := (Prod.mk.inj hpair).1
    obtain ⟨layers, hlayers, hsub⟩ := bind_eq_ok.mp hrestored
    obtain rfl := Except.ok.inj hsub
    obtain ⟨hlength, hall⟩ := List.forall₂_iff_get.mp (mapM_eq_ok_iff.mp hlayers)
    obtain ⟨i, hi, rfl⟩ := List.mem_iff_getElem.mp hmem
    have hnumber : (UInt8.ofNat i).toNat = i := toNat_ofNat_of_lt (by omega)
    refine ⟨layers[i], hall i hi (hlength ▸ hi), fun x y z ↦ ?_⟩
    have hstate := hsame (UInt8.ofNat i) x y z
    rw [getBlockStateId_stored (hcounted _ hmem)]
    simpa [getBlockStateId, hnumber, hi, hlength ▸ hi] using hstate
  · rintro ⟨-, hrecognized⟩
    obtain ⟨layers, hlayers, hall⟩ := exists_mapM_eq_ok fun layer hmem ↦
      (hlayer layer hmem).mpr (hrecognized layer hmem)
    obtain ⟨hlength, hsame⟩ := List.forall₂_iff_get.mp hall
    have hrun := hread 0 []
    rw [List.append_nil, hlayers, ok_bind, map_ok, Nat.zero_add] at hrun
    refine ⟨_, hrun, fun layer x y z ↦ ?_⟩
    by_cases hlt : layer.toNat < sub.layers.length
    · have hstate := hsame layer.toNat hlt (hlength ▸ hlt) x y z
      rw [getBlockStateId_stored (hcounted _ (List.get_mem _ _))] at hstate
      simpa [getBlockStateId, hlt, hlength ▸ hlt] using hstate
    · simp [getBlockStateId, hlt, hlength ▸ hlt]

theorem persists_twoLayers : ∃ sub twoLayers bytes,
    (createAir 3 7).setBlockStateId 0 1 2 3 8 = .ok sub ∧
      sub.setBlockStateId 1 4 5 6 9 = .ok twoLayers ∧
      twoLayers.encodeTo .localPersistence true (some byVersion) = .ok bytes ∧
      Persists twoLayers {} .localPersistence (some versionOf) bytes := by
  obtain ⟨sub, twoLayers, hsub, htwo⟩ := exists_twoLayers
  have hplaced := ((Placed.createAir 3 7).setBlockStateId hsub).setBlockStateId htwo
  obtain ⟨hlayers, hplain⟩ : twoLayers.layers.length = 2 ∧
      ∀ layer ∈ twoLayers.layers, ∀ entry ∈ (stored true layer).palette,
        entry.hasPersistentData = false := by
    cases hsub
    cases htwo
    decide +kernel
  obtain ⟨bytes, hencode⟩ : ∃ bytes,
      twoLayers.encodeTo .localPersistence true (some byVersion) = .ok bytes := by
    cases hsub
    cases htwo
    exact ⟨_, rfl⟩
  refine ⟨sub, twoLayers, bytes, hsub, htwo, hencode,
    (persists_iff hplaced (by decide) hencode).mpr ⟨hlayers.le, ?_⟩⟩
  intro layer hlayer entry hentry
  exact Layer.recognized_of_inverse inverse_byVersion (hplain layer hlayer entry hentry) rfl rfl

/-- A block of the third layer is written, and the sub-chunk is refused when it is read. -/
theorem third_layer_refused : ∃ sub bytes, Inverse byVersion versionOf ∧
    (createAir 0 7).setBlockStateId 2 0 0 0 8 = .ok sub ∧ Placed sub ∧
    sub.encodeTo .localPersistence false (some byVersion) = .ok bytes ∧
      ¬ Persists sub {} .localPersistence (some versionOf) bytes := by
  obtain ⟨sub, hset, hlayers⟩ : ∃ sub, (createAir 0 7).setBlockStateId 2 0 0 0 8 = .ok sub ∧
      2 < sub.layers.length := ⟨_, rfl, by decide⟩
  obtain ⟨bytes, hencode⟩ : ∃ bytes,
      sub.encodeTo .localPersistence false (some byVersion) = .ok bytes := by
    obtain rfl := Except.ok.inj hset
    exact ⟨_, rfl⟩
  have hplaced := (Placed.createAir 0 7).setBlockStateId hset
  exact ⟨sub, bytes, inverse_byVersion, hset, hplaced, hencode,
    not_persists_of_three hplaced.version hlayers hencode⟩

end BedrockSubChunk

end BedrockProtocol
