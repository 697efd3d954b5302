import BedrockProtocol.Lib.Histogram
import BedrockProtocol.World.BedrockSubChunk

/-!
# The palettes of a sub-chunk

In every layer of a reachable sub-chunk the counts of the palette are the
histogram of the 4096 packed indices, and the width of the storage holds every
index of the palette.  Compacting drops the empty entries and no block changes.
-/

namespace BedrockProtocol

open PalettedStorage

theorem lt_two_pow_neededBitsLoop {fuel value : ℕ} (h : value < 2 ^ fuel) :
    value < 2 ^ neededBitsLoop fuel value := by
  induction fuel generalizing value with
  | zero => simpa [neededBitsLoop] using h
  | succ fuel ih =>
      rw [neededBitsLoop]
      split
      · omega
      · have hhalf : value >>> 1 = value / 2 := by simp [Nat.shiftRight_eq_div_pow]
        have hrec := @ih (value >>> 1) (by rw [hhalf]; rw [pow_succ] at h; omega)
        rw [pow_succ]
        omega

theorem lt_two_pow_neededBits {value : ℕ} (h : value < 2 ^ 32) : value < 2 ^ neededBits value :=
  lt_two_pow_neededBitsLoop h

theorem neededBits_pos {value : ℕ} (h : 0 < value) : 0 < neededBits value := by
  have hne : value ≠ 0 := by omega
  simp [neededBits, neededBitsLoop, hne]

theorem lastIndex_succ {size : ℕ} (h : size < 2 ^ 32) : lastIndex (size + 1) = size := by
  rw [lastIndex]
  omega

namespace Layer

variable {layer layer' : Layer}

/-- The palette invariant. -/
structure Counted (layer : Layer) : Prop where
  histogram : Histogram (layer.palette.map BedrockBlockState.count) layer.blocks.indices
  fits : layer.palette.length ≤ 2 ^ layer.blocks.bitsPerBlock

namespace Counted

theorem index_lt (h : layer.Counted) {v : ℕ} (hv : v ∈ layer.blocks.indices) :
    v < layer.palette.length := by
  simpa using h.histogram.lt_length v hv

theorem get_lt (h : layer.Counted) (x y z : UInt8) :
    layer.blocks.get x y z < layer.palette.length := h.index_lt (get_mem_indices _ x y z)

/-- The count of an entry is the number of positions that hold its index. -/
theorem count_eq (h : layer.Counted) {i : ℕ} (hi : i < layer.palette.length) :
    layer.palette[i].count =
      blockPositions.countP fun p ↦ layer.blocks.get p.1 p.2.1 p.2.2 = i := by
  have hcount := h.histogram.count_eq i (by simpa using hi)
  rwa [List.getElem_map, count_indices] at hcount

theorem sum_eq (h : layer.Counted) :
    (layer.palette.map BedrockBlockState.count).sum = storageSize := by
  rw [h.histogram.sum_eq, length_indices]

theorem palette_ne_nil (h : layer.Counted) : layer.palette ≠ [] := by
  intro hnil
  have := h.get_lt 0 0 0
  simp [hnil] at this

theorem ofAir (airStateId : Int32) : (Layer.ofAir airStateId).Counted where
  histogram := by
    rw [Layer.ofAir, indices_ofBits]
    exact Histogram.replicate_zero 4096
  fits := by simp [Layer.ofAir]

end Counted

/-! ## Looking up a block -/

/-- A lookup only depends on the state ids of the palette. -/
theorem getBlockStateId_eq (layer : Layer) (x y z : UInt8) :
    layer.getBlockStateId x y z =
      match (layer.palette.map BedrockBlockState.stateId)[layer.blocks.get x y z]? with
      | none => .error "subchunk palette index out of range"
      | some stateId => .ok stateId := by
  rw [getBlockStateId, List.getElem?_map]
  cases layer.palette[layer.blocks.get x y z]? <;> rfl

theorem Counted.getBlockStateId (h : layer.Counted) (x y z : UInt8) :
    layer.getBlockStateId x y z = .ok (layer.palette.get ⟨_, h.get_lt x y z⟩).stateId := by
  rw [Layer.getBlockStateId, List.getElem?_eq_getElem (h.get_lt x y z), List.get_eq_getElem]

/-! ## Setting a block -/

theorem map_modify {α β : Type} (f : α → β) (g : α → α) (g' : β → β) (h : ∀ a, f (g a) = g' (f a))
    (l : List α) (i : ℕ) : (l.modify i g).map f = (l.map f).modify i g' := by
  induction l generalizing i with
  | nil => simp
  | cons a l ih =>
      cases i with
      | zero => simp [h]
      | succ i => simp [ih]

@[simp] theorem countUp_count (entry : BedrockBlockState) :
    (countUp entry).count = entry.count + 1 := rfl

@[simp] theorem countDown_count (entry : BedrockBlockState) :
    (countDown entry).count = entry.count - 1 := by
  unfold countDown
  split
  · rfl
  · omega

@[simp] theorem countUp_stateId (entry : BedrockBlockState) :
    (countUp entry).stateId = entry.stateId := rfl

@[simp] theorem countDown_stateId (entry : BedrockBlockState) :
    (countDown entry).stateId = entry.stateId := by
  unfold countDown
  split <;> rfl

theorem map_modify_of_eq {α β : Type} (f : α → β) (g : α → α) (h : ∀ a, f (g a) = f a)
    (l : List α) (i : ℕ) : (l.modify i g).map f = l.map f := by
  rw [map_modify f g id h, List.modify_id]

theorem modify_stateId {f : BedrockBlockState → BedrockBlockState}
    (hf : ∀ entry, (f entry).stateId = entry.stateId) (palette : List BedrockBlockState) (i : ℕ) :
    (palette.modify i f).map BedrockBlockState.stateId =
      palette.map BedrockBlockState.stateId := map_modify_of_eq _ f hf palette i

/-- Appending an entry widens the storage enough for the new index and leaves
every index as it was. -/
theorem addToPalette_eq_ok {airStateId stateId : Int32} {count : ℕ}
    (hle : ∀ v ∈ layer.blocks.indices, v ≤ layer.palette.length)
    (hsize : layer.palette.length < 2 ^ 32) :
    ∃ blocks, layer.addToPalette airStateId stateId count =
        .ok ⟨layer.palette ++ [runtimeEntry airStateId stateId count], blocks⟩ ∧
      blocks.indices = layer.blocks.indices ∧
      layer.palette.length < 2 ^ blocks.bitsPerBlock := by
  have hneeded := lt_two_pow_neededBits hsize
  have hlast : neededBits (lastIndex (layer.palette ++
      [runtimeEntry airStateId stateId count]).length) = neededBits layer.palette.length := by
    rw [List.length_append, List.length_singleton, lastIndex_succ hsize]
  rw [addToPalette]
  simp only [hlast]
  by_cases hwide : layer.blocks.bitsPerBlock < neededBits layer.palette.length
  · obtain ⟨blocks, hresize, hbits, hindices⟩ := layer.blocks.resize_eq_ok (neededBits_le _)
      (fun v hv ↦ (hle v hv).trans_lt hneeded) (by omega)
    refine ⟨blocks, ?_, hindices, by rwa [hbits]⟩
    rw [if_pos hwide, hresize]
    rfl
  · refine ⟨layer.blocks, by rw [if_neg hwide]; rfl, rfl, hneeded.trans_le ?_⟩
    exact Nat.pow_le_pow_right (by omega) (by omega)

/-- What setting a block does: nothing, a move to an entry that exists, or a
move to an entry appended for it. -/
theorem setBlockStateId_cases (h : layer.Counted) {airStateId stateId : Int32} {x y z : UInt8}
    (hset : layer.setBlockStateId airStateId x y z stateId = .ok layer') :
    ∃ current, layer.palette[layer.blocks.get x y z]? = some current ∧
      ((current.stateId = stateId ∧ layer' = layer) ∨
      (current.stateId ≠ stateId ∧ ∃ i entry, layer.palette[i]? = some entry ∧
        entry.stateId = stateId ∧
        layer' = ⟨(layer.palette.modify (layer.blocks.get x y z) countDown).modify i countUp,
          layer.blocks.set x y z i⟩) ∨
      (current.stateId ≠ stateId ∧ ∃ blocks : PalettedStorage,
        blocks.indices = layer.blocks.indices ∧ layer.palette.length < 2 ^ blocks.bitsPerBlock ∧
        layer' = ⟨layer.palette.modify (layer.blocks.get x y z) countDown ++
            [runtimeEntry airStateId stateId 1],
          blocks.set x y z layer.palette.length⟩)) := by
  have hlt := h.get_lt x y z
  refine ⟨_, List.getElem?_eq_getElem hlt, ?_⟩
  rw [setBlockStateId, List.getElem?_eq_getElem hlt] at hset
  simp only at hset
  split at hset
  · rename_i hsame
    exact .inl ⟨hsame, (Except.ok.inj hset).symm⟩
  rename_i hdiff
  split at hset
  · rename_i i hfound
    obtain ⟨hi, hid, -⟩ := List.findIdx?_eq_some_iff_getElem.mp hfound
    have hi' : i < layer.palette.length := by simpa using hi
    refine .inr (.inl ⟨hdiff, i, _, List.getElem?_eq_getElem hi', ?_, (Except.ok.inj hset).symm⟩)
    have hget := congrArg (·[i]?) (modify_stateId countDown_stateId layer.palette
      (layer.blocks.get x y z))
    simp only [List.getElem?_map, List.getElem?_eq_getElem hi, List.getElem?_eq_getElem hi',
      Option.map_some, Option.some.injEq] at hget
    rw [← hget]
    simpa using hid
  · split at hset
    · cases hset
    rename_i hsize
    rw [List.length_modify] at hsize
    obtain ⟨blocks, hadd, hindices, hbits⟩ := @addToPalette_eq_ok
      ⟨layer.palette.modify (layer.blocks.get x y z) countDown, layer.blocks⟩ airStateId stateId 1
      (fun v hv ↦ by simpa using (h.index_lt hv).le) (by simpa using hsize)
    rw [hadd] at hset
    refine .inr (.inr ⟨hdiff, blocks, hindices, by simpa using hbits, ?_⟩)
    simpa using (Except.ok.inj hset).symm

theorem Counted.setBlockStateId (h : layer.Counted) {airStateId stateId : Int32} {x y z : UInt8}
    (hset : layer.setBlockStateId airStateId x y z stateId = .ok layer') : layer'.Counted := by
  have hlt := h.get_lt x y z
  have hposition : blockIndex x y z < layer.blocks.indices.length := by
    simpa using blockIndex_lt x y z
  have hcurrent : layer.blocks.indices[blockIndex x y z] = layer.blocks.get x y z :=
    getElem_indices _ hposition
  obtain ⟨current, hget, ⟨-, rfl⟩ | ⟨hdiff, i, entry, hentry, hid, rfl⟩ |
    ⟨-, blocks, hindices, hbits, rfl⟩⟩ := setBlockStateId_cases h hset
  · exact h
  · have hi : i < layer.palette.length := (List.getElem?_eq_some_iff.mp hentry).1
    have hne : i ≠ layer.blocks.get x y z := by
      rintro rfl
      rw [hentry, Option.some.injEq] at hget
      exact hdiff (hget ▸ hid)
    refine ⟨?_, by simpa using h.fits⟩
    rw [map_modify _ _ (· + 1) countUp_count, map_modify _ _ (· - 1) countDown_count,
      indices_set, Nat.mod_eq_of_lt (hi.trans_le h.fits), ← hcurrent]
    exact h.histogram.move hposition (by simpa using hi) (by rwa [hcurrent])
  · refine ⟨?_, ?_⟩
    · have hmove := h.histogram.move_new hposition
      rw [List.length_map, hcurrent] at hmove
      rw [List.map_append, map_modify _ _ (· - 1) countDown_count, indices_set,
        Nat.mod_eq_of_lt hbits, hindices]
      exact hmove
    · simpa using Nat.succ_le_of_lt hbits

/-- The block that was set has the new state and every other block its own. -/
theorem Counted.getBlockStateId_setBlockStateId (h : layer.Counted)
    {airStateId stateId : Int32} {x y z : UInt8}
    (hset : layer.setBlockStateId airStateId x y z stateId = .ok layer') (x' y' z' : UInt8) :
    layer'.getBlockStateId x' y' z' =
      if blockIndex x' y' z' = blockIndex x y z then .ok stateId
      else layer.getBlockStateId x' y' z' := by
  obtain ⟨current, hget, ⟨hsame, rfl⟩ | ⟨-, i, entry, hentry, hid, rfl⟩ |
    ⟨-, blocks, hindices, hbits, rfl⟩⟩ := setBlockStateId_cases h hset
  · split
    · rename_i heq
      have hsame' : layer'.blocks.get x' y' z' = layer'.blocks.get x y z := by
        rw [PalettedStorage.get, heq]
        rfl
      simp only [Layer.getBlockStateId, hsame', hget, hsame]
    · rfl
  · have hi : i < layer.palette.length := (List.getElem?_eq_some_iff.mp hentry).1
    rw [getBlockStateId_eq, getBlockStateId_eq, modify_stateId countUp_stateId,
      modify_stateId countDown_stateId, get_set, Nat.mod_eq_of_lt (hi.trans_le h.fits)]
    by_cases heq : blockIndex x' y' z' = blockIndex x y z
    · simp [heq, hentry, hid]
    · simp [heq]
  · have hother := get_eq_of_indices hindices x' y' z'
    rw [getBlockStateId_eq, getBlockStateId_eq, get_set, Nat.mod_eq_of_lt hbits, List.map_append,
      modify_stateId countDown_stateId]
    by_cases heq : blockIndex x' y' z' = blockIndex x y z
    · simp [heq, runtimeEntry]
    · rw [if_neg heq, if_neg heq, hother,
        List.getElem?_append_left (by simpa using h.get_lt x' y' z')]

/-! ## Compacting -/

/-- The renumbering of the code is the rank among the entries in use. -/
theorem getElem?_remapFrom (palette : List BedrockBlockState) (used i : ℕ)
    (hi : i < palette.length) (hused : 0 < palette[i].count) :
    (remapFrom used palette)[i]? = some (used + rank (fun entry ↦ 0 < entry.count) palette i) := by
  induction palette generalizing used i with
  | nil => simp at hi
  | cons entry palette ih =>
      cases i with
      | zero =>
          have hentry : 0 < entry.count := by simpa using hused
          simp [remapFrom, hentry, rank]
      | succ i =>
          have hrec := ih (if 0 < entry.count then used + 1 else used) i (by simpa using hi)
            (by simpa using hused)
          simp only [remapFrom, List.getElem?_cons_succ, hrec, rank, List.take_succ_cons,
            List.countP_cons, decide_eq_true_eq]
          congr 1
          split <;> omega

theorem rank_map {α β : Type} (p : β → Bool) (f : α → β) (l : List α) (i : ℕ) :
    rank p (l.map f) i = rank (p ∘ f) l i := by
  rw [rank, rank, ← List.map_take, List.countP_map]

/-- An entry that some position uses is kept, at its rank. -/
theorem Counted.count_pos (h : layer.Counted) {v : ℕ} (hv : v ∈ layer.blocks.indices) :
    0 < (layer.palette.get ⟨v, h.index_lt hv⟩).count := by
  have hcount := h.histogram.count_eq v (by simpa using h.index_lt hv)
  rw [List.getElem_map] at hcount
  rw [List.get_eq_getElem, hcount]
  exact List.count_pos_iff.mpr hv

theorem Counted.remap_getD (h : layer.Counted) {v : ℕ} (hv : v ∈ layer.blocks.indices) :
    layer.remap.getD v 0 = rank (fun entry ↦ 0 < entry.count) layer.palette v := by
  rw [remap, List.getD_eq_getElem?_getD, getElem?_remapFrom _ 0 v (h.index_lt hv) (h.count_pos hv)]
  simp

/-- Compacting keeps exactly the entries in use. -/
@[simp] theorem compact_palette (layer : Layer) : layer.compact.palette = layer.compactedPalette := by
  unfold compact
  split
  · rfl
  · rename_i hfull
    rw [isCompactable, decide_eq_true_eq, not_lt] at hfull
    exact ((List.filter_sublist).eq_of_length_le hfull).symm

/-- The entries in use are at most the entries there are. -/
theorem length_compactedPalette_le (layer : Layer) :
    layer.compactedPalette.length ≤ layer.palette.length := List.length_filter_le _ _

theorem Counted.rank_lt (h : layer.Counted) {v : ℕ} (hv : v ∈ layer.blocks.indices) :
    rank (fun entry ↦ 0 < entry.count) layer.palette v < layer.compactedPalette.length :=
  BedrockProtocol.rank_lt _ (h.index_lt hv) (by simpa using h.count_pos hv)

theorem Counted.compactedPalette_pos (h : layer.Counted) : 0 < layer.compactedPalette.length :=
  (Nat.zero_le _).trans_lt (h.rank_lt (get_mem_indices layer.blocks 0 0 0))

/-- What compacting does when some entry is dropped. -/
theorem Counted.compact_of_isCompactable (h : layer.Counted) (hdrop : layer.isCompactable = true) :
    layer.compactedPalette.length ≤ 2 ^ layer.compact.blocks.bitsPerBlock ∧
      layer.compact.blocks.indices =
        layer.blocks.indices.map (rank (fun entry ↦ 0 < entry.count) layer.palette) := by
  have hpos := h.compactedPalette_pos
  have hle : layer.compactedPalette.length ≤ 2 ^ 32 :=
    (length_compactedPalette_le layer).trans
      (h.fits.trans (Nat.pow_le_pow_right (by omega) layer.blocks.bits_le))
  have hlast : lastIndex layer.compactedPalette.length = layer.compactedPalette.length - 1 := by
    have := @lastIndex_succ (layer.compactedPalette.length - 1) (by omega)
    rwa [Nat.sub_add_cancel hpos] at this
  have hneeded := @lt_two_pow_neededBits (layer.compactedPalette.length - 1) (by omega)
  have hfits : layer.compactedPalette.length ≤
      2 ^ max 1 (neededBits (lastIndex layer.compactedPalette.length)) := by
    rw [hlast]
    have := Nat.pow_le_pow_right (n := 2) (by omega)
      (le_max_right 1 (neededBits (layer.compactedPalette.length - 1)))
    omega
  have hbits : layer.compact.blocks.bitsPerBlock =
      max 1 (neededBits (lastIndex layer.compactedPalette.length)) := by
    rw [compact, if_pos hdrop, fill_bitsPerBlock, ofBits_bitsPerBlock]
  have hindices : layer.compact.blocks.indices =
      layer.blocks.indices.map fun v ↦ layer.remap.getD v 0 % 2 ^ layer.compact.blocks.bitsPerBlock := by
    rw [hbits, compact, if_pos hdrop, indices_fill _ layer.blocks fun v ↦ layer.remap.getD v 0,
      ofBits_bitsPerBlock]
  refine ⟨by rwa [hbits], ?_⟩
  rw [hindices]
  refine List.map_congr_left fun v hv ↦ ?_
  rw [h.remap_getD hv, hbits, Nat.mod_eq_of_lt ((h.rank_lt hv).trans_le hfits)]

theorem compact_of_not_isCompactable (hfull : ¬ layer.isCompactable = true) :
    layer.compact = layer := by
  rw [compact, if_neg hfull]

theorem Counted.compact (h : layer.Counted) : layer.compact.Counted := by
  by_cases hdrop : layer.isCompactable = true
  · obtain ⟨hfits, hindices⟩ := h.compact_of_isCompactable hdrop
    refine ⟨?_, by rwa [compact_palette]⟩
    have hcounts : layer.compactedPalette.map BedrockBlockState.count =
        (layer.palette.map BedrockBlockState.count).filter (0 < ·) := by
      rw [List.filter_map]
      rfl
    have hranks : layer.blocks.indices.map (rank (fun entry ↦ 0 < entry.count) layer.palette) =
        layer.blocks.indices.map (rank (0 < ·) (layer.palette.map BedrockBlockState.count)) :=
      List.map_congr_left fun v _ ↦
        (rank_map (fun n : ℕ ↦ decide (0 < n)) BedrockBlockState.count layer.palette v).symm
    rw [compact_palette, hindices, hcounts, hranks]
    exact h.histogram.dropZeros
  · rwa [compact_of_not_isCompactable hdrop]

/-- Compacting changes no block. -/
theorem Counted.getBlockStateId_compact (h : layer.Counted) (x y z : UInt8) :
    layer.compact.getBlockStateId x y z = layer.getBlockStateId x y z := by
  by_cases hdrop : layer.isCompactable = true
  · have hmem := get_mem_indices layer.blocks x y z
    have hget := get_of_indices_map (h.compact_of_isCompactable hdrop).2 x y z
    have hentry := getElem?_filter_rank (fun entry : BedrockBlockState ↦ decide (0 < entry.count))
      (h.index_lt hmem) (by simpa using h.count_pos hmem)
    rw [h.getBlockStateId, Layer.getBlockStateId, compact_palette, hget, compactedPalette, hentry]
    rfl
  · rw [compact_of_not_isCompactable hdrop]

/-! ## Decoding -/

/-- Counting succeeds when every index is one of the palette's, and then adds to
every entry how often its index occurs. -/
theorem incrementPalette_eq_ok {indices : List ℕ} {palette palette' : List BedrockBlockState}
    (h : incrementPalette indices palette = .ok palette') :
    (∀ v ∈ indices, v < palette.length) ∧
      palette' = palette.mapIdx fun i entry ↦
        { entry with count := entry.count + indices.count i } := by
  induction indices generalizing palette with
  | nil =>
      refine ⟨by simp, ?_⟩
      obtain rfl := Except.ok.inj h
      apply List.ext_getElem (by simp)
      intro i hi hi'
      simp
  | cons v indices ih =>
      rw [incrementPalette, List.foldlM_cons] at h
      obtain ⟨counted, hcounted, hrest⟩ := bind_eq_ok.mp h
      split at hcounted
      · cases hcounted
      rename_i hlt
      obtain rfl := Except.ok.inj hcounted
      obtain ⟨hindices, rfl⟩ := ih hrest
      refine ⟨?_, ?_⟩
      · simpa [Nat.lt_of_not_le hlt] using hindices
      · apply List.ext_getElem (by simp)
        intro i hi hi'
        simp only [List.getElem_mapIdx, List.getElem_modify, List.count_cons, beq_iff_eq]
        split
        · simp only [countUp, Nat.add_assoc, Nat.add_comm]
        · rfl

/-- Counting into a palette without counts makes them the histogram. -/
theorem counted_of_incrementPalette {blocks : PalettedStorage}
    {palette palette' : List BedrockBlockState} (hzero : ∀ entry ∈ palette, entry.count = 0)
    (hfits : palette.length ≤ 2 ^ blocks.bitsPerBlock)
    (h : incrementPalette blocks.indices palette = .ok palette') :
    (⟨palette', blocks⟩ : Layer).Counted := by
  obtain ⟨hlt, rfl⟩ := incrementPalette_eq_ok h
  have hcounts : (palette.mapIdx fun i entry ↦
      { entry with count := entry.count + blocks.indices.count i }).map BedrockBlockState.count =
        (List.range palette.length).map blocks.indices.count := by
    apply List.ext_getElem (by simp)
    intro i hi hi'
    have hi'' : i < palette.length := by simpa using hi'
    simp [hzero _ (List.getElem_mem hi'')]
  refine ⟨?_, by simpa using hfits⟩
  rw [hcounts]
  exact Histogram.tally hlt

theorem yields_readState (format : ChunkStorageType) (airStateId : Int32)
    (resolver : Option BedrockBlockStateResolver) (index : ℕ) :
    Yields (readState format airStateId resolver index) fun entry ↦ entry.count = 0 := by
  have hpersistent : ∀ document entry,
      persistentState airStateId resolver document = .ok entry → entry.count = 0 := by
    intro document entry h
    unfold persistentState at h
    split at h
    · cases h
    split at h
    · cases h
    split at h
    · cases h
    dsimp only at h
    split at h
    · cases h
    split at h
    · cases h
    split at h
    · cases h
    obtain ⟨resolved, -, hentry⟩ := bind_eq_ok.mp h
    rw [← Except.ok.inj hentry]
  cases format with
  | runtime => exact Yields.bind_any fun _ ↦ Yields.pure rfl
  | localPersistence => exact Yields.bind_any fun document ↦ Yields.lift (hpersistent document)
  | networkPersistence => exact Yields.bind_any fun document ↦ Yields.lift (hpersistent document)

theorem yields_readStates (format : ChunkStorageType) (airStateId : Int32)
    (resolver : Option BedrockBlockStateResolver) (index size : ℕ) :
    Yields (readStates format airStateId resolver index size) fun palette ↦
      palette.length = size ∧ ∀ entry ∈ palette, entry.count = 0 := by
  induction size generalizing index with
  | zero => exact Yields.pure ⟨rfl, by simp⟩
  | succ size ih =>
      refine (yields_readState format airStateId resolver index).bind fun entry hentry ↦ ?_
      refine (ih (index + 1)).bind fun entries hentries ↦ Yields.pure ⟨by simp [hentries.1], ?_⟩
      simpa [hentry] using hentries.2

/-- A layer with one entry that counts every position. -/
theorem counted_single {blocks : PalettedStorage} {entry : BedrockBlockState}
    (hindices : blocks.indices = List.replicate storageSize 0) (hcount : entry.count = storageSize) :
    (⟨[entry], blocks⟩ : Layer).Counted where
  histogram := by
    rw [hindices, List.map_singleton, hcount]
    exact Histogram.replicate_zero storageSize
  fits := Nat.one_le_two_pow

theorem new_bitsPerBlock {bits : ℕ} {storage : PalettedStorage}
    (h : PalettedStorage.new bits = .ok storage) : storage.bitsPerBlock = max 1 bits := by
  unfold PalettedStorage.new at h
  split at h
  · cases h
  · rw [← Except.ok.inj h, ofBits_bitsPerBlock]

theorem yields_read (storage : PalettedStorage) :
    Yields storage.read fun blocks ↦ blocks.bitsPerBlock = storage.bitsPerBlock :=
  Yields.bind_any fun _ ↦ Yields.pure rfl

/-- A layer that was read satisfies the palette invariant. -/
theorem yields_loadPalettedBlocks (format : ChunkStorageType) (airStateId : Int32)
    (resolver : Option BedrockBlockStateResolver) (bitsPerBlock : ℕ) :
    Yields (loadPalettedBlocks format airStateId resolver bitsPerBlock) Counted := by
  unfold loadPalettedBlocks
  split
  · refine Yields.bind_any fun stateId ↦ Yields.lift fun layer hlayer ↦ ?_
    obtain ⟨blocks, hadd, hindices, -⟩ := @addToPalette_eq_ok
      ⟨[], .ofBits 1 (by decide) (by decide)⟩ airStateId stateId 4096 (by simp +contextual) (by simp)
    obtain rfl := Except.ok.inj (hlayer.symm.trans hadd)
    exact counted_single (by rw [hindices, indices_ofBits]) rfl
  · refine Yields.bind (Yields.lift fun storage hstorage ↦ new_bitsPerBlock hstorage)
      fun storage hstorage ↦ (yields_read storage).bind fun blocks hblocks ↦ ?_
    refine Yields.bind_any fun size ↦ ?_
    split
    · exact Yields.throw _
    split
    · exact Yields.throw _
    rename_i hsize hfits
    refine (yields_readStates format airStateId resolver 0 size.toNat).bind fun palette hpalette ↦ ?_
    refine Yields.bind (Yields.lift fun palette' hpalette' ↦
      counted_of_incrementPalette hpalette.2 ?_ hpalette') fun _ h ↦ Yields.pure h
    rw [hpalette.1, hblocks, hstorage]
    by_cases hwide : bitsPerBlock < 32
    · omega
    · have : 2 ^ 32 ≤ 2 ^ max 1 bitsPerBlock := Nat.pow_le_pow_right (by omega) (by omega)
      omega

end Layer

namespace BedrockSubChunk

/-- The palette invariant of every layer. -/
def Counted (sub : BedrockSubChunk) : Prop := ∀ layer ∈ sub.layers, layer.Counted

/-- The sub-chunks that the public operations build. -/
inductive Reachable : BedrockSubChunk → Prop
  | new (y : Int8) (subChunkVersion : UInt8) : Reachable { y, subChunkVersion }
  | createAir (y : Int8) (airStateId : Int32) : Reachable (createAir y airStateId)
  | decodeFrom {sub sub' : BedrockSubChunk} {format : ChunkStorageType} {airStateId : Int32}
      {resolver : Option BedrockBlockStateResolver} {c c' : Cursor} (h : Reachable sub)
      (hrun : sub.decodeFrom format airStateId resolver c = .ok (sub', c')) : Reachable sub'
  | ensureLayer {sub : BedrockSubChunk} (h : Reachable sub) (layer : UInt8) :
      Reachable (sub.ensureLayer layer)
  | setBlockStateId {sub sub' : BedrockSubChunk} {layer x y z : UInt8} {stateId : Int32}
      (h : Reachable sub) (hrun : sub.setBlockStateId layer x y z stateId = .ok sub') :
      Reachable sub'
  | compact {sub : BedrockSubChunk} (h : Reachable sub) (layer : UInt8) :
      Reachable (sub.compact layer)
  | setY {sub : BedrockSubChunk} (h : Reachable sub) (y : Int8) : Reachable (sub.setY y)
  | setSubChunkVersion {sub : BedrockSubChunk} (h : Reachable sub) (version : UInt8) :
      Reachable (sub.setSubChunkVersion version)
  | setBlockLight {sub : BedrockSubChunk} (h : Reachable sub) (x y z value : UInt8) :
      Reachable (sub.setBlockLight x y z value)
  | setSkyLight {sub : BedrockSubChunk} (h : Reachable sub) (x y z value : UInt8) :
      Reachable (sub.setSkyLight x y z value)
  | setPaletteEntryDescriptor {sub sub' : BedrockSubChunk} {layer : UInt8} {paletteIndex : ℕ}
      {descriptor : BedrockBlockStateDescriptor} (h : Reachable sub)
      (hrun : sub.setPaletteEntryDescriptor layer paletteIndex descriptor = .ok sub') :
      Reachable sub'

variable {sub sub' : BedrockSubChunk}

namespace Counted

theorem createAir (y : Int8) (airStateId : Int32) : (createAir y airStateId).Counted := by
  intro layer hlayer
  obtain rfl := List.mem_singleton.mp hlayer
  exact Layer.counted_single (indices_ofBits 1 _ _) rfl

theorem ensureLayer (h : sub.Counted) (layer : UInt8) : (sub.ensureLayer layer).Counted := by
  intro found hfound
  rcases List.mem_append.mp hfound with hold | hnew
  · exact h found hold
  · rw [List.eq_of_mem_replicate hnew]
    exact Layer.Counted.ofAir sub.airStateId

/-- A layer replaced by one that satisfies the invariant. -/
theorem set (h : sub.Counted) {i : ℕ} {layer : Layer} (hlayer : layer.Counted) :
    Counted { sub with layers := sub.layers.set i layer } := by
  intro found hfound
  rcases List.mem_or_eq_of_mem_set hfound with hold | rfl
  · exact h found hold
  · exact hlayer

theorem of_getElem? (h : sub.Counted) {i : ℕ} {layer : Layer} (hlayer : sub.layers[i]? = some layer) :
    layer.Counted := h layer (List.mem_of_getElem? hlayer)

theorem setBlockStateId (h : sub.Counted) {layer x y z : UInt8} {stateId : Int32}
    (hrun : sub.setBlockStateId layer x y z stateId = .ok sub') : sub'.Counted := by
  have hensured := h.ensureLayer layer
  unfold BedrockSubChunk.setBlockStateId at hrun
  dsimp only at hrun
  split at hrun
  · cases hrun
  · rename_i found hfound
    obtain ⟨next, hnext, hsub⟩ := bind_eq_ok.mp hrun
    rw [← Except.ok.inj hsub]
    exact hensured.set ((hensured.of_getElem? hfound).setBlockStateId hnext)

theorem compact (h : sub.Counted) (layer : UInt8) : (sub.compact layer).Counted := by
  intro found hfound
  obtain ⟨i, hi⟩ := List.mem_iff_getElem?.mp hfound
  rw [BedrockSubChunk.compact, List.getElem?_modify] at hi
  obtain ⟨old, hold, rfl⟩ := Option.map_eq_some_iff.mp hi
  have hcounted := h.of_getElem? hold
  split
  · exact hcounted.compact
  · exact hcounted

theorem decodeFrom {format : ChunkStorageType} {airStateId : Int32}
    {resolver : Option BedrockBlockStateResolver} {c c' : Cursor}
    (hrun : sub.decodeFrom format airStateId resolver c = .ok (sub', c')) : sub'.Counted := by
  have hlayer : Yields (readLayer format airStateId resolver) Layer.Counted := by
    refine Yields.bind_any fun paletteType ↦ ?_
    split
    · exact Yields.throw _
    · exact Layer.yields_loadPalettedBlocks _ _ _ _
  suffices hyields : Yields (sub.decodeFrom format airStateId resolver) Counted from
    hyields c sub' c' hrun
  refine Yields.bind_any fun ⟨subChunkVersion, storageCount, y⟩ ↦ ?_
  dsimp only
  split
  · exact Yields.throw _
  · exact (hlayer.many _).bind fun layers hlayers ↦ Yields.pure hlayers.2

theorem setPaletteEntryDescriptor (h : sub.Counted) {layer : UInt8} {paletteIndex : ℕ}
    {descriptor : BedrockBlockStateDescriptor}
    (hrun : sub.setPaletteEntryDescriptor layer paletteIndex descriptor = .ok sub') :
    sub'.Counted := by
  unfold BedrockSubChunk.setPaletteEntryDescriptor at hrun
  split at hrun
  · cases hrun
  rename_i found hfound
  split_ifs at hrun
  rw [← Except.ok.inj hrun]
  obtain ⟨hhistogram, hfits⟩ := h.of_getElem? hfound
  have hcounts := Layer.map_modify_of_eq BedrockBlockState.count
    (BedrockBlockState.describe descriptor) (fun _ ↦ rfl) found.palette paletteIndex
  exact h.set ⟨hcounts.symm ▸ hhistogram, by simpa using hfits⟩

end Counted

/-- Every operation keeps the palette invariant. -/
theorem Reachable.counted (h : Reachable sub) : sub.Counted := by
  induction h with
  | new y subChunkVersion => simp [Counted]
  | createAir y airStateId => exact .createAir y airStateId
  | decodeFrom _ hrun _ => exact .decodeFrom hrun
  | ensureLayer _ layer ih => exact ih.ensureLayer layer
  | setBlockStateId _ hrun ih => exact ih.setBlockStateId hrun
  | compact _ layer ih => exact ih.compact layer
  | setY _ y ih => exact ih
  | setSubChunkVersion _ version ih => exact ih
  | setBlockLight _ x y z value ih => exact ih
  | setSkyLight _ x y z value ih => exact ih
  | setPaletteEntryDescriptor _ hrun ih => exact ih.setPaletteEntryDescriptor hrun

/-- Compacting a layer changes no block of any layer. -/
theorem Counted.getBlockStateId_compact (h : sub.Counted) (compacted layer x y z : UInt8) :
    (sub.compact compacted).getBlockStateId layer x y z = sub.getBlockStateId layer x y z := by
  rw [getBlockStateId, getBlockStateId, BedrockSubChunk.compact, List.getElem?_modify]
  cases hlayer : sub.layers[layer.toNat]? with
  | none => rfl
  | some found =>
      by_cases hsame : compacted.toNat = layer.toNat
      · simpa [hsame] using (h.of_getElem? hlayer).getBlockStateId_compact x y z
      · simp [hsame]

/-- In every reachable sub-chunk each packed index is below the palette size,
each count is the number of positions with that index and the counts add up to
4096; compacting a layer changes no block and removes the entries with count
zero and no others. -/
theorem palette_counted (h : Reachable sub) {number : ℕ} {layer : Layer}
    (hlayer : sub.layers[number]? = some layer) :
    (∀ x y z, layer.blocks.get x y z < layer.palette.length) ∧
    (∀ (i : ℕ) (hi : i < layer.palette.length), layer.palette[i].count =
      blockPositions.countP fun p ↦ layer.blocks.get p.1 p.2.1 p.2.2 = i) ∧
    (layer.palette.map BedrockBlockState.count).sum = 4096 ∧
    (∀ compacted which x y z, (sub.compact compacted).getBlockStateId which x y z =
      sub.getBlockStateId which x y z) ∧
    (∀ compacted : UInt8, compacted.toNat = number →
      ((sub.compact compacted).layers[number]?).map Layer.palette =
        some (layer.palette.filter fun entry ↦ entry.count ≠ 0)) := by
  have hcounted := h.counted.of_getElem? hlayer
  refine ⟨hcounted.get_lt, fun i hi ↦ hcounted.count_eq hi, hcounted.sum_eq,
    fun _ _ _ _ _ ↦ h.counted.getBlockStateId_compact _ _ _ _ _, ?_⟩
  rintro compacted rfl
  have hfilter : layer.compactedPalette = layer.palette.filter fun entry ↦ entry.count ≠ 0 :=
    List.filter_congr fun entry _ ↦ by simp [Nat.pos_iff_ne_zero]
  simp [compact, hlayer, hfilter]

/-- The layer after one block of state 9 was put into a section of state 7. -/
def oneBlock : Layer where
  palette :=
    [{ stateId := 7, name := txt "minecraft:air", count := 4095 }, Layer.runtimeEntry 7 9 1]
  blocks := (PalettedStorage.ofBits 1 Nat.one_pos PalettedStorage.oneBit_le).set 1 2 3 1

theorem setBlockStateId_oneBlock :
    (createAir 0 7).setBlockStateId 0 1 2 3 9 =
      .ok { createAir 0 7 with layers := [oneBlock] } := rfl

theorem palette_counted_oneBlock :
    (∀ x y z, oneBlock.blocks.get x y z < 2) ∧
      blockPositions.countP (fun p ↦ oneBlock.blocks.get p.1 p.2.1 p.2.2 = 1) = 1 := by
  have h := @palette_counted _ (.setBlockStateId (.createAir 0 7) setBlockStateId_oneBlock) 0
    oneBlock rfl
  exact ⟨h.1, (h.2.1 1 (by decide)).symm⟩

end BedrockSubChunk

end BedrockProtocol
