import BedrockProtocol.BinaryStream
import BedrockProtocol.Lib.PackedWords
import Mathlib.Data.List.Nodup
import Mathlib.Data.List.Perm.Subperm

/-!
# Paletted storage

`PalettedStorage` of `BedrockChunk.cpp`: 4096 palette indices of a fixed width,
packed into 32-bit words.  A storage stands for the list of its indices; every
operation is described by what it does to that list.
-/

namespace BedrockProtocol

/-- `StorageSize`: the positions of a section of 16 × 16 × 16 blocks. -/
def storageSize : ℕ := 4096

structure PalettedStorage where
  bitsPerBlock : ℕ
  words : List (BitVec 32)
  bits_pos : 0 < bitsPerBlock
  bits_le : bitsPerBlock ≤ 32
  length_words : words.length = packedLength 32 bitsPerBlock storageSize

namespace PalettedStorage

/-- A storage of a width that is known to fit, every index zero. -/
def ofBits (bits : ℕ) (bits_pos : 0 < bits) (bits_le : bits ≤ 32) :
    PalettedStorage :=
  ⟨bits, List.replicate (packedLength 32 bits storageSize) 0, bits_pos, bits_le, by simp⟩

theorem oneBit_le : 1 ≤ 32 := by decide

theorem fourBits_pos : 0 < 4 := by decide

theorem fourBits_le : 4 ≤ 32 := by decide

/-- The constructor: width 0 is taken for 1, a width above 32 is refused. -/
def new (bits : ℕ) : Except String PalettedStorage :=
  if h : 32 < bits then .error "bitsPerBlock must be <= 32"
  else .ok (ofBits (max 1 bits) (by omega) (by omega))

/-- The number of a position; only the low four bits of a coordinate count. -/
def blockIndex (x y z : UInt8) : ℕ :=
  ((x.toNat &&& 0xf) <<< 8) ||| ((z.toNat &&& 0xf) <<< 4) ||| (y.toNat &&& 0xf)

variable (s : PalettedStorage)

/-- The index at a numbered position. -/
def indexAt (i : ℕ) : ℕ := packedGet s.bitsPerBlock s.words i

def get (x y z : UInt8) : ℕ := s.indexAt (blockIndex x y z)

def set (x y z : UInt8) (value : ℕ) : PalettedStorage :=
  { s with
    words := packedSet s.bitsPerBlock s.words (blockIndex x y z) value
    length_words := by simpa using s.length_words }

/-- The order in which the loops over `x`, `y` and `z` visit the positions. -/
def blockPositions : List (UInt8 × UInt8 × UInt8) :=
  (List.range 16).flatMap fun x ↦ (List.range 16).flatMap fun y ↦ (List.range 16).map fun z ↦
    (UInt8.ofNat x, UInt8.ofNat y, UInt8.ofNat z)

/-- The loops that set every position of `s`. -/
def fill (value : UInt8 → UInt8 → UInt8 → ℕ) : PalettedStorage :=
  blockPositions.foldl (fun next p ↦ next.set p.1 p.2.1 p.2.2 (value p.1 p.2.1 p.2.2)) s

def resize (newBits : ℕ) : Except String PalettedStorage := do
  let next ← new newBits
  pure (next.fill s.get)

def readWord32 : Reader (BitVec 32) := BitVec.ofNat 32 <$> BinaryStream.readWord 4

def read : Reader PalettedStorage := do
  let words ← Reader.manyExactly readWord32 (packedLength 32 s.bitsPerBlock storageSize)
  pure { s with words := words.1, length_words := words.2 }

def write : List UInt8 := s.words.flatMap fun word ↦ leBytes 4 word.toNat

/-- The 4096 indices in the order of their positions. -/
def indices : List ℕ := (List.range storageSize).map s.indexAt

/-! ## Positions -/

theorem blockIndex_eq (x y z : UInt8) :
    blockIndex x y z = x.toNat % 16 * 256 + z.toNat % 16 * 16 + y.toNat % 16 := by
  have hnibble : ∀ n : ℕ, n &&& 0xf = n % 16 := fun n ↦ Nat.and_two_pow_sub_one_eq_mod n 4
  have hy : y.toNat % 16 < 2 ^ 4 := Nat.mod_lt _ (by omega)
  have hz : (z.toNat % 16) <<< 4 < 2 ^ 8 := by
    rw [Nat.shiftLeft_eq]
    omega
  have hzy : (z.toNat % 16) <<< 4 ||| y.toNat % 16 = z.toNat % 16 * 16 + y.toNat % 16 := by
    rw [← Nat.shiftLeft_add_eq_or_of_lt hy, Nat.shiftLeft_eq]
  have hlow : z.toNat % 16 * 16 + y.toNat % 16 < 2 ^ 8 := by omega
  rw [blockIndex, hnibble, hnibble, hnibble, Nat.or_assoc, hzy,
    ← Nat.shiftLeft_add_eq_or_of_lt hlow, Nat.shiftLeft_eq]
  omega

theorem blockIndex_lt (x y z : UInt8) : blockIndex x y z < storageSize := by
  rw [blockIndex_eq, storageSize]
  omega

/-- Two positions have one number when the low four bits of each coordinate agree. -/
theorem blockIndex_eq_iff {x y z x' y' z' : UInt8} :
    blockIndex x y z = blockIndex x' y' z' ↔
      x.toNat % 16 = x'.toNat % 16 ∧ y.toNat % 16 = y'.toNat % 16 ∧ z.toNat % 16 = z'.toNat % 16 := by
  rw [blockIndex_eq, blockIndex_eq]
  omega

/-- The loops reach every numbered position. -/
theorem mem_blockPositions_index {i : ℕ} (hi : i < storageSize) :
    i ∈ blockPositions.map fun p ↦ blockIndex p.1 p.2.1 p.2.2 := by
  rw [storageSize] at hi
  refine List.mem_map.mpr ⟨(UInt8.ofNat (i / 256), UInt8.ofNat (i % 16), UInt8.ofNat (i / 16 % 16)),
    ?_, ?_⟩
  · simp only [blockPositions, List.mem_flatMap, List.mem_map, List.mem_range]
    exact ⟨i / 256, by omega, i % 16, by omega, i / 16 % 16, by omega, rfl⟩
  · rw [blockIndex_eq, toNat_ofNat_of_lt (by omega), toNat_ofNat_of_lt (by omega),
      toNat_ofNat_of_lt (by omega)]
    omega

theorem length_blockPositions : blockPositions.length = storageSize := by
  simp [blockPositions, List.length_flatMap, storageSize]

/-- The loops visit every numbered position once. -/
theorem blockPositions_perm :
    (blockPositions.map fun p ↦ blockIndex p.1 p.2.1 p.2.2).Perm (List.range storageSize) := by
  refine (List.Subperm.perm_of_length_le (List.subperm_of_subset List.nodup_range ?_) ?_).symm
  · exact fun i hi ↦ mem_blockPositions_index (List.mem_range.mp hi)
  · rw [List.length_map, length_blockPositions, List.length_range]

/-! ## What the operations do to the indices -/

@[simp] theorem ofBits_bitsPerBlock (bits : ℕ) (hpos : 0 < bits) (hle : bits ≤ 32) :
    (ofBits bits hpos hle).bitsPerBlock = bits := rfl

@[simp] theorem set_bitsPerBlock (x y z : UInt8) (value : ℕ) :
    (s.set x y z value).bitsPerBlock = s.bitsPerBlock := rfl

@[simp] theorem length_indices : s.indices.length = storageSize := by
  simp [indices]

theorem indexAt_lt (i : ℕ) : s.indexAt i < 2 ^ s.bitsPerBlock := packedGet_lt _ _ _

theorem getElem_indices {i : ℕ} (hi : i < s.indices.length) : s.indices[i] = s.indexAt i := by
  simp [indices]

theorem get_mem_indices (x y z : UInt8) : s.get x y z ∈ s.indices :=
  List.mem_map.mpr ⟨blockIndex x y z, List.mem_range.mpr (blockIndex_lt x y z), rfl⟩

/-- How many of the positions hold an index. -/
theorem count_indices (v : ℕ) :
    s.indices.count v = blockPositions.countP fun p ↦ s.get p.1 p.2.1 p.2.2 = v := by
  have hperm := (blockPositions_perm.map s.indexAt).count_eq v
  rw [indices, ← hperm, List.map_map, List.count_eq_countP, List.countP_map]
  rfl

theorem lt_of_mem_indices {v : ℕ} (hv : v ∈ s.indices) : v < 2 ^ s.bitsPerBlock := by
  obtain ⟨i, -, rfl⟩ := List.mem_map.mp hv
  exact s.indexAt_lt i

/-- If the indices are renumbered, so is every lookup. -/
theorem get_of_indices_map {s t : PalettedStorage} {f : ℕ → ℕ} (h : s.indices = t.indices.map f)
    (x y z : UInt8) : s.get x y z = f (t.get x y z) := by
  have hs := s.getElem_indices (i := blockIndex x y z) (by simpa using blockIndex_lt x y z)
  have ht := t.getElem_indices (i := blockIndex x y z) (by simpa using blockIndex_lt x y z)
  rw [get, get, ← hs, ← ht]
  simp only [h, List.getElem_map]

/-- Two storages with the same indices answer every lookup alike. -/
theorem get_eq_of_indices {s t : PalettedStorage} (h : s.indices = t.indices) (x y z : UInt8) :
    s.get x y z = t.get x y z :=
  get_of_indices_map (f := id) (by simpa using h) x y z

@[simp] theorem indices_ofBits (bits : ℕ) (hpos : 0 < bits) (hle : bits ≤ 32) :
    (ofBits bits hpos hle).indices = List.replicate storageSize 0 := by
  have hzero : (ofBits bits hpos hle).indexAt = fun _ ↦ 0 :=
    funext fun i ↦ packedGet_replicate_zero bits _ i
  rw [indices, hzero, List.map_const', List.length_range]

theorem word_lt {i : ℕ} (hi : i < storageSize) : i / (32 / s.bitsPerBlock) < s.words.length := by
  rw [s.length_words]
  exact div_lt_packedLength s.bits_pos s.bits_le hi

theorem indices_set (x y z : UInt8) (value : ℕ) :
    (s.set x y z value).indices =
      s.indices.set (blockIndex x y z) (value % 2 ^ s.bitsPerBlock) := by
  apply List.ext_getElem (by simp)
  intro i hi hi'
  rw [getElem_indices, List.getElem_set]
  split
  · rename_i heq
    subst heq
    exact packedGet_packedSet_self s.bits_pos s.bits_le (s.word_lt (blockIndex_lt x y z)) value
  · rename_i hne
    rw [getElem_indices]
    exact packedGet_packedSet_of_ne hne value

theorem get_set (x y z x' y' z' : UInt8) (value : ℕ) :
    (s.set x y z value).get x' y' z' =
      if blockIndex x' y' z' = blockIndex x y z then value % 2 ^ s.bitsPerBlock
      else s.get x' y' z' := by
  split
  · rename_i heq
    rw [get, heq]
    exact packedGet_packedSet_self s.bits_pos s.bits_le (s.word_lt (blockIndex_lt x y z)) value
  · rename_i hne
    exact packedGet_packedSet_of_ne (Ne.symm hne) value

/-- A write leaves the storage alone when the position holds the value already. -/
theorem set_eq_self_iff (x y z : UInt8) (value : ℕ) :
    s.set x y z value = s ↔ s.get x y z = value % 2 ^ s.bitsPerBlock := by
  constructor
  · intro h
    have hget := s.get_set x y z x y z value
    rwa [if_pos rfl, h] at hget
  · intro h
    have hwords := packedSet_eq_self s.bits_le h
    cases s
    simpa [set] using hwords

theorem foldl_set_words (positions : List (UInt8 × UInt8 × UInt8))
    (value : UInt8 → UInt8 → UInt8 → ℕ) :
    (positions.foldl (fun next p ↦ next.set p.1 p.2.1 p.2.2 (value p.1 p.2.1 p.2.2)) s).words =
      positions.foldl (fun words p ↦ packedSet s.bitsPerBlock words (blockIndex p.1 p.2.1 p.2.2)
        (value p.1 p.2.1 p.2.2)) s.words ∧
    (positions.foldl (fun next p ↦ next.set p.1 p.2.1 p.2.2 (value p.1 p.2.1 p.2.2))
      s).bitsPerBlock = s.bitsPerBlock := by
  induction positions generalizing s with
  | nil => exact ⟨rfl, rfl⟩
  | cons p positions ih => exact ih (s.set p.1 p.2.1 p.2.2 (value p.1 p.2.1 p.2.2))

@[simp] theorem fill_bitsPerBlock (value : UInt8 → UInt8 → UInt8 → ℕ) :
    (s.fill value).bitsPerBlock = s.bitsPerBlock := (s.foldl_set_words _ value).2

/-- Refilling a storage from the indices of another, each one renumbered. -/
theorem indices_fill (t : PalettedStorage) (renumber : ℕ → ℕ) :
    (s.fill fun x y z ↦ renumber (t.get x y z)).indices =
      t.indices.map fun v ↦ renumber v % 2 ^ s.bitsPerBlock := by
  have hwords := s.foldl_set_words blockPositions fun x y z ↦ renumber (t.get x y z)
  apply List.ext_getElem (by simp)
  intro i hi hi'
  have hsize : i < storageSize := by simpa using hi
  have hat := packedGet_foldl_packedSet s.bits_pos s.bits_le
    (fun p : UInt8 × UInt8 × UInt8 ↦ blockIndex p.1 p.2.1 p.2.2) (fun i ↦ renumber (t.indexAt i))
    blockPositions s.words (fun p _ ↦ s.word_lt (blockIndex_lt _ _ _)) i
  rw [if_pos (mem_blockPositions_index hsize)] at hat
  rw [getElem_indices, List.getElem_map, getElem_indices, indexAt, fill_bitsPerBlock]
  exact (congrArg (packedGet s.bitsPerBlock · i) hwords.1).trans hat

theorem new_eq_ok {bits : ℕ} (h : bits ≤ 32) :
    new bits = .ok (ofBits (max 1 bits) (by omega) (by omega)) := by
  rw [new, dif_neg (by omega)]

/-- Repacking at a width that holds every index keeps the indices. -/
theorem resize_eq_ok {newBits : ℕ} (h : newBits ≤ 32) (hfits : ∀ v ∈ s.indices, v < 2 ^ newBits)
    (hpos : 0 < newBits) :
    ∃ t, s.resize newBits = .ok t ∧ t.bitsPerBlock = newBits ∧ t.indices = s.indices := by
  refine ⟨_, by rw [resize, new_eq_ok h]; rfl, ?_, ?_⟩
  · rw [fill_bitsPerBlock, ofBits_bitsPerBlock]
    omega
  · have hmax : max 1 newBits = newBits := by omega
    refine (indices_fill _ s id).trans ?_
    rw [ofBits_bitsPerBlock, hmax]
    refine (List.map_congr_left fun v hv ↦ Nat.mod_eq_of_lt (hfits v hv)).trans ?_
    simp

/-! ## Bytes -/

theorem reads_readWord32 (word : BitVec 32) : Reads readWord32 (leBytes 4 word.toNat) word := by
  have hread := (BinaryStream.reads_readWord (k := 4) word.isLt).map (f := BitVec.ofNat 32)
  rwa [BitVec.ofNat_toNat, BitVec.setWidth_eq] at hread

/-- A storage of the same width reads back the words written. -/
theorem reads_read {t : PalettedStorage} (h : t.bitsPerBlock = s.bitsPerBlock) :
    Reads t.read s.write s := by
  have hn : s.words.length = packedLength 32 t.bitsPerBlock storageSize := by
    rw [s.length_words, h]
  have hread := Reads.manyExactly s.words (f := id) (fun word _ ↦ reads_readWord32 word) hn
  refine hread.bind_last ?_
  have hs : s = { t with words := s.words.map id, length_words := by simpa using hn } := by
    cases s
    cases t
    simp_all
  rw [← hs]
  exact Reads.pure s

/-- There are at least 128 words, which take 512 bytes. -/
theorem packedLength_ge : 128 ≤ packedLength 32 s.bitsPerBlock storageSize := by
  have hlanes : 32 / s.bitsPerBlock ≤ 32 := Nat.div_le_self _ _
  have hlane : 0 < 32 / s.bitsPerBlock := Nat.div_pos s.bits_le s.bits_pos
  rw [packedLength, storageSize, Nat.le_div_iff_mul_le hlane]
  omega

theorem consumes_read : Consumes s.read 512 := by
  have hwords := s.packedLength_ge
  have hword : Consumes readWord32 4 := Consumes.take.map.map
  have hread : Consumes s.read (packedLength 32 s.bitsPerBlock storageSize * 4 + 0) :=
    (hword.manyExactly _).bind fun words ↦ Consumes.pure _
  exact hread.mono (by omega)

theorem length_write_ge : 512 ≤ s.write.length := by
  have hwords : 128 ≤ s.words.length := by
    rw [s.length_words]
    exact s.packedLength_ge
  have hlength : s.write.length = 4 * s.words.length := by
    rw [write, List.length_flatMap]
    simp [Nat.mul_comm]
  omega

end PalettedStorage

end BedrockProtocol
