import BedrockProtocol.World.BedrockChunkColumn

/-!
# Sub-chunks of version 1.0

`BedrockSubChunk10` of `BedrockLegacyChunk.cpp`: a version byte, a byte array of block types and
three arrays of nibbles in one buffer.  The index of a position counts the version byte, and the
nibble arrays start where they would without it, so that the first nibble of the block data is
the high half of the last block type.
-/

namespace BedrockProtocol

/-! ## Nibbles -/

/-- One of the halves of a byte. -/
def nibbleOf (nibbleIndex : ℕ) (byte : UInt8) : UInt8 :=
  if nibbleIndex % 2 = 0 then byte &&& 0x0f else byte >>> 4

def readNibble (data : List UInt8) (nibbleIndex : ℕ) : Except String UInt8 :=
  match data[nibbleIndex / 2]? with
  | none => .error "legacy chunk nibble offset outside buffer"
  | some byte => .ok (nibbleOf nibbleIndex byte)

/-- The byte with one of its halves replaced. -/
def withNibble (nibbleIndex : ℕ) (value byte : UInt8) : UInt8 :=
  if nibbleIndex % 2 = 0 then (byte &&& (0xf0 : UInt8)) ||| value
  else (byte &&& (0x0f : UInt8)) ||| (value <<< (4 : UInt8))

def writeNibble (data : List UInt8) (nibbleIndex : ℕ) (value : UInt8) (field : String) :
    Except String (List UInt8) :=
  if 16 ≤ value then .error (field ++ " must be below 16")
  else
    match data[nibbleIndex / 2]? with
    | none => .error "legacy chunk nibble offset outside buffer"
    | some byte => .ok (data.set (nibbleIndex / 2) (withNibble nibbleIndex value byte))

section Nibbles

variable {data data' : List UInt8} {n m : ℕ} {value byte : UInt8} {field : String}

theorem toNat_and_low (byte : UInt8) : (byte &&& 0x0f).toNat = byte.toNat % 16 := by
  rw [UInt8.toNat_and]
  exact Nat.and_two_pow_sub_one_eq_mod byte.toNat 4

theorem toNat_and_high (byte : UInt8) : (byte &&& 0xf0).toNat = 16 * (byte.toNat / 16) := by
  rw [UInt8.toNat_and]
  have hall : ∀ n < 256, n &&& 0xf0 = 16 * (n / 16) := by decide +kernel
  exact hall byte.toNat byte.toNat_lt

theorem toNat_shiftRight_four (byte : UInt8) : (byte >>> 4).toNat = byte.toNat / 16 := by
  rw [UInt8.toNat_shiftRight, Nat.shiftRight_eq_div_pow]
  rfl

theorem toNat_nibbleOf (n : ℕ) (byte : UInt8) :
    (nibbleOf n byte).toNat = if n % 2 = 0 then byte.toNat % 16 else byte.toNat / 16 := by
  rw [nibbleOf]
  by_cases hn : n % 2 = 0
  · rw [if_pos hn, if_pos hn, toNat_and_low]
  · rw [if_neg hn, if_neg hn, toNat_shiftRight_four]

theorem toNat_withNibble (n : ℕ) (byte : UInt8) (h : value < 16) :
    (withNibble n value byte).toNat =
      if n % 2 = 0 then 16 * (byte.toNat / 16) + value.toNat
      else 16 * value.toNat + byte.toNat % 16 := by
  have hvalue : value.toNat < 16 := UInt8.lt_iff_toNat_lt.mp h
  rw [withNibble]
  by_cases hn : n % 2 = 0
  · rw [if_pos hn, if_pos hn, UInt8.toNat_or, toNat_and_high]
    exact (Nat.two_pow_add_eq_or_of_lt (i := 4) hvalue _).symm
  · have hshift : (value <<< 4).toNat = 2 ^ 4 * value.toNat := by
      rw [UInt8.toNat_shiftLeft, Nat.shiftLeft_eq]
      change value.toNat * 2 ^ 4 % 2 ^ 8 = _
      omega
    rw [if_neg hn, if_neg hn, UInt8.toNat_or, toNat_and_low, hshift, Nat.or_comm]
    exact (Nat.two_pow_add_eq_or_of_lt (i := 4) (by omega) _).symm

/-- A half that is replaced by itself. -/
theorem withNibble_nibbleOf (n : ℕ) (byte : UInt8) : withNibble n (nibbleOf n byte) byte = byte := by
  have hvalue := toNat_nibbleOf n byte
  have hlt := byte.toNat_lt
  have hsmall : nibbleOf n byte < 16 := by
    apply UInt8.lt_iff_toNat_lt.mpr
    rw [hvalue]
    change _ < 16
    split <;> omega
  apply UInt8.toNat_inj.mp
  rw [toNat_withNibble n byte hsmall, hvalue]
  split <;> omega

theorem readNibble_eq_ok (hbyte : data[n / 2]? = some byte) :
    readNibble data n = .ok (nibbleOf n byte) := by
  rw [readNibble, hbyte]

theorem writeNibble_eq_ok : writeNibble data n value field = .ok data' ↔
    value < 16 ∧ ∃ byte, data[n / 2]? = some byte ∧
      data' = data.set (n / 2) (withNibble n value byte) := by
  rw [writeNibble]
  by_cases hvalue : 16 ≤ value
  · rw [if_pos hvalue]
    refine ⟨fun h ↦ (by cases h), fun h ↦ absurd h.1 (UInt8.not_lt.mpr hvalue)⟩
  · rw [if_neg hvalue]
    cases hbyte : data[n / 2]? with
    | none => simp
    | some byte =>
        constructor
        · intro h
          exact ⟨UInt8.not_le.mp hvalue, byte, rfl, (Except.ok.inj h).symm⟩
        · rintro ⟨-, byte', hsame, rfl⟩
          obtain rfl := Option.some.inj hsame
          rfl

theorem length_writeNibble (h : writeNibble data n value field = .ok data') :
    data'.length = data.length := by
  obtain ⟨-, byte, -, rfl⟩ := writeNibble_eq_ok.mp h
  exact List.length_set

/-- A nibble that is written reads back, and no other nibble of the buffer changes. -/
theorem readNibble_writeNibble (h : writeNibble data n value field = .ok data') (m : ℕ) :
    readNibble data' m = if m = n then .ok value else readNibble data m := by
  obtain ⟨hvalue, byte, hbyte, rfl⟩ := writeNibble_eq_ok.mp h
  obtain ⟨hlt, -⟩ := List.getElem?_eq_some_iff.mp hbyte
  have hnat : value.toNat < 16 := UInt8.lt_iff_toNat_lt.mp hvalue
  by_cases hhalf : m / 2 = n / 2
  · have hnew : (data.set (n / 2) (withNibble n value byte))[m / 2]? =
        some (withNibble n value byte) := by
      rw [hhalf, List.getElem?_set_self hlt]
    rw [readNibble_eq_ok hnew, readNibble_eq_ok (hhalf ▸ hbyte)]
    have hnew := toNat_withNibble n byte hvalue
    have hlow := toNat_nibbleOf m byte
    have hread := toNat_nibbleOf m (withNibble n value byte)
    by_cases hsame : m = n
    · subst hsame
      rw [if_pos rfl, Except.ok.injEq]
      apply UInt8.toNat_inj.mp
      rw [hread, hnew]
      by_cases heven : m % 2 = 0
      · rw [if_pos heven, if_pos heven]
        omega
      · rw [if_neg heven, if_neg heven]
        omega
    · rw [if_neg hsame, Except.ok.injEq]
      apply UInt8.toNat_inj.mp
      rw [hread, hlow, hnew]
      by_cases heven : m % 2 = 0
      · rw [if_pos heven, if_pos heven, if_neg (by omega)]
        omega
      · rw [if_neg heven, if_neg heven, if_pos (by omega)]
        omega
  · have hother : m ≠ n := fun hsame ↦ hhalf (by rw [hsame])
    rw [if_neg hother, readNibble, readNibble, List.getElem?_set_ne (Ne.symm hhalf)]

end Nibbles

/-! ## Sub-chunks -/

/-- The three arrays of nibbles, in the order of the buffer. -/
inductive NibbleArray
  | blockData
  | skyLight
  | blockLight
  deriving DecidableEq, Repr

namespace NibbleArray

/-- The nibble at which the array starts in the code. -/
def base : NibbleArray → ℕ
  | blockData => 4096 * 2
  | skyLight => (4096 + 2048) * 2
  | blockLight => (4096 + 2048 * 2) * 2

def field : NibbleArray → String
  | blockData => "block data"
  | skyLight => "sky light"
  | blockLight => "block light"

end NibbleArray

/-- The index of a position in every array, with the version byte counted. -/
def sub10Index (pos : BlockPosition) : Except String ℕ :=
  if pos.x < 0 ∨ 16 ≤ pos.x ∨ pos.z < 0 ∨ 16 ≤ pos.z then
    .error "legacy chunk x/z coordinate outside 0..15"
  else if pos.y < 0 ∨ 16 ≤ pos.y then .error "legacy subchunk y coordinate outside 0..15"
  else .ok (1 + pos.x.toNat * 256 + pos.z.toNat * 16 + pos.y.toNat)

def checkedLegacyType (type : ℕ) : Except String UInt8 :=
  if 255 < type then .error "legacy block type must fit in one byte" else .ok (UInt8.ofNat type)

structure BedrockSubChunk10 where
  data : List UInt8
  length_data : data.length = 10241

namespace BedrockSubChunk10

/-- The constructor. -/
def new : BedrockSubChunk10 := ⟨List.replicate 10241 0, List.length_replicate⟩

def load (data : List UInt8) : Except String BedrockSubChunk10 :=
  if h : data.length = 10241 then .ok ⟨data, h⟩
  else
    .error ("Bedrock 1.0 subchunk buffer has size " ++ toString data.length ++
      ", expected 10241")

variable (sub : BedrockSubChunk10)

def getBlockType (pos : BlockPosition) : Except String UInt8 := do
  let index ← sub10Index pos
  pure (sub.data.getD index 0)

def setBlockType (pos : BlockPosition) (type : ℕ) : Except String BedrockSubChunk10 := do
  let type ← checkedLegacyType type
  let index ← sub10Index pos
  pure ⟨sub.data.set index type, by rw [List.length_set, sub.length_data]⟩

def getNibble (array : NibbleArray) (pos : BlockPosition) : Except String UInt8 := do
  let index ← sub10Index pos
  readNibble sub.data (array.base + index)

def setNibble (array : NibbleArray) (pos : BlockPosition) (value : UInt8) :
    Except String BedrockSubChunk10 := do
  let index ← sub10Index pos
  match hwrite : writeNibble sub.data (array.base + index) value array.field with
  | .error e => .error e
  | .ok data => .ok ⟨data, (length_writeNibble hwrite).trans sub.length_data⟩

def getBlockData (pos : BlockPosition) : Except String UInt8 := sub.getNibble .blockData pos

def setBlockData (pos : BlockPosition) (value : UInt8) : Except String BedrockSubChunk10 :=
  sub.setNibble .blockData pos value

def getBlockLight (pos : BlockPosition) : Except String UInt8 := sub.getNibble .blockLight pos

def setBlockLight (pos : BlockPosition) (light : UInt8) : Except String BedrockSubChunk10 :=
  sub.setNibble .blockLight pos light

def getSkyLight (pos : BlockPosition) : Except String UInt8 := sub.getNibble .skyLight pos

def setSkyLight (pos : BlockPosition) (light : UInt8) : Except String BedrockSubChunk10 :=
  sub.setNibble .skyLight pos light

/-! ## Indices -/

section Indices

variable {sub : BedrockSubChunk10} {pos other : BlockPosition} {index index' : ℕ}

theorem sub10Index_eq_ok : sub10Index pos = .ok index ↔
    0 ≤ pos.x ∧ pos.x < 16 ∧ 0 ≤ pos.y ∧ pos.y < 16 ∧ 0 ≤ pos.z ∧ pos.z < 16 ∧
      (index : ℤ) = 1 + pos.x * 256 + pos.z * 16 + pos.y := by
  rw [sub10Index]
  by_cases hxz : pos.x < 0 ∨ 16 ≤ pos.x ∨ pos.z < 0 ∨ 16 ≤ pos.z
  · rw [if_pos hxz]
    refine ⟨fun h ↦ (by cases h), fun h ↦ ?_⟩
    omega
  · rw [if_neg hxz]
    by_cases hy : pos.y < 0 ∨ 16 ≤ pos.y
    · rw [if_pos hy]
      refine ⟨fun h ↦ (by cases h), fun h ↦ ?_⟩
      omega
    · rw [if_neg hy, Except.ok.injEq]
      constructor
      · rintro rfl
        omega
      · intro h
        omega

theorem sub10Index_bounds (h : sub10Index pos = .ok index) : 1 ≤ index ∧ index ≤ 4096 := by
  have := sub10Index_eq_ok.mp h
  omega

/-- Positions with the same index are the same block. -/
theorem sub10Index_inj (h : sub10Index pos = .ok index) (h' : sub10Index other = .ok index) :
    pos.x = other.x ∧ pos.y = other.y ∧ pos.z = other.z := by
  have := sub10Index_eq_ok.mp h
  have := sub10Index_eq_ok.mp h'
  omega

/-- The nibble of a position is in the buffer. -/
theorem getNibble_eq (array : NibbleArray) (h : sub10Index pos = .ok index) :
    sub.getNibble array pos = readNibble sub.data (array.base + index) := by
  rw [getNibble, h, ok_bind]

theorem getBlockType_eq (h : sub10Index pos = .ok index) :
    sub.getBlockType pos = .ok (sub.data.getD index 0) := by
  rw [getBlockType, h, ok_bind]
  rfl

theorem setNibble_eq_ok {array : NibbleArray} {value : UInt8} {sub' : BedrockSubChunk10} :
    sub.setNibble array pos value = .ok sub' ↔ ∃ index, sub10Index pos = .ok index ∧
      writeNibble sub.data (array.base + index) value array.field = .ok sub'.data := by
  rw [setNibble, bind_eq_ok]
  refine exists_congr fun index ↦ and_congr_right fun _ ↦ ?_
  split
  · rename_i e hwrite
    rw [hwrite]
    exact ⟨fun h ↦ (by cases h), fun h ↦ (by cases h)⟩
  · rename_i data hwrite
    constructor
    · intro h
      obtain rfl := Except.ok.inj h
      exact hwrite
    · intro h
      obtain ⟨data', hlength⟩ := sub'
      obtain rfl := Except.ok.inj (hwrite.symm.trans h)
      rfl

end Indices

/-! ## Writes -/

/-- A write at a position. -/
inductive Write
  | blockType (type : ℕ)
  | nibble (array : NibbleArray) (value : UInt8)
  deriving DecidableEq, Repr

def write (sub : BedrockSubChunk10) (pos : BlockPosition) : Write → Except String BedrockSubChunk10
  | .blockType type => sub.setBlockType pos type
  | .nibble array value => sub.setNibble array pos value

/-- Nothing but the nibble of the array at the position changes; a block type leaves every array
of nibbles alone. -/
def ChangesOnly (sub sub' : BedrockSubChunk10) (pos : BlockPosition) : Write → Prop
  | .blockType _ => ∀ array other, sub'.getNibble array other = sub.getNibble array other
  | .nibble array value =>
      sub'.getNibble array pos = .ok value ∧
      (∀ other, sub'.getBlockType other = sub.getBlockType other) ∧
      (∀ array' other, ¬ (array' = array ∧ other.x = pos.x ∧ other.y = pos.y ∧ other.z = pos.z) →
        sub'.getNibble array' other = sub.getNibble array' other) ∧
      ∀ index, sub10Index pos = .ok index → ∀ n, n ≠ array.base + index →
        readNibble sub'.data n = readNibble sub.data n

/-- The first position and the last one, whose block data and block type overlap. -/
def firstPosition : BlockPosition := { x := 0, y := 0, z := 0 }

def lastPosition : BlockPosition := { x := 15, y := 15, z := 15 }

/-- The write changes the nibble that the block data of the first position shares with the block
type of the last one. -/
def TouchesShared (sub : BedrockSubChunk10) (pos : BlockPosition) : Write → Prop
  | .blockType type => type ≤ 255 ∧ sub10Index pos = sub10Index lastPosition ∧
      sub.getBlockData firstPosition ≠ .ok (UInt8.ofNat (type / 16))
  | .nibble array value => value < 16 ∧ array = .blockData ∧
      sub10Index pos = sub10Index firstPosition ∧ sub.getBlockData firstPosition ≠ .ok value

section Frames

variable {sub sub' : BedrockSubChunk10} {pos : BlockPosition} {array : NibbleArray} {n : ℕ}

/-- The nibble of an array lies behind the block types, but for the first one. -/
theorem base_add_cases {index : ℕ} (hpos : 1 ≤ index) (array : NibbleArray) :
    (array = .blockData ∧ index = 1) ∨ 4096 < (array.base + index) / 2 := by
  cases array <;> simp only [NibbleArray.base, true_and, reduceCtorEq, false_and, false_or] <;>
    omega

theorem data_getElem? (sub : BedrockSubChunk10) {i : ℕ} (hi : i < 10241) :
    sub.data[i]? = some (sub.data.getD i 0) := by
  have hlt : i < sub.data.length := by rwa [sub.length_data]
  rw [List.getD_eq_getElem?_getD, List.getElem?_eq_getElem hlt]
  rfl

/-- The block data of the first position is the high half of the last block type. -/
theorem getBlockData_first (sub : BedrockSubChunk10) :
    sub.getBlockData firstPosition = .ok (sub.data.getD 4096 0 >>> 4) := by
  have hindex : sub10Index firstPosition = .ok 1 := rfl
  rw [getBlockData, getNibble_eq .blockData hindex]
  exact readNibble_eq_ok (sub.data_getElem? (by decide))

theorem getBlockType_last (sub : BedrockSubChunk10) :
    sub.getBlockType lastPosition = .ok (sub.data.getD 4096 0) := by
  have hindex : sub10Index lastPosition = .ok 4096 := rfl
  exact getBlockType_eq hindex

theorem getNibble_congr (array : NibbleArray) (pos : BlockPosition)
    (h : ∀ index, sub10Index pos = .ok index →
      readNibble sub'.data (array.base + index) = readNibble sub.data (array.base + index)) :
    sub'.getNibble array pos = sub.getNibble array pos := by
  rw [getNibble, getNibble]
  cases hindex : sub10Index pos with
  | error e => rfl
  | ok index =>
      rw [ok_bind, ok_bind]
      exact h index hindex

theorem getBlockType_congr (pos : BlockPosition)
    (h : ∀ index, sub10Index pos = .ok index → sub'.data.getD index 0 = sub.data.getD index 0) :
    sub'.getBlockType pos = sub.getBlockType pos := by
  rw [getBlockType, getBlockType]
  cases hindex : sub10Index pos with
  | error e => rfl
  | ok index =>
      rw [ok_bind, ok_bind, h index hindex]

/-- Two positions of the arrays share a nibble only when they are the same. -/
theorem base_add_inj {array' : NibbleArray} {index index' : ℕ} (h : 1 ≤ index ∧ index ≤ 4096)
    (h' : 1 ≤ index' ∧ index' ≤ 4096) (hsame : array'.base + index' = array.base + index) :
    array' = array ∧ index' = index := by
  cases array <;> cases array' <;> simp only [NibbleArray.base] at hsame <;>
    simp only [reduceCtorEq, true_and, false_and] <;> omega

/-- The block types after a write to an array of nibbles. -/
theorem getBlockType_setNibble_iff {value : UInt8} (hrun : sub.setNibble array pos value = .ok sub') :
    (∀ other, sub'.getBlockType other = sub.getBlockType other) ↔
      ¬ (array = .blockData ∧ sub10Index pos = sub10Index firstPosition ∧
        sub.getBlockData firstPosition ≠ .ok value) := by
  obtain ⟨index, hindex, hwrite⟩ := setNibble_eq_ok.mp hrun
  have hfirst : sub10Index firstPosition = .ok 1 := rfl
  rw [hindex, hfirst, Except.ok.injEq]
  constructor
  · rintro hall ⟨rfl, rfl, hne⟩
    have hlast := hall lastPosition
    rw [getBlockType_last, getBlockType_last, Except.ok.injEq] at hlast
    have hread := getBlockData_first sub'
    rw [hlast, ← getBlockData_first, getBlockData, getNibble_eq .blockData hfirst,
      readNibble_writeNibble hwrite, if_pos rfl] at hread
    exact hne hread.symm
  · intro hapart other
    obtain ⟨-, byte, hbyte, hdata⟩ := writeNibble_eq_ok.mp hwrite
    refine getBlockType_congr other fun index' hindex' ↦ ?_
    rw [hdata, List.getD_eq_getElem?_getD, List.getD_eq_getElem?_getD]
    by_cases hsame : (array.base + index) / 2 = index'
    · rcases base_add_cases (sub10Index_bounds hindex).1 array with ⟨rfl, rfl⟩ | hbehind
      · have hkept := not_not.mp fun hne ↦ hapart ⟨rfl, rfl, hne⟩
        rw [getBlockData, getNibble_eq .blockData hfirst, readNibble_eq_ok hbyte,
          Except.ok.injEq] at hkept
        obtain ⟨hlt, -⟩ := List.getElem?_eq_some_iff.mp hbyte
        rw [← hkept, withNibble_nibbleOf, ← hsame, List.getElem?_set_self hlt, hbyte]
      · have := sub10Index_bounds hindex'
        omega
    · rw [List.getElem?_set_ne hsame]

/-- What a write to an array of nibbles does to the arrays of nibbles. -/
theorem getNibble_setNibble {value : UInt8} (hrun : sub.setNibble array pos value = .ok sub') :
    sub'.getNibble array pos = .ok value ∧
    (∀ array' other, ¬ (array' = array ∧ other.x = pos.x ∧ other.y = pos.y ∧ other.z = pos.z) →
      sub'.getNibble array' other = sub.getNibble array' other) ∧
    ∀ index, sub10Index pos = .ok index → ∀ n, n ≠ array.base + index →
      readNibble sub'.data n = readNibble sub.data n := by
  obtain ⟨index, hindex, hwrite⟩ := setNibble_eq_ok.mp hrun
  refine ⟨?_, fun array' other hother ↦ ?_, fun index' hindex' n hn ↦ ?_⟩
  · rw [getNibble_eq array hindex, readNibble_writeNibble hwrite, if_pos rfl]
  · refine getNibble_congr array' other fun index' hindex' ↦ ?_
    rw [readNibble_writeNibble hwrite, if_neg fun hsame ↦ ?_]
    obtain ⟨harray, rfl⟩ := base_add_inj (sub10Index_bounds hindex) (sub10Index_bounds hindex')
      hsame
    exact hother ⟨harray, sub10Index_inj hindex' hindex⟩
  · obtain rfl := Except.ok.inj (hindex.symm.trans hindex')
    rw [readNibble_writeNibble hwrite, if_neg hn]

theorem setBlockType_eq_ok {type : ℕ} : sub.setBlockType pos type = .ok sub' ↔
    type ≤ 255 ∧ ∃ index, sub10Index pos = .ok index ∧
      sub'.data = sub.data.set index (UInt8.ofNat type) := by
  rw [setBlockType, checkedLegacyType]
  by_cases htype : 255 < type
  · rw [if_pos htype]
    exact ⟨fun h ↦ (by cases h), fun h ↦ absurd h.1 (by omega)⟩
  · rw [if_neg htype, ok_bind, bind_eq_ok]
    refine ⟨fun ⟨index, hindex, h⟩ ↦ ⟨by omega, index, hindex, ?_⟩, fun ⟨_, index, hindex, h⟩ ↦
      ⟨index, hindex, ?_⟩⟩
    · obtain rfl := Except.ok.inj h
      rfl
    · obtain ⟨data', hlength⟩ := sub'
      obtain rfl := h
      rfl

/-- The nibbles after a write of a block type. -/
theorem getNibble_setBlockType_iff {type : ℕ} (hrun : sub.setBlockType pos type = .ok sub') :
    (∀ array other, sub'.getNibble array other = sub.getNibble array other) ↔
      ¬ (sub10Index pos = sub10Index lastPosition ∧
        sub.getBlockData firstPosition ≠ .ok (UInt8.ofNat (type / 16))) := by
  obtain ⟨htype, index, hindex, hdata⟩ := setBlockType_eq_ok.mp hrun
  have hlast : sub10Index lastPosition = .ok 4096 := rfl
  have hbounds := sub10Index_bounds hindex
  have hlt : index < sub.data.length := by
    rw [sub.length_data]
    omega
  have hhigh : UInt8.ofNat type >>> 4 = UInt8.ofNat (type / 16) := by
    apply UInt8.toNat_inj.mp
    rw [toNat_shiftRight_four, toNat_ofNat_of_lt (by omega), toNat_ofNat_of_lt (by omega)]
  have hnew (h : index = 4096) :
      sub'.getBlockData firstPosition = .ok (UInt8.ofNat (type / 16)) := by
    rw [getBlockData_first, hdata, List.getD_eq_getElem?_getD, ← h, List.getElem?_set_self hlt,
      Option.getD_some, hhigh]
  rw [hindex, hlast, Except.ok.injEq]
  constructor
  · rintro hall ⟨hsame, hne⟩
    exact hne ((hall .blockData firstPosition).symm.trans (hnew hsame))
  · intro hapart array other
    by_cases hshared : array = .blockData ∧ sub10Index other = .ok 1 ∧ index = 4096
    · obtain ⟨rfl, hother, hsame⟩ := hshared
      have hkept := not_not.mp fun hne ↦ hapart ⟨hsame, hne⟩
      have hfirst : sub10Index firstPosition = .ok 1 := rfl
      have hsame' := (hnew hsame).trans hkept.symm
      rw [getBlockData, getBlockData, getNibble_eq _ hfirst, getNibble_eq _ hfirst] at hsame'
      rw [getNibble_eq _ hother, getNibble_eq _ hother, hsame']
    · refine getNibble_congr array other fun index' hindex' ↦ ?_
      have hbyte : index ≠ (array.base + index') / 2 := by
        intro hsame
        rcases base_add_cases (sub10Index_bounds hindex').1 array with ⟨rfl, rfl⟩ | hbehind
        · exact hshared ⟨rfl, hindex', hsame⟩
        · omega
      rw [readNibble, readNibble, hdata, List.getElem?_set_ne hbyte]

end Frames

/-- A write has the effect that its name says exactly when it does not change the nibble that two
of the arrays share. -/
theorem changesOnly_iff (sub : BedrockSubChunk10) (pos : BlockPosition) (w : Write) :
    (∀ sub', sub.write pos w = .ok sub' → ChangesOnly sub sub' pos w) ↔
      ¬ TouchesShared sub pos w := by
  cases w with
  | blockType type =>
      constructor
      · rintro hall ⟨htype, hpos, hne⟩
        have hlast : sub10Index pos = .ok 4096 := hpos
        obtain ⟨sub', hrun⟩ : ∃ sub', sub.setBlockType pos type = .ok sub' :=
          ⟨⟨_, by rw [List.length_set, sub.length_data]⟩,
            setBlockType_eq_ok.mpr ⟨htype, 4096, hlast, rfl⟩⟩
        exact (getNibble_setBlockType_iff hrun).mp (hall sub' hrun) ⟨hpos, hne⟩
      · intro hapart sub' hrun
        obtain ⟨htype, -⟩ := setBlockType_eq_ok.mp hrun
        exact (getNibble_setBlockType_iff hrun).mpr fun h ↦ hapart ⟨htype, h⟩
  | nibble array value =>
      constructor
      · rintro hall ⟨hvalue, rfl, hpos, hne⟩
        have hfirst : sub10Index pos = .ok 1 := hpos
        have hbyte : sub.data[(NibbleArray.blockData.base + 1) / 2]? = _ :=
          sub.data_getElem? (by decide)
        obtain ⟨data, hwrite⟩ : ∃ data, writeNibble sub.data (NibbleArray.blockData.base + 1) value
            NibbleArray.blockData.field = .ok data :=
          ⟨_, writeNibble_eq_ok.mpr ⟨hvalue, _, hbyte, rfl⟩⟩
        have hrun : sub.setNibble .blockData pos value =
            .ok ⟨data, (length_writeNibble hwrite).trans sub.length_data⟩ :=
          setNibble_eq_ok.mpr ⟨1, hfirst, hwrite⟩
        exact (getBlockType_setNibble_iff hrun).mp (hall _ hrun).2.1 ⟨rfl, hpos, hne⟩
      · intro hapart sub' hrun
        obtain ⟨index, -, hwrite⟩ := setNibble_eq_ok.mp hrun
        have hvalue := (writeNibble_eq_ok.mp hwrite).1
        obtain ⟨hback, hothers, hnibbles⟩ := getNibble_setNibble hrun
        exact ⟨hback, (getBlockType_setNibble_iff hrun).mpr fun h ↦ hapart ⟨hvalue, h⟩, hothers,
          hnibbles⟩

/-- Block data that is set at the first position of an empty sub-chunk changes the block type of
the last one. -/
theorem changesOnly_first_fails :
    ∃ sub', new.setBlockData firstPosition 5 = .ok sub' ∧
      sub'.getBlockType lastPosition ≠ new.getBlockType lastPosition ∧
      ¬ ChangesOnly new sub' firstPosition (.nibble .blockData 5) := by
  have hdata : new.data.getD 4096 0 = 0 := by
    rw [new, List.getD_eq_getElem?_getD, List.getElem?_replicate]
    rfl
  have hbyte : new.data[(NibbleArray.blockData.base + 1) / 2]? = some 0 :=
    hdata ▸ new.data_getElem? (by decide)
  obtain ⟨data, hwrite⟩ : ∃ data, writeNibble new.data (NibbleArray.blockData.base + 1) 5
      NibbleArray.blockData.field = .ok data :=
    ⟨_, writeNibble_eq_ok.mpr ⟨by decide, 0, hbyte, rfl⟩⟩
  have hrun : new.setBlockData firstPosition 5 =
      .ok ⟨data, (length_writeNibble hwrite).trans new.length_data⟩ :=
    setNibble_eq_ok.mpr ⟨1, rfl, hwrite⟩
  have hlast : data.getD 4096 0 = 80 := by
    obtain ⟨-, byte, hbyte', rfl⟩ := writeNibble_eq_ok.mp hwrite
    obtain rfl := Option.some.inj (hbyte.symm.trans hbyte')
    have hlt : (NibbleArray.blockData.base + 1) / 2 < new.data.length := by
      rw [new.length_data]
      decide
    rw [List.getD_eq_getElem?_getD]
    exact congrArg (Option.getD · 0) (List.getElem?_set_self hlt)
  have hne : (⟨data, (length_writeNibble hwrite).trans new.length_data⟩ :
      BedrockSubChunk10).getBlockType lastPosition ≠ new.getBlockType lastPosition := by
    rw [getBlockType_last, getBlockType_last, hdata, hlast]
    decide
  exact ⟨_, hrun, hne, fun hall ↦ hne (hall.2.1 lastPosition)⟩

end BedrockSubChunk10

end BedrockProtocol
