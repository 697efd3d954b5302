import Mathlib.Data.List.Basic
import Mathlib.Data.Nat.Bitwise
import Mathlib.Tactic.Ring

/-!
# Fields packed into words

A word of `w` bits holds `w / bits` fields of `bits` bits each, the first one
in the lowest bits; the bits left over at the top belong to no field.  A list
of words holds a sequence of fields, and writing one field changes no other.
-/

namespace BedrockProtocol

section Field

variable {w : ℕ}

/-- The word whose lowest `bits` bits are set. -/
def lowMask (w bits : ℕ) : BitVec w :=
  if w ≤ bits then BitVec.allOnes w else (1#w <<< bits) - 1#w

/-- The `bits` bits of a word from `offset` on. -/
def field (bits offset : ℕ) (word : BitVec w) : BitVec w :=
  (word >>> offset) &&& lowMask w bits

/-- The word with the `bits` bits from `offset` on replaced. -/
def setField (bits offset : ℕ) (word value : BitVec w) : BitVec w :=
  (word &&& ~~~(lowMask w bits <<< offset)) ||| ((value &&& lowMask w bits) <<< offset)

theorem toNat_lowMask_of_lt {bits : ℕ} (h : bits < w) :
    (lowMask w bits).toNat = 2 ^ bits - 1 := by
  have hone : 1 < 2 ^ w := Nat.one_lt_two_pow (by omega)
  have hlt : 2 ^ bits < 2 ^ w := Nat.pow_lt_pow_right (by omega) h
  have hpos : 0 < 2 ^ bits := Nat.two_pow_pos bits
  rw [lowMask, if_neg (by omega), BitVec.toNat_sub, BitVec.toNat_shiftLeft, BitVec.toNat_ofNat,
    Nat.mod_eq_of_lt hone, Nat.shiftLeft_eq, one_mul, Nat.mod_eq_of_lt hlt]
  have hsplit : 2 ^ w - 1 + 2 ^ bits = 2 ^ w + (2 ^ bits - 1) := by omega
  rw [hsplit, Nat.add_mod_left, Nat.mod_eq_of_lt (by omega)]

@[simp] theorem getLsbD_lowMask (bits k : ℕ) :
    (lowMask w bits).getLsbD k = (decide (k < w) && decide (k < bits)) := by
  rcases lt_or_ge bits w with h | h
  · rw [BitVec.getLsbD, toNat_lowMask_of_lt h, Nat.testBit_two_pow_sub_one]
    by_cases hk : k < bits
    · simp [hk, hk.trans h]
    · simp [hk]
  · rw [lowMask, if_pos h, BitVec.getLsbD_allOnes]
    by_cases hk : k < w
    · simp [hk, hk.trans_le h]
    · simp [hk]

@[simp] theorem getElem_lowMask (bits : ℕ) {k : ℕ} (hk : k < w) :
    (lowMask w bits)[k] = decide (k < bits) := by
  rw [← BitVec.getLsbD_eq_getElem, getLsbD_lowMask]
  simp [hk]

theorem getLsbD_field (bits offset : ℕ) (word : BitVec w) (k : ℕ) :
    (field bits offset word).getLsbD k =
      (word.getLsbD (offset + k) && decide (k < w) && decide (k < bits)) := by
  simp [field, Bool.and_assoc]

theorem toNat_and_lowMask (bits : ℕ) (word : BitVec w) :
    (word &&& lowMask w bits).toNat = word.toNat % 2 ^ bits := by
  rcases lt_or_ge bits w with h | h
  · rw [BitVec.toNat_and, toNat_lowMask_of_lt h, Nat.and_two_pow_sub_one_eq_mod]
  · have hlt : word.toNat < 2 ^ bits :=
      word.isLt.trans_le (Nat.pow_le_pow_right (by omega) h)
    rw [lowMask, if_pos h, BitVec.and_allOnes, Nat.mod_eq_of_lt hlt]

theorem toNat_field_lt (bits offset : ℕ) (word : BitVec w) :
    (field bits offset word).toNat < 2 ^ bits := by
  rw [field, toNat_and_lowMask]
  exact Nat.mod_lt _ (Nat.two_pow_pos bits)

/-- What was written is read back, cut to the width of the field. -/
theorem field_setField_self {bits offset : ℕ} (h : offset + bits ≤ w) (word value : BitVec w) :
    field bits offset (setField bits offset word value) = value &&& lowMask w bits := by
  apply BitVec.eq_of_getLsbD_eq
  intro k hk
  rw [getLsbD_field]
  by_cases hb : k < bits
  · have hin : offset + k < w := by omega
    simp [setField, hk, hb, hin]
  · simp [hk, hb]

/-- Writing what a field holds already changes nothing. -/
theorem setField_field {bits offset : ℕ} {word value : BitVec w}
    (h : field bits offset word = value &&& lowMask w bits) :
    setField bits offset word value = word := by
  apply BitVec.eq_of_getLsbD_eq
  intro k hk
  rw [setField, ← h, field]
  by_cases hin : offset ≤ k ∧ k - offset < bits
  · have hnot : ¬ k < offset := by omega
    have hsplit : offset + (k - offset) = k := by omega
    simp [hk, hnot, hin.2, hsplit]
  · by_cases hlow : k < offset
    · simp [hk, hlow]
    · have hout : ¬ k - offset < bits := fun hlt ↦ hin ⟨by omega, hlt⟩
      simp [hk, hlow, hout]

/-- A field that does not overlap the one written stays as it was. -/
theorem field_setField_of_disjoint {bits offset other : ℕ}
    (h : offset + bits ≤ other ∨ other + bits ≤ offset) (word value : BitVec w) :
    field bits other (setField bits offset word value) = field bits other word := by
  apply BitVec.eq_of_getLsbD_eq
  intro k hk
  rw [getLsbD_field, getLsbD_field]
  by_cases hb : k < bits
  · by_cases hin : other + k < w
    · rcases h with h | h
      · have hout : ¬ other + k - offset < bits := by omega
        have hge : ¬ other + k < offset := by omega
        simp [setField, hk, hb, hin, hout, hge]
      · have hout : other + k < offset := by omega
        simp [setField, hk, hb, hin, hout]
    · have hword : ∀ v : BitVec w, v.getLsbD (other + k) = false := fun v ↦
        BitVec.getLsbD_of_ge v _ (by omega)
      simp [hword]
  · simp [hb]

end Field

section Packed

variable {w : ℕ} (bits : ℕ)

/-- The field at position `i` of a list of words. -/
def packedGet (words : List (BitVec w)) (i : ℕ) : ℕ :=
  (field bits (i % (w / bits) * bits) (words.getD (i / (w / bits)) 0)).toNat

/-- The words with the field at position `i` replaced. -/
def packedSet (words : List (BitVec w)) (i value : ℕ) : List (BitVec w) :=
  words.modify (i / (w / bits)) fun word ↦
    setField bits (i % (w / bits) * bits) word (BitVec.ofNat w value)

/-- How many words `count` fields take. -/
def packedLength (w bits count : ℕ) : ℕ := (count + w / bits - 1) / (w / bits)

@[simp] theorem length_packedSet (words : List (BitVec w)) (i value : ℕ) :
    (packedSet bits words i value).length = words.length := by
  simp [packedSet]

theorem packedGet_lt (words : List (BitVec w)) (i : ℕ) : packedGet bits words i < 2 ^ bits :=
  toNat_field_lt _ _ _

@[simp] theorem packedGet_replicate_zero (n i : ℕ) :
    packedGet bits (List.replicate n (0 : BitVec w)) i = 0 := by
  have hword : (List.replicate n (0 : BitVec w)).getD (i / (w / bits)) 0 = 0 := by
    rw [List.getD_eq_getElem?_getD, List.getElem?_replicate]
    split <;> rfl
  rw [packedGet, hword, field]
  simp

variable {bits}

/-- Two positions of one word use disjoint fields. -/
theorem fields_disjoint {i j : ℕ} (hword : i / (w / bits) = j / (w / bits)) (hne : i ≠ j) :
    i % (w / bits) * bits + bits ≤ j % (w / bits) * bits ∨
      j % (w / bits) * bits + bits ≤ i % (w / bits) * bits := by
  have hlane : i % (w / bits) ≠ j % (w / bits) := by
    intro heq
    apply hne
    rw [← Nat.div_add_mod i (w / bits), ← Nat.div_add_mod j (w / bits), hword, heq]
  rcases Nat.lt_or_gt_of_ne hlane with h | h
  · refine .inl ?_
    calc i % (w / bits) * bits + bits = (i % (w / bits) + 1) * bits := by ring
      _ ≤ j % (w / bits) * bits := Nat.mul_le_mul_right _ h
  · refine .inr ?_
    calc j % (w / bits) * bits + bits = (j % (w / bits) + 1) * bits := by ring
      _ ≤ i % (w / bits) * bits := Nat.mul_le_mul_right _ h

theorem packedGet_packedSet_of_ne {words : List (BitVec w)} {i j : ℕ} (hne : i ≠ j)
    (value : ℕ) :
    packedGet bits (packedSet bits words i value) j = packedGet bits words j := by
  by_cases hword : i / (w / bits) = j / (w / bits)
  · by_cases hj : j / (w / bits) < words.length
    · have hset : (packedSet bits words i value).getD (j / (w / bits)) 0 =
          setField bits (i % (w / bits) * bits) words[j / (w / bits)] (BitVec.ofNat w value) := by
        simp [packedSet, List.getD_eq_getElem?_getD, hj, hword]
      have hget : words.getD (j / (w / bits)) 0 = words[j / (w / bits)] := by
        simp [List.getD_eq_getElem?_getD, hj]
      rw [packedGet, packedGet, hset, hget,
        field_setField_of_disjoint (fields_disjoint hword hne)]
    · simp [packedGet, packedSet, List.getD_eq_getElem?_getD, hj]
  · have hset : (packedSet bits words i value).getD (j / (w / bits)) 0 =
        words.getD (j / (w / bits)) 0 := by
      simp [packedSet, List.getD_eq_getElem?_getD, hword]
    rw [packedGet, packedGet, hset]

theorem packedSet_eq_self {words : List (BitVec w)} {i value : ℕ} (hbits : bits ≤ w)
    (h : packedGet bits words i = value % 2 ^ bits) : packedSet bits words i value = words := by
  apply List.ext_getElem (by simp)
  intro j hj hj'
  simp only [packedSet, List.getElem_modify]
  split
  · rename_i heq
    subst heq
    have hword : words.getD (i / (w / bits)) 0 = words[i / (w / bits)] := by
      simp [List.getD_eq_getElem?_getD, hj']
    have hdvd : (2 : ℕ) ^ bits ∣ 2 ^ w := Nat.pow_dvd_pow 2 hbits
    refine setField_field (BitVec.eq_of_toNat_eq ?_)
    rw [packedGet, hword] at h
    rw [h, toNat_and_lowMask, BitVec.toNat_ofNat, Nat.mod_mod_of_dvd _ hdvd]
  · rfl

section Width

variable (hpos : 0 < bits) (hle : bits ≤ w)
include hpos hle

theorem lanes_pos : 0 < w / bits := Nat.div_pos hle hpos

theorem field_fits (i : ℕ) : i % (w / bits) * bits + bits ≤ w := by
  have hlane : i % (w / bits) < w / bits := Nat.mod_lt _ (lanes_pos hpos hle)
  calc i % (w / bits) * bits + bits = (i % (w / bits) + 1) * bits := by ring
    _ ≤ w / bits * bits := Nat.mul_le_mul_right _ hlane
    _ ≤ w := Nat.div_mul_le_self w bits

theorem packedGet_packedSet_self {words : List (BitVec w)} {i : ℕ}
    (hi : i / (w / bits) < words.length) (value : ℕ) :
    packedGet bits (packedSet bits words i value) i = value % 2 ^ bits := by
  have hword : (packedSet bits words i value).getD (i / (w / bits)) 0 =
      setField bits (i % (w / bits) * bits) words[i / (w / bits)] (BitVec.ofNat w value) := by
    simp [packedSet, List.getD_eq_getElem?_getD, hi]
  have hdvd : (2 : ℕ) ^ bits ∣ 2 ^ w := Nat.pow_dvd_pow 2 hle
  rw [packedGet, hword, field_setField_self (field_fits hpos hle i), toNat_and_lowMask,
    BitVec.toNat_ofNat, Nat.mod_mod_of_dvd _ hdvd]

/-- Position `i` of `count` fields lies in the words they take. -/
theorem div_lt_packedLength {i count : ℕ} (hi : i < count) :
    i / (w / bits) < packedLength w bits count := by
  have hlanes := lanes_pos hpos hle
  rw [packedLength, Nat.div_lt_iff_lt_mul hlanes]
  have hup := Nat.lt_div_mul_add (a := count + w / bits - 1) hlanes
  omega

/-- Filling positions one after the other with values that depend only on the
position. -/
theorem packedGet_foldl_packedSet {ι : Type} (position : ι → ℕ) (value : ℕ → ℕ) (is : List ι)
    (words : List (BitVec w)) (hi : ∀ i ∈ is, position i / (w / bits) < words.length) (j : ℕ) :
    packedGet bits
        (is.foldl (fun ws i ↦ packedSet bits ws (position i) (value (position i))) words) j =
      if j ∈ is.map position then value j % 2 ^ bits else packedGet bits words j := by
  induction is generalizing words with
  | nil => simp
  | cons i is ih =>
      have hrest : ∀ k ∈ is, position k / (w / bits) <
          (packedSet bits words (position i) (value (position i))).length := fun k hk ↦ by
        simpa using hi k (by simp [hk])
      rw [List.foldl_cons, ih _ hrest]
      by_cases hj : j ∈ is.map position
      · simp [hj]
      · by_cases hij : position i = j
        · subst hij
          rw [if_neg hj, packedGet_packedSet_self hpos hle (hi i (by simp))]
          simp
        · rw [if_neg hj, packedGet_packedSet_of_ne hij, List.map_cons,
            if_neg (by simp [hj, Ne.symm hij])]

end Width

end Packed

end BedrockProtocol
