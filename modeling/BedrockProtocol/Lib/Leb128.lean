import BedrockProtocol.Lib.Words
import Mathlib.Data.Nat.Bitwise

/-!
# Base-128 variable-length words

Seven bits a byte, least significant group first, the top bit set on every byte
but the last.  The writer is the loop that shifts a word down by seven bits;
the reader is the loop that ors each group in at the next multiple of seven and
stops after a fixed number of groups.
-/

namespace BedrockProtocol

/-- The groups of `v`, at most `more + 1` of them. -/
def leb128 : ℕ → ℕ → List UInt8
  | 0, v => [UInt8.ofNat v]
  | more + 1, v =>
      if v < 0x80 then [UInt8.ofNat v]
      else UInt8.ofNat ((v &&& 0x7f) ||| 0x80) :: leb128 more (v >>> 7)

/-- Read groups at shifts `shift, shift + 7, …` into a word of `w` bits, failing
when none of `groups` bytes ends the word.  The reader of a byte may depend on
the shift: some formats refuse a last group that does not fit. -/
def readLeb128 (byte : ℕ → Reader UInt8) (tooLong : String) (w : ℕ) : ℕ → ℕ → ℕ → Reader ℕ
  | 0, _, _ => throw tooLong
  | groups + 1, shift, acc => do
      let b ← byte shift
      let acc := acc ||| (((b.toNat &&& 0x7f) <<< shift) % 2 ^ w)
      if b.toNat &&& 0x80 = 0 then pure acc
      else readLeb128 byte tooLong w groups (shift + 7) acc

/-- The messages of the byte reader and of a group too many do not matter. -/
theorem readLeb128_alike {byte byte' : ℕ → Reader UInt8}
    (hbyte : ∀ shift, Reader.Alike (byte shift) (byte' shift)) (tooLong tooLong' : String)
    (w groups shift acc : ℕ) :
    Reader.Alike (readLeb128 byte tooLong w groups shift acc)
      (readLeb128 byte' tooLong' w groups shift acc) := by
  induction groups generalizing shift acc with
  | zero => exact .throw tooLong tooLong'
  | succ groups ih =>
      refine (hbyte shift).bind fun b ↦ ?_
      dsimp only
      split
      · exact .refl _
      · exact ih _ _

theorem advances_readLeb128 {byte : ℕ → Reader UInt8} (hbyte : ∀ shift, Advances (byte shift))
    (tooLong : String) (w groups shift acc : ℕ) :
    Advances (readLeb128 byte tooLong w groups shift acc) := by
  induction groups generalizing shift acc with
  | zero => exact .throw tooLong
  | succ groups ih =>
      refine (hbyte shift).bind fun b ↦ ?_
      dsimp only
      split
      · exact .pure _
      · exact ih _ _

theorem and_0x7f (v : ℕ) : v &&& 0x7f = v % 128 := Nat.and_two_pow_sub_one_eq_mod v 7

theorem or_0x80 {v : ℕ} (h : v < 128) : v ||| 0x80 = v + 128 := by
  rw [Nat.or_comm, Nat.add_comm]
  exact (Nat.two_pow_add_eq_or_of_lt (i := 7) h 1).symm

/-- The continuation bit of a byte is its place above 127. -/
theorem and_0x80_eq_zero_iff {v : ℕ} (h : v < 256) : v &&& 0x80 = 0 ↔ v < 128 := by
  have hbit : v.testBit 7 = decide (128 ≤ v) := by
    rw [Nat.testBit_eq_decide_div_mod_eq]
    congr 1
    simp only [eq_iff_iff]
    omega
  have hand : v &&& 0x80 = (v.testBit 7).toNat * 2 ^ 7 := Nat.and_two_pow v 7
  rw [hand, hbit]
  by_cases hv : 128 ≤ v
  · simp [hv]
  · simp [hv]
    omega

theorem leb128_ne_nil (more v : ℕ) : leb128 more v ≠ [] := by
  cases more <;> simp [leb128]
  split <;> simp

theorem length_leb128_pos (more v : ℕ) : 0 < (leb128 more v).length :=
  List.length_pos_of_ne_nil (leb128_ne_nil more v)

/-- Only the word 0 is written with a zero byte. -/
theorem count_zero_leb128 {more v : ℕ} (h : v < 128 ^ (more + 1)) :
    (leb128 more v).count 0 = if v = 0 then 1 else 0 := by
  induction more generalizing v with
  | zero =>
      have hv : (UInt8.ofNat v).toNat = v := toNat_ofNat_of_lt (by omega)
      rw [leb128, List.count_singleton]
      by_cases hzero : v = 0
      · simp [hzero]
      · rw [if_neg hzero, if_neg]
        rw [beq_iff_eq]
        intro heq
        rw [heq, UInt8.toNat_zero] at hv
        exact hzero hv.symm
  | succ more ih =>
      rw [leb128]
      split
      · rename_i hlt
        have hv : (UInt8.ofNat v).toNat = v := toNat_ofNat_of_lt (by omega)
        rw [List.count_singleton]
        by_cases hzero : v = 0
        · simp [hzero]
        · rw [if_neg hzero, if_neg]
          rw [beq_iff_eq]
          intro heq
          rw [heq, UInt8.toNat_zero] at hv
          exact hzero hv.symm
      · rename_i hge
        have hbyte : (UInt8.ofNat ((v &&& 0x7f) ||| 0x80)).toNat = v % 128 + 128 := by
          rw [and_0x7f, or_0x80 (Nat.mod_lt _ (by omega)), toNat_ofNat_of_lt (by omega)]
        have hne : UInt8.ofNat ((v &&& 0x7f) ||| 0x80) ≠ 0 := by
          intro heq
          rw [heq, UInt8.toNat_zero] at hbyte
          omega
        have hshift : v >>> 7 = v / 128 := Nat.shiftRight_eq_div_pow v 7
        rw [List.count_cons_of_ne hne, hshift, ih, if_neg (by omega), if_neg (by omega)]
        rw [Nat.div_lt_iff_lt_mul (by omega), ← pow_succ]
        exact h

/-- Oring a group in above the bits already read adds it. -/
theorem or_shiftLeft_of_lt {acc g shift : ℕ} (h : acc < 2 ^ shift) :
    acc ||| (g <<< shift) = acc + g * 2 ^ shift := by
  rw [Nat.or_comm, Nat.shiftLeft_eq, Nat.mul_comm, ← Nat.two_pow_add_eq_or_of_lt h]
  omega

section Reading

variable {byte : ℕ → Reader UInt8} {tooLong : String} {w : ℕ}

/-- A reader that takes every byte a word of `w` bits has at `shift`. -/
def TakesGroups (byte : ℕ → Reader UInt8) (w : ℕ) : Prop :=
  ∀ shift b, UInt8.toNat b * 2 ^ shift < 2 ^ w ∨ shift + 7 < w → Reads (byte shift) [b] b

/-- One group that fits the word is added above the bits already read. -/
theorem leb128_group {acc g shift : ℕ} (hacc : acc < 2 ^ shift) (hfit : g * 2 ^ shift < 2 ^ w) :
    acc ||| ((g <<< shift) % 2 ^ w) = acc + g * 2 ^ shift := by
  have hmod : (g <<< shift) % 2 ^ w = g <<< shift :=
    Nat.mod_eq_of_lt (by rwa [Nat.shiftLeft_eq])
  rw [hmod, or_shiftLeft_of_lt hacc]

/-- The reader, having read `acc` below `shift`, adds the word the writer put
there. -/
theorem reads_leb128_from (hbyte : TakesGroups byte w) (more v groups shift acc : ℕ)
    (hacc : acc < 2 ^ shift) (hv : v < 128 ^ (more + 1)) (hgroups : more < groups)
    (hfit : v * 2 ^ shift < 2 ^ w) :
    Reads (readLeb128 byte tooLong w groups shift acc) (leb128 more v)
      (acc + v * 2 ^ shift) := by
  -- The induction is on the groups the writer may still emit.
  induction more generalizing v groups shift acc with
  | zero =>
      obtain ⟨groups, rfl⟩ : ∃ g, groups = g + 1 := ⟨groups - 1, by omega⟩
      have hv' : v < 128 := by simpa using hv
      have hb : (UInt8.ofNat v).toNat = v := toNat_ofNat_of_lt (by omega)
      refine (hbyte shift (UInt8.ofNat v) (.inl (by rwa [hb]))).bind_last ?_
      rw [hb, if_pos ((and_0x80_eq_zero_iff (by omega)).mpr hv'), and_0x7f, Nat.mod_eq_of_lt hv',
        leb128_group hacc hfit]
      exact Reads.pure _
  | succ more ih =>
      obtain ⟨groups, rfl⟩ : ∃ g, groups = g + 1 := ⟨groups - 1, by omega⟩
      unfold leb128 readLeb128
      split
      · rename_i hv'
        have hb : (UInt8.ofNat v).toNat = v := toNat_ofNat_of_lt (by omega)
        refine (hbyte shift (UInt8.ofNat v) (.inl (by rwa [hb]))).bind_last ?_
        rw [hb, if_pos ((and_0x80_eq_zero_iff (by omega)).mpr hv'), and_0x7f, Nat.mod_eq_of_lt hv',
          leb128_group hacc hfit]
        exact Reads.pure _
      · rename_i hv'
        have hlow : v % 128 < 128 := Nat.mod_lt _ (by omega)
        have hb : (UInt8.ofNat ((v &&& 0x7f) ||| 0x80)).toNat = v % 128 + 128 := by
          rw [and_0x7f, or_0x80 hlow, toNat_ofNat_of_lt (by omega)]
        have hcontinue : shift + 7 < w := by
          refine (Nat.pow_lt_pow_iff_right (by norm_num : 1 < 2)).mp (lt_of_le_of_lt ?_ hfit)
          rw [pow_add, Nat.mul_comm]
          exact Nat.mul_le_mul_right _ (by omega)
        have hsplit : v = v % 128 + v / 128 * 128 := by omega
        have hpow : (2 : ℕ) ^ (shift + 7) = 128 * 2 ^ shift := by rw [pow_add]; ring
        have hgroup : acc ||| ((v % 128) <<< shift) % 2 ^ w = acc + v % 128 * 2 ^ shift := by
          refine leb128_group hacc (lt_of_le_of_lt ?_ hfit)
          exact Nat.mul_le_mul_right _ (by omega)
        have hmul : v % 128 * 2 ^ shift + v / 128 * 2 ^ (shift + 7) = v * 2 ^ shift := by
          rw [hpow]
          nth_rewrite 3 [hsplit]
          ring
        have hrec := ih (v / 128) groups (shift + 7) (acc + v % 128 * 2 ^ shift)
          (by
            have : v % 128 * 2 ^ shift ≤ 127 * 2 ^ shift := Nat.mul_le_mul_right _ (by omega)
            omega)
          (by
            rw [Nat.div_lt_iff_lt_mul (by norm_num), ← pow_succ]
            exact hv)
          (by omega) (by omega)
        rw [Nat.shiftRight_eq_div_pow]
        refine (hbyte shift _ (.inr hcontinue)).bind_cons ?_
        rw [hb, if_neg (by rw [and_0x80_eq_zero_iff] <;> omega), and_0x7f]
        have hmod : (v % 128 + 128) % 128 = v % 128 := by omega
        rw [hmod, hgroup]
        rw [add_assoc, hmul] at hrec
        exact hrec

theorem takesGroups_const {r : Reader UInt8} (h : ∀ b, Reads r [b] b) :
    TakesGroups (fun _ ↦ r) w :=
  fun _ b _ ↦ h b

/-- The writer's groups read back as the word. -/
theorem reads_leb128 (hbyte : TakesGroups byte w) {more v groups : ℕ}
    (hv : v < 128 ^ (more + 1)) (hw : v < 2 ^ w) (hgroups : more < groups) :
    Reads (readLeb128 byte tooLong w groups 0 0) (leb128 more v) v := by
  simpa using reads_leb128_from hbyte more v groups 0 0 (by simp) hv hgroups
    (by simpa using hw)

end Reading

/-- Whatever the bytes are, the word has `w` bits. -/
theorem yields_readLeb128 (byte : ℕ → Reader UInt8) (tooLong : String) (w groups shift : ℕ)
    {acc : ℕ} (hacc : acc < 2 ^ w) :
    Yields (readLeb128 byte tooLong w groups shift acc) (· < 2 ^ w) := by
  induction groups generalizing shift acc with
  | zero => exact Yields.throw tooLong
  | succ groups ih =>
      refine Yields.bind_any fun b ↦ ?_
      have hor : acc ||| (((b.toNat &&& 0x7f) <<< shift) % 2 ^ w) < 2 ^ w :=
        Nat.or_lt_two_pow hacc (Nat.mod_lt _ (Nat.two_pow_pos w))
      dsimp only
      split
      · exact Yields.pure hor
      · exact ih (shift + 7) hor

end BedrockProtocol
