import BedrockProtocol.Lib.Reader
import Mathlib.Data.Nat.Bits
import Mathlib.Tactic.Linarith
import Mathlib.Tactic.NormNum

/-!
# Fixed-width words

Unsigned words of `k` bytes in either byte order, two's-complement readings of
them, and the zigzag permutation that sends integers of small magnitude to
small unsigned words.  Machine words are natural numbers below `2 ^ w`.
-/

namespace BedrockProtocol

/-! ## Little- and big-endian bytes -/

/-- The low `k` bytes of `v`, least significant first. -/
def leBytes : ℕ → ℕ → List UInt8
  | 0, _ => []
  | k + 1, v => UInt8.ofNat (v % 256) :: leBytes k (v / 256)

/-- The low `k` bytes of `v`, most significant first. -/
def beBytes (k v : ℕ) : List UInt8 := (leBytes k v).reverse

/-- The number whose bytes, least significant first, are given. -/
def leValue : List UInt8 → ℕ
  | [] => 0
  | b :: bs => b.toNat + 256 * leValue bs

@[simp] theorem ofNat_mod_256 (v : ℕ) : UInt8.ofNat (v % 256) = UInt8.ofNat v := by
  apply UInt8.toNat_inj.mp
  simp [UInt8.toNat_ofNat']

theorem toNat_ofNat_of_lt {n : ℕ} (h : n < 256) : (UInt8.ofNat n).toNat = n := by
  rw [UInt8.toNat_ofNat']
  omega

@[simp] theorem length_leBytes (k v : ℕ) : (leBytes k v).length = k := by
  induction k generalizing v with
  | zero => rfl
  | succ k ih => simp [leBytes, ih]

@[simp] theorem length_beBytes (k v : ℕ) : (beBytes k v).length = k := by
  simp [beBytes]

theorem leValue_leBytes (k v : ℕ) : leValue (leBytes k v) = v % 256 ^ k := by
  induction k generalizing v with
  | zero => simp [leBytes, leValue, Nat.mod_one]
  | succ k ih =>
      have hdigit : (UInt8.ofNat (v % 256)).toNat = v % 256 := by
        simp [UInt8.toNat_ofNat']
      rw [leBytes, leValue, ih, hdigit, pow_succ', Nat.mod_mul]

theorem leValue_leBytes_of_lt {k v : ℕ} (h : v < 256 ^ k) : leValue (leBytes k v) = v := by
  rw [leValue_leBytes, Nat.mod_eq_of_lt h]

theorem leValue_lt (bs : List UInt8) : leValue bs < 256 ^ bs.length := by
  induction bs with
  | nil => simp [leValue]
  | cons b bs ih =>
      have hb := b.toNat_lt
      rw [leValue, List.length_cons, pow_succ']
      omega

theorem leBytes_leValue (bs : List UInt8) : leBytes bs.length (leValue bs) = bs := by
  induction bs with
  | nil => rfl
  | cons b bs ih =>
      have hb := b.toNat_lt
      have hlow : (b.toNat + 256 * leValue bs) % 256 = b.toNat := by omega
      have hhigh : (b.toNat + 256 * leValue bs) / 256 = leValue bs := by omega
      rw [List.length_cons, leValue, leBytes, hlow, hhigh, ih, UInt8.ofNat_toNat]

/-- Words of one length with one value are the same bytes. -/
theorem leValue_injective {xs ys : List UInt8} (hlength : xs.length = ys.length)
    (h : leValue xs = leValue ys) : xs = ys := by
  rw [← leBytes_leValue xs, hlength, h, leBytes_leValue]

/-- The last byte is the most significant one. -/
theorem leBytes_succ_last (k v : ℕ) :
    leBytes (k + 1) v = leBytes k v ++ [UInt8.ofNat (v / 256 ^ k)] := by
  induction k generalizing v with
  | zero => simp [leBytes]
  | succ k ih =>
      have hsplit : v / 256 / 256 ^ k = v / 256 ^ (k + 1) := by
        rw [Nat.div_div_eq_div_mul, ← pow_succ']
      rw [leBytes, ih, hsplit, leBytes, List.cons_append]

theorem beBytes_succ (k v : ℕ) : beBytes (k + 1) v = UInt8.ofNat (v / 256 ^ k) :: beBytes k v := by
  rw [beBytes, leBytes_succ_last, List.reverse_append]
  rfl

/-! ## Two's complement -/

/-- The signed reading of a word of `w` bits. -/
def toSigned (w n : ℕ) : ℤ := if n < 2 ^ (w - 1) then (n : ℤ) else (n : ℤ) - 2 ^ w

/-- The word of `w` bits congruent to an integer. -/
def toUnsigned (w : ℕ) (z : ℤ) : ℕ := (z % 2 ^ w).toNat

/-- The integers a signed word of `w` bits holds. -/
def InSigned (w : ℕ) (z : ℤ) : Prop := -2 ^ (w - 1) ≤ z ∧ z < 2 ^ (w - 1)

instance (w : ℕ) (z : ℤ) : Decidable (InSigned w z) :=
  inferInstanceAs (Decidable (_ ∧ _))

theorem toUnsigned_lt (w : ℕ) (z : ℤ) : toUnsigned w z < 2 ^ w := by
  have hpos : (0 : ℤ) < 2 ^ w := by positivity
  have h := Int.emod_lt_of_pos z hpos
  have h0 := Int.emod_nonneg z hpos.ne'
  have : (toUnsigned w z : ℤ) < 2 ^ w := by rw [toUnsigned, Int.toNat_of_nonneg h0]; exact h
  exact_mod_cast this

theorem two_pow_pred {w : ℕ} (hw : 0 < w) : (2 : ℤ) ^ w = 2 * 2 ^ (w - 1) := by
  obtain ⟨k, rfl⟩ : ∃ k, w = k + 1 := ⟨w - 1, by omega⟩
  simp [pow_succ']

theorem toUnsigned_of_nonneg {w : ℕ} {z : ℤ} (h0 : 0 ≤ z) (h : z < 2 ^ w) :
    (toUnsigned w z : ℤ) = z := by
  rw [toUnsigned, Int.emod_eq_of_lt h0 h, Int.toNat_of_nonneg h0]

theorem toUnsigned_of_neg {w : ℕ} {z : ℤ} (h0 : z < 0) (h : -2 ^ w ≤ z) :
    (toUnsigned w z : ℤ) = z + 2 ^ w := by
  have hmod : z % 2 ^ w = z + 2 ^ w := by
    rw [← Int.add_emod_right, Int.emod_eq_of_lt (by omega) (by omega)]
  rw [toUnsigned, hmod, Int.toNat_of_nonneg (by omega)]

theorem toSigned_toUnsigned {w : ℕ} (hw : 0 < w) {z : ℤ} (hz : InSigned w z) :
    toSigned w (toUnsigned w z) = z := by
  obtain ⟨hlo, hhi⟩ := hz
  have hpow := two_pow_pred hw
  unfold toSigned
  rcases lt_or_ge z 0 with hneg | hpos
  · have hu := toUnsigned_of_neg (w := w) hneg (by omega)
    rw [if_neg (by zify; omega), hu]
    ring
  · have hu := toUnsigned_of_nonneg (w := w) hpos (by omega)
    rw [if_pos (by zify; omega), hu]

theorem toUnsigned_toSigned {w n : ℕ} (hn : n < 2 ^ w) :
    toUnsigned w (toSigned w n) = n := by
  have hn' : (n : ℤ) < 2 ^ w := by exact_mod_cast hn
  unfold toSigned
  split
  · have := toUnsigned_of_nonneg (w := w) (z := n) (by omega) hn'
    exact_mod_cast this
  · have := toUnsigned_of_neg (w := w) (z := (n : ℤ) - 2 ^ w) (by omega) (by omega)
    have h2 : (toUnsigned w ((n : ℤ) - 2 ^ w) : ℤ) = n := by rw [this]; ring
    exact_mod_cast h2

theorem toSigned_injective {w a b : ℕ} (ha : a < 2 ^ w) (hb : b < 2 ^ w)
    (h : toSigned w a = toSigned w b) : a = b := by
  rw [← toUnsigned_toSigned ha, h, toUnsigned_toSigned hb]

theorem toSigned_inSigned {w n : ℕ} (hw : 0 < w) (hn : n < 2 ^ w) :
    InSigned w (toSigned w n) := by
  have hpow := two_pow_pred hw
  have hn' : (n : ℤ) < 2 ^ w := by exact_mod_cast hn
  unfold toSigned InSigned
  split
  · rename_i h
    have : (n : ℤ) < 2 ^ (w - 1) := by exact_mod_cast h
    omega
  · rename_i h
    have : (2 : ℤ) ^ (w - 1) ≤ n := by exact_mod_cast not_lt.mp h
    omega

/-- A narrower word has the low bits of a wider one. -/
theorem toUnsigned_mod {v w : ℕ} (h : v ≤ w) (z : ℤ) : toUnsigned w z % 2 ^ v = toUnsigned v z := by
  have hw : (0 : ℤ) < 2 ^ w := by positivity
  have hv : (0 : ℤ) < 2 ^ v := by positivity
  have hdvd : (2 : ℤ) ^ v ∣ 2 ^ w := pow_dvd_pow 2 h
  have hcast : ((toUnsigned w z % 2 ^ v : ℕ) : ℤ) = (toUnsigned v z : ℕ) := by
    push_cast
    rw [toUnsigned, toUnsigned, Int.toNat_of_nonneg (Int.emod_nonneg z hw.ne'),
      Int.toNat_of_nonneg (Int.emod_nonneg z hv.ne'), Int.emod_emod_of_dvd z hdvd]
  exact_mod_cast hcast

/-! ## Zigzag -/

/-- The zigzag word of a two's-complement word: shift left, then flip every bit
when the sign bit was set. -/
def encodeZigZag (w bits : ℕ) : ℕ :=
  ((bits <<< 1) % 2 ^ w) ^^^ ((2 ^ w - (bits >>> (w - 1))) % 2 ^ w)

/-- The two's-complement word of a zigzag word. -/
def decodeZigZag (w encoded : ℕ) : ℕ :=
  (encoded >>> 1) ^^^ ((2 ^ w - (encoded &&& 1)) % 2 ^ w)

theorem xor_two_pow_sub_one {w x : ℕ} (hx : x < 2 ^ w) :
    x ^^^ (2 ^ w - 1) = 2 ^ w - 1 - x := by
  have h := BitVec.toNat_not (x := BitVec.ofNat w x)
  rwa [← BitVec.xor_allOnes, BitVec.toNat_xor, BitVec.toNat_allOnes, BitVec.toNat_ofNat,
    Nat.mod_eq_of_lt hx] at h

theorem encodeZigZag_of_lt {w n : ℕ} (hw : 0 < w) (hn : n < 2 ^ (w - 1)) :
    encodeZigZag w n = 2 * n := by
  obtain ⟨k, rfl⟩ : ∃ k, w = k + 1 := ⟨w - 1, by omega⟩
  simp only [Nat.add_sub_cancel] at hn
  have h2 : 2 * n < 2 ^ (k + 1) := by rw [pow_succ']; omega
  have hs : n >>> k = 0 := by rw [Nat.shiftRight_eq_div_pow, Nat.div_eq_of_lt hn]
  simp [encodeZigZag, hs, Nat.shiftLeft_eq, Nat.mul_comm n 2, Nat.mod_eq_of_lt h2]

theorem encodeZigZag_of_ge {w n : ℕ} (hw : 0 < w) (hlo : 2 ^ (w - 1) ≤ n) (hn : n < 2 ^ w) :
    encodeZigZag w n = 2 * (2 ^ w - n) - 1 := by
  obtain ⟨k, rfl⟩ : ∃ k, w = k + 1 := ⟨w - 1, by omega⟩
  simp only [Nat.add_sub_cancel] at hlo
  have hpow : 2 ^ (k + 1) = 2 * 2 ^ k := pow_succ' 2 k
  have hs : n >>> k = 1 := by
    rw [Nat.shiftRight_eq_div_pow]
    exact Nat.div_eq_of_lt_le (by omega) (by omega)
  have hl : (n <<< 1) % 2 ^ (k + 1) = 2 * n - 2 ^ (k + 1) := by
    rw [Nat.shiftLeft_eq, pow_one, Nat.mul_comm, Nat.mod_eq_sub_mod (by omega),
      Nat.mod_eq_of_lt (by omega)]
  have hpos : 0 < 2 ^ k := by positivity
  rw [encodeZigZag, Nat.add_sub_cancel, hs, hl, Nat.mod_eq_of_lt (by omega),
    xor_two_pow_sub_one (by omega)]
  omega

theorem decodeZigZag_two_mul (w n : ℕ) :
    decodeZigZag w (2 * n) = n := by
  have hs : (2 * n) >>> 1 = n := by rw [Nat.shiftRight_eq_div_pow]; omega
  have ha : (2 * n) &&& 1 = 0 := by rw [Nat.and_one_is_mod]; omega
  simp [decodeZigZag, hs, ha]

theorem decodeZigZag_two_mul_add_one {w n : ℕ} (hn : n < 2 ^ w) :
    decodeZigZag w (2 * n + 1) = 2 ^ w - 1 - n := by
  have hs : (2 * n + 1) >>> 1 = n := by rw [Nat.shiftRight_eq_div_pow]; omega
  have ha : (2 * n + 1) &&& 1 = 1 := by rw [Nat.and_one_is_mod]; omega
  have hpos : 0 < 2 ^ w := by positivity
  rw [decodeZigZag, hs, ha, Nat.mod_eq_of_lt (by omega), xor_two_pow_sub_one hn]

theorem encodeZigZag_lt {w n : ℕ} (hw : 0 < w) (hn : n < 2 ^ w) :
    encodeZigZag w n < 2 ^ w := by
  obtain ⟨k, rfl⟩ : ∃ k, w = k + 1 := ⟨w - 1, by omega⟩
  have hpow : 2 ^ (k + 1) = 2 * 2 ^ k := pow_succ' 2 k
  rcases lt_or_ge n (2 ^ k) with h | h
  · rw [encodeZigZag_of_lt hw (by simpa using h)]
    omega
  · rw [encodeZigZag_of_ge hw (by simpa using h) hn]
    omega

theorem decodeZigZag_lt {w encoded : ℕ} (h : encoded < 2 ^ w) : decodeZigZag w encoded < 2 ^ w := by
  refine Nat.xor_lt_two_pow ?_ (Nat.mod_lt _ (Nat.two_pow_pos w))
  exact (Nat.shiftRight_le _ _).trans_lt h

theorem decodeZigZag_encodeZigZag {w n : ℕ} (hw : 0 < w) (hn : n < 2 ^ w) :
    decodeZigZag w (encodeZigZag w n) = n := by
  obtain ⟨k, rfl⟩ : ∃ k, w = k + 1 := ⟨w - 1, by omega⟩
  have hpow : 2 ^ (k + 1) = 2 * 2 ^ k := pow_succ' 2 k
  rcases lt_or_ge n (2 ^ k) with h | h
  · rw [encodeZigZag_of_lt hw (by simpa using h), decodeZigZag_two_mul]
  · rw [encodeZigZag_of_ge hw (by simpa using h) hn]
    have hodd : 2 * (2 ^ (k + 1) - n) - 1 = 2 * (2 ^ (k + 1) - 1 - n) + 1 := by omega
    rw [hodd, decodeZigZag_two_mul_add_one (by omega)]
    omega

end BedrockProtocol
