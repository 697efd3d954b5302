import BedrockProtocol.Lib.Words

/-!
# Bit strings

A string of bits is a number below a power of two, the first bit the most
significant one.  Appending puts the second string below the first, and a
string that was appended is cut off again by division.  Bytes are strings of
eight bits.
-/

namespace BedrockProtocol

@[ext] structure BitString where
  size : ℕ
  value : ℕ
  value_lt : value < 2 ^ size

namespace BitString

def empty : BitString := ⟨0, 0, Nat.one_pos⟩

theorem append_lt {m n a b : ℕ} (ha : a < 2 ^ m) (hb : b < 2 ^ n) : a * 2 ^ n + b < 2 ^ (m + n) := by
  calc a * 2 ^ n + b < a * 2 ^ n + 2 ^ n := by omega
    _ = (a + 1) * 2 ^ n := by ring
    _ ≤ 2 ^ m * 2 ^ n := Nat.mul_le_mul_right _ ha
    _ = 2 ^ (m + n) := (pow_add 2 m n).symm

def append (a b : BitString) : BitString :=
  ⟨a.size + b.size, a.value * 2 ^ b.size + b.value, append_lt a.value_lt b.value_lt⟩

instance : Append BitString := ⟨append⟩

@[simp] theorem size_append (a b : BitString) : (a ++ b).size = a.size + b.size := rfl

theorem value_append (a b : BitString) : (a ++ b).value = a.value * 2 ^ b.size + b.value := rfl

theorem append_assoc (a b c : BitString) : a ++ b ++ c = a ++ (b ++ c) := by
  apply BitString.ext
  · exact Nat.add_assoc _ _ _
  · simp only [value_append, size_append, pow_add]
    ring

theorem empty_append (a : BitString) : empty ++ a = a := by
  apply BitString.ext
  · exact Nat.zero_add _
  · simp [value_append, empty]

theorem append_empty (a : BitString) : a ++ empty = a := by
  apply BitString.ext
  · rfl
  · simp [value_append, empty]

/-- Strings whose first parts have one length are equal part by part. -/
theorem append_inj {a b c d : BitString} (h : a ++ b = c ++ d) (hsize : a.size = c.size) :
    a = c ∧ b = d := by
  have hsizes : a.size + b.size = c.size + d.size := congrArg BitString.size h
  have hlast : b.size = d.size := by omega
  have hvalue : a.value * 2 ^ b.size + b.value = c.value * 2 ^ d.size + d.value :=
    congrArg BitString.value h
  rw [hlast] at hvalue
  have hb : b.value < 2 ^ d.size := hlast ▸ b.value_lt
  have hpos : 0 < 2 ^ d.size := Nat.two_pow_pos _
  have hfirst : a.value = c.value := by
    have hdiv := congrArg (· / 2 ^ d.size) hvalue
    simpa [Nat.mul_comm _ (2 ^ d.size), Nat.mul_add_div hpos, Nat.div_eq_of_lt hb,
      Nat.div_eq_of_lt d.value_lt] using hdiv
  rw [hfirst] at hvalue
  exact ⟨BitString.ext hsize hfirst, BitString.ext hlast (Nat.add_left_cancel hvalue)⟩

/-- The low `n` bits of a number. -/
def low (n value : ℕ) : BitString := ⟨n, value % 2 ^ n, Nat.mod_lt _ (Nat.two_pow_pos n)⟩

@[simp] theorem size_low (n value : ℕ) : (low n value).size = n := rfl

theorem low_value (a : BitString) : low a.size a.value = a :=
  BitString.ext rfl (Nat.mod_eq_of_lt a.value_lt)

/-- The low bits are those above position `n` and those below it. -/
theorem low_add (m n value : ℕ) : low (m + n) value = low m (value / 2 ^ n) ++ low n value := by
  apply BitString.ext
  · rfl
  · change value % 2 ^ (m + n) = value / 2 ^ n % 2 ^ m * 2 ^ n + value % 2 ^ n
    rw [pow_add, Nat.mul_comm (2 ^ m), Nat.mod_mul, Nat.mul_comm, Nat.add_comm]

/-- Shifting a string up and putting other bits below it. -/
theorem low_shiftLeft_or (m n high value : ℕ) :
    low (m + n) ((high <<< n) ||| (value % 2 ^ n)) = low m high ++ low n value := by
  have hlt : value % 2 ^ n < 2 ^ n := Nat.mod_lt _ (Nat.two_pow_pos n)
  have hsum : (high <<< n) ||| (value % 2 ^ n) = 2 ^ n * high + value % 2 ^ n := by
    rw [Nat.shiftLeft_eq, Nat.mul_comm, Nat.two_pow_add_eq_or_of_lt hlt]
  rw [hsum, low_add, Nat.mul_add_div (Nat.two_pow_pos n), Nat.div_eq_of_lt hlt, Nat.add_zero]
  congr 1
  apply BitString.ext
  · rfl
  · change (2 ^ n * high + value % 2 ^ n) % 2 ^ n = value % 2 ^ n
    rw [Nat.mul_add_mod, Nat.mod_mod]

@[simp] theorem low_zero (value : ℕ) : low 0 value = empty := by
  apply BitString.ext
  · rfl
  · exact Nat.mod_one value

/-! ## Bytes -/

def byte (b : UInt8) : BitString := ⟨8, b.toNat, b.toNat_lt⟩

def ofBytes : List UInt8 → BitString
  | [] => empty
  | b :: bytes => byte b ++ ofBytes bytes

@[simp] theorem size_ofBytes (bytes : List UInt8) : (ofBytes bytes).size = 8 * bytes.length := by
  induction bytes with
  | nil => rfl
  | cons b bytes ih =>
      rw [ofBytes, size_append, ih, List.length_cons]
      change 8 + _ = _
      ring

theorem ofBytes_append (xs ys : List UInt8) : ofBytes (xs ++ ys) = ofBytes xs ++ ofBytes ys := by
  induction xs with
  | nil => exact (empty_append _).symm
  | cons b xs ih => rw [List.cons_append, ofBytes, ofBytes, ih, append_assoc]

theorem ofBytes_singleton (b : UInt8) : ofBytes [b] = byte b := append_empty _

theorem low_byte (b : UInt8) : low 8 b.toNat = byte b := low_value (byte b)

theorem byte_ofNat (value : ℕ) : byte (UInt8.ofNat value) = low 8 value :=
  BitString.ext rfl UInt8.toNat_ofNat'

end BitString

end BedrockProtocol
