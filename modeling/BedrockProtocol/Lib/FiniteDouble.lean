import BedrockProtocol.Lib.Words
import Mathlib.Algebra.Order.Field.Power
import Mathlib.Data.Int.Log
import Mathlib.Data.Rat.Floor
import Mathlib.Tactic.Linarith
import Mathlib.Tactic.Positivity
import Mathlib.Tactic.Ring

/-!
# Finite doubles as rational numbers

A finite double is a rational number that rounding leaves alone, and an
operation on doubles rounds the exact result to 53 bits, halves going to the
even neighbour.  The two zeros are one number here and the exponent has no upper
end, so nothing overflows to infinity.  Integers up to `2 ^ 53` are doubles;
above, only even ones are.
-/

namespace BedrockProtocol

/-- The integer nearest to a number, a half going to the even neighbour. -/
def nearestInt (q : ℚ) : ℤ :=
  if q - ⌊q⌋ < 1 / 2 then ⌊q⌋
  else if 1 / 2 < q - ⌊q⌋ then ⌊q⌋ + 1
  else if ⌊q⌋ % 2 = 0 then ⌊q⌋ else ⌊q⌋ + 1

theorem nearestInt_intCast (z : ℤ) : nearestInt z = z := by
  rw [nearestInt, Int.floor_intCast, sub_self, if_pos (by norm_num)]

theorem abs_nearestInt_sub_le (q : ℚ) : |(nearestInt q : ℚ) - q| ≤ 1 / 2 := by
  have hlow : (⌊q⌋ : ℚ) ≤ q := Int.floor_le q
  have hhigh : q < ⌊q⌋ + 1 := Int.lt_floor_add_one q
  rw [nearestInt, abs_le]
  split_ifs <;> push_cast <;> constructor <;> linarith

/-- The exponent of the last of the 53 bits of a number. -/
def lastPlace (q : ℚ) : ℤ := max (Int.log 2 |q| - 52) (-1074)

/-- The double nearest to a number. -/
def roundDouble (q : ℚ) : ℚ := nearestInt (q / 2 ^ lastPlace q) * 2 ^ lastPlace q

/-- A number below `2 ^ (e + 53)` has its last bit at `e` or below. -/
theorem lastPlace_le {q : ℚ} {e : ℤ} (hq : q ≠ 0) (hlt : |q| < 2 ^ (e + 53)) (he : -1074 ≤ e) :
    lastPlace q ≤ e := by
  have hlog : Int.log 2 |q| < e + 53 :=
    (Int.lt_zpow_iff_log_lt one_lt_two (abs_pos.mpr hq)).mp hlt
  rw [lastPlace]
  omega

theorem abs_div_lastPlace_lt (q : ℚ) : |q / 2 ^ lastPlace q| < 2 ^ 53 := by
  have hpos : (0 : ℚ) < 2 ^ lastPlace q := by positivity
  have hlog : |q| < (2 : ℚ) ^ (Int.log 2 |q| + 1) := by
    exact_mod_cast Int.lt_zpow_succ_log_self one_lt_two |q|
  have hle : (2 : ℚ) ^ (Int.log 2 |q| + 1) ≤ 2 ^ (53 + lastPlace q) := by
    refine zpow_le_zpow_right₀ one_le_two ?_
    rw [lastPlace]
    omega
  rw [abs_div, abs_of_pos hpos, div_lt_iff₀ hpos]
  calc |q| < 2 ^ (53 + lastPlace q) := hlog.trans_le hle
    _ = 2 ^ (53 : ℤ) * 2 ^ lastPlace q := zpow_add₀ two_ne_zero _ _
    _ = 2 ^ 53 * 2 ^ lastPlace q := by norm_cast

theorem abs_nearestInt_le {q : ℚ} (h : |q| < 2 ^ 53) : |nearestInt q| ≤ 2 ^ 53 := by
  have hnear := abs_le.mp (abs_nearestInt_sub_le q)
  have hq := abs_lt.mp h
  have hhigh : (nearestInt q : ℚ) < (2 ^ 53 + 1 : ℤ) := by push_cast; linarith
  have hlow : ((-2 ^ 53 - 1 : ℤ) : ℚ) < nearestInt q := by push_cast; linarith
  have hhigh' : nearestInt q < 2 ^ 53 + 1 := by exact_mod_cast hhigh
  have hlow' : -2 ^ 53 - 1 < nearestInt q := by exact_mod_cast hlow
  exact abs_le.mpr ⟨by omega, by omega⟩

/-- A multiple of the last place is rounded to itself. -/
theorem roundDouble_of_multiple {q : ℚ} {m : ℤ} (h : q = m * 2 ^ lastPlace q) :
    roundDouble q = q := by
  have hdiv : q / 2 ^ lastPlace q = m := by
    rw [div_eq_iff (by positivity)]
    exact h
  rw [roundDouble, hdiv, nearestInt_intCast, ← h]

/-- A number with 53 bits from the place `e` on is rounded to itself. -/
theorem roundDouble_of_lt {m e : ℤ} (hm : |m| < 2 ^ 53) (he : -1074 ≤ e) :
    roundDouble (m * 2 ^ e) = m * 2 ^ e := by
  by_cases hzero : m = 0
  · rw [hzero, Int.cast_zero, zero_mul]
    exact roundDouble_of_multiple (m := 0) (by simp)
  · have hq : (m * 2 ^ e : ℚ) ≠ 0 := by positivity
    have hlt : |(m * 2 ^ e : ℚ)| < 2 ^ (e + 53) := by
      have hcast : |(m : ℚ)| < 2 ^ 53 := by exact_mod_cast hm
      rw [abs_mul, abs_of_pos (by positivity : (0 : ℚ) < 2 ^ e), add_comm,
        zpow_add₀ two_ne_zero]
      exact mul_lt_mul_of_pos_right (by exact_mod_cast hcast) (by positivity)
    obtain ⟨k, hk⟩ := Int.le.dest (lastPlace_le hq hlt he)
    refine roundDouble_of_multiple (m := m * 2 ^ k) ?_
    have hexp : (2 : ℚ) ^ e = 2 ^ k * 2 ^ lastPlace (m * 2 ^ e) := by
      rw [← zpow_natCast, ← zpow_add₀ two_ne_zero, add_comm, hk]
    push_cast
    rw [mul_assoc, ← hexp]

theorem roundDouble_of_le {m e : ℤ} (hm : |m| ≤ 2 ^ 53) (he : -1074 ≤ e) :
    roundDouble (m * 2 ^ e) = m * 2 ^ e := by
  obtain hlt | heq := lt_or_eq_of_le hm
  · exact roundDouble_of_lt hlt he
  · obtain ⟨half, rfl⟩ : ∃ half, m = 2 * half := by
      obtain h | h := abs_choice m
      · exact ⟨2 ^ 52, by omega⟩
      · exact ⟨-2 ^ 52, by omega⟩
    have hhalf : |half| < 2 ^ 53 := by
      rw [abs_mul, abs_two] at heq
      omega
    have hshift : (((2 * half : ℤ) : ℚ) * 2 ^ e) = half * 2 ^ (e + 1) := by
      rw [zpow_add₀ two_ne_zero, zpow_one]
      push_cast
      ring
    rw [hshift]
    exact roundDouble_of_lt hhalf (by omega)

theorem roundDouble_roundDouble (q : ℚ) : roundDouble (roundDouble q) = roundDouble q :=
  roundDouble_of_le (abs_nearestInt_le (abs_div_lastPlace_lt q)) (le_max_right _ _)

theorem roundDouble_intCast {z : ℤ} (h : |z| ≤ 2 ^ 53) : roundDouble z = z := by
  simpa using roundDouble_of_le h (by norm_num : (-1074 : ℤ) ≤ 0)

/-- What is rounded from `2 ^ 53` on is even. -/
theorem roundDouble_even {q : ℚ} (h : 2 ^ 53 ≤ |q|) : ∃ k : ℤ, roundDouble q = ((2 * k : ℤ) : ℚ) := by
  have hlog : 53 ≤ Int.log 2 |q| := by
    refine (Int.zpow_le_iff_le_log one_lt_two (lt_of_lt_of_le (by norm_num) h)).mp ?_
    exact_mod_cast h
  have hplace : 1 ≤ lastPlace q := le_max_of_le_left (by omega)
  obtain ⟨k, hk⟩ := Int.le.dest hplace
  refine ⟨nearestInt (q / 2 ^ lastPlace q) * 2 ^ k, ?_⟩
  rw [roundDouble]
  nth_rewrite 2 [← hk]
  rw [zpow_add₀ two_ne_zero, zpow_one, zpow_natCast]
  push_cast
  ring

theorem roundDouble_nonneg {q : ℚ} (h : 0 ≤ q) : 0 ≤ roundDouble q := by
  have hfloor : 0 ≤ ⌊q / 2 ^ lastPlace q⌋ := Int.floor_nonneg.mpr (by positivity)
  have hnearest : 0 ≤ nearestInt (q / 2 ^ lastPlace q) := by
    rw [nearestInt]
    split_ifs <;> omega
  exact mul_nonneg (by exact_mod_cast hnearest) (by positivity)

theorem abs_roundDouble_sub_le (q : ℚ) : |roundDouble q - q| ≤ 2 ^ lastPlace q / 2 := by
  have hpos : (0 : ℚ) < 2 ^ lastPlace q := by positivity
  have hsplit : roundDouble q - q =
      (nearestInt (q / 2 ^ lastPlace q) - q / 2 ^ lastPlace q) * 2 ^ lastPlace q := by
    rw [sub_mul, div_mul_cancel₀ _ hpos.ne', roundDouble]
  rw [hsplit, abs_mul, abs_of_pos hpos]
  calc _ ≤ 1 / 2 * 2 ^ lastPlace q :=
        mul_le_mul_of_nonneg_right (abs_nearestInt_sub_le _) hpos.le
    _ = 2 ^ lastPlace q / 2 := by ring

/-- A finite double. -/
structure FiniteDouble where
  value : ℚ
  isRounded : roundDouble value = value

namespace FiniteDouble

@[ext]
theorem ext {a b : FiniteDouble} (h : a.value = b.value) : a = b := by
  cases a
  cases b
  congr

def ofRat (q : ℚ) : FiniteDouble := ⟨roundDouble q, roundDouble_roundDouble q⟩

/-- The conversion of an integer. -/
def ofInt (z : ℤ) : FiniteDouble := ofRat z

def add (a b : FiniteDouble) : FiniteDouble := ofRat (a.value + b.value)

def sub (a b : FiniteDouble) : FiniteDouble := ofRat (a.value - b.value)

def mul (a b : FiniteDouble) : FiniteDouble := ofRat (a.value * b.value)

/-- `std::floor`. -/
def floor (a : FiniteDouble) : FiniteDouble := ofRat ⌊a.value⌋

/-- The conversion to a signed word of 64 bits cuts the fraction off; outside the
range of the word it is what `undefinedCast` says. -/
def toInt64 (undefinedCast : FiniteDouble → Int64) (a : FiniteDouble) : ℤ :=
  if -2 ^ 63 - 1 < a.value ∧ a.value < 2 ^ 63 then
    if 0 ≤ a.value then ⌊a.value⌋ else ⌈a.value⌉
  else (undefinedCast a).toInt

/-- The conversion to a signed word of 32 bits. -/
def toInt32 (undefinedCast : FiniteDouble → Int32) (a : FiniteDouble) : ℤ :=
  if -2 ^ 31 - 1 < a.value ∧ a.value < 2 ^ 31 then
    if 0 ≤ a.value then ⌊a.value⌋ else ⌈a.value⌉
  else (undefinedCast a).toInt

/-- A rounded number is itself a double. -/
theorem ofRat_value {q : ℚ} (h : roundDouble q = q) : (ofRat q).value = q := h

theorem ofInt_value {z : ℤ} (h : |z| ≤ 2 ^ 53) : (ofInt z).value = z := roundDouble_intCast h

/-- A double beyond `2 ^ 53` is an even integer. -/
theorem even_of_le {a : FiniteDouble} (h : 2 ^ 53 ≤ |a.value|) :
    ∃ k : ℤ, a.value = ((2 * k : ℤ) : ℚ) := by
  obtain ⟨k, hk⟩ := roundDouble_even h
  exact ⟨k, a.isRounded.symm.trans hk⟩

/-- An odd integer that is a double lies below `2 ^ 53`. -/
theorem abs_lt_of_odd {a : FiniteDouble} {z : ℤ} (hvalue : a.value = z) (hodd : z % 2 = 1) :
    |z| < 2 ^ 53 := by
  by_contra hle
  have habs : (2 : ℚ) ^ 53 ≤ |a.value| := by
    rw [hvalue]
    exact_mod_cast not_lt.mp hle
  obtain ⟨k, hk⟩ := even_of_le habs
  have heq : z = 2 * k := by exact_mod_cast hvalue.symm.trans hk
  omega

/-- The floor of a double is a double. -/
theorem floor_value (a : FiniteDouble) : a.floor.value = ⌊a.value⌋ := by
  obtain hle | hlt := le_or_gt (2 ^ 53) |a.value|
  · obtain ⟨k, hk⟩ := even_of_le hle
    have hround : roundDouble ((2 * k : ℤ) : ℚ) = ((2 * k : ℤ) : ℚ) := by
      rw [← hk]
      exact a.isRounded
    rw [floor, hk, Int.floor_intCast]
    exact hround
  · refine roundDouble_intCast ?_
    obtain ⟨hlow, hhigh⟩ := abs_lt.mp hlt
    have hfloor : ⌊a.value⌋ < 2 ^ 53 := Int.floor_lt.mpr (by exact_mod_cast hhigh)
    have hfloor' : -2 ^ 53 ≤ ⌊a.value⌋ := Int.le_floor.mpr (by exact_mod_cast hlow.le)
    exact abs_le.mpr ⟨hfloor', hfloor.le⟩

theorem toInt64_of_int {undefinedCast : FiniteDouble → Int64} {a : FiniteDouble} {z : ℤ}
    (hvalue : a.value = z) (hlow : -2 ^ 63 ≤ z) (hhigh : z < 2 ^ 63) :
    a.toInt64 undefinedCast = z := by
  have hrange : -2 ^ 63 - 1 < a.value ∧ a.value < 2 ^ 63 := by
    rw [hvalue]
    constructor
    · have : (-2 ^ 63 - 1 : ℤ) < z := by omega
      exact_mod_cast this
    · exact_mod_cast hhigh
  rw [toInt64, if_pos hrange, hvalue, Int.floor_intCast, Int.ceil_intCast, ite_self]

theorem toInt32_of_int {undefinedCast : FiniteDouble → Int32} {a : FiniteDouble} {z : ℤ}
    (hvalue : a.value = z) (hz : InSigned 32 z) : a.toInt32 undefinedCast = z := by
  have hrange : -2 ^ 31 - 1 < a.value ∧ a.value < 2 ^ 31 := by
    obtain ⟨hlow, hhigh⟩ := hz
    rw [hvalue]
    constructor
    · have : (-2 ^ 31 - 1 : ℤ) < z := by omega
      exact_mod_cast this
    · exact_mod_cast hhigh
  rw [toInt32, if_pos hrange, hvalue, Int.floor_intCast, Int.ceil_intCast, ite_self]

theorem toInt64_lt (undefinedCast : FiniteDouble → Int64) (a : FiniteDouble) :
    a.toInt64 undefinedCast < 2 ^ 63 := by
  rw [toInt64]
  split_ifs with hrange hpos
  · exact Int.floor_lt.mpr (by exact_mod_cast hrange.2)
  · exact lt_of_le_of_lt (Int.ceil_le.mpr (by push_cast; linarith : a.value ≤ (0 : ℤ))) (by norm_num)
  · exact (undefinedCast a).toInt_lt

/-- The sum of integers that stays within `2 ^ 53` is exact. -/
theorem add_ofInt_value {a : FiniteDouble} {x d : ℤ} (ha : a.value = x) (hd : |d| ≤ 2 ^ 53)
    (hsum : |x + d| ≤ 2 ^ 53) : (a.add (ofInt d)).value = ((x + d : ℤ) : ℚ) := by
  rw [add, ha, ofInt_value hd, ← Int.cast_add]
  exact roundDouble_intCast hsum

/-- Nothing is added exactly. -/
theorem add_ofInt_zero (a : FiniteDouble) : a.add (ofInt 0) = a := by
  apply ext
  have hzero : (ofInt 0).value = 0 := by
    rw [ofInt_value (by norm_num)]
    exact Int.cast_zero
  rw [add, hzero, add_zero]
  exact a.isRounded

end FiniteDouble

end BedrockProtocol
