import Mathlib.Algebra.Group.Nat.Defs
import Mathlib.Data.Nat.Bits
import Mathlib.Data.Nat.Log

/-!
# Conversions between binary32 and binary64

Floating-point numbers as bit patterns.  Widening is exact; narrowing rounds to
nearest, ties to even, and overflows to infinity.  A NaN keeps the leading bits
of its payload and becomes quiet.  Integers and decimal fractions convert to the
nearest double.
-/

namespace BedrockProtocol

/-- The double equal to a float. -/
def widen (bits : UInt32) : UInt64 :=
  let sign := bits.toNat / 2 ^ 31
  let exponent := bits.toNat / 2 ^ 23 % 2 ^ 8
  let mantissa := bits.toNat % 2 ^ 23
  let magnitude :=
    if exponent = 255 then
      2047 * 2 ^ 52 + (if mantissa = 0 then 0 else (mantissa ||| 2 ^ 22) * 2 ^ 29)
    else if exponent = 0 then
      -- A subnormal float is a normal double.
      if mantissa = 0 then 0
      else (874 + Nat.log2 mantissa) * 2 ^ 52 +
        (mantissa - 2 ^ Nat.log2 mantissa) * 2 ^ (52 - Nat.log2 mantissa)
    else (exponent + 896) * 2 ^ 52 + mantissa * 2 ^ 29
  UInt64.ofNat (sign * 2 ^ 63 + magnitude)

/-- `n / 2 ^ shift`, rounded to nearest, ties to even. -/
def roundShift (n shift : ℕ) : ℕ :=
  let quotient := n / 2 ^ shift
  let remainder := n % 2 ^ shift
  if 2 ^ shift < 2 * remainder ∨ (2 ^ shift = 2 * remainder ∧ quotient % 2 = 1) then quotient + 1
  else quotient

/-- The float nearest to a double. -/
def narrow (bits : UInt64) : UInt32 :=
  let sign := bits.toNat / 2 ^ 63
  let exponent := bits.toNat / 2 ^ 52 % 2 ^ 11
  let mantissa := bits.toNat % 2 ^ 52
  let magnitude :=
    if exponent = 2047 then
      255 * 2 ^ 23 + (if mantissa = 0 then 0 else (mantissa / 2 ^ 29) ||| 2 ^ 22)
    else if 1150 < exponent then 255 * 2 ^ 23
    else if 896 < exponent then
      -- A carry out of the mantissa moves on to the exponent, up to infinity.
      roundShift ((exponent - 896) * 2 ^ 52 + mantissa) 29
    else if exponent = 0 then 0
    else roundShift (2 ^ 52 + mantissa) (926 - exponent)
  UInt32.ofNat (sign * 2 ^ 31 + magnitude)

/-- The double survives the cast to float and back. -/
def Representable (bits : UInt64) : Prop := widen (narrow bits) = bits

instance (bits : UInt64) : Decidable (Representable bits) :=
  inferInstanceAs (Decidable (_ = _))

/-- A NaN whose leading payload bit is clear. -/
def isSignalling (bits : UInt32) : Bool :=
  bits.toNat / 2 ^ 23 % 2 ^ 8 = 255 ∧ bits.toNat % 2 ^ 23 ≠ 0 ∧ bits.toNat % 2 ^ 23 < 2 ^ 22

theorem roundShift_mul (n shift : ℕ) : roundShift (n * 2 ^ shift) shift = n := by
  have hpos := Nat.two_pow_pos shift
  simp only [roundShift, Nat.mul_mod_left, Nat.mul_div_cancel n hpos]
  rw [if_neg (by omega)]

/-- The leading bit of the payload of a NaN. -/
theorem or_quietBit {mantissa : ℕ} (h : mantissa < 2 ^ 23) :
    mantissa ||| 2 ^ 22 = if mantissa < 2 ^ 22 then mantissa + 2 ^ 22 else mantissa := by
  have hsum {rest : ℕ} (hrest : rest < 2 ^ 22) : rest ||| 2 ^ 22 = rest + 2 ^ 22 := by
    have hor := Nat.two_pow_add_eq_or_of_lt hrest 1
    rw [Nat.mul_one] at hor
    rw [Nat.or_comm, ← hor, Nat.add_comm]
  by_cases hlow : mantissa < 2 ^ 22
  · rw [if_pos hlow, hsum hlow]
  · obtain ⟨rest, rfl⟩ : ∃ rest, mantissa = rest + 2 ^ 22 := ⟨mantissa - 2 ^ 22, by omega⟩
    rw [if_neg hlow, ← hsum (by omega), Nat.or_assoc, Nat.or_self]

/-- The fields of a double, one after the other. -/
theorem narrow_ofNat {sign exponent mantissa : ℕ} (hsign : sign < 2) (hexponent : exponent < 2 ^ 11)
    (hmantissa : mantissa < 2 ^ 52) :
    narrow (UInt64.ofNat (sign * 2 ^ 63 + (exponent * 2 ^ 52 + mantissa))) =
      UInt32.ofNat (sign * 2 ^ 31 +
        if exponent = 2047 then
          255 * 2 ^ 23 + (if mantissa = 0 then 0 else (mantissa / 2 ^ 29) ||| 2 ^ 22)
        else if 1150 < exponent then 255 * 2 ^ 23
        else if 896 < exponent then roundShift ((exponent - 896) * 2 ^ 52 + mantissa) 29
        else if exponent = 0 then 0
        else roundShift (2 ^ 52 + mantissa) (926 - exponent)) := by
  obtain ⟨bits, hbits⟩ : ∃ bits,
      bits = UInt64.ofNat (sign * 2 ^ 63 + (exponent * 2 ^ 52 + mantissa)) := ⟨_, rfl⟩
  have hnat : bits.toNat = sign * 2 ^ 63 + (exponent * 2 ^ 52 + mantissa) := by
    rw [hbits, UInt64.toNat_ofNat']
    omega
  have hsign' : bits.toNat / 2 ^ 63 = sign := by omega
  have hexponent' : bits.toNat / 2 ^ 52 % 2 ^ 11 = exponent := by omega
  have hmantissa' : bits.toNat % 2 ^ 52 = mantissa := by omega
  rw [← hbits]
  simp only [narrow, hsign', hexponent', hmantissa']

/-- The way of a float to a double and back, by its fields. -/
theorem narrow_widen_fields {bits : UInt32} {sign exponent mantissa : ℕ} (hsign : sign < 2)
    (hexponent : exponent < 2 ^ 8) (hmantissa : mantissa < 2 ^ 23)
    (hbits : bits.toNat = sign * 2 ^ 31 + (exponent * 2 ^ 23 + mantissa)) :
    narrow (widen bits) = UInt32.ofNat (sign * 2 ^ 31 + (exponent * 2 ^ 23 +
      if exponent = 255 ∧ mantissa ≠ 0 then mantissa ||| 2 ^ 22 else mantissa)) := by
  have hsign' : bits.toNat / 2 ^ 31 = sign := by omega
  have hexponent' : bits.toNat / 2 ^ 23 % 2 ^ 8 = exponent := by omega
  have hmantissa' : bits.toNat % 2 ^ 23 = mantissa := by omega
  simp only [widen, hsign', hexponent', hmantissa']
  by_cases hlast : exponent = 255
  · subst hlast
    by_cases hzero : mantissa = 0
    · subst hzero
      rw [if_pos rfl, if_pos rfl, narrow_ofNat hsign (by omega) (by omega)]
      simp
    · have hor : mantissa ||| 2 ^ 22 < 2 ^ 23 := Nat.or_lt_two_pow hmantissa (by omega)
      have hnot : (mantissa ||| 2 ^ 22) * 2 ^ 29 ≠ 0 := by
        have hle : mantissa ≤ mantissa ||| 2 ^ 22 := Nat.left_le_or
        omega
      rw [if_pos rfl, if_neg hzero, narrow_ofNat hsign (by omega) (by omega), if_pos rfl,
        if_neg hnot, Nat.mul_div_cancel _ (Nat.two_pow_pos 29), Nat.or_assoc, Nat.or_self,
        if_pos ⟨rfl, hzero⟩]
  have hkept : (if exponent = 255 ∧ mantissa ≠ 0 then mantissa ||| 2 ^ 22 else mantissa) =
      mantissa := if_neg fun h ↦ hlast h.1
  rw [hkept, if_neg hlast]
  by_cases hsub : exponent = 0
  · subst hsub
    by_cases hzero : mantissa = 0
    · subst hzero
      rw [if_pos rfl, if_pos rfl]
      have h := @narrow_ofNat sign 0 0 hsign (by omega) (by omega)
      rw [Nat.zero_mul] at h
      rw [h]
      rfl
    · obtain ⟨l, hl⟩ : ∃ l, l = Nat.log2 mantissa := ⟨_, rfl⟩
      have hlow : 2 ^ l ≤ mantissa := hl ▸ Nat.log2_self_le hzero
      have hhigh : mantissa < 2 ^ (l + 1) := hl ▸ Nat.lt_log2_self
      have hl22 : l < 23 := (Nat.pow_lt_pow_iff_right Nat.one_lt_two).mp (by omega)
      have hmul : 2 ^ l * 2 ^ (52 - l) = 2 ^ 52 := by
        rw [← Nat.pow_add]
        congr 1
        omega
      have hrest : (mantissa - 2 ^ l) * 2 ^ (52 - l) < 2 ^ 52 := by
        rw [← hmul]
        exact Nat.mul_lt_mul_of_pos_right (by rw [Nat.pow_succ] at hhigh; omega)
          (Nat.two_pow_pos _)
      have hwhole : 2 ^ 52 + (mantissa - 2 ^ l) * 2 ^ (52 - l) = mantissa * 2 ^ (52 - l) := by
        rw [← hmul, ← Nat.add_mul]
        congr 1
        omega
      have hshift : 926 - (874 + l) = 52 - l := by omega
      rw [if_pos rfl, if_neg hzero, ← hl, narrow_ofNat hsign (by omega) hrest,
        if_neg (by omega), if_neg (by omega), if_neg (by omega), if_neg (by omega), hwhole, hshift,
        roundShift_mul, Nat.zero_mul, Nat.zero_add]
  · have hround : (exponent + 896 - 896) * 2 ^ 52 + mantissa * 2 ^ 29 =
        (exponent * 2 ^ 23 + mantissa) * 2 ^ 29 := by omega
    rw [if_neg hsub, narrow_ofNat hsign (by omega) (by omega), if_neg (by omega),
      if_neg (by omega), if_pos (by omega), hround, roundShift_mul]

/-- A float survives the cast to double and back unless it is a signalling NaN. -/
theorem narrow_widen_iff (bits : UInt32) :
    narrow (widen bits) = bits ↔ isSignalling bits = false := by
  have hlt := bits.toNat_lt
  obtain ⟨sign, hsign⟩ : ∃ sign, sign = bits.toNat / 2 ^ 31 := ⟨_, rfl⟩
  obtain ⟨exponent, hexponent⟩ : ∃ exponent, exponent = bits.toNat / 2 ^ 23 % 2 ^ 8 := ⟨_, rfl⟩
  obtain ⟨mantissa, hmantissa⟩ : ∃ mantissa, mantissa = bits.toNat % 2 ^ 23 := ⟨_, rfl⟩
  have hbits : bits.toNat = sign * 2 ^ 31 + (exponent * 2 ^ 23 + mantissa) := by omega
  have hback := narrow_widen_fields (by omega) (by omega) (by omega) hbits
  rw [hback, ← UInt32.toNat_inj, isSignalling, ← hexponent, ← hmantissa, UInt32.toNat_ofNat',
    decide_eq_false_iff_not]
  rw [or_quietBit (by omega)]
  split_ifs <;> omega

/-- A NaN that was made quiet stays as it is. -/
theorem widen_quiet {bits quiet : UInt32} {sign mantissa : ℕ}
    (hmantissa : mantissa < 2 ^ 23) (hzero : mantissa ≠ 0)
    (hbits : bits.toNat = sign * 2 ^ 31 + (255 * 2 ^ 23 + mantissa))
    (hquiet : quiet.toNat = sign * 2 ^ 31 + (255 * 2 ^ 23 + (mantissa ||| 2 ^ 22))) :
    widen quiet = widen bits := by
  have hor : mantissa ||| 2 ^ 22 < 2 ^ 23 := Nat.or_lt_two_pow hmantissa (by omega)
  have hnot : mantissa ||| 2 ^ 22 ≠ 0 := by
    have hle : mantissa ≤ mantissa ||| 2 ^ 22 := Nat.left_le_or
    omega
  have hsign₁ : bits.toNat / 2 ^ 31 = sign := by omega
  have hsign₂ : quiet.toNat / 2 ^ 31 = sign := by omega
  have hexponent₁ : bits.toNat / 2 ^ 23 % 2 ^ 8 = 255 := by omega
  have hexponent₂ : quiet.toNat / 2 ^ 23 % 2 ^ 8 = 255 := by omega
  have hmantissa₁ : bits.toNat % 2 ^ 23 = mantissa := by omega
  have hmantissa₂ : quiet.toNat % 2 ^ 23 = mantissa ||| 2 ^ 22 := by omega
  simp only [widen, hsign₁, hsign₂, hexponent₁, hexponent₂, hmantissa₁, hmantissa₂]
  rw [if_pos trivial, if_pos trivial, if_neg hnot, if_neg hzero, Nat.or_assoc, Nat.or_self]

/-- Every double that a float was widened to survives the cast. -/
theorem representable_widen (bits : UInt32) : Representable (widen bits) := by
  have hlt := bits.toNat_lt
  obtain ⟨sign, hsign⟩ : ∃ sign, sign = bits.toNat / 2 ^ 31 := ⟨_, rfl⟩
  obtain ⟨exponent, hexponent⟩ : ∃ exponent, exponent = bits.toNat / 2 ^ 23 % 2 ^ 8 := ⟨_, rfl⟩
  obtain ⟨mantissa, hmantissa⟩ : ∃ mantissa, mantissa = bits.toNat % 2 ^ 23 := ⟨_, rfl⟩
  have hbits : bits.toNat = sign * 2 ^ 31 + (exponent * 2 ^ 23 + mantissa) := by omega
  have hback := narrow_widen_fields (by omega) (by omega) (by omega) hbits
  by_cases hnan : exponent = 255 ∧ mantissa ≠ 0
  · obtain ⟨rfl, hzero⟩ := hnan
    have hor : mantissa ||| 2 ^ 22 < 2 ^ 23 := Nat.or_lt_two_pow (by omega) (by omega)
    rw [if_pos ⟨rfl, hzero⟩] at hback
    refine widen_quiet (by omega) hzero hbits ?_
    rw [hback, UInt32.toNat_ofNat']
    omega
  · rw [if_neg hnan, ← hbits, UInt32.ofNat_toNat] at hback
    rw [Representable, hback]

/-- `numerator / denominator`, rounded to nearest, ties to even. -/
def roundDiv (numerator denominator : ℕ) : ℕ :=
  let quotient := numerator / denominator
  let remainder := numerator % denominator
  if denominator < 2 * remainder ∨ (denominator = 2 * remainder ∧ quotient % 2 = 1) then
    quotient + 1
  else quotient

/-- The bits of the double nearest to a positive fraction. -/
def fractionBits (numerator denominator : ℕ) : ℕ :=
  if numerator = 0 then 0
  else
    let estimate : ℤ := (Nat.log2 numerator : ℤ) - Nat.log2 denominator
    -- The estimate of the exponent is exact or one too large.
    let exponent := if numerator * 2 ^ (-estimate).toNat < denominator * 2 ^ estimate.toNat
      then estimate - 1 else estimate
    if 1024 ≤ exponent then 2047 * 2 ^ 52
    else if exponent < -1022 then roundDiv (numerator * 2 ^ 1074) denominator
    else (exponent + 1022).toNat * 2 ^ 52 +
      roundDiv (numerator * 2 ^ (52 - exponent).toNat) (denominator * 2 ^ (exponent - 52).toNat)

def signBits (negative : Bool) : ℕ := if negative then 2 ^ 63 else 0

/-- The double nearest to an integer. -/
def doubleOfInt (value : ℤ) : UInt64 :=
  UInt64.ofNat (signBits (value < 0) + fractionBits value.natAbs 1)

def isNaN (bits : UInt64) : Bool := 2047 * 2 ^ 52 < bits.toNat % 2 ^ 63

def isFinite (bits : UInt64) : Bool := bits.toNat / 2 ^ 52 % 2 ^ 11 ≠ 2047

/-- A finite double without its sign, as a fraction. -/
def magnitudeFraction (bits : UInt64) : ℕ × ℕ :=
  let exponent := bits.toNat / 2 ^ 52 % 2 ^ 11
  let mantissa := bits.toNat % 2 ^ 52
  if exponent = 0 then (mantissa, 2 ^ 1074)
  else ((2 ^ 52 + mantissa) * 2 ^ (exponent - 1075), 2 ^ (1075 - exponent))

def withSign (bits : UInt64) (magnitude : ℕ) : ℤ :=
  if 2 ^ 63 ≤ bits.toNat then -(magnitude : ℤ) else magnitude

/-- The whole part of a finite double. -/
def truncateDouble (bits : UInt64) : Option ℤ :=
  let (numerator, denominator) := magnitudeFraction bits
  if isFinite bits then some (withSign bits (numerator / denominator)) else none

/-- The integer that a double is. -/
def wholeDouble (bits : UInt64) : Option ℤ :=
  let (numerator, denominator) := magnitudeFraction bits
  if numerator % denominator = 0 then truncateDouble bits else none

theorem truncateDouble_of_whole {bits : UInt64} {z : ℤ} (h : wholeDouble bits = some z) :
    truncateDouble bits = some z := by
  rw [wholeDouble] at h
  dsimp only at h
  split at h
  · exact h
  · cases h

/-- The place of a double that is not a NaN in the order; both zeros are `0`. -/
def doubleRank (bits : UInt64) : ℤ :=
  if 2 ^ 63 ≤ bits.toNat then -(bits.toNat % 2 ^ 63 : ℕ) else (bits.toNat : ℤ)

def doubleLt (a b : UInt64) : Bool := !isNaN a && !isNaN b && doubleRank a < doubleRank b

def doubleLe (a b : UInt64) : Bool := !isNaN a && !isNaN b && doubleRank a ≤ doubleRank b

/-- `==` of doubles. -/
def doubleEq (a b : UInt64) : Bool := !isNaN a && !isNaN b && doubleRank a = doubleRank b

end BedrockProtocol
