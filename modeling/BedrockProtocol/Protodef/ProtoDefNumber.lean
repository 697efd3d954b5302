import BedrockProtocol.Lib.Words
import BedrockProtocol.Protodef.ProtoDefValue

/-!
# Values as numbers

The conversions of `ProtoDefEncoder.hpp` from a value to a machine integer.
They cast: an unsigned number becomes the signed one with the same bits, and a
double loses its fraction.  What a double outside the range of the integer type
becomes is left open by the language.
-/

namespace BedrockProtocol

/-- `std::stoll`: an optional sign and digits after white space; what follows is not read. -/
def stoll (text : Text) : Except String ℤ :=
  let text := text.dropWhile isSpace
  let unsigned := if text.head? = some 0x2d ∨ text.head? = some 0x2b then text.tail else text
  let digits := unsigned.takeWhile isDigit
  let z : ℤ := if text.head? = some 0x2d then -decimalValue digits else decimalValue digits
  if digits = [] ∨ ¬InSigned 64 z then .error "stoll" else .ok z

namespace ProtoDefValue

/-- The integer that the value is. -/
def wholeNumber : ProtoDefValue → Option ℤ
  | .int value => some value
  | .uint value => some value
  | .bool value => some (if value then 1 else 0)
  | .double bits => wholeDouble bits
  | _ => none

section Casts

variable (undefinedCast : UInt64 → UInt64)

def asInt : ProtoDefValue → Except String ℤ
  | .int value => .ok value
  | .uint value => .ok (toSigned 64 value)
  | .bool value => .ok (if value then 1 else 0)
  | .double bits =>
      match truncateDouble bits with
      | some z => if InSigned 64 z then .ok z else .ok (toSigned 64 (undefinedCast bits).toNat)
      | none => .ok (toSigned 64 (undefinedCast bits).toNat)
  | _ => .error "expected int-compatible value"

def asUInt : ProtoDefValue → Except String ℕ
  | .uint value => .ok value
  | .int value => .ok (toUnsigned 64 value)
  | .bool value => .ok (if value then 1 else 0)
  | .double bits =>
      match truncateDouble bits with
      | some z => if 0 ≤ z ∧ z < 2 ^ 64 then .ok z.toNat else .ok (undefinedCast bits).toNat
      | none => .ok (undefinedCast bits).toNat
  | _ => .error "expected uint-compatible value"

variable {undefinedCast}

theorem asUInt_lt {value : ProtoDefValue} (hrange : value.InRange) {n : ℕ}
    (h : asUInt undefinedCast value = .ok n) : n < 2 ^ 64 := by
  cases value with
  | uint value => exact Except.ok.inj h ▸ hrange
  | int value => exact Except.ok.inj h ▸ toUnsigned_lt 64 value
  | bool value =>
      obtain rfl := Except.ok.inj h
      cases value <;> decide
  | double bits =>
      have hcast := (undefinedCast bits).toNat_lt
      rw [asUInt] at h
      split at h
      · split at h
        · obtain rfl := Except.ok.inj h
          omega
        · exact Except.ok.inj h ▸ hcast
      · exact Except.ok.inj h ▸ hcast
  | null => cases h
  | string value => cases h
  | bytes value => cases h
  | object fields => cases h
  | array items => cases h

/-- An integer that the signed type holds is cast to itself. -/
theorem asInt_of_wholeNumber {value : ProtoDefValue} {z : ℤ} (h : value.wholeNumber = some z)
    (hz : InSigned 64 z) : asInt undefinedCast value = .ok z := by
  cases value with
  | int value => exact congrArg Except.ok (Option.some.inj h)
  | uint value =>
      obtain rfl := Option.some.inj h
      have hlt : value < 2 ^ (64 - 1) := by exact_mod_cast hz.2
      rw [asInt, toSigned, if_pos hlt]
  | bool value => exact congrArg Except.ok (Option.some.inj h)
  | double bits =>
      rw [asInt, truncateDouble_of_whole h]
      exact if_pos hz
  | null => cases h
  | string value => cases h
  | bytes value => cases h
  | object fields => cases h
  | array items => cases h

/-- An integer that the unsigned type holds is cast to itself. -/
theorem asUInt_of_wholeNumber {value : ProtoDefValue} {z : ℤ} (h : value.wholeNumber = some z)
    (hlow : 0 ≤ z) (hhigh : z < 2 ^ 64) : asUInt undefinedCast value = .ok z.toNat := by
  cases value with
  | int value =>
      obtain rfl := Option.some.inj h
      have hcast := toUnsigned_of_nonneg hlow hhigh
      rw [asUInt]
      exact congrArg Except.ok (by omega)
  | uint value =>
      obtain rfl := Option.some.inj h
      rw [asUInt, Int.toNat_natCast]
  | bool value =>
      obtain rfl := Option.some.inj h
      cases value <;> rfl
  | double bits =>
      rw [asUInt, truncateDouble_of_whole h]
      exact if_pos ⟨hlow, hhigh⟩
  | null => cases h
  | string value => cases h
  | bytes value => cases h
  | object fields => cases h
  | array items => cases h

end Casts

end ProtoDefValue

end BedrockProtocol
