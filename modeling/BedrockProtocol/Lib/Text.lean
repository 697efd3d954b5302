import BedrockProtocol.Lib.Reader

/-!
# Byte strings

The strings of the code are byte sequences.  Decimal numerals and the character
classes of the C locale.
-/

namespace BedrockProtocol

abbrev Text := List UInt8

instance : LawfulBEq Text := inferInstance

/-- The bytes of a literal. -/
def txt (s : String) : Text := s.toByteArray.data.toList

/-- What a literal has in every byte is checked byte by byte. -/
theorem forall_mem_of_all {text : Text} {P : UInt8 → Prop} [DecidablePred P]
    (h : text.all fun c ↦ decide (P c)) : ∀ c ∈ text, P c :=
  fun c hc ↦ of_decide_eq_true (List.all_eq_true.mp h c hc)

/-- A byte string inside a message, one character a byte. -/
def shown (text : Text) : String := String.ofList (text.map fun c ↦ Char.ofNat c.toNat)

/-- `std::isspace` in the C locale. -/
def isSpace (c : UInt8) : Bool := c = 0x20 ∨ (0x09 ≤ c ∧ c ≤ 0x0d)

/-- `std::isdigit` in the C locale. -/
def isDigit (c : UInt8) : Bool := 0x30 ≤ c ∧ c ≤ 0x39

/-- The number that a string of digits denotes. -/
def decimalValue (digits : Text) : ℕ :=
  digits.foldl (fun n c ↦ 10 * n + (c.toNat - 0x30)) 0

/-- `std::to_string` of an unsigned number. -/
def decimal (n : ℕ) : Text := (Nat.toDigits 10 n).map fun c ↦ UInt8.ofNat c.toNat

/-- `std::to_string` of a signed number. -/
def decimalInt (z : ℤ) : Text :=
  if z < 0 then 0x2d :: decimal z.natAbs else decimal z.natAbs

/-- Decimal digits, so between `0` and `9`. -/
theorem decimal_digits {n : ℕ} {c : UInt8} (hc : c ∈ decimal n) : 0x30 ≤ c.toNat ∧ c.toNat ≤ 0x39 := by
  obtain ⟨d, hd, rfl⟩ := List.mem_map.mp hc
  have hdigit := Char.isDigit_iff_toNat.mp (Nat.isDigit_of_mem_toDigits (by decide) le_rfl hd)
  have hlow : '0'.toNat = 0x30 := rfl
  have hhigh : '9'.toNat = 0x39 := rfl
  rw [UInt8.toNat_ofNat']
  omega

theorem isDigit_of_mem_decimal {n : ℕ} {c : UInt8} (hc : c ∈ decimal n) : isDigit c = true := by
  obtain ⟨hlow, hhigh⟩ := decimal_digits hc
  exact decide_eq_true ⟨UInt8.le_iff_toNat_le.mpr hlow, UInt8.le_iff_toNat_le.mpr hhigh⟩

theorem decimal_ne_nil (n : ℕ) : decimal n ≠ [] := by
  rw [decimal, ne_eq, List.map_eq_nil_iff]
  exact Nat.toDigits_ne_nil

/-- A numeral denotes the number it was made from. -/
theorem decimalValue_decimal (n : ℕ) : decimalValue (decimal n) = n := by
  have hfold : ∀ (digits : List Char) (start : ℕ), (∀ c ∈ digits, c.isDigit) →
      (digits.map fun c ↦ UInt8.ofNat c.toNat).foldl (fun n c ↦ 10 * n + (c.toNat - 0x30)) start =
        Nat.ofDigitChars 10 digits start := by
    intro digits
    induction digits with
    | nil =>
        intro start _
        rfl
    | cons c digits ih =>
        intro start hdigits
        have hc := Char.isDigit_iff_toNat.mp (hdigits c (by simp))
        have hhigh : '9'.toNat = 0x39 := rfl
        rw [List.map_cons, List.foldl_cons, ih _ fun d hd ↦ hdigits d (by simp [hd]),
          Nat.ofDigitChars_cons, UInt8.toNat_ofNat', Nat.mod_eq_of_lt (by omega)]
        rfl
  exact (hfold _ 0 fun c hc ↦ Nat.isDigit_of_mem_toDigits (by decide) le_rfl hc).trans
    (Nat.ofDigitChars_ten_toDigits)

/-- The numeral of a number denotes no other one. -/
theorem decimal_injective : Function.Injective decimal :=
  Function.LeftInverse.injective decimalValue_decimal

@[simp] theorem decimalInt_natCast (n : ℕ) : decimalInt n = decimal n := by
  rw [decimalInt, if_neg (by omega), Int.natAbs_natCast]

theorem decimalInt_injective : Function.Injective decimalInt := by
  have hsign {m n : ℕ} : decimal m ≠ 0x2d :: decimal n := by
    intro heq
    have hminus := decimal_digits (heq ▸ List.mem_cons_self : (0x2d : UInt8) ∈ decimal m)
    revert hminus
    decide
  intro a b heq
  unfold decimalInt at heq
  by_cases ha : a < 0
  · by_cases hb : b < 0
    · rw [if_pos ha, if_pos hb] at heq
      have habs := decimal_injective (List.cons.inj heq).2
      omega
    · rw [if_pos ha, if_neg hb] at heq
      exact (hsign heq.symm).elim
  · by_cases hb : b < 0
    · rw [if_neg ha, if_pos hb] at heq
      exact (hsign heq).elim
    · rw [if_neg ha, if_neg hb] at heq
      have habs := decimal_injective heq
      omega

/-- A numeral has no comma. -/
theorem comma_not_mem_decimalInt (a : ℤ) : (0x2c : UInt8) ∉ decimalInt a := by
  have hdigits {n : ℕ} : (0x2c : UInt8) ∉ decimal n := by
    intro hmem
    have hcomma := decimal_digits hmem
    revert hcomma
    decide
  unfold decimalInt
  split
  · intro hmem
    rcases List.mem_cons.mp hmem with heq | hmem
    · revert heq
      decide
    · exact hdigits hmem
  · exact hdigits

end BedrockProtocol
