import BedrockProtocol.Protodef.ProtoDefJson

/-!
# The JSON parser inverts the printer

Every part of the parser reads what the printer writes for it.  A number ends
where the text goes on with something else, so these are statements about the
text in front of a suffix; the induction over the value supplies the suffixes.
The bound of the parser on nested levels is met because a text is longer than
the texts inside it.
-/

namespace BedrockProtocol

namespace ProtoDefValue

/-- Neither a double nor an object that reads as a byte string. -/
def Printable : ProtoDefValue → Prop
  | .double _ => False
  | .object fields => fields.map Prod.fst ≠ [txt "$bytes"]
  | _ => True

mutual

/-- The value with its non-negative `Int`s as `UInt`s. -/
def unsigned : ProtoDefValue → ProtoDefValue
  | .null => .null
  | .bool value => .bool value
  | .int value => if value < 0 then .int value else .uint value.toNat
  | .uint value => .uint value
  | .double bits => .double bits
  | .string value => .string value
  | .bytes value => .bytes value
  | .object fields => .object (unsignedFields fields)
  | .array items => .array (unsignedItems items)

def unsignedItems : List ProtoDefValue → List ProtoDefValue
  | [] => []
  | item :: items => unsigned item :: unsignedItems items

def unsignedFields : List (Text × ProtoDefValue) → List (Text × ProtoDefValue)
  | [] => []
  | (key, child) :: fields => (key, unsigned child) :: unsignedFields fields

end

theorem unsignedFields_keys (fields : List (Text × ProtoDefValue)) :
    (unsignedFields fields).map Prod.fst = fields.map Prod.fst := by
  induction fields with
  | nil => rfl
  | cons field fields ih =>
      obtain ⟨key, child⟩ := field
      rw [unsignedFields, List.map_cons, List.map_cons, ih]

mutual

theorem unsigned_unsigned : ∀ value : ProtoDefValue, value.unsigned.unsigned = value.unsigned
  | .null | .bool _ | .uint _ | .double _ | .string _ | .bytes _ => rfl
  | .int value => by
      by_cases hsign : value < 0
      · rw [unsigned, if_pos hsign, unsigned, if_pos hsign]
      · rw [unsigned, if_neg hsign, unsigned]
  | .object fields => by rw [unsigned, unsigned, unsignedFields_unsignedFields fields]
  | .array items => by rw [unsigned, unsigned, unsignedItems_unsignedItems items]

theorem unsignedItems_unsignedItems : ∀ items : List ProtoDefValue,
    unsignedItems (unsignedItems items) = unsignedItems items
  | [] => rfl
  | item :: items => by
      rw [unsignedItems, unsignedItems, unsigned_unsigned item,
        unsignedItems_unsignedItems items]

theorem unsignedFields_unsignedFields : ∀ fields : List (Text × ProtoDefValue),
    unsignedFields (unsignedFields fields) = unsignedFields fields
  | [] => rfl
  | (key, child) :: fields => by
      rw [unsignedFields, unsignedFields, unsigned_unsigned child,
        unsignedFields_unsignedFields fields]

end

/-- Assigning a new key appends it. -/
theorem assign_of_not_mem {key : Text} {value : ProtoDefValue}
    {fields : List (Text × ProtoDefValue)} (hkey : key ∉ fields.map Prod.fst) :
    assign key value fields = fields ++ [(key, value)] := by
  induction fields with
  | nil => rfl
  | cons field fields ih =>
      obtain ⟨k, v⟩ := field
      rw [List.map_cons, List.mem_cons, not_or] at hkey
      rw [assign, if_neg (Ne.symm hkey.1), ih hkey.2, List.cons_append]

end ProtoDefValue

namespace ProtoDefJson

/-! ## Spaces and literals -/

/-- The next byte, if there is one, satisfies `p`. -/
def Head (p : UInt8 → Prop) (suffix : List UInt8) : Prop := ∀ c ∈ suffix.head?, p c

theorem Head.cons {p : UInt8 → Prop} {c : UInt8} {suffix : List UInt8} (h : p c) :
    Head p (c :: suffix) := by
  intro c' hc'
  rw [List.head?_cons, Option.mem_some_iff] at hc'
  exact hc' ▸ h

theorem reads_takeWhile {p : UInt8 → Bool} {taken : Text} (htaken : ∀ c ∈ taken, p c = true) :
    ReadsBefore (Head fun c ↦ p c = false) (takeWhile p) taken taken := by
  intro offset suffix hsuffix
  have hstop : suffix.takeWhile p = [] ∧ suffix.dropWhile p = suffix := by
    cases suffix with
    | nil => exact ⟨rfl, rfl⟩
    | cons c suffix =>
        have hc : p c = false := hsuffix c rfl
        exact ⟨by simp [hc], by simp [hc]⟩
  have htake : (taken ++ suffix).takeWhile p = taken := by
    rw [List.takeWhile_append_of_pos htaken, hstop.1, List.append_nil]
  have hdrop : (taken ++ suffix).dropWhile p = suffix := by
    rw [List.dropWhile_append_of_pos htaken, hstop.2]
  rw [takeWhile, htake, hdrop]

theorem reads_skipWhitespace : ReadsBefore (Head fun c ↦ isSpace c = false) skipWhitespace [] () :=
  (reads_takeWhile (by simp)).bind_last (Reads.pure ()).before

theorem reads_advance (c : UInt8) : Reads advance [c] () :=
  (Reads.byte c).bind_last (Reads.pure ())

theorem peek_run {β : Type} (k : Option UInt8 → Reader β) (c : Cursor) :
    (peek >>= k) c = k c.rest.head? c := rfl

/-- The next byte is known. -/
theorem reads_peek {β : Type} {P : List UInt8 → Prop} {k : Option UInt8 → Reader β} {b : β}
    {c : UInt8} {text : Text} (hk : ReadsBefore P (k (some c)) (c :: text) b) :
    ReadsBefore P (peek >>= k) (c :: text) b := fun offset suffix hP ↦ hk offset suffix hP

/-- What a number may be followed by. -/
def Delimited (c : UInt8) : Prop := isDigit c = false ∧ c ≠ 0x2e ∧ c ≠ 0x65 ∧ c ≠ 0x45

instance (c : UInt8) : Decidable (Delimited c) := inferInstanceAs (Decidable (_ ∧ _))

/-! ## Numbers -/

theorem reads_readFraction : ReadsBefore (Head fun c ↦ c ≠ 0x2e) readFraction [] none := by
  intro offset suffix hsuffix
  have hpeek : suffix.head? ≠ some 0x2e := fun h ↦ hsuffix 0x2e h rfl
  rw [List.nil_append, readFraction, peek_run, if_neg hpeek]
  rfl

theorem reads_readExponent :
    ReadsBefore (Head fun c ↦ c ≠ 0x65 ∧ c ≠ 0x45) readExponent [] none := by
  intro offset suffix hsuffix
  have hpeek : ¬(suffix.head? = some 0x65 ∨ suffix.head? = some 0x45) := by
    rintro (h | h)
    · exact (hsuffix 0x65 h).1 rfl
    · exact (hsuffix 0x45 h).2 rfl
  rw [List.nil_append, readExponent, peek_run, if_neg hpeek]
  rfl

/-- The digits of a whole number, up to what delimits it. -/
theorem reads_wholeParts {digits : Text} (hdigits : ∀ c ∈ digits, isDigit c = true)
    (negative : Bool) :
    ReadsBefore (Head Delimited)
      (do
        let digits ← takeWhile isDigit
        let fraction ← readFraction
        let exponent ← readExponent
        pure (⟨negative, digits, fraction, exponent⟩ : NumberParts))
      digits ⟨negative, digits, none, none⟩ := by
  have hafter (suffix : List UInt8) (h : Head Delimited suffix) :
      Head (fun c ↦ isDigit c = false) suffix := fun c hc ↦ (h c hc).1
  have hend : ReadsBefore (Head Delimited)
      (do
        let fraction ← readFraction
        let exponent ← readExponent
        pure (⟨negative, digits, fraction, exponent⟩ : NumberParts))
      [] ⟨negative, digits, none, none⟩ := by
    refine reads_readFraction.bind_nil ?_ fun suffix h c hc ↦ (h c hc).2.1
    exact reads_readExponent.bind_nil (Reads.pure _).before fun suffix h c hc ↦ (h c hc).2.2
  exact ((reads_takeWhile hdigits).mono hafter).bind_last hend

theorem reads_readNumberParts_minus {digits : Text} (hdigits : ∀ c ∈ digits, isDigit c = true) :
    ReadsBefore (Head Delimited) readNumberParts (0x2d :: digits) ⟨true, digits, none, none⟩ := by
  refine reads_peek ?_
  exact (Reads.before (P := fun _ ↦ True) (reads_advance 0x2d)).bind
    (reads_wholeParts hdigits true) fun _ _ ↦ trivial

theorem reads_readNumberParts {digits : Text} (hdigits : ∀ c ∈ digits, isDigit c = true)
    (hne : digits ≠ []) :
    ReadsBefore (Head Delimited) readNumberParts digits ⟨false, digits, none, none⟩ := by
  obtain ⟨c, rest, rfl⟩ := List.exists_cons_of_ne_nil hne
  have hminus : c ≠ 0x2d := by
    rintro rfl
    exact absurd (hdigits 0x2d List.mem_cons_self) (by decide)
  refine reads_peek ?_
  have hsign : ¬some c = some (0x2d : UInt8) := fun h ↦ hminus (Option.some.inj h)
  dsimp only
  rw [if_neg hsign, decide_eq_false hsign]
  exact reads_wholeParts hdigits false

theorem reads_parseNumber_uint {value : ℕ} (hvalue : value < 2 ^ 64) :
    ReadsBefore (Head Delimited) parseNumber (decimal value) (.uint value) := by
  refine (reads_readNumberParts (fun c hc ↦ isDigit_of_mem_decimal hc)
    (decimal_ne_nil value)).bind_last (Reads.lift ?_).before
  rw [integerValue, if_neg Bool.false_ne_true, decimalValue_decimal, if_neg (by omega)]

theorem reads_parseNumber_int {value : ℤ} (hlow : -2 ^ 63 ≤ value) (hneg : value < 0) :
    ReadsBefore (Head Delimited) parseNumber (decimalInt value) (.int value) := by
  rw [decimalInt, if_pos hneg]
  refine (reads_readNumberParts_minus fun c hc ↦ isDigit_of_mem_decimal hc).bind_last
    (Reads.lift ?_).before
  rw [integerValue, if_pos rfl, decimalValue_decimal, if_neg, Int.natCast_natAbs,
    abs_of_neg hneg, neg_neg]
  rintro (hnil | hbig)
  · exact decimal_ne_nil _ hnil
  · omega

/-! ## Strings -/

theorem hexDigit_digits : ∀ n < 16, hexDigit ((txt "0123456789abcdef").getD n 0) = some n := by
  decide

/-- The digits of a byte read back as its halves. -/
theorem hexDigit_hexByte (b : UInt8) :
    (hexByte b).mapM hexDigit = some [b.toNat / 16, b.toNat % 16] := by
  have hb := b.toNat_lt
  rw [hexByte, List.mapM_cons, hexDigit_digits _ (by omega), List.mapM_cons,
    hexDigit_digits _ (by omega)]
  rfl

theorem join_digits : ∀ high < 16, ∀ low < 16, (high <<< 4) ||| low = 16 * high + low := by
  decide

theorem reads_parseHexCodeUnit (c : UInt8) :
    Reads parseHexCodeUnit (txt "00" ++ hexByte c) c.toNat := by
  have hdigits : (txt "00" ++ hexByte c).mapM hexDigit =
      some [0, 0, c.toNat / 16, c.toNat % 16] := by
    have hzero : txt "00" ++ hexByte c = 0x30 :: 0x30 :: hexByte c := rfl
    rw [hzero, List.mapM_cons, List.mapM_cons, hexDigit_hexByte]
    rfl
  have hvalue : [0, 0, c.toNat / 16, c.toNat % 16].foldl
      (fun value digit ↦ (value <<< 4) ||| digit) 0 = c.toNat := by
    have hc := c.toNat_lt
    have hzero : ∀ n : ℕ, (0 <<< 4 ||| n) = n := by simp
    rw [List.foldl_cons, List.foldl_cons, List.foldl_cons, List.foldl_cons, List.foldl_nil,
      hzero, hzero, hzero, join_digits _ (by omega) _ (by omega), Nat.div_add_mod]
  refine (Reads.take (n := 4) _ rfl).bind_last ?_
  rw [hdigits]
  dsimp only
  rw [hvalue]
  exact Reads.pure _

/-- A control character reads back from its code unit. -/
theorem reads_parseUnicodeEscape {c : UInt8} (hc : c < 0x20) :
    Reads (utf8 <$> parseUnicodeEscape) (txt "00" ++ hexByte c) [c] := by
  have hsmall : c.toNat < 0x20 := UInt8.lt_iff_toNat_lt.mp hc
  have hvalue : Reads parseUnicodeEscape (txt "00" ++ hexByte c) c.toNat := by
    refine (reads_parseHexCodeUnit c).bind_last ?_
    rw [if_neg (by omega), if_neg (by omega)]
    exact Reads.pure _
  have h := hvalue.map (f := utf8)
  rwa [utf8, if_pos (by omega), UInt8.ofNat_toNat] at h

/-- A character is written as itself or as an escape that reads back as it. -/
theorem escape_cases (c : UInt8) :
    (escape c = [c] ∧ c ≠ 0x22 ∧ c ≠ 0x5c) ∨
      ∃ text, escape c = 0x5c :: text ∧ Reads parseEscape text [c] := by
  by_cases hquote : c = 0x22
  · exact .inr ⟨[0x22], by rw [hquote]; rfl, by rw [hquote]; exact fun _ _ ↦ rfl⟩
  by_cases hslash : c = 0x5c
  · exact .inr ⟨[0x5c], by rw [hslash]; rfl, by rw [hslash]; exact fun _ _ ↦ rfl⟩
  by_cases hb : c = 0x08
  · exact .inr ⟨[0x62], by rw [hb]; rfl, by rw [hb]; exact fun _ _ ↦ rfl⟩
  by_cases hf : c = 0x0c
  · exact .inr ⟨[0x66], by rw [hf]; rfl, by rw [hf]; exact fun _ _ ↦ rfl⟩
  by_cases hn : c = 0x0a
  · exact .inr ⟨[0x6e], by rw [hn]; rfl, by rw [hn]; exact fun _ _ ↦ rfl⟩
  by_cases hr : c = 0x0d
  · exact .inr ⟨[0x72], by rw [hr]; rfl, by rw [hr]; exact fun _ _ ↦ rfl⟩
  by_cases ht : c = 0x09
  · exact .inr ⟨[0x74], by rw [ht]; rfl, by rw [ht]; exact fun _ _ ↦ rfl⟩
  rw [escape, if_neg hquote, if_neg hslash, if_neg hb, if_neg hf, if_neg hn, if_neg hr, if_neg ht]
  by_cases hcontrol : c < 0x20
  · rw [if_pos hcontrol]
    exact .inr ⟨0x75 :: (txt "00" ++ hexByte c), rfl,
      (Reads.byte 0x75).bind_cons (reads_parseUnicodeEscape hcontrol)⟩
  · rw [if_neg hcontrol]
    exact .inl ⟨rfl, hquote, hslash⟩

theorem escape_length (c : UInt8) : 0 < (escape c).length := by
  rcases escape_cases c with ⟨h, -⟩ | ⟨text, h, -⟩
  · rw [h]
    exact Nat.one_pos
  · rw [h]
    exact Nat.succ_pos _

/-- Character after character, up to the closing quote. -/
theorem reads_stringBody (input : Text) {fuel : ℕ} (hfuel : input.length < fuel) :
    Reads (stringBody fuel) (input.flatMap escape ++ [0x22]) input := by
  induction input generalizing fuel with
  | nil =>
      obtain ⟨fuel, rfl⟩ : ∃ f, fuel = f + 1 := ⟨fuel - 1, by simp at hfuel; omega⟩
      exact (Reads.byte 0x22).bind_last (Reads.pure [])
  | cons c input ih =>
      rw [List.length_cons] at hfuel
      obtain ⟨fuel, rfl⟩ : ∃ f, fuel = f + 1 := ⟨fuel - 1, by omega⟩
      have hrest := @ih fuel (by omega)
      rw [List.flatMap_cons, List.append_assoc]
      rcases escape_cases c with ⟨hself, hquote, hslash⟩ | ⟨text, hescape, hreads⟩
      · rw [hself]
        refine (Reads.byte c).bind_cons ?_
        rw [if_neg hquote, if_pos hslash]
        exact hrest.bind_last (Reads.pure (c :: input))
      · rw [hescape, List.cons_append]
        refine (Reads.byte 0x5c).bind_cons ?_
        rw [if_neg (by decide), if_neg (by decide)]
        exact hreads.bind (hrest.bind_last (Reads.pure (c :: input)))

theorem length_le_flatMap_escape (input : Text) : input.length ≤ (input.flatMap escape).length := by
  induction input with
  | nil => exact le_rfl
  | cons c input ih =>
      have hc := escape_length c
      rw [List.flatMap_cons, List.length_append, List.length_cons]
      omega

theorem reads_quote (input : Text) : Reads parseString (quote input) input := by
  refine ReadsBefore.reads (P := fun _ ↦ True) (reads_peek ?_) fun _ ↦ trivial
  rw [if_neg (by simp)]
  refine Reads.before ((reads_advance 0x22).bind_cons (reads_remaining_bind fun n hn ↦ ?_))
  refine reads_stringBody input ?_
  have hlength := length_le_flatMap_escape input
  change (input.flatMap escape ++ [0x22]).length ≤ n at hn
  rw [List.length_append] at hn
  omega

/-! ## Byte strings -/

theorem unhex_hex (bytes : List UInt8) : unhex (hex bytes) = .ok bytes := by
  induction bytes with
  | nil => rfl
  | cons b bytes ih =>
      have hb := b.toNat_lt
      rw [hex, List.flatMap_cons, ← hex, hexByte, List.cons_append, List.cons_append,
        List.nil_append, unhex, hexDigit_digits _ (by omega), hexDigit_digits _ (by omega)]
      dsimp only
      rw [ih, join_digits _ (by omega) _ (by omega), Nat.div_add_mod, UInt8.ofNat_toNat]
      rfl

theorem length_hex (bytes : List UInt8) : (hex bytes).length = 2 * bytes.length := by
  induction bytes with
  | nil => rfl
  | cons b bytes ih =>
      rw [hex, List.flatMap_cons, List.length_append, List.length_cons, ← hex, ih]
      have : (hexByte b).length = 2 := rfl
      omega

theorem bytesOfHex_hex (bytes : List UInt8) : bytesOfHex (hex bytes) = .ok bytes := by
  rw [bytesOfHex, if_neg (by rw [length_hex]; omega), unhex_hex]

/-! ## Values -/

section Values

variable {P : List UInt8 → Prop} {levels : ℕ}

/-- What `parseValue` does once it has seen the first byte of a value. -/
theorem reads_parseValue {c : UInt8} {text : Text} {value : ProtoDefValue}
    (hspace : isSpace c = false)
    (h : ReadsBefore P
      (if c = 0x22 then .string <$> parseString
        else if c = 0x7b then parseObject (parseValue levels)
        else if c = 0x5b then parseArray (parseValue levels)
        else if c = 0x74 then parseLiteral (txt "true") (.bool true)
        else if c = 0x66 then parseLiteral (txt "false") (.bool false)
        else if c = 0x6e then parseLiteral (txt "null") .null
        else if c = 0x2d ∨ isDigit c then parseNumber
        else throw "ProtoDefJson unexpected character") (c :: text) value) :
    ReadsBefore P (parseValue (levels + 1)) (c :: text) value :=
  reads_skipWhitespace.bind_nil (reads_peek h) fun _ _ ↦ Head.cons hspace

theorem reads_parseLiteral (literal : Text) (value : ProtoDefValue) :
    Reads (parseLiteral literal value) literal value := by
  intro offset suffix
  rw [parseLiteral, if_pos (List.take_left' rfl), List.drop_left' rfl]

/-- A digit is none of the other bytes. -/
theorem digit_ne {c d : UInt8} (hc : isDigit c = true) (hd : isDigit d = false) : c ≠ d := by
  rintro rfl
  rw [hc] at hd
  exact Bool.noConfusion hd

theorem isSpace_eq_false_of_isDigit {c : UInt8} (hc : isDigit c = true) : isSpace c = false := by
  have hdigit : 0x30 ≤ c ∧ c ≤ 0x39 := of_decide_eq_true hc
  have hlow : 0x30 ≤ c.toNat := UInt8.le_iff_toNat_le.mp hdigit.1
  refine decide_eq_false ?_
  rintro (rfl | ⟨-, hhigh⟩)
  · exact absurd hlow (by decide)
  · have hhigh : c.toNat ≤ 0x0d := UInt8.le_iff_toNat_le.mp hhigh
    omega

/-- A text that starts with a sign or a digit is read as a number. -/
theorem reads_parseValue_number {c : UInt8} {text : Text} {value : ProtoDefValue}
    (hc : c = 0x2d ∨ isDigit c = true) (h : ReadsBefore P parseNumber (c :: text) value) :
    ReadsBefore P (parseValue (levels + 1)) (c :: text) value := by
  rcases hc with rfl | hdigit
  · exact reads_parseValue (by decide) h
  · refine reads_parseValue (isSpace_eq_false_of_isDigit hdigit) ?_
    rwa [if_neg (digit_ne hdigit (by decide)), if_neg (digit_ne hdigit (by decide)),
      if_neg (digit_ne hdigit (by decide)), if_neg (digit_ne hdigit (by decide)),
      if_neg (digit_ne hdigit (by decide)), if_neg (digit_ne hdigit (by decide)),
      if_pos (.inr hdigit)]

theorem reads_parseValue_uint {value : ℕ} (hvalue : value < 2 ^ 64) :
    ReadsBefore (Head Delimited) (parseValue (levels + 1)) (decimal value) (.uint value) := by
  obtain ⟨c, text, htext⟩ := List.exists_cons_of_ne_nil (decimal_ne_nil value)
  have hdigit : isDigit c = true := isDigit_of_mem_decimal (htext ▸ List.mem_cons_self)
  have h := reads_parseNumber_uint hvalue
  rw [htext] at h ⊢
  exact reads_parseValue_number (.inr hdigit) h

theorem reads_parseValue_int {value : ℤ} (hlow : -2 ^ 63 ≤ value) (hhigh : value < 2 ^ 63) :
    ReadsBefore (Head Delimited) (parseValue (levels + 1)) (decimalInt value)
      (ProtoDefValue.int value).unsigned := by
  rw [ProtoDefValue.unsigned]
  by_cases hsign : value < 0
  · have h := reads_parseNumber_int hlow hsign
    rw [if_pos hsign]
    rw [decimalInt, if_pos hsign] at h ⊢
    exact reads_parseValue_number (.inl rfl) h
  · rw [if_neg hsign, decimalInt, if_neg hsign, show value.natAbs = value.toNat by omega]
    exact reads_parseValue_uint (by omega)

theorem reads_parseValue_string (value : Text) :
    ReadsBefore P (parseValue (levels + 1)) (quote value) (.string value) :=
  reads_parseValue (by decide) (reads_quote value).map.before

variable {parseValue : Reader ProtoDefValue} {fuel : ℕ} {text rest : Text} {value : ProtoDefValue}

theorem reads_arrayItems_last (hvalue : ReadsBefore (Head Delimited) parseValue text value) :
    Reads (arrayItems parseValue (fuel + 1)) (text ++ [0x5d]) [value] := by
  refine (hvalue.bind (Q := fun _ ↦ True) ?_ fun _ _ ↦ Head.cons (by decide)).reads fun _ ↦ trivial
  refine reads_skipWhitespace.bind_nil (reads_peek ?_) fun _ _ ↦ Head.cons (by decide)
  exact ((reads_advance 0x5d).bind_last (Reads.pure [value])).before

theorem reads_arrayItems_cons {items : List ProtoDefValue}
    (hvalue : ReadsBefore (Head Delimited) parseValue text value)
    (hrest : Reads (arrayItems parseValue fuel) rest items) :
    Reads (arrayItems parseValue (fuel + 1)) (text ++ 0x2c :: rest) (value :: items) := by
  refine (hvalue.bind (Q := fun _ ↦ True) ?_ fun _ _ ↦ Head.cons (by decide)).reads fun _ ↦ trivial
  refine reads_skipWhitespace.bind_nil (reads_peek ?_) fun _ _ ↦ Head.cons (by decide)
  exact ((reads_advance 0x2c).bind_cons (hrest.bind_last (Reads.pure (value :: items)))).before

variable {key : Text} {fields : List (Text × ProtoDefValue)}

/-- The key and the colon in front of a value. -/
theorem reads_key {β : Type} {k : Text → Reader β} {b : β} (hk : Reads (k key) rest b) :
    Reads
      (do
        skipWhitespace
        let key ← parseString
        skipWhitespace
        if (← peek) ≠ some 0x3a then throw "ProtoDefJson expected colon"
        else
          advance
          k key)
      (quote key ++ 0x3a :: rest) b := by
  refine ReadsBefore.reads (P := fun _ ↦ True) ?_ fun _ ↦ trivial
  refine reads_skipWhitespace.bind_nil ?_ fun _ _ ↦ Head.cons (by decide)
  refine (Reads.before (P := fun _ ↦ True) (reads_quote key)).bind ?_ fun _ _ ↦ trivial
  refine reads_skipWhitespace.bind_nil (reads_peek ?_) fun _ _ ↦ Head.cons (by decide)
  exact ((reads_advance 0x3a).bind_cons hk).before

theorem reads_objectFields_last (hvalue : ReadsBefore (Head Delimited) parseValue text value) :
    Reads (objectFields parseValue (fuel + 1) fields) (quote key ++ 0x3a :: (text ++ [0x7d]))
      (ProtoDefValue.assign key value fields) := by
  refine reads_key ?_
  refine (hvalue.bind (Q := fun _ ↦ True) ?_ fun _ _ ↦ Head.cons (by decide)).reads fun _ ↦ trivial
  refine reads_skipWhitespace.bind_nil (reads_peek ?_) fun _ _ ↦ Head.cons (by decide)
  exact ((reads_advance 0x7d).bind_last
    (Reads.pure (ProtoDefValue.assign key value fields))).before

theorem reads_objectFields_cons {result : List (Text × ProtoDefValue)}
    (hvalue : ReadsBefore (Head Delimited) parseValue text value)
    (hrest : Reads (objectFields parseValue fuel (ProtoDefValue.assign key value fields)) rest
      result) :
    Reads (objectFields parseValue (fuel + 1) fields)
      (quote key ++ 0x3a :: (text ++ 0x2c :: rest)) result := by
  refine reads_key ?_
  refine (hvalue.bind (Q := fun _ ↦ True) ?_ fun _ _ ↦ Head.cons (by decide)).reads fun _ ↦ trivial
  refine reads_skipWhitespace.bind_nil (reads_peek ?_) fun _ _ ↦ Head.cons (by decide)
  exact ((reads_advance 0x2c).bind_cons hrest).before

/-- The items of an array after its bracket. -/
theorem reads_parseArray {c : UInt8} {items : List ProtoDefValue} (hspace : isSpace c = false)
    (hbracket : c ≠ 0x5d)
    (hitems : ∀ n, (c :: rest).length ≤ n → Reads (arrayItems parseValue (n + 1)) (c :: rest) items) :
    Reads (parseArray parseValue) (0x5b :: c :: rest) (.array items) := by
  refine (reads_advance 0x5b).bind_cons (ReadsBefore.reads (P := fun _ ↦ True) ?_ fun _ ↦ trivial)
  refine reads_skipWhitespace.bind_nil (reads_peek ?_) fun _ _ ↦ Head.cons hspace
  rw [if_neg fun h ↦ hbracket (Option.some.inj h)]
  exact (reads_remaining_bind fun n hn ↦
    (hitems n hn).bind_last (Reads.pure (ProtoDefValue.array items))).before

/-- The fields of an object after its brace, and what they stand for. -/
theorem reads_parseObject
    (hfields : ∀ n, (0x22 :: rest).length ≤ n →
      Reads (objectFields parseValue (n + 1) []) (0x22 :: rest) fields)
    (hfinish : finishObject fields = .ok value) :
    Reads (parseObject parseValue) (0x7b :: 0x22 :: rest) value := by
  refine (reads_advance 0x7b).bind_cons (ReadsBefore.reads (P := fun _ ↦ True) ?_ fun _ ↦ trivial)
  refine reads_skipWhitespace.bind_nil (reads_peek ?_) fun _ _ ↦ Head.cons (by decide)
  exact (reads_remaining_bind fun n hn ↦ (hfields n hn).bind_last (Reads.lift hfinish)).before

end Values

/-! ## The round trip -/

open ProtoDefValue

/-- Only a single field `$bytes` makes an object something else. -/
theorem finishObject_of_keys {fields : List (Text × ProtoDefValue)}
    (h : fields.map Prod.fst ≠ [txt "$bytes"]) : finishObject fields = .ok (.object fields) := by
  unfold finishObject
  split
  · rename_i key text
    rw [if_neg fun hkey ↦ h (by rw [hkey]; rfl)]
  · rfl

/-- The first byte of a text is neither a space nor a bracket that closes an array. -/
theorem stringify_head {value : ProtoDefValue} (hprintable : value.Printable) :
    ∃ c text, stringify value = c :: text ∧ isSpace c = false ∧ c ≠ 0x5d := by
  have hdecimal (n : ℕ) : ∃ c text, decimal n = c :: text ∧ isSpace c = false ∧ c ≠ 0x5d := by
    obtain ⟨c, text, htext⟩ := List.exists_cons_of_ne_nil (decimal_ne_nil n)
    have hdigit : isDigit c = true := isDigit_of_mem_decimal (htext ▸ List.mem_cons_self)
    exact ⟨c, text, htext, isSpace_eq_false_of_isDigit hdigit, digit_ne hdigit (by decide)⟩
  cases value with
  | null => exact ⟨_, _, rfl, by decide, by decide⟩
  | bool value => cases value <;> exact ⟨_, _, rfl, by decide, by decide⟩
  | int value =>
      rw [stringify, decimalInt]
      split
      · exact ⟨_, _, rfl, by decide, by decide⟩
      · exact hdecimal _
  | uint value => exact hdecimal value
  | double bits => exact hprintable.elim
  | string value => exact ⟨_, _, rfl, by decide, by decide⟩
  | bytes value => exact ⟨_, _, rfl, by decide, by decide⟩
  | object fields => exact ⟨_, _, rfl, by decide, by decide⟩
  | array items => exact ⟨_, _, rfl, by decide, by decide⟩

/-- The printed items start like the first of them. -/
theorem stringifyItems_head {item : ProtoDefValue} (items : List ProtoDefValue)
    (hprintable : item.Printable) :
    ∃ c text, stringifyItems (item :: items) = c :: text ∧ isSpace c = false ∧ c ≠ 0x5d := by
  obtain ⟨c, text, htext, hc⟩ := stringify_head hprintable
  cases items with
  | nil => exact ⟨c, text, htext, hc⟩
  | cons next items =>
      rw [stringifyItems, htext]
      exact ⟨c, _, rfl, hc⟩

/-- The printed fields start with the quote of a key. -/
theorem stringifyFields_head (field : Text × ProtoDefValue) (fields : List (Text × ProtoDefValue)) :
    ∃ text, stringifyFields (field :: fields) = 0x22 :: text := by
  cases fields with
  | nil => exact ⟨_, rfl⟩
  | cons next fields => exact ⟨_, rfl⟩

theorem stringify_bytes (value : List UInt8) : stringify (.bytes value) =
    0x7b :: (quote (txt "$bytes") ++ 0x3a :: (quote (hex value) ++ [0x7d])) := rfl

mutual

theorem reads_stringify : ∀ (value : ProtoDefValue) (levels : ℕ), value.Throughout InRange →
    value.Throughout Printable → (stringify value).length < levels →
    ReadsBefore (Head Delimited) (parseValue levels) (stringify value) value.unsigned
  | .null, levels + 1, _, _, _ => reads_parseValue (by decide) (reads_parseLiteral _ _).before
  | .bool true, levels + 1, _, _, _ => reads_parseValue (by decide) (reads_parseLiteral _ _).before
  | .bool false, levels + 1, _, _, _ => reads_parseValue (by decide) (reads_parseLiteral _ _).before
  | .int value, levels + 1, hrange, _, _ => reads_parseValue_int hrange.1 hrange.2
  | .uint value, levels + 1, hrange, _, _ => reads_parseValue_uint hrange
  | .double bits, _, _, hprintable, _ => hprintable.elim
  | .string value, levels + 1, _, _, _ => reads_parseValue_string value
  | .bytes value, levels + 1, _, _, hlevels => by
      have hpos : 0 < levels := by
        rw [stringify_bytes, List.length_cons, List.length_append, List.length_cons] at hlevels
        omega
      obtain ⟨levels, rfl⟩ : ∃ n, levels = n + 1 := ⟨levels - 1, by omega⟩
      have hfields (n : ℕ) : Reads (objectFields (parseValue (levels + 1)) (n + 1) [])
          (quote (txt "$bytes") ++ 0x3a :: (quote (hex value) ++ [0x7d]))
          [(txt "$bytes", .string (hex value))] :=
        reads_objectFields_last (reads_parseValue_string (hex value))
      have hfinish : finishObject [(txt "$bytes", .string (hex value))] = .ok (.bytes value) :=
        congrArg (Except.map ProtoDefValue.bytes) (bytesOfHex_hex value)
      rw [stringify_bytes]
      exact reads_parseValue (by decide) (reads_parseObject (fun n _ ↦ hfields n) hfinish).before
  | .array [], levels + 1, _, _, _ =>
      reads_parseValue (by decide) fun _ _ _ ↦ rfl
  | .array (item :: items), levels + 1, hrange, hprintable, hlevels => by
      rw [stringify, List.length_append, List.length_cons] at hlevels
      obtain ⟨c, text, htext, hspace, hbracket⟩ := stringifyItems_head items hprintable.2.1.self
      have hitems (n : ℕ) (hn : (stringifyItems (item :: items)).length < n) :=
        reads_stringifyItems (item :: items) levels n (by simp) hrange.2 hprintable.2 (by omega) hn
      rw [stringify, List.cons_append]
      refine reads_parseValue (by decide) (Reads.before ?_)
      rw [htext] at hitems ⊢
      rw [List.cons_append] at hitems ⊢
      refine reads_parseArray hspace hbracket fun n hn ↦ hitems (n + 1) ?_
      rw [List.length_cons, List.length_append] at hn
      rw [List.length_cons]
      omega
  | .object [], levels + 1, _, _, _ =>
      reads_parseValue (by decide) fun _ _ _ ↦ rfl
  | .object (field :: fields), levels + 1, hrange, hprintable, hlevels => by
      rw [stringify, List.length_append, List.length_cons] at hlevels
      obtain ⟨text, htext⟩ := stringifyFields_head field fields
      have hfields (n : ℕ) (hn : (stringifyFields (field :: fields)).length < n) :=
        reads_stringifyFields (field :: fields) [] levels n (by simp) hrange.2 hprintable.2
          hrange.1 (by omega) hn
      have hfinish : finishObject (unsignedFields (field :: fields)) =
          .ok (.object (unsignedFields (field :: fields))) := by
        refine finishObject_of_keys ?_
        rw [unsignedFields_keys]
        exact hprintable.1
      rw [stringify, List.cons_append]
      refine reads_parseValue (by decide) (Reads.before ?_)
      rw [htext] at hfields ⊢
      rw [List.cons_append] at hfields ⊢
      refine reads_parseObject (fun n hn ↦ hfields (n + 1) ?_) hfinish
      rw [List.length_cons, List.length_append] at hn
      rw [List.length_cons]
      omega

theorem reads_stringifyItems : ∀ (items : List ProtoDefValue) (levels fuel : ℕ), items ≠ [] →
    ThroughoutItems InRange items → ThroughoutItems Printable items →
    (stringifyItems items).length < levels → (stringifyItems items).length < fuel →
    Reads (arrayItems (parseValue levels) fuel) (stringifyItems items ++ [0x5d])
      (unsignedItems items)
  | [], _, _, hne, _, _, _, _ => (hne rfl).elim
  | [item], levels, fuel + 1, _, hrange, hprintable, hlevels, _ =>
      reads_arrayItems_last (reads_stringify item levels hrange.1 hprintable.1 hlevels)
  | item :: next :: items, levels, fuel + 1, _, hrange, hprintable, hlevels, hfuel => by
      rw [stringifyItems, List.length_append, List.length_cons] at hlevels hfuel
      have hitem := reads_stringify item levels hrange.1 hprintable.1 (by omega)
      have hitems :=
        reads_stringifyItems (next :: items) levels fuel (by simp) hrange.2 hprintable.2 (by omega)
        (by omega)
      rw [stringifyItems, List.append_assoc, List.cons_append]
      exact reads_arrayItems_cons hitem hitems

theorem reads_stringifyFields : ∀ (fields before : List (Text × ProtoDefValue))
    (levels fuel : ℕ), fields ≠ [] → ThroughoutFields InRange fields →
    ThroughoutFields Printable fields → (before.map Prod.fst ++ fields.map Prod.fst).Nodup →
    (stringifyFields fields).length < levels → (stringifyFields fields).length < fuel →
    Reads (objectFields (parseValue levels) fuel before) (stringifyFields fields ++ [0x7d])
      (before ++ unsignedFields fields)
  | [], _, _, _, hne, _, _, _, _, _ => (hne rfl).elim
  | [(key, child)], before, levels, fuel + 1, _, hrange, hprintable, hnodup, hlevels, _ => by
      rw [stringifyFields, List.length_append, List.length_cons] at hlevels
      have hchild := reads_stringify child levels hrange.1 hprintable.1 (by omega)
      have hnew : key ∉ before.map Prod.fst := fun hmem ↦
        (List.nodup_append.mp hnodup).2.2 key hmem key List.mem_cons_self rfl
      have h := @reads_objectFields_last _ fuel _ _ key before hchild
      rw [assign_of_not_mem hnew] at h
      rw [stringifyFields, List.append_assoc, List.cons_append]
      exact h
  | (key, child) :: next :: fields, before, levels, fuel + 1, _, hrange, hprintable, hnodup,
      hlevels, hfuel => by
      rw [stringifyFields, List.length_append, List.length_append, List.length_cons,
        List.length_cons] at hlevels hfuel
      have hchild := reads_stringify child levels hrange.1 hprintable.1 (by omega)
      have hnew : key ∉ before.map Prod.fst := fun hmem ↦
        (List.nodup_append.mp hnodup).2.2 key hmem key List.mem_cons_self rfl
      have hfields := reads_stringifyFields (next :: fields) (before ++ [(key, child.unsigned)])
        levels fuel (by simp) hrange.2 hprintable.2 (by simpa using hnodup) (by omega) (by omega)
      rw [← assign_of_not_mem hnew] at hfields
      have h := reads_objectFields_cons hchild hfields
      rw [assign_of_not_mem hnew, List.append_assoc, List.singleton_append] at h
      simp only [stringifyFields, List.append_assoc, List.cons_append]
      exact h

end

/-- A printed value is parsed again, with its non-negative integers unsigned. -/
theorem parse_stringify {value : ProtoDefValue} (hrange : value.Throughout InRange)
    (hprintable : value.Throughout Printable) : parse (stringify value) = .ok value.unsigned := by
  have hempty (p : UInt8 → Prop) : Head p [] := fun c hc ↦ by cases hc
  have hvalue := reads_stringify value ((stringify value).length + 1) hrange hprintable (by omega)
  have hrun := hvalue 0 [] (hempty _)
  rw [List.append_nil] at hrun
  have hspace : skipWhitespace ⟨0 + (stringify value).length, []⟩ =
      .ok ((), ⟨0 + (stringify value).length, []⟩) := reads_skipWhitespace _ [] (hempty _)
  have hdocument : parseDocument (Cursor.start (stringify value)) =
      .ok (value.unsigned, ⟨0 + (stringify value).length, []⟩) := by
    rw [parseDocument, Cursor.start, Reader.remaining_run, Reader.bind_run hrun,
      Reader.bind_run hspace, Reader.remaining_run, if_neg (by simp)]
    rfl
  rw [parse, hdocument]
  rfl

/-- Parsing what was printed gives an equal value; a non-negative `Int` and the `UInt` of the
same number count as equal. -/
theorem parse_stringify_same (value : ProtoDefValue) (hrange : value.Throughout InRange)
    (hprintable : value.Throughout Printable) :
    ∃ parsed, parse (stringify value) = .ok parsed ∧ parsed.unsigned = value.unsigned :=
  ⟨value.unsigned, parse_stringify hrange hprintable, unsigned_unsigned value⟩

/-- Control characters and quotes, both signs and a byte string. -/
theorem parse_stringify_same_nested :
    ∃ parsed, parse (stringify (.object
        [(txt "a\"\n", .array [.int (-5), .int 7, .bytes [1, 0xff]]), ([0x01, 0x80], .null)])) =
        .ok parsed ∧
      parsed.unsigned = .object
        [(txt "a\"\n", .array [.int (-5), .uint 7, .bytes [1, 0xff]]), ([0x01, 0x80], .null)] :=
  parse_stringify_same
    (.object [(txt "a\"\n", .array [.int (-5), .int 7, .bytes [1, 0xff]]), ([0x01, 0x80], .null)])
    ⟨(by decide : [txt "a\"\n", [0x01, 0x80]].Nodup),
      ⟨trivial, ⟨by decide, by decide⟩, ⟨by decide, by decide⟩, trivial, trivial⟩, trivial, trivial⟩
    ⟨(by decide : [txt "a\"\n", [0x01, 0x80]] ≠ [txt "$bytes"]),
      ⟨trivial, trivial, trivial, trivial, trivial⟩, trivial, trivial⟩

end ProtoDefJson

end BedrockProtocol
