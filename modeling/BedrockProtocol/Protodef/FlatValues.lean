import BedrockProtocol.Protodef.FlatText

/-!
# Identifiers, parents and names of numbers

The parts of a value on which encoder and decoder agree byte by byte: the digits of identifiers and
the numbers that have names.  A parent, which the encoder gives to the values of containers, changes
neither the type of a value nor its fields.
-/

namespace BedrockProtocol

open SchemaText JsonPieces

open ProtoDefEncoder (quoted hexValue hexPairs writeUuid)

/-! ## Identifiers -/

/-- A hexadecimal digit stands for a half of a byte, which is shown as the small digit. -/
theorem exists_hexValue {c : UInt8} (h : isHexDigit c = true) :
    ∃ n < 16, hexValue c = some n ∧ (txt "0123456789abcdef").getD n 0 = lowerHex c := by
  have hall : ∀ n : Fin 256, isHexDigit (UInt8.ofNat n) = true →
      ∃ k < 16, hexValue (UInt8.ofNat n) = some k ∧
        (txt "0123456789abcdef").getD k 0 = lowerHex (UInt8.ofNat n) := by decide +kernel
  have hc : UInt8.ofNat c.toNat = c := UInt8.ofNat_toNat
  have hdigit := hall ⟨c.toNat, c.toNat_lt⟩
  rw [hc] at hdigit
  exact hdigit h

/-- The digits of one byte. -/
theorem hexByte_pair {high low : ℕ} (hhigh : high < 16) (hlow : low < 16) :
    ProtoDefJson.hexByte (UInt8.ofNat ((high <<< 4) ||| low)) =
      [(txt "0123456789abcdef").getD high 0, (txt "0123456789abcdef").getD low 0] := by
  have hjoin : (high <<< 4) ||| low = 16 * high + low := by
    rw [Nat.shiftLeft_eq, Nat.mul_comm, ← Nat.two_pow_add_eq_or_of_lt hlow]
  have hbyte : (UInt8.ofNat (16 * high + low)).toNat = 16 * high + low :=
    toNat_ofNat_of_lt (by omega)
  have hdiv : (16 * high + low) / 16 = high := by omega
  have hmod : (16 * high + low) % 16 = low := by omega
  rw [hjoin, ProtoDefJson.hexByte, hbyte, hdiv, hmod]

/-- The digits from the byte `i`, two for each byte and a dash in front of some. -/
theorem hexPairs_dashed {k : ℕ} : ∀ {digits : Text}, digits.length = 2 * k →
    digits.all isHexDigit = true → ∀ i, ∃ bytes, hexPairs digits = .ok bytes ∧ bytes.length = k ∧
      ((bytes.zipIdx i).map fun byte ↦ (if byte.2 ∈ [4, 6, 8, 10] then txt "-" else []) ++
          ProtoDefJson.hexByte byte.1).flatten =
        ((digits.zipIdx (2 * i)).map fun digit ↦
          (if digit.2 ∈ [8, 12, 16, 20] then txt "-" else []) ++ [lowerHex digit.1]).flatten := by
  induction k with
  | zero =>
      intro digits hlength hall i
      obtain rfl := List.length_eq_zero_iff.mp hlength
      exact ⟨[], rfl, rfl, rfl⟩
  | succ k ih =>
      intro digits hlength hall i
      obtain ⟨first, second, rest, rfl⟩ : ∃ first second rest, digits = first :: second :: rest := by
        match digits with
        | first :: second :: rest => exact ⟨first, second, rest, rfl⟩
      rw [List.all_cons, List.all_cons, Bool.and_eq_true, Bool.and_eq_true] at hall
      rw [List.length_cons, List.length_cons] at hlength
      obtain ⟨hfirst, hsecond, hrest⟩ := hall
      obtain ⟨high, hhigh, hhighValue, hhighShown⟩ := exists_hexValue hfirst
      obtain ⟨low, hlow, hlowValue, hlowShown⟩ := exists_hexValue hsecond
      obtain ⟨bytes, hbytes, hcount, htext⟩ := ih (by omega) hrest (i + 1)
      refine ⟨UInt8.ofNat ((high <<< 4) ||| low) :: bytes, ?_, congrArg (· + 1) hcount, ?_⟩
      · rw [hexPairs, hhighValue, hlowValue]
        dsimp only
        rw [hbytes]
        rfl
      · have hdash : (if 2 * i ∈ [8, 12, 16, 20] then txt "-" else []) =
            if i ∈ [4, 6, 8, 10] then txt "-" else [] := by
          simp only [List.mem_cons, List.not_mem_nil, or_false]
          exact if_congr (by omega) rfl rfl
        have hplain : (if 2 * i + 1 ∈ [8, 12, 16, 20] then txt "-" else []) = [] := by
          simp only [List.mem_cons, List.not_mem_nil, or_false]
          exact if_neg (by omega)
        rw [List.zipIdx_cons, List.map_cons, List.flatten_cons, List.zipIdx_cons, List.zipIdx_cons,
          List.map_cons, List.map_cons, List.flatten_cons, List.flatten_cons, htext]
        dsimp only
        rw [hexByte_pair hhigh hlow, hhighShown, hlowShown, hdash, hplain]
        simp only [List.append_assoc, List.cons_append, List.nil_append]
        rfl

theorem scalarAgrees_uuid {text : Text} (h : IsUuid text) :
    ∃ bytes, ScalarAgrees (txt "uuid") (.string text) bytes (canonicalUuid text) := by
  obtain ⟨bytes, hbytes, hcount, htext⟩ := hexPairs_dashed (k := 16) h.1 h.2 0
  have hwrite : writeUuid text = .ok bytes := by
    have hlength : (text.filter (· ≠ 0x2d)).length = 32 := h.1
    rw [writeUuid, if_neg (not_not.mpr hlength)]
    exact hbytes
  have hshown : ProtoDefDecoder.uuidText bytes = canonicalUuid text := htext
  refine ⟨bytes, fun typeJson undefinedCast encode ↦ hwrite, fun typeJson atEnd decode path ↦
    decodeTypeName_of_readsOther (by decide) rfl rfl ?_ typeJson atEnd decode⟩
  have hread := (ElementCounts.Counted.reads_many_u8 bytes).map (f := ProtoDefDecoder.uuidText)
  rw [hshown, hcount] at hread
  exact hread.map

/-! ## Parents -/

section Parents

variable (parent : ProtoDefValue)

theorem number_withParent (names : NumberNames) (value : ProtoDefValue) :
    names.number (ProtoDefEncoder.withParent parent value) = names.number value := by
  cases value <;> rfl

theorem shown_withParent (names : NumberNames) (value : ProtoDefValue) (z : ℤ) :
    names.shown (ProtoDefEncoder.withParent parent value) z = names.shown value z := by
  cases value <;> rfl

theorem itemRecords_map {records : Text → ProtoDefValue → List Recorded}
    {f : ProtoDefValue → ProtoDefValue} {items : List ProtoDefValue}
    (h : ∀ item ∈ items, ∀ path, records path (f item) = records path item) (path : Text) (i : ℕ) :
    itemRecords records path i (items.map f) = itemRecords records path i items := by
  induction items generalizing i with
  | nil => rfl
  | cons item items ih =>
      rw [List.map_cons, itemRecords, itemRecords, h item List.mem_cons_self,
        ih fun other hother ↦ h other (List.mem_cons_of_mem item hother)]

mutual

/-- A value that gets a parent keeps its type and its fields. -/
theorem FlatSchema.withParent_same : ∀ (schema : FlatSchema) (value : ProtoDefValue),
    txt ".." ∉ schema.names → schema.HasType value →
    schema.HasType (ProtoDefEncoder.withParent parent value) ∧
      ∀ path, schema.records path (ProtoDefEncoder.withParent parent value) = schema.records path value
  | .scalar typeName, value, hnames, h => by
      refine ⟨?_, fun path ↦ ?_⟩
      · rw [FlatSchema.HasType, scalarCode_withParent]
        exact h
      · rw [FlatSchema.records, FlatSchema.records, scalarCode_withParent]
  | .uuid, value, hnames, h => by
      obtain ⟨text, rfl, htext⟩ := h
      exact ⟨⟨text, rfl, htext⟩, fun path ↦ rfl⟩
  | .mapper names, value, hnames, h => by
      refine ⟨?_, fun path ↦ ?_⟩
      · rw [FlatSchema.HasType, number_withParent]
        exact h
      · rw [FlatSchema.records, FlatSchema.records, number_withParent]
        simp only [shown_withParent]
  | .option inner, value, hnames, h => by
      rcases h with rfl | h
      · exact ⟨.inl rfl, fun path ↦ rfl⟩
      · obtain ⟨htype, hrecords⟩ := inner.withParent_same value hnames h
        refine ⟨.inr htype, fun path ↦ ?_⟩
        cases value with
        | object members => exact congrArg (presentRecord path true :: ·) (hrecords path)
        | array items => exact congrArg (presentRecord path true :: ·) (hrecords path)
        | _ => rfl
  | .array item, value, hnames, h => by
      obtain ⟨items, rfl, hlength, hitems⟩ := h
      have hsame (element : ProtoDefValue) (helement : element ∈ items) :=
        item.withParent_same element hnames (hitems element helement)
      refine ⟨⟨items.map (ProtoDefEncoder.withParent parent), ?_, ?_, ?_⟩, fun path ↦ ?_⟩
      · rw [ProtoDefEncoder.withParent, withParentItems_eq_map]
      · rwa [List.length_map]
      · intro element helement
        obtain ⟨before, hbefore, rfl⟩ := List.mem_map.mp helement
        exact (hsame before hbefore).1
      · rw [ProtoDefEncoder.withParent, withParentItems_eq_map, FlatSchema.records, FlatSchema.records,
          List.length_map, itemRecords_map fun element helement ↦ (hsame element helement).2]
  | .buffer, value, hnames, h => by
      obtain ⟨content, rfl, hlength⟩ := h
      exact ⟨⟨content, rfl, hlength⟩, fun path ↦ rfl⟩
  | .pstring, value, hnames, h => by
      obtain ⟨text, rfl, hlength⟩ := h
      exact ⟨⟨text, rfl, hlength⟩, fun path ↦ rfl⟩
  | .container fields, value, hnames, h => by
      obtain ⟨members, rfl, hfields⟩ := h
      obtain ⟨htypes, hrecords⟩ := fields.withParent_same members hnames hfields
      exact ⟨⟨_, rfl, htypes⟩, hrecords⟩

theorem FlatFields.withParent_same : ∀ (fields : FlatFields) (members : List (Text × ProtoDefValue)),
    txt ".." ∉ fields.names → fields.HasTypes (.object members) →
    fields.HasTypes (.object (ProtoDefValue.assign (txt "..") parent members)) ∧
      ∀ path, fields.records path (.object (ProtoDefValue.assign (txt "..") parent members)) =
        fields.records path (.object members)
  | .nil, members, hnames, h => ⟨trivial, fun _ ↦ rfl⟩
  | .field name schema rest, members, hnames, h => by
      rw [FlatFields.names, List.mem_cons, List.mem_append, not_or, not_or] at hnames
      obtain ⟨hname, -, hrestNames⟩ := hnames
      obtain ⟨hchild, hrest⟩ := h
      obtain ⟨htypes, hrecords⟩ := rest.withParent_same members hrestNames hrest
      have hget := get_assign_of_ne hname parent members
      refine ⟨⟨?_, htypes⟩, fun path ↦ ?_⟩
      · rw [hget]
        exact hchild
      · rw [FlatFields.records, FlatFields.records, hget, hrecords]

end

end Parents

/-! ## Mappers -/

section Mappers

variable {z : ℤ}

theorem asInt_word (undefinedCast : UInt64 → UInt64) (hz : InSigned 64 z) :
    ProtoDefValue.asInt undefinedCast (.uint (toUnsigned 64 z)) = .ok z := by
  rw [ProtoDefValue.asInt, toSigned_toUnsigned (by decide) hz]

/-- The type of a mapper writes the word of a number as the number. -/
theorem encodeTypeName_word (undefinedCast : UInt64 → UInt64)
    (other : Text → ProtoDefValue → Except String (List UInt8)) (names : NumberNames)
    (hz : names.type.Holds z) :
    ProtoDefTypes.encodeTypeName undefinedCast other names.baseType (.uint (toUnsigned 64 z)) =
      .ok (names.type.bytes z) := by
  rcases names.base_cases with ⟨hname, htype⟩ | ⟨-, htype⟩
  · have hmod : toUnsigned 64 z % 256 = toUnsigned 8 z :=
      toUnsigned_mod (by decide : 8 ≤ 64) z
    have hmod' : toUnsigned 8 z % 256 = toUnsigned 8 z := Nat.mod_eq_of_lt (toUnsigned_lt 8 z)
    have hbyte : leBytes 1 (toUnsigned 64 z) = leBytes 1 (toUnsigned 8 z) := by
      simp only [leBytes, hmod, hmod']
    rw [hname, htype]
    exact congrArg Except.ok hbyte
  · by_cases hneg : z < 0
    · have hsigned : names.type.signed = true := by
        by_contra hunsigned
        rw [IntegerType.Holds, if_neg hunsigned] at hz
        exact absurd hz.1 (Int.not_le.mpr hneg)
      have hwidth : names.type.width - 1 ≤ 64 - 1 := Nat.sub_le_sub_right names.width_le 1
      have hpow : (2 : ℤ) ^ (names.type.width - 1) ≤ 2 ^ (64 - 1) :=
        pow_le_pow_right₀ (by decide : (1 : ℤ) ≤ 2) hwidth
      have hwide : InSigned 64 z := by
        rw [IntegerType.Holds, if_pos hsigned] at hz
        exact ⟨(neg_le_neg hpow).trans hz.1, hz.2.trans_le hpow⟩
      obtain ⟨write, hwrite⟩ := exists_encodeTypeName_asInt htype hsigned
      have hinteger := (integerCodec htype).encodes undefinedCast other
        (rfl : (ProtoDefValue.int z).wholeNumber = some z) hz
      rw [hwrite] at hinteger ⊢
      rw [asInt_word undefinedCast hwide]
      exact hinteger
    · have hword := toUnsigned_of_nonneg (Int.not_lt.mp hneg) (holds_bounds names.width_le hz).2
      have hwhole : (ProtoDefValue.uint (toUnsigned 64 z)).wholeNumber = some z :=
        congrArg some hword
      exact (integerCodec htype).encodes undefinedCast other hwhole hz

theorem exists_readNumeric (atEnd : Except String Unit) (names : NumberNames)
    (hz : names.type.Holds z) :
    ∃ read, ProtoDefDecoder.readNumeric atEnd names.baseType = some read ∧
      Reads read (names.type.bytes z) (decimalInt z) := by
  rcases names.base_cases with ⟨hname, htype⟩ | ⟨hmem, htype⟩
  · rw [htype] at hz
    have hread := reads_signed ProtoDefReader.reads_byte (toUnsigned 8 z) (toUnsigned_lt 8 z)
    rw [toSigned_toUnsigned (by decide) hz] at hread
    rw [hname, htype]
    exact ⟨_, rfl, hread⟩
  · exact readNumeric_reads hmem htype hz atEnd

/-- A name is found again under its number. -/
theorem nameGiven_of_numberNamed {mappings : List (ℤ × Text)} (h : (mappings.map Prod.fst).Nodup)
    {name : Text} (hnumber : numberNamed mappings name = some z) : nameGiven mappings z = some name := by
  obtain ⟨entry, hfind, rfl⟩ := Option.map_eq_some_iff.mp hnumber
  have hfound := List.find?_some hfind
  have hname : entry.2 = name := of_decide_eq_true hfound
  have hmem : entry ∈ mappings := List.mem_of_find?_eq_some hfind
  rw [nameGiven]
  cases hother : mappings.find? fun other ↦ decide (other.1 = entry.1) with
  | none => exact absurd (decide_eq_true rfl) (List.find?_eq_none.mp hother entry hmem)
  | some other =>
      have hagain := List.find?_some hother
      have hsame : other.1 = entry.1 := of_decide_eq_true hagain
      have heq := List.inj_on_of_nodup_map h (List.mem_of_find?_eq_some hother) hmem hsame
      rw [heq, ← hname]
      rfl

variable {names : NumberNames} {text : Text} {value : ProtoDefValue}

theorem encodeMapper_number {typeJson : Text → Option Text} (undefinedCast : UInt64 → UInt64)
    (encode : Text → ProtoDefValue → Except String (List UInt8)) (h : names.Found text)
    (hvalue : names.number value = some z) (hz : names.type.Holds z) :
    ProtoDefEncoder.encodeMapper typeJson undefinedCast encode text value = .ok (names.type.bytes z) := by
  have hword := encodeTypeName_word undefinedCast
    (ProtoDefEncoder.encodeNamed typeJson undefinedCast encode) names hz
  rw [ProtoDefEncoder.encodeMapper, h.baseType]
  cases value with
  | string name =>
      have hnumber : numberNamed names.mappings name = some z := hvalue
      dsimp only
      rw [h.number, hnumber]
      exact hword
  | int n =>
      obtain rfl := Option.some.inj hvalue
      exact hword
  | uint n =>
      obtain rfl := Option.some.inj hvalue
      have hsame := toUnsigned_of_nonneg (Int.natCast_nonneg n) (holds_bounds names.width_le hz).2
      rw [Int.ofNat_inj.mp hsame] at hword
      exact hword
  | _ => cases hvalue

theorem mappedName_number (h : names.Found text) (hvalue : names.number value = some z) :
    (ProtoDefDecoder.mappedName text (decimalInt z)).getD (decimalInt z) = names.shown value z := by
  rw [h.name]
  cases value with
  | string name =>
      rw [nameGiven_of_numberNamed names.numbers hvalue]
      rfl
  | _ => rfl

end Mappers

end BedrockProtocol
