import BedrockProtocol.Protodef.ProtoDefTypes

/-!
# Widths of varint fields

The decoder reads a `varint` with 64 bits under some paths and a `varint128`
with 128 bits; the encoder knows neither the path nor numbers of more than 64
bits.  A field keeps its number as long as the narrower side holds it.
-/

namespace BedrockProtocol

namespace ProtoDefTypes

open ProtoDefValue

/-- The bytes are decoded to the text, and all of them. -/
def DecodesTo (typeName path : Text) (bytes : List UInt8) (text : Text) : Prop :=
  ∀ collectFields other decoded offset suffix,
    decodeTypeName collectFields other typeName path decoded ⟨offset, bytes ++ suffix⟩ =
      .ok (decoded.record collectFields
          { path := if path = [] then txt "$value" else path, type := typeName, value := text,
            offset := offset, size := bytes.length },
        ⟨offset + bytes.length, suffix⟩)

theorem decodesTo_of_reads {typeName path : Text} {read : Reader Text} {bytes : List UInt8}
    {text : Text} (hread : readText typeName path = some read) (h : Reads read bytes text) :
    DecodesTo typeName path bytes text := by
  intro collectFields other decoded offset suffix
  rw [decodeTypeName, hread]
  dsimp only
  rw [Reader.offset_run, Reader.bind_run (h offset suffix), Reader.offset_run]
  dsimp only
  rw [Nat.add_sub_cancel_left]
  rfl

/-- Bytes are decoded to one text only. -/
theorem DecodesTo.unique {typeName path : Text} {bytes : List UInt8} {text text' : Text}
    (h : DecodesTo typeName path bytes text) (h' : DecodesTo typeName path bytes text') :
    text = text' := by
  have hrun := (h true (fun _ _ decoded ↦ pure decoded) {} 0 []).symm.trans
    (h' true (fun _ _ decoded ↦ pure decoded) {} 0 [])
  have hdecoded := (Prod.mk.inj (Except.ok.inj hrun)).1
  have hout := congrArg Decoded.out hdecoded
  exact congrArg ProtoDefField.value (List.singleton_injective hout)

section Encoder

variable (undefinedCast : UInt64 → UInt64)
  (other : Text → ProtoDefValue → Except String (List UInt8)) {typeName : Text}

theorem encodeTypeName_varint (htype : typeName ∈ [txt "varint", txt "varuint"])
    (value : ProtoDefValue) : encodeTypeName undefinedCast other typeName value =
      (fun n ↦ leb128 4 (n % 2 ^ 32)) <$> asUInt undefinedCast value := by
  rcases List.mem_cons.mp htype with rfl | htype
  · rfl
  · obtain rfl := List.mem_singleton.mp htype
    rfl

theorem encodeTypeName_varint128 (value : ProtoDefValue) :
    encodeTypeName undefinedCast other (txt "varint128") value =
      leb128 18 <$> asUInt undefinedCast value := rfl

theorem readText_varint (htype : typeName ∈ [txt "varint", txt "varuint"]) (path : Text) :
    readText typeName path = some (decimal <$>
      if isRuntimeId path then ProtoDefReader.varuint64 else ProtoDefReader.varuint32) := by
  have hsplit : readText typeName path =
      if isRuntimeId path then some (decimal <$> ProtoDefReader.varuint64)
      else some (decimal <$> ProtoDefReader.varuint32) := by
    rcases List.mem_cons.mp htype with rfl | htype
    · rfl
    · obtain rfl := List.mem_singleton.mp htype
      rfl
  rw [hsplit]
  split <;> rfl

theorem readText_varint128 (path : Text) :
    readText (txt "varint128") path = some (decimal <$> ProtoDefReader.varuint128) := rfl

/-- What the encoder writes for a `varint` is decoded to the low 32 bits. -/
theorem decodesTo_varint (htype : typeName ∈ [txt "varint", txt "varuint"]) (path : Text) (n : ℕ) :
    DecodesTo typeName path (leb128 4 (n % 2 ^ 32)) (decimal (n % 2 ^ 32)) := by
  have hlt : n % 2 ^ 32 < 2 ^ 32 := Nat.mod_lt _ (by decide)
  refine decodesTo_of_reads (readText_varint htype path) (Reads.map ?_)
  split
  · exact ProtoDefReader.reads_varuint64_leb128 hlt
  · exact ProtoDefReader.reads_varuint32 hlt

theorem decodesTo_varint128 (path : Text) {n : ℕ} (hn : n < 2 ^ 128) :
    DecodesTo (txt "varint128") path (leb128 18 n) (decimal n) :=
  decodesTo_of_reads (readText_varint128 path) (ProtoDefReader.reads_varuint128 hn).map

/-- The numbers below the bound are written whole. -/
def encodedBound (typeName : Text) : ℕ := if typeName = txt "varint128" then 2 ^ 64 else 2 ^ 32

/-- The numbers below the bound can be read. -/
def decodedBound (typeName path : Text) : ℕ :=
  if typeName = txt "varint128" then 2 ^ 128 else if isRuntimeId path then 2 ^ 64 else 2 ^ 32

variable {undefinedCast other}

/-- What is written for a value is decoded to the number it is cast to, cut at the bound. -/
theorem decodesTo_encoded (htype : typeName ∈ [txt "varint", txt "varuint", txt "varint128"])
    (path : Text) {value : ProtoDefValue} {n : ℕ} (hn : n < 2 ^ 64)
    (hvalue : asUInt undefinedCast value = .ok n) :
    ∃ bytes, encodeTypeName undefinedCast other typeName value = .ok bytes ∧
      DecodesTo typeName path bytes (decimal (n % encodedBound typeName)) := by
  by_cases hwide : typeName = txt "varint128"
  · subst hwide
    refine ⟨leb128 18 n, ?_, ?_⟩
    · rw [encodeTypeName_varint128, hvalue]
      rfl
    · rw [encodedBound, if_pos rfl, Nat.mod_eq_of_lt hn]
      exact decodesTo_varint128 path (by omega)
  · have hnarrow : typeName ∈ [txt "varint", txt "varuint"] := by
      rcases List.mem_cons.mp htype with rfl | htype
      · exact List.mem_cons_self
      · rcases List.mem_cons.mp htype with rfl | htype
        · exact List.mem_cons_of_mem _ List.mem_cons_self
        · exact (hwide (List.mem_singleton.mp htype)).elim
    refine ⟨leb128 4 (n % 2 ^ 32), ?_, ?_⟩
    · rw [encodeTypeName_varint undefinedCast other hnarrow, hvalue]
      rfl
    · rw [encodedBound, if_neg hwide]
      exact decodesTo_varint hnarrow path n

theorem encodedBound_le (typeName : Text) : encodedBound typeName ≤ 2 ^ 64 := by
  rw [encodedBound]
  split
  · exact le_rfl
  · exact Nat.pow_le_pow_right (by decide) (by decide)

theorem encodedBound_pos (typeName : Text) : 0 < encodedBound typeName := by
  rw [encodedBound]
  split
  · exact Nat.two_pow_pos 64
  · exact Nat.two_pow_pos 32

/-- A value that is not cast to a number is refused. -/
theorem encodeTypeName_error (htype : typeName ∈ [txt "varint", txt "varuint", txt "varint128"])
    {value : ProtoDefValue} {e : String} (hvalue : asUInt undefinedCast value = .error e) :
    encodeTypeName undefinedCast other typeName value = .error e := by
  rcases List.mem_cons.mp htype with rfl | htype
  · rw [encodeTypeName_varint undefinedCast other List.mem_cons_self, hvalue]
    rfl
  · rcases List.mem_cons.mp htype with rfl | htype
    · rw [encodeTypeName_varint undefinedCast other (List.mem_cons_of_mem _ List.mem_cons_self),
        hvalue]
      rfl
    · obtain rfl := List.mem_singleton.mp htype
      rw [encodeTypeName_varint128, hvalue]
      rfl

end Encoder

section Widths

variable {undefinedCast : UInt64 → UInt64}
  {other : Text → ProtoDefValue → Except String (List UInt8)} {typeName path : Text}

/-- An accepted value is decoded to its number if it is an integer below the bound. -/
theorem encoded_number_iff (htype : typeName ∈ [txt "varint", txt "varuint", txt "varint128"])
    {value : ProtoDefValue} (hrange : value.InRange) {bytes : List UInt8}
    (hencode : encodeTypeName undefinedCast other typeName value = .ok bytes) :
    (∃ z, value.wholeNumber = some z ∧ DecodesTo typeName path bytes (decimalInt z)) ↔
      ∃ z, value.wholeNumber = some z ∧ 0 ≤ z ∧ z < encodedBound typeName := by
  cases hvalue : asUInt undefinedCast value with
  | error e =>
      rw [encodeTypeName_error htype hvalue] at hencode
      cases hencode
  | ok n =>
      have hn := asUInt_lt hrange hvalue
      obtain ⟨bytes', hencode', hdecode⟩ := decodesTo_encoded htype path hn hvalue
      obtain rfl := Except.ok.inj (hencode.symm.trans hencode')
      have hpos := encodedBound_pos typeName
      constructor
      · rintro ⟨z, hwhole, hz⟩
        have heq := hz.unique hdecode
        rw [← decimalInt_natCast] at heq
        have hlt := Nat.mod_lt n hpos
        exact ⟨z, hwhole, by rw [decimalInt_injective heq]; omega,
          by rw [decimalInt_injective heq]; exact_mod_cast hlt⟩
      · rintro ⟨z, hwhole, hlow, hhigh⟩
        have hle := encodedBound_le typeName
        have hcast := @asUInt_of_wholeNumber undefinedCast _ _ hwhole hlow (by omega)
        obtain rfl := Except.ok.inj (hvalue.symm.trans hcast)
        rw [Nat.mod_eq_of_lt (by omega), ← decimalInt_natCast, Int.toNat_of_nonneg hlow] at hdecode
        exact ⟨z, hwhole, hdecode⟩

/-- A decoded number is encoded again if it is below the bound. -/
theorem decoded_number_iff (htype : typeName ∈ [txt "varint", txt "varuint", txt "varint128"])
    (n : ℕ) :
    (∃ bytes, encodeTypeName undefinedCast other typeName (numberValue n) = .ok bytes ∧
        DecodesTo typeName path bytes (decimal n)) ↔ n < encodedBound typeName := by
  have hle := encodedBound_le typeName
  rw [numberValue]
  split
  · rename_i hn
    have hvalue : asUInt undefinedCast (.uint n) = .ok n := rfl
    obtain ⟨bytes, hencode, hdecode⟩ := @decodesTo_encoded _ other _ htype path _ _ hn hvalue
    constructor
    · rintro ⟨bytes', hencode', hdecode'⟩
      obtain rfl := Except.ok.inj (hencode.symm.trans hencode')
      have heq := decimal_injective (hdecode'.unique hdecode)
      have hlt := Nat.mod_lt n (encodedBound_pos typeName)
      omega
    · intro hlt
      rw [Nat.mod_eq_of_lt hlt] at hdecode
      exact ⟨bytes, hencode, hdecode⟩
  · rename_i hn
    refine iff_of_false ?_ (by omega)
    rintro ⟨bytes, hencode, -⟩
    rw [encodeTypeName_error htype rfl] at hencode
    cases hencode

/-- The numbers that the decoder can yield. -/
theorem decodable_iff (htype : typeName ∈ [txt "varint", txt "varuint", txt "varint128"]) (n : ℕ) :
    (∃ wire, DecodesTo typeName path wire (decimal n)) ↔ n < decodedBound typeName path := by
  obtain ⟨read, hread, hyields, hreads⟩ : ∃ read, readText typeName path = some (decimal <$> read) ∧
      Yields read (· < decodedBound typeName path) ∧
      (n < decodedBound typeName path → ∃ wire, Reads read wire n) := by
    by_cases hwide : typeName = txt "varint128"
    · subst hwide
      refine ⟨_, readText_varint128 path, ?_, fun hn ↦ ?_⟩
      · rw [decodedBound, if_pos rfl]
        exact ProtoDefReader.yields_varuint128
      · rw [decodedBound, if_pos rfl] at hn
        exact ⟨_, ProtoDefReader.reads_varuint128 hn⟩
    · have hnarrow : typeName ∈ [txt "varint", txt "varuint"] := by
        simp only [List.mem_cons, List.not_mem_nil, or_false] at htype ⊢
        tauto
      refine ⟨_, readText_varint hnarrow path, ?_⟩
      rw [decodedBound, if_neg hwide]
      split
      · exact ⟨ProtoDefReader.yields_varuint64,
          fun hn ↦ ⟨_, ProtoDefReader.reads_varuint64 hn⟩⟩
      · exact ⟨ProtoDefReader.yields_varuint32,
          fun hn ↦ ⟨_, ProtoDefReader.reads_varuint32 hn⟩⟩
  constructor
  · rintro ⟨wire, hwire⟩
    have hrun := hwire true (fun _ _ decoded ↦ pure decoded) {} 0 []
    rw [decodeTypeName, hread] at hrun
    obtain ⟨start, c, -, hrun⟩ := Reader.run_bind_eq_ok hrun
    obtain ⟨text, c', htext, hrun⟩ := Reader.run_bind_eq_ok hrun
    obtain ⟨offset, c'', -, hrun⟩ := Reader.run_bind_eq_ok hrun
    have hdecoded := (Prod.mk.inj (Except.ok.inj hrun)).1
    have hsame : text = decimal n :=
      congrArg ProtoDefField.value (List.singleton_injective (congrArg Decoded.out hdecoded))
    rw [map_eq_pure_bind] at htext
    obtain ⟨m, c₁, hm, hpure⟩ := Reader.run_bind_eq_ok htext
    have hmtext : decimal m = text := (Prod.mk.inj (Except.ok.inj hpure)).1
    rw [← decimal_injective (hmtext.trans hsame)]
    exact hyields _ _ _ hm
  · intro hn
    obtain ⟨wire, hwire⟩ := hreads hn
    exact ⟨wire, decodesTo_of_reads hread hwire.map⟩

end Widths

/-- An accepted value keeps its number exactly when it is an integer that the encoder writes
whole, and a decoded number is encoded again exactly when it is one. -/
theorem varint_numbers_kept_iff (undefinedCast : UInt64 → UInt64)
    (other : Text → ProtoDefValue → Except String (List UInt8)) (typeName path : Text)
    (htype : typeName ∈ [txt "varint", txt "varuint", txt "varint128"]) :
    (∀ (value : ProtoDefValue) (bytes : List UInt8), value.InRange →
      encodeTypeName undefinedCast other typeName value = .ok bytes →
      ((∃ z, value.wholeNumber = some z ∧ DecodesTo typeName path bytes (decimalInt z)) ↔
        ∃ z, value.wholeNumber = some z ∧ 0 ≤ z ∧ z < encodedBound typeName)) ∧
    ∀ n, (∃ wire, DecodesTo typeName path wire (decimal n)) →
      ((∃ bytes, encodeTypeName undefinedCast other typeName (numberValue n) = .ok bytes ∧
        DecodesTo typeName path bytes (decimal n)) ↔ n < encodedBound typeName) :=
  ⟨fun _ _ hrange hencode ↦ encoded_number_iff htype hrange hencode,
    fun n _ ↦ decoded_number_iff htype n⟩

theorem varint_numbers_kept_iff_runtimeId :
    (∀ (value : ProtoDefValue) (bytes : List UInt8), value.InRange →
      encodeTypeName (fun _ ↦ 0) (fun _ _ ↦ .error "unknown") (txt "varint") value = .ok bytes →
      ((∃ z, value.wholeNumber = some z ∧
          DecodesTo (txt "varint") (txt "runtime_id") bytes (decimalInt z)) ↔
        ∃ z, value.wholeNumber = some z ∧ 0 ≤ z ∧ z < encodedBound (txt "varint"))) ∧
    ∀ n, (∃ wire, DecodesTo (txt "varint") (txt "runtime_id") wire (decimal n)) →
      ((∃ bytes, encodeTypeName (fun _ ↦ 0) (fun _ _ ↦ .error "unknown") (txt "varint")
          (numberValue n) = .ok bytes ∧
        DecodesTo (txt "varint") (txt "runtime_id") bytes (decimal n)) ↔
        n < encodedBound (txt "varint")) :=
  varint_numbers_kept_iff (fun _ ↦ 0) (fun _ _ ↦ .error "unknown") (txt "varint")
    (txt "runtime_id") (by decide)

/-- The number `2 ^ 32` is read under a runtime id, and cut when it is written. -/
theorem varint_runtimeId_cut :
    ¬∀ n, (∃ wire, DecodesTo (txt "varint") (txt "runtime_id") wire (decimal n)) →
      ∃ bytes, encodeTypeName (fun _ ↦ 0) (fun _ _ ↦ .error "unknown") (txt "varint")
          (numberValue n) = .ok bytes ∧
        DecodesTo (txt "varint") (txt "runtime_id") bytes (decimal n) := by
  intro hall
  have hdecodable := (@decodable_iff (txt "varint") (txt "runtime_id")
    (by decide) (2 ^ 32)).mpr (by decide)
  have hlt := (decoded_number_iff (by decide) (2 ^ 32)).mp (hall (2 ^ 32) hdecodable)
  revert hlt
  decide

end ProtoDefTypes

end BedrockProtocol
