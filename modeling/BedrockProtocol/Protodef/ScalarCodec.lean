import BedrockProtocol.Protodef.VarintWidths
import BedrockProtocol.Protodef.WireSchema

/-!
# Scalars in the encoder and in the decoder

The code of a scalar is what the encoder writes and what the decoder reads.  There is one lemma
for the unsigned types and one for the signed ones, and a line for each name.
-/

namespace BedrockProtocol

open ProtoDefValue ProtoDefTypes ProtoDefReader

/-- Encoder and decoder agree on a type of integers. -/
structure IntegerCodec (typeName : Text) (type : IntegerType) : Prop where
  encodes (undefinedCast : UInt64 → UInt64)
    (other : Text → ProtoDefValue → Except String (List UInt8)) {value : ProtoDefValue} {z : ℤ} :
    value.wholeNumber = some z → type.Holds z →
      ProtoDefTypes.encodeTypeName undefinedCast other typeName value = .ok (type.bytes z)
  reads (path : Text) {z : ℤ} : type.Holds z →
    ∃ read, readText typeName path = some read ∧ Reads read (type.bytes z) (decimalInt z)

section Integers

variable {typeName : Text} {w : ℕ} {write write' : ℕ → List UInt8}

theorem integerCodec_unsigned (hw : w ≤ 64)
    (hencode : ∀ undefinedCast other value,
      ProtoDefTypes.encodeTypeName undefinedCast other typeName value =
        write' <$> asUInt undefinedCast value)
    (hwrite : ∀ n < 2 ^ w, write' n = write n)
    (hread : ∀ path, ∀ n < 2 ^ w, ∃ read, readText typeName path = some read ∧
      Reads read (write n) (decimal n)) :
    IntegerCodec typeName ⟨w, false, write⟩ where
  encodes undefinedCast other value z hvalue hz := by
    obtain ⟨hlow, hhigh⟩ : 0 ≤ z ∧ z < 2 ^ w := hz
    have hword := toUnsigned_of_nonneg hlow hhigh
    have hwide : z < 2 ^ 64 := hhigh.trans_le (pow_le_pow_right₀ (by decide) hw)
    have hnat : z.toNat = toUnsigned w z := by omega
    rw [hencode, asUInt_of_wholeNumber hvalue hlow hwide, map_ok, hnat,
      hwrite _ (toUnsigned_lt w z)]
    rfl
  reads path z hz := by
    obtain ⟨hlow, hhigh⟩ : 0 ≤ z ∧ z < 2 ^ w := hz
    have hword := toUnsigned_of_nonneg hlow hhigh
    obtain ⟨read, htext, hread⟩ := hread path _ (toUnsigned_lt w z)
    refine ⟨read, htext, ?_⟩
    rw [← decimalInt_natCast, hword] at hread
    exact hread

theorem integerCodec_signed (hw : 0 < w) (hw' : w ≤ 64)
    (hencode : ∀ undefinedCast other value,
      ProtoDefTypes.encodeTypeName undefinedCast other typeName value =
        (fun z ↦ write (toUnsigned w z)) <$> asInt undefinedCast value)
    {read : Reader Text} (htext : ∀ path, readText typeName path = some read)
    (hread : ∀ n < 2 ^ w, Reads read (write n) (decimalInt (toSigned w n))) :
    IntegerCodec typeName ⟨w, true, write⟩ where
  encodes undefinedCast other value z hvalue hz := by
    have hz' : InSigned w z := hz
    have hpow : (2 : ℤ) ^ (w - 1) ≤ 2 ^ (64 - 1) := pow_le_pow_right₀ (by decide) (by omega)
    have hwide : InSigned 64 z := ⟨(neg_le_neg hpow).trans hz'.1, hz'.2.trans_le hpow⟩
    rw [hencode, asInt_of_wholeNumber hvalue hwide]
    rfl
  reads path z hz := by
    have hz' : InSigned w z := hz
    have hword := hread _ (toUnsigned_lt w z)
    rw [toSigned_toUnsigned hw hz'] at hword
    exact ⟨read, htext path, hword⟩

end Integers

/-! ## The readers -/

theorem reads_readOptionalU8 (n : ℕ) (hn : n < 2 ^ 8) :
    Reads readOptionalU8 (leBytes 1 n) (decimal n) := by
  intro offset suffix
  have hread := ((reads_byte n).map (f := decimal)) offset suffix
  rw [Nat.mod_eq_of_lt hn] at hread
  rw [← hread]
  rfl

section Words

variable {read : Reader ℕ} {write : ℕ → List UInt8} {w : ℕ}

/-- A reader that cuts to the width of its word. -/
theorem reads_decimal (hread : ∀ n, Reads read (write n) (n % 2 ^ w)) (n : ℕ) (hn : n < 2 ^ w) :
    Reads (decimal <$> read) (write n) (decimal n) := by
  have hread := (hread n).map (f := decimal)
  rwa [Nat.mod_eq_of_lt hn] at hread

theorem reads_signed (hread : ∀ n, Reads read (write n) (n % 2 ^ w)) (n : ℕ) (hn : n < 2 ^ w) :
    Reads ((fun n ↦ decimalInt (toSigned w n)) <$> read) (write n) (decimalInt (toSigned w n)) := by
  have hread := (hread n).map (f := fun n ↦ decimalInt (toSigned w n))
  rwa [Nat.mod_eq_of_lt hn] at hread

/-- A reader that is signed itself. -/
theorem reads_toSigned (hread : ∀ n, Reads read (write n) (n % 2 ^ w)) (n : ℕ) (hn : n < 2 ^ w) :
    Reads (decimalInt <$> (toSigned w <$> read)) (write n) (decimalInt (toSigned w n)) := by
  have hread := ((hread n).map (f := toSigned w)).map (f := decimalInt)
  rwa [Nat.mod_eq_of_lt hn] at hread

end Words

theorem reads_zigzag32_word (n : ℕ) (hn : n < 2 ^ 32) :
    Reads (decimalInt <$> zigzag32) (leb128 4 (encodeZigZag 32 n)) (decimalInt (toSigned 32 n)) := by
  have hread := (reads_zigzag32 (toSigned 32 n)).map (f := decimalInt)
  rwa [toUnsigned_toSigned hn] at hread

theorem reads_zigzag64_word (n : ℕ) (hn : n < 2 ^ 64) :
    Reads (decimalInt <$> zigzag64) (leb128 9 (encodeZigZag 64 n)) (decimalInt (toSigned 64 n)) := by
  have hread := (reads_zigzag64 (toSigned 64 n)).map (f := decimalInt)
  rwa [toUnsigned_toSigned hn] at hread

/-! ## The names -/

/-- A type whose reader does not depend on the path. -/
theorem exists_readText {typeName : Text} {w : ℕ} {write : ℕ → List UInt8} {read : Reader Text}
    (htext : ∀ path, readText typeName path = some read)
    (hread : ∀ n < 2 ^ w, Reads read (write n) (decimal n)) (path : Text) (n : ℕ) (hn : n < 2 ^ w) :
    ∃ read, readText typeName path = some read ∧ Reads read (write n) (decimal n) :=
  ⟨read, htext path, hread n hn⟩

theorem integerCodec_varint {typeName : Text} (htype : typeName ∈ [txt "varint", txt "varuint"]) :
    IntegerCodec typeName ⟨32, false, leb128 4⟩ := by
  refine integerCodec_unsigned (by decide)
    (fun undefinedCast other value ↦ encodeTypeName_varint undefinedCast other htype value)
    (fun n hn ↦ by rw [Nat.mod_eq_of_lt hn]) fun path n hn ↦
      ⟨_, readText_varint htype path, Reads.map ?_⟩
  split
  · exact reads_varuint64_leb128 hn
  · exact reads_varuint32 hn

/-- A `byte` is cast to a signed integer first. -/
theorem integerCodec_byte : IntegerCodec (txt "byte") ⟨8, false, leBytes 1⟩ where
  encodes undefinedCast other value z hvalue hz := by
    obtain ⟨hlow, hhigh⟩ : 0 ≤ z ∧ z < 2 ^ 8 := hz
    have hencode : ProtoDefTypes.encodeTypeName undefinedCast other (txt "byte") value =
        (fun z ↦ leBytes 1 (toUnsigned 8 z)) <$> asInt undefinedCast value := rfl
    rw [hencode, asInt_of_wholeNumber hvalue ⟨by omega, by omega⟩]
    rfl
  reads path z hz := by
    obtain ⟨hlow, hhigh⟩ : 0 ≤ z ∧ z < 2 ^ 8 := hz
    have hword := toUnsigned_of_nonneg hlow hhigh
    have hread := reads_readOptionalU8 _ (toUnsigned_lt 8 z)
    rw [← decimalInt_natCast, hword] at hread
    exact ⟨readOptionalU8, rfl, hread⟩

section Tables

variable {typeName : Text} {write : ℕ → List UInt8}

theorem integerCodec_u8
    (hencode : ∀ undefinedCast other value,
      ProtoDefTypes.encodeTypeName undefinedCast other typeName value =
        leBytes 1 <$> asUInt undefinedCast value)
    (htext : ∀ path, readText typeName path = some readOptionalU8) :
    IntegerCodec typeName ⟨8, false, leBytes 1⟩ :=
  integerCodec_unsigned (by decide) hencode (fun _ _ ↦ rfl)
    (exists_readText htext reads_readOptionalU8)

theorem integerCodec_varuint64
    (hencode : ∀ undefinedCast other value,
      ProtoDefTypes.encodeTypeName undefinedCast other typeName value =
        leb128 9 <$> asUInt undefinedCast value)
    (htext : ∀ path, readText typeName path = some (decimal <$> varuint64)) :
    IntegerCodec typeName ⟨64, false, leb128 9⟩ :=
  integerCodec_unsigned (by decide) hencode (fun _ _ ↦ rfl)
    (exists_readText htext fun n hn ↦ (reads_varuint64 hn).map)

theorem integerCodec_word {w : ℕ} {read : Reader ℕ} (hw : w ≤ 64)
    (hread : ∀ n, Reads read (write n) (n % 2 ^ w))
    (hencode : ∀ undefinedCast other value,
      ProtoDefTypes.encodeTypeName undefinedCast other typeName value =
        write <$> asUInt undefinedCast value)
    (htext : ∀ path, readText typeName path = some (decimal <$> read)) :
    IntegerCodec typeName ⟨w, false, write⟩ :=
  integerCodec_unsigned hw hencode (fun _ _ ↦ rfl) (exists_readText htext (reads_decimal hread))

end Tables

/-- Every type of the table. -/
theorem integerCodec_of_mem : ∀ entry ∈ integerTypes, IntegerCodec entry.1 entry.2 := by
  rw [integerTypes]
  simp only [List.forall_mem_cons]
  refine ⟨?u8, ?lu8, integerCodec_byte, ?i8, ?u16, ?lu16, ?i16, ?li16, ?u32, ?lu32, ?i32, ?li32,
    ?u64, ?lu64, ?i64, ?li64, integerCodec_varint (by decide), integerCodec_varint (by decide),
    ?varint64, ?varuint64, ?varlong, ?entity, ?actor, ?runtime, ?zigzag32, ?zigzag64, ?varint128,
    fun _ h ↦ absurd h List.not_mem_nil⟩
  case u8 => exact integerCodec_u8 (fun _ _ _ ↦ rfl) fun _ ↦ rfl
  case lu8 => exact integerCodec_u8 (fun _ _ _ ↦ rfl) fun _ ↦ rfl
  case i8 =>
    exact integerCodec_signed (by decide) (by decide) (fun _ _ _ ↦ rfl) (fun _ ↦ rfl)
      (reads_signed reads_byte)
  case u16 => exact integerCodec_word (by decide) reads_u16be (fun _ _ _ ↦ rfl) fun _ ↦ rfl
  case lu16 => exact integerCodec_word (by decide) reads_u16le (fun _ _ _ ↦ rfl) fun _ ↦ rfl
  case i16 =>
    exact integerCodec_signed (by decide) (by decide) (fun _ _ _ ↦ rfl) (fun _ ↦ rfl)
      (reads_signed reads_u16be)
  case li16 =>
    exact integerCodec_signed (by decide) (by decide) (fun _ _ _ ↦ rfl) (fun _ ↦ rfl)
      (reads_signed reads_u16le)
  case u32 => exact integerCodec_word (by decide) reads_u32be (fun _ _ _ ↦ rfl) fun _ ↦ rfl
  case lu32 => exact integerCodec_word (by decide) reads_u32le (fun _ _ _ ↦ rfl) fun _ ↦ rfl
  case i32 =>
    exact integerCodec_signed (by decide) (by decide) (fun _ _ _ ↦ rfl) (fun _ ↦ rfl)
      (reads_toSigned reads_u32be)
  case li32 =>
    exact integerCodec_signed (by decide) (by decide) (fun _ _ _ ↦ rfl) (fun _ ↦ rfl)
      (reads_toSigned reads_u32le)
  case u64 => exact integerCodec_word le_rfl reads_u64be (fun _ _ _ ↦ rfl) fun _ ↦ rfl
  case lu64 => exact integerCodec_word le_rfl reads_u64le (fun _ _ _ ↦ rfl) fun _ ↦ rfl
  case i64 =>
    exact integerCodec_signed (by decide) le_rfl (fun _ _ _ ↦ rfl) (fun _ ↦ rfl)
      (reads_toSigned reads_u64be)
  case li64 =>
    exact integerCodec_signed (by decide) le_rfl (fun _ _ _ ↦ rfl) (fun _ ↦ rfl)
      (reads_toSigned reads_u64le)
  case varint64 => exact integerCodec_varuint64 (fun _ _ _ ↦ rfl) fun _ ↦ rfl
  case varuint64 => exact integerCodec_varuint64 (fun _ _ _ ↦ rfl) fun _ ↦ rfl
  case varlong => exact integerCodec_varuint64 (fun _ _ _ ↦ rfl) fun _ ↦ rfl
  case entity => exact integerCodec_varuint64 (fun _ _ _ ↦ rfl) fun _ ↦ rfl
  case actor => exact integerCodec_varuint64 (fun _ _ _ ↦ rfl) fun _ ↦ rfl
  case runtime => exact integerCodec_varuint64 (fun _ _ _ ↦ rfl) fun _ ↦ rfl
  case zigzag32 =>
    exact integerCodec_signed (by decide) (by decide) (fun _ _ _ ↦ rfl) (fun _ ↦ rfl)
      reads_zigzag32_word
  case zigzag64 =>
    exact integerCodec_signed (by decide) le_rfl (fun _ _ _ ↦ rfl) (fun _ ↦ rfl)
      reads_zigzag64_word
  case varint128 =>
    refine integerCodec_unsigned le_rfl (fun _ _ _ ↦ rfl) (fun _ _ ↦ rfl)
      (exists_readText readText_varint128 fun n hn ↦ (reads_varuint128 ?_).map)
    omega

theorem mem_of_lookup {β : Type} {entries : List (Text × β)} {key : Text} {b : β}
    (h : entries.lookup key = some b) : (key, b) ∈ entries := by
  obtain ⟨before, after, rfl, -⟩ := List.lookup_eq_some_iff.mp h
  exact List.mem_append_right _ List.mem_cons_self

theorem integerCodec {typeName : Text} {type : IntegerType}
    (htype : integerType typeName = some type) : IntegerCodec typeName type :=
  integerCodec_of_mem (typeName, type) (mem_of_lookup htype)

/-- A signed type sees a value only as a signed integer. -/
theorem exists_encodeTypeName_asInt {typeName : Text} {type : IntegerType}
    (htype : integerType typeName = some type) (hsigned : type.signed = true) :
    ∃ write : ℤ → List UInt8, ∀ undefinedCast other value,
      ProtoDefTypes.encodeTypeName undefinedCast other typeName value =
        write <$> asInt undefinedCast value := by
  have hmem := mem_of_lookup htype
  simp only [integerTypes, List.mem_cons, List.not_mem_nil, or_false, Prod.mk.injEq] at hmem
  rcases hmem with h | h | h | h | h | h | h | h | h | h | h | h | h | h | h | h | h | h | h | h | h |
    h | h | h | h | h | h <;> obtain ⟨rfl, rfl⟩ := h
  all_goals first
    | exact absurd hsigned Bool.false_ne_true
    | exact ⟨_, fun _ _ _ ↦ rfl⟩

/-! ## Scalars -/

/-- The bytes of the scalar are what the encoder writes, and they are read as its text. -/
structure ScalarAgrees (typeName : Text) (value : ProtoDefValue) (bytes : List UInt8) (text : Text) :
    Prop where
  encodes (typeJson : Text → Option Text) (undefinedCast : UInt64 → UInt64)
    (encode : Text → ProtoDefValue → Except String (List UInt8)) :
    ProtoDefEncoder.encodeTypeName typeJson undefinedCast encode typeName value = .ok bytes
  decodes (typeJson : Text → Option Text) (atEnd : Except String Unit)
    (decode : Text → Text → Decoded → Reader Decoded) (path : Text) (decoded : Decoded)
    (offset : ℕ) (suffix : List UInt8) :
    ProtoDefDecoder.decodeTypeName typeJson true atEnd decode typeName path decoded
        ⟨offset, bytes ++ suffix⟩ =
      .ok (decoded.record true
          { path := orName path "$value", type := typeName, value := text, offset := offset,
            size := bytes.length },
        ⟨offset + bytes.length, suffix⟩)

section Scalars

variable {typeName : Text} {value : ProtoDefValue} {bytes : List UInt8} {text : Text}

open ProtoDefDecoder

/-- The readers of the primitive types, apart from those that can do without a byte. -/
theorem decodeTypeName_of_reads {path : Text} {read : Reader Text}
    (hbyte : typeName ∉ [txt "u8", txt "lu8", txt "byte"])
    (htext : readText typeName path = some read) (hread : Reads read bytes text)
    (typeJson : Text → Option Text) (atEnd : Except String Unit)
    (decode : Text → Text → Decoded → Reader Decoded) (decoded : Decoded) (offset : ℕ)
    (suffix : List UInt8) :
    ProtoDefDecoder.decodeTypeName typeJson true atEnd decode typeName path decoded
        ⟨offset, bytes ++ suffix⟩ =
      .ok (decoded.record true
          { path := orName path "$value", type := typeName, value := text, offset := offset,
            size := bytes.length },
        ⟨offset + bytes.length, suffix⟩) := by
  rw [ProtoDefDecoder.decodeTypeName, if_neg hbyte]
  exact decodesTo_of_reads htext hread true _ decoded offset suffix

/-- There is a byte, so none is missing. -/
theorem reads_orMissing {atEnd : Except String Unit} {read : Reader Text} {b : UInt8}
    (hread : Reads read (b :: bytes) text) : Reads (orMissing atEnd read) (b :: bytes) text := by
  intro offset suffix
  rw [orMissing, Reader.remaining_run]
  exact hread offset suffix

theorem reads_orMissing_u8 (atEnd : Except String Unit) {n : ℕ} (hn : n < 2 ^ 8) :
    Reads (orMissing atEnd ((fun b ↦ decimal b.toNat) <$> ProtoDefReader.u8)) (leBytes 1 n)
      (decimal n) := by
  have hread := (reads_u8 (UInt8.ofNat (n % 256))).map (f := fun b ↦ decimal b.toNat)
  have hmod : n % 256 = n := Nat.mod_eq_of_lt hn
  rw [toNat_ofNat_of_lt (Nat.mod_lt n (by decide)), hmod] at hread
  have hbytes : leBytes 1 n = [UInt8.ofNat n] := by rw [leBytes, hmod, leBytes]
  rw [← hbytes] at hread
  exact reads_orMissing hread

theorem decodeTypeName_byte (hbyte : typeName ∈ [txt "u8", txt "lu8", txt "byte"]) {n : ℕ}
    (hn : n < 2 ^ 8) (typeJson : Text → Option Text) (atEnd : Except String Unit)
    (decode : Text → Text → Decoded → Reader Decoded) (path : Text) (decoded : Decoded)
    (offset : ℕ) (suffix : List UInt8) :
    ProtoDefDecoder.decodeTypeName typeJson true atEnd decode typeName path decoded
        ⟨offset, leBytes 1 n ++ suffix⟩ =
      .ok (decoded.record true
          { path := orName path "$value", type := typeName, value := decimal n, offset := offset,
            size := (leBytes 1 n).length },
        ⟨offset + (leBytes 1 n).length, suffix⟩) := by
  have hread := reads_orMissing_u8 atEnd hn offset suffix
  rw [ProtoDefDecoder.decodeTypeName, if_pos hbyte, Reader.offset_run, Reader.bind_run hread,
    Reader.offset_run]
  dsimp only
  rw [Nat.add_sub_cancel_left]
  rfl

theorem scalarAgrees_integer {type : IntegerType} {z : ℤ}
    (htype : integerType typeName = some type) (hvalue : value.wholeNumber = some z)
    (hz : type.Holds z) : ScalarAgrees typeName value (type.bytes z) (decimalInt z) := by
  have hcodec := integerCodec htype
  refine ⟨fun typeJson undefinedCast encode ↦ hcodec.encodes undefinedCast _ hvalue hz,
    fun typeJson atEnd decode path decoded offset suffix ↦ ?_⟩
  by_cases hbyte : typeName ∈ [txt "u8", txt "lu8", txt "byte"]
  · have hu8 : type = ⟨8, false, leBytes 1⟩ := by
      simp only [List.mem_cons, List.not_mem_nil, or_false] at hbyte
      rcases hbyte with rfl | rfl | rfl
      · exact (Option.some.inj htype).symm
      · exact (Option.some.inj htype).symm
      · exact (Option.some.inj htype).symm
    subst hu8
    obtain ⟨hlow, hhigh⟩ : 0 ≤ z ∧ z < 2 ^ 8 := hz
    have hword := toUnsigned_of_nonneg hlow hhigh
    rw [← hword, decimalInt_natCast, hword]
    exact decodeTypeName_byte hbyte (toUnsigned_lt 8 z) typeJson atEnd decode path decoded offset
      suffix
  · obtain ⟨read, htext, hread⟩ := hcodec.reads path hz
    exact decodeTypeName_of_reads hbyte htext hread typeJson atEnd decode decoded offset suffix

theorem scalarAgrees_string {bound : ℕ} {write : ℕ → List UInt8}
    (htype : stringType typeName = some (bound, write)) (hbound : text.length < bound) :
    ScalarAgrees typeName (.string text) (write text.length ++ text) text := by
  have hmany := ElementCounts.Counted.reads_many_u8 text
  have hmem := mem_of_lookup htype
  simp only [stringTypes, List.mem_cons, List.not_mem_nil, or_false, Prod.mk.injEq] at hmem
  obtain ⟨rfl, rfl, rfl⟩ | ⟨rfl, rfl, rfl⟩ | ⟨rfl, rfl, rfl⟩ := hmem
  · refine ⟨fun typeJson undefinedCast encode ↦ ?_, fun typeJson atEnd decode path ↦
      decodeTypeName_of_reads (by decide) rfl ?_ typeJson atEnd decode⟩
    · change Except.ok (leb128 4 (text.length % 2 ^ 32) ++ text) = _
      rw [Nat.mod_eq_of_lt hbound]
    · exact (reads_varuint32 hbound).bind (Reads.take text rfl)
  · refine ⟨fun typeJson undefinedCast encode ↦ rfl, fun typeJson atEnd decode path ↦
      decodeTypeName_of_reads (by decide) rfl ?_ typeJson atEnd decode⟩
    have hlength := reads_u16le text.length
    rw [Nat.mod_eq_of_lt hbound] at hlength
    exact hlength.bind hmany
  · refine ⟨fun typeJson undefinedCast encode ↦ rfl, fun typeJson atEnd decode path ↦
      decodeTypeName_of_reads (by decide) rfl ?_ typeJson atEnd decode⟩
    have hlength := (reads_u32le text.length).map (f := toSigned 32)
    rw [Nat.mod_eq_of_lt (by omega), toSigned, if_pos hbound] at hlength
    refine hlength.bind ?_
    rw [if_neg (by omega), Int.toNat_natCast]
    exact hmany

/-- The types that `readText` does not have. -/
theorem decodeTypeName_of_readsOther {path : Text} {read : Reader (Text × Option ProtoDefValue)}
    {structuredValue : Option ProtoDefValue}
    (hbyte : typeName ∉ [txt "u8", txt "lu8", txt "byte"]) (htext : readText typeName path = none)
    (hother : readOther typeName = some read) (hread : Reads read bytes (text, structuredValue))
    (typeJson : Text → Option Text) (atEnd : Except String Unit)
    (decode : Text → Text → Decoded → Reader Decoded) (decoded : Decoded) (offset : ℕ)
    (suffix : List UInt8) :
    ProtoDefDecoder.decodeTypeName typeJson true atEnd decode typeName path decoded
        ⟨offset, bytes ++ suffix⟩ =
      .ok (decoded.record true
          { path := orName path "$value", type := typeName, value := text, offset := offset,
            size := bytes.length, structuredValue },
        ⟨offset + bytes.length, suffix⟩) := by
  rw [ProtoDefDecoder.decodeTypeName, if_neg hbyte, ProtoDefTypes.decodeTypeName, htext]
  dsimp only
  rw [decodeNamed, hother]
  dsimp only
  rw [Reader.offset_run, Reader.bind_run (hread offset suffix)]
  dsimp only
  rw [Reader.offset_run, Nat.add_sub_cancel_left]
  rfl

theorem scalarAgrees_float {type : FloatType} (htype : floatType typeName = some type)
    (bits : UInt64) : ScalarAgrees typeName (.double bits) (type.write (type.word bits))
      (fixedText (type.read (type.word bits))) := by
  have hword32 : (narrow bits).toNat % 2 ^ 32 = (narrow bits).toNat :=
    Nat.mod_eq_of_lt (narrow bits).toNat_lt
  have hword64 : bits.toNat % 2 ^ 64 = bits.toNat := Nat.mod_eq_of_lt bits.toNat_lt
  have hmem := mem_of_lookup htype
  simp only [floatTypes, List.mem_cons, List.not_mem_nil, or_false, Prod.mk.injEq] at hmem
  obtain ⟨rfl, rfl⟩ | ⟨rfl, rfl⟩ | ⟨rfl, rfl⟩ | ⟨rfl, rfl⟩ := hmem
  · refine ⟨fun typeJson undefinedCast encode ↦ rfl, fun typeJson atEnd decode path ↦
      decodeTypeName_of_readsOther (by decide) rfl rfl ?_ typeJson atEnd decode⟩
    have hread := reads_u32be (narrow bits).toNat
    rw [hword32] at hread
    exact hread.map.map
  · refine ⟨fun typeJson undefinedCast encode ↦ rfl, fun typeJson atEnd decode path ↦
      decodeTypeName_of_readsOther (by decide) rfl rfl ?_ typeJson atEnd decode⟩
    have hread := reads_u32le (narrow bits).toNat
    rw [hword32] at hread
    exact hread.map.map
  · refine ⟨fun typeJson undefinedCast encode ↦ rfl, fun typeJson atEnd decode path ↦
      decodeTypeName_of_readsOther (by decide) rfl rfl ?_ typeJson atEnd decode⟩
    have hread := reads_u64be bits.toNat
    rw [hword64] at hread
    exact hread.map.map
  · refine ⟨fun typeJson undefinedCast encode ↦ rfl, fun typeJson atEnd decode path ↦
      decodeTypeName_of_readsOther (by decide) rfl rfl ?_ typeJson atEnd decode⟩
    have hread := reads_u64le bits.toNat
    rw [hword64] at hread
    exact hread.map.map

theorem scalarAgrees_void (value : ProtoDefValue) :
    ScalarAgrees (txt "void") value [] (txt "<void>") :=
  ⟨fun _ _ _ ↦ rfl, fun typeJson atEnd decode path ↦
    decodeTypeName_of_reads (by decide) rfl (Reads.pure _) typeJson atEnd decode⟩

theorem scalarAgrees_bool (b : Bool) :
    ScalarAgrees (txt "bool") (.bool b) [if b then 1 else 0]
      (if b then txt "true" else txt "false") := by
  refine ⟨fun _ _ _ ↦ rfl, fun typeJson atEnd decode path ↦
    decodeTypeName_of_reads (by decide) rfl ?_ typeJson atEnd decode⟩
  have hread := ((reads_u8 (if b then 1 else 0)).map (f := fun c : UInt8 ↦ decide (c ≠ 0))).map
    (f := fun b ↦ if b then txt "true" else txt "false")
  cases b
  · exact hread
  · exact hread

/-- Every scalar. -/
theorem scalarAgrees (h : scalarCode typeName value = some (bytes, text)) :
    ScalarAgrees typeName value bytes text := by
  unfold scalarCode at h
  cases hinteger : integerType typeName with
  | some type =>
      rw [hinteger] at h
      obtain ⟨z, hvalue, h⟩ := Option.bind_eq_some_iff.mp h
      split at h
      · rename_i hz
        obtain ⟨rfl, rfl⟩ := Prod.mk.inj (Option.some.inj h)
        exact scalarAgrees_integer hinteger hvalue hz
      · cases h
  | none =>
  cases hfloat : floatType typeName with
  | some type =>
      rw [hinteger, hfloat] at h
      cases value with
      | double bits =>
          obtain ⟨rfl, rfl⟩ := Prod.mk.inj (Option.some.inj h)
          exact scalarAgrees_float hfloat bits
      | _ => cases h
  | none =>
  cases hstring : stringType typeName with
  | some type =>
      obtain ⟨bound, write⟩ := type
      rw [hinteger, hfloat, hstring] at h
      cases value with
      | string text =>
          dsimp only at h
          split at h
          · rename_i hbound
            obtain ⟨rfl, rfl⟩ := Prod.mk.inj (Option.some.inj h)
            exact scalarAgrees_string hstring hbound
          · cases h
      | _ => cases h
  | none =>
      rw [hinteger, hfloat, hstring] at h
      dsimp only at h
      by_cases hvoid : typeName = txt "void"
      · rw [if_pos hvoid] at h
        obtain ⟨rfl, rfl⟩ := Prod.mk.inj (Option.some.inj h)
        exact hvoid ▸ scalarAgrees_void value
      by_cases hbool : typeName = txt "bool"
      · rw [if_neg hvoid, if_pos hbool] at h
        cases value with
        | bool b =>
            obtain ⟨rfl, rfl⟩ := Prod.mk.inj (Option.some.inj h)
            exact hbool ▸ scalarAgrees_bool b
        | _ => cases h
      · rw [if_neg hvoid, if_neg hbool] at h
        cases h

end Scalars

end BedrockProtocol
