import BedrockProtocol.Nbt.LevelDat

/-!
# The encoding of a document that was written

`BedrockNbt::parse` without an encoding.  No compound begins like a `level.dat` header, so
the two encodings are tried, the little-endian one first.  What was written with it is
always recognised; what was written with varints is recognised unless the little-endian
reader takes it as well.
-/

namespace BedrockProtocol

namespace BedrockNbt

open BinaryStream

variable {encoding : BedrockNbtEncoding} {limits : BedrockNbtLimits} {document : NbtDocument}
  {bytes : List UInt8}

/-! ## A compound has no level header -/

theorem toByte_eq_zero {type : NbtTagType} (h : type.toByte = 0) : type = .endTag := by
  cases type <;> first | rfl | exact absurd h (by decide)

theorem writeVarUInt_zero {n : ℕ} (h : (writeVarUInt n).head? = some 0) : n = 0 := by
  rw [writeVarUInt, leb128] at h
  split at h
  · rename_i hsmall
    have hzero := congrArg UInt8.toNat (Option.some.inj h)
    rw [toNat_ofNat_of_lt (by omega)] at hzero
    exact hzero
  · have hlow : n &&& 0x7f < 128 := by
      rw [and_0x7f]
      omega
    have hzero := congrArg UInt8.toNat (Option.some.inj h)
    rw [or_0x80 hlow, toNat_ofNat_of_lt (by omega)] at hzero
    have hnil : (0 : UInt8).toNat = 0 := rfl
    omega

/-- A name whose length begins with a zero byte is empty. -/
theorem writeString_zero {name written rest : List UInt8}
    (h : writeString encoding limits name true = .ok written)
    (hzero : (written ++ rest)[0]? = some 0) (hzero' : (written ++ rest)[1]? = some 0) :
    (written = [0] ∨ written = [0, 0]) := by
  cases encoding with
  | littleVarInt =>
      simp only [writeString] at h
      split_ifs at h with hlimit hnull hlarge
      obtain rfl := Except.ok.inj h
      have hhead : (writeVarUInt name.length).head? = some 0 := by
        have hne := leb128_ne_nil 4 name.length
        rw [List.head?_eq_getElem?]
        rw [List.append_assoc, List.getElem?_append_left] at hzero
        · exact hzero
        · exact List.length_pos_iff.mpr hne
      have hnil := List.length_eq_zero_iff.mp (writeVarUInt_zero hhead)
      subst hnil
      exact .inl rfl
  | littleEndian =>
      simp only [writeString] at h
      split_ifs at h with hlimit hnull hlarge
      obtain rfl := Except.ok.inj h
      have hbytes : leBytes 2 name.length =
          [UInt8.ofNat (name.length % 256), UInt8.ofNat (name.length / 256 % 256)] := rfl
      rw [hbytes] at hzero hzero' ⊢
      have hlow := congrArg UInt8.toNat (Option.some.inj hzero)
      have hhigh := congrArg UInt8.toNat (Option.some.inj hzero')
      rw [toNat_ofNat_of_lt (Nat.mod_lt _ (by decide))] at hlow hhigh
      have hnil : name = [] := List.length_eq_zero_iff.mp (by simp at hlow hhigh; omega)
      subst hnil
      exact .inr rfl

/-- The payload of a compound begins with the tag of a child or is an end tag. -/
theorem writePayload_compound {depth total total' : ℕ} {root : NbtValue} {payload : List UInt8}
    (hroot : root.type = .compound)
    (h : writePayload encoding limits depth total root = .ok (payload, total')) :
    payload = [0] ∨ ∃ first rest, payload = first :: rest ∧ first ≠ 0 := by
  obtain ⟨type, integer, bits, text, array, elementType, items, children, ints, longs⟩ := root
  subst hroot
  obtain ⟨hdepth, total₁, haccount⟩ := writePayload_eq_ok h
  rw [writePayload, if_neg (by omega), haccount, ok_bind] at h
  dsimp only at h
  split_ifs at h with hlimit
  obtain ⟨⟨written, total₂⟩, hwritten, h⟩ := bind_eq_ok.mp h
  obtain ⟨rfl, rfl⟩ := Prod.mk.inj (Except.ok.inj h)
  cases children with
  | nil =>
      rw [writeChildren] at hwritten
      obtain ⟨rfl, rfl⟩ := Prod.mk.inj (Except.ok.inj hwritten)
      exact .inl rfl
  | cons child children =>
      rw [writeChildren] at hwritten
      split_ifs at hwritten with hend
      obtain ⟨name, -, hwritten⟩ := bind_eq_ok.mp hwritten
      obtain ⟨⟨first, total₃⟩, -, hwritten⟩ := bind_eq_ok.mp hwritten
      obtain ⟨⟨rest, total₄⟩, -, hwritten⟩ := bind_eq_ok.mp hwritten
      obtain ⟨rfl, rfl⟩ := Prod.mk.inj (Except.ok.inj hwritten)
      exact .inr ⟨_, _, rfl, fun hzero ↦ hend (toByte_eq_zero hzero)⟩

theorem not_hasBedrockLevelHeader (hroot : document.root.type = .compound)
    (hwrite : write encoding limits document = .ok bytes) :
    ¬ (8 ≤ bytes.length ∧ hasBedrockLevelHeader bytes = true) := by
  rintro ⟨hlength, hheader⟩
  rw [hasBedrockLevelHeader, decide_eq_true_iff] at hheader
  obtain ⟨-, hfirst, hsecond, hthird⟩ := hheader
  rw [write, if_neg (by simp [hroot])] at hwrite
  obtain ⟨name, hname, hwrite⟩ := bind_eq_ok.mp hwrite
  obtain ⟨⟨payload, total⟩, hpayload, hwrite⟩ := bind_eq_ok.mp hwrite
  obtain rfl := Except.ok.inj hwrite
  rw [List.getElem?_cons_succ] at hfirst hsecond hthird
  rcases writePayload_compound hroot hpayload with rfl | ⟨first, rest, rfl, hne⟩ <;>
    rcases writeString_zero hname hfirst hsecond with rfl | rfl
  · simp at hlength
  · simp at hlength
  · exact hne (Option.some.inj hsecond)
  · exact hne (Option.some.inj hthird)

/-! ## Trying the encodings -/

/-- The little-endian reader takes the input up to its end or up to the tag of a compound. -/
def ReadsLittleEndian (limits : BedrockNbtLimits) (data : List UInt8) : Prop :=
  ∃ document stream, read .littleEndian limits (Cursor.start data) = .ok (document, stream) ∧
    stream.offset ≤ data.length ∧
    ∀ next, data[stream.offset]? = some next → next = NbtTagType.compound.toByte

theorem verifyDetectedPayload_eq_ok {result : BedrockNbtParseResult}
    (hstart : result.metadata.startOffset = 0) :
    verifyDetectedPayload result = .ok () ↔
      result.metadata.size ≤ result.metadata.buffer.length ∧
      ∀ next, result.metadata.buffer[result.metadata.size]? = some next →
        next = NbtTagType.compound.toByte := by
  rw [verifyDetectedPayload, hstart, Nat.zero_add]
  split
  · rename_i hlarge
    exact ⟨fun h ↦ (nomatch h), fun h ↦ absurd h.1 (by omega)⟩
  rename_i hlarge
  cases result.metadata.buffer[result.metadata.size]? with
  | none => simp [not_lt.mp hlarge]
  | some next =>
      dsimp only
      split
      · rename_i hne
        exact ⟨fun h ↦ (nomatch h), fun h ↦ absurd (h.2 next rfl) hne⟩
      · rename_i heq
        rw [not_not] at heq
        exact ⟨fun _ ↦ ⟨by omega, fun b hb ↦ Option.some.inj hb ▸ heq⟩, fun _ ↦ rfl⟩

theorem parseDetected_eq_ok {data : List UInt8} {result : BedrockNbtParseResult} :
    parseDetected data encoding limits = .ok result ↔
      ∃ stream, read encoding limits (Cursor.start data) = .ok (result.parsed, stream) ∧
        result = { parsed := result.parsed, encoding, metadata := ⟨data, 0, stream.offset⟩ } ∧
        stream.offset ≤ data.length ∧
        ∀ next, data[stream.offset]? = some next → next = NbtTagType.compound.toByte := by
  rw [parseDetected, parseAs, if_neg (by omega), List.drop_zero]
  change _ ↔ ∃ stream, read encoding limits ⟨0, data⟩ = _ ∧ _
  cases read encoding limits ⟨0, data⟩ with
  | error message => simp
  | ok r =>
      obtain ⟨parsed, stream⟩ := r
      rw [ok_bind]
      constructor
      · intro h
        obtain ⟨⟨⟩, hverify, h⟩ := bind_eq_ok.mp h
        obtain rfl := Except.ok.inj h
        exact ⟨stream, rfl, rfl, (verifyDetectedPayload_eq_ok rfl).mp hverify⟩
      · rintro ⟨stream', hread, hresult, hverify⟩
        obtain ⟨hparsed, rfl⟩ := Prod.mk.inj (Except.ok.inj hread)
        rw [hresult, ← hparsed, Nat.sub_zero,
          (verifyDetectedPayload_eq_ok (by rfl)).mpr (by exact hverify)]
        rfl

/-- A written document is recognised in its own encoding when that is the one tried. -/
theorem parseDetected_write (hfloats : FloatsRepresentable document.root)
    (hwrite : write encoding limits document = .ok bytes) :
    parseDetected bytes encoding limits = .ok
      { parsed := tidiedDocument document, encoding, metadata := ⟨bytes, 0, bytes.length⟩ } := by
  refine parseDetected_eq_ok.mpr ⟨⟨bytes.length, []⟩, ?_, rfl, le_refl _, by simp⟩
  simpa using read_write document hfloats hwrite []

/-- What `parse` makes of a compound that was written: little-endian documents are
recognised, and of the others those that cannot be read as one. -/
theorem parse_write_iff (hroot : document.root.type = .compound)
    (hfloats : FloatsRepresentable document.root)
    (hwrite : writeUncompressed document encoding limits = .ok bytes) :
    (∃ result, parse bytes none limits = .ok result ∧ result.encoding = encoding ∧
      result.parsed = document) ↔
      tidiedDocument document = document ∧
        (encoding = .littleVarInt → ¬ ReadsLittleEndian limits bytes) := by
  have hheader := not_hasBedrockLevelHeader hroot hwrite
  have hown := parseDetected_write hfloats hwrite
  rw [parse, if_neg hheader]
  cases encoding with
  | littleEndian =>
      rw [hown]
      constructor
      · rintro ⟨result, hresult, -, hparsed⟩
        obtain rfl := Except.ok.inj hresult
        exact ⟨hparsed, fun h ↦ (nomatch h)⟩
      · rintro ⟨htidied, -⟩
        exact ⟨_, rfl, rfl, htidied⟩
  | littleVarInt =>
      cases hlittle : parseDetected bytes .littleEndian limits with
      | ok result =>
          obtain ⟨stream, hread, hresult, hverify⟩ := parseDetected_eq_ok.mp hlittle
          constructor
          · rintro ⟨result', hresult', hencoding, -⟩
            obtain rfl := Except.ok.inj hresult'
            rw [hresult] at hencoding
            cases hencoding
          · rintro ⟨-, hnot⟩
            exact absurd ⟨result.parsed, stream, hread, hverify⟩ (hnot rfl)
      | error message =>
          rw [hown]
          constructor
          · rintro ⟨result, hresult, -, hparsed⟩
            obtain rfl := Except.ok.inj hresult
            refine ⟨hparsed, fun _ ↦ ?_⟩
            rintro ⟨other, stream, hread, hverify⟩
            have hok : parseDetected bytes .littleEndian limits =
                .ok { parsed := other, metadata := ⟨bytes, 0, stream.offset⟩ } :=
              parseDetected_eq_ok.mpr ⟨stream, hread, rfl, hverify⟩
            rw [hlittle] at hok
            cases hok
          · rintro ⟨htidied, -⟩
            exact ⟨_, rfl, rfl, htidied⟩

/-- As a little-endian document the bytes would have a name of 24833 bytes. -/
theorem parse_write_floatDocument :
    ∃ bytes result, writeUncompressed floatDocument .littleVarInt {} = .ok bytes ∧
      parse bytes none {} = .ok result ∧ result.encoding = .littleVarInt ∧
      result.parsed = floatDocument := by
  obtain ⟨bytes, hwrite⟩ : ∃ bytes, writeUncompressed floatDocument .littleVarInt {} = .ok bytes :=
    ⟨_, rfl⟩
  have hlittle : ¬ ReadsLittleEndian {} bytes := by
    cases hwrite
    rintro ⟨document, stream, hread, -⟩
    cases hread
  obtain ⟨result, hresult⟩ :=
    (parse_write_iff rfl floatDocument_floats hwrite).mpr ⟨rfl, fun _ ↦ hlittle⟩
  exact ⟨bytes, result, hwrite, hresult⟩

/-- A compound of one byte whose name has 253 letters. -/
def ambiguousDocument : NbtDocument :=
  ⟨[], .compound [(List.replicate 253 0x61, { type := .byte, integerValue := 1 })]⟩

/-- The empty compound that the same bytes are in the other encoding. -/
def ambiguousReading : NbtDocument :=
  ⟨[0xfd, 1] ++ List.replicate 253 0x61 ++ [1], .compound []⟩

def ambiguousBytes : List UInt8 := [10, 0, 1, 0xfd, 1] ++ List.replicate 253 0x61 ++ [1, 0]

theorem write_ambiguousDocument :
    write .littleVarInt {} ambiguousDocument = .ok ambiguousBytes := by
  decide +kernel

theorem write_ambiguousReading :
    write .littleEndian {} ambiguousReading = .ok ambiguousBytes := by
  decide +kernel

/-- A document written with varints may be a complete little-endian document as well. -/
theorem parse_ambiguousDocument :
    ¬ (∀ (document : NbtDocument) (encoding : BedrockNbtEncoding) (limits : BedrockNbtLimits)
      (bytes : List UInt8), document.root.type = .compound →
        FloatsRepresentable document.root →
        writeUncompressed document encoding limits = .ok bytes →
        ∃ result, parse bytes none limits = .ok result ∧ result.encoding = encoding ∧
          result.parsed = document) := by
  intro hall
  have hfloats : FloatsRepresentable ambiguousDocument.root := by
    refine .compound fun child hchild ↦ ?_
    obtain rfl := List.mem_singleton.mp hchild
    exact .intro (by simp) (by simp) (by simp)
  have hfloats' : FloatsRepresentable ambiguousReading.root :=
    .compound (List.forall_mem_nil _)
  obtain ⟨result, hresult, hencoding, -⟩ :=
    hall ambiguousDocument .littleVarInt {} ambiguousBytes rfl hfloats write_ambiguousDocument
  rw [parse, if_neg (not_hasBedrockLevelHeader rfl write_ambiguousReading),
    parseDetected_write hfloats' write_ambiguousReading] at hresult
  obtain rfl := Except.ok.inj hresult
  cases hencoding

end BedrockNbt

end BedrockProtocol
