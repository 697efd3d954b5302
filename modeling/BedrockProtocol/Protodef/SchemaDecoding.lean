import BedrockProtocol.Protodef.SchemaEncoding
import BedrockProtocol.Protodef.SchemaRecords

/-!
# The decoder reads what the schema means

From any context and at any path the decoder consumes the bytes of a value, whatever follows, and
records its fields one after the other.  A switch looks its discriminator up in the context: the
fields in between write under other names, so the text is still there.
-/

namespace BedrockProtocol

open SchemaText

/-! ## The kinds of types -/

section Kinds

variable {typeJson : Text → Option Text} {protoDefVariables : List (Text × Text)}
  {atEnd : Except String Unit} {decode : Text → Text → Decoded → Reader Decoded} {turns : ℕ}
  {text path : Text} {decoded : Decoded}

open ProtoDefDecoder

theorem decodeLevel_typeName {typeName : Text} (h : trim text = ProtoDefEncoder.quoted typeName) :
    decodeLevel typeJson protoDefVariables true atEnd decode turns text path decoded =
      ProtoDefDecoder.decodeTypeName typeJson true atEnd decode typeName path decoded := by
  unfold decodeLevel
  dsimp only
  rw [h, if_pos (isJsonString_quoted typeName), unquote_quoted]

theorem decodeLevel_container (h : startsWith (trim text) (txt "[\"container\"") = true) :
    decodeLevel typeJson protoDefVariables true atEnd decode turns text path decoded =
      decodeContainer decode (trim text) path decoded := by
  unfold decodeLevel
  dsimp only
  rw [if_neg (not_isJsonString h)]
  generalize trim text = type at h ⊢
  obtain ⟨rest, rfl⟩ := List.isPrefixOf_iff_prefix.mp h
  rfl

theorem decodeLevel_array (h : startsWith (trim text) (txt "[\"array\"") = true) :
    decodeLevel typeJson protoDefVariables true atEnd decode turns text path decoded =
      ElementCounts.decodeArray true decode (trim text) path decoded := by
  unfold decodeLevel
  dsimp only
  rw [if_neg (not_isJsonString h)]
  generalize trim text = type at h ⊢
  obtain ⟨rest, rfl⟩ := List.isPrefixOf_iff_prefix.mp h
  rfl

theorem decodeLevel_mapper (h : startsWith (trim text) (txt "[\"mapper\"") = true) :
    decodeLevel typeJson protoDefVariables true atEnd decode turns text path decoded =
      decodeMapper true atEnd (trim text) path decoded := by
  unfold decodeLevel
  dsimp only
  rw [if_neg (not_isJsonString h)]
  generalize trim text = type at h ⊢
  obtain ⟨rest, rfl⟩ := List.isPrefixOf_iff_prefix.mp h
  rfl

theorem decodeLevel_switch (h : startsWith (trim text) (txt "[\"switch\"") = true) :
    decodeLevel typeJson protoDefVariables true atEnd decode turns text path decoded =
      decodeSwitch protoDefVariables true decode (trim text) path decoded := by
  unfold decodeLevel
  dsimp only
  rw [if_neg (not_isJsonString h)]
  generalize trim text = type at h ⊢
  obtain ⟨rest, rfl⟩ := List.isPrefixOf_iff_prefix.mp h
  rfl

theorem decodeLevel_option (h : startsWith (trim text) (txt "[\"option\"") = true) :
    decodeLevel typeJson protoDefVariables true atEnd decode turns text path decoded =
      decodeOption true atEnd decode (trim text) path decoded := by
  unfold decodeLevel
  dsimp only
  rw [if_neg (not_isJsonString h)]
  generalize trim text = type at h ⊢
  obtain ⟨rest, rfl⟩ := List.isPrefixOf_iff_prefix.mp h
  rfl

theorem decodeLevel_pstring (h : startsWith (trim text) (txt "[\"pstring\"") = true) :
    decodeLevel typeJson protoDefVariables true atEnd decode turns text path decoded =
      ElementCounts.decodePString true (trim text) path decoded := by
  unfold decodeLevel
  dsimp only
  rw [if_neg (not_isJsonString h)]
  generalize trim text = type at h ⊢
  obtain ⟨rest, rfl⟩ := List.isPrefixOf_iff_prefix.mp h
  rfl

theorem decodeLevel_buffer (h : startsWith (trim text) (txt "[\"buffer\"") = true) :
    decodeLevel typeJson protoDefVariables true atEnd decode turns text path decoded =
      ElementCounts.decodeBuffer true (trim text) path decoded := by
  unfold decodeLevel
  dsimp only
  rw [if_neg (not_isJsonString h)]
  generalize trim text = type at h ⊢
  obtain ⟨rest, rfl⟩ := List.isPrefixOf_iff_prefix.mp h
  rfl

theorem decodeLevel_encapsulated (h : startsWith (trim text) (txt "[\"encapsulated\"") = true) :
    decodeLevel typeJson protoDefVariables true atEnd decode turns text path decoded =
      ElementCounts.decodeEncapsulated decode (trim text) path decoded := by
  unfold decodeLevel
  dsimp only
  rw [if_neg (not_isJsonString h)]
  generalize trim text = type at h ⊢
  obtain ⟨rest, rfl⟩ := List.isPrefixOf_iff_prefix.mp h
  rfl

/-- A name that only the resolver knows. -/
theorem decodeTypeName_named {typeName json : Text} (hname : typeName ∉ primitiveTypes)
    (hjson : typeJson typeName = some json) :
    ProtoDefDecoder.decodeTypeName typeJson true atEnd decode typeName path decoded =
      decode json path decoded := by
  simp only [primitiveTypes, integerTypes, floatTypes, stringTypes, List.map_cons, List.map_nil,
    List.mem_append, List.mem_cons, List.not_mem_nil, or_false, not_or] at hname
  have htext : ProtoDefTypes.readText typeName path = none := by
    simp only [ProtoDefTypes.readText, hname, List.mem_cons, List.not_mem_nil, or_false, if_false]
  have hother : readOther typeName = none := by
    simp only [readOther, hname, List.mem_cons, List.not_mem_nil, or_false, if_false]
  have hbyte : typeName ∉ [txt "u8", txt "lu8", txt "byte"] := by
    simp only [hname, List.mem_cons, List.not_mem_nil, or_false, not_false_eq_true]
  have hsize : typeName ≠ txt "enum_size_based_on_values_len" := by
    simp only [ne_eq, hname, not_false_eq_true]
  rw [ProtoDefDecoder.decodeTypeName, if_neg hbyte, ProtoDefTypes.decodeTypeName, htext]
  dsimp only
  rw [decodeNamed, hother]
  dsimp only
  rw [if_neg hsize, hjson]

end Kinds

/-! ## Mappers -/

open ProtoDefDecoder in
/-- The number of a mapper is read as its digits. -/
theorem readNumeric_reads {baseType : Text} {type : IntegerType} {z : ℤ}
    (hmem : baseType ∈ mapperTypes) (htype : integerType baseType = some type)
    (hholds : type.Holds z) (atEnd : Except String Unit) :
    ∃ read, readNumeric atEnd baseType = some read ∧ Reads read (type.bytes z) (decimalInt z) := by
  by_cases hu8 : baseType ∈ [txt "u8", txt "lu8"]
  · have hsame : type = ⟨8, false, leBytes 1⟩ := by
      simp only [List.mem_cons, List.not_mem_nil, or_false] at hu8
      rcases hu8 with rfl | rfl
      · exact (Option.some.inj htype).symm
      · exact (Option.some.inj htype).symm
    subst hsame
    obtain ⟨hlow, hhigh⟩ : 0 ≤ z ∧ z < 2 ^ 8 := hholds
    have hread := reads_orMissing_u8 atEnd (toUnsigned_lt 8 z)
    rw [← decimalInt_natCast, toUnsigned_of_nonneg hlow hhigh] at hread
    exact ⟨_, by rw [readNumeric, if_pos hu8], hread⟩
  · -- The other readers do not depend on the path, or only on the path of a runtime id.
    have hsame : readNumeric atEnd baseType = ProtoDefTypes.readText baseType [] := by
      simp only [mapperTypes, List.mem_cons, List.not_mem_nil, or_false] at hmem hu8
      rcases hmem with rfl | rfl | rfl | rfl | rfl | rfl | rfl | rfl | rfl | rfl | rfl | rfl |
        rfl | rfl | rfl | rfl | rfl
      · exact absurd (.inl rfl) hu8
      · exact absurd (.inr rfl) hu8
      all_goals rfl
    obtain ⟨read, htext, hread⟩ := (integerCodec htype).reads [] hholds
    exact ⟨read, hsame.trans htext, hread⟩

/-! ## The decoder -/

section Decoding

variable {typeJson : Text → Option Text} {protoDefVariables : List (Text × Text)}

open ProtoDefDecoder

/-- A type that is decoded to one field, which later fields look up as it is. -/
theorem decodesRecords_single {run : Decoded → Reader Decoded} {bytes : List UInt8}
    {record : Recorded} {decoded : Decoded} (hknown : record.known = record.value)
    (h : ∀ offset suffix, ∃ field : ProtoDefField, field.Matches record ∧
      run decoded ⟨offset, bytes ++ suffix⟩ =
        .ok (decoded.record true field, ⟨offset + bytes.length, suffix⟩)) :
    DecodesRecords run bytes [record] decoded := by
  intro offset suffix
  obtain ⟨field, hfield, hrun⟩ := h offset suffix
  exact ⟨_, hrun, Grows.record hfield hknown decoded⟩

theorem decodesRecords_scalar {typeName : Text} {value : ProtoDefValue} {bytes : List UInt8}
    {text : Text} (h : scalarCode typeName value = some (bytes, text)) (atEnd : Except String Unit)
    (decode : Text → Text → Decoded → Reader Decoded) (path : Text) (decoded : Decoded) :
    DecodesRecords (ProtoDefDecoder.decodeTypeName typeJson true atEnd decode typeName path) bytes
      [{ path := orName path "$value", value := text }] decoded :=
  decodesRecords_single rfl fun offset suffix ↦
    ⟨_, ⟨rfl, rfl, rfl⟩, (scalarAgrees h).decodes typeJson atEnd decode path decoded offset suffix⟩

/-- A number and the text that it is mapped to. -/
theorem decodesRecords_mapper {mapperJson baseType numeric mapped : Text} {read : Reader Text}
    {bytes : List UInt8} {atEnd : Except String Unit}
    (hbase : readJsonStringField mapperJson (txt "type") = some baseType)
    (hnumeric : readNumeric atEnd baseType = some read) (hread : Reads read bytes numeric)
    (hmapped : (mappedName mapperJson numeric).getD numeric = mapped) (path : Text) (decoded : Decoded) :
    DecodesRecords (decodeMapper true atEnd mapperJson path) bytes
      [{ path := orName path "$value", value := numeric ++ txt "/" ++ mapped, known := mapped }]
      decoded := by
  intro offset suffix
  let field : ProtoDefField :=
    { path := orName path "$value"
      type := txt "mapper<" ++ baseType ++ txt ">"
      value := numeric ++ txt "/" ++ mapped
      offset := offset
      size := offset + bytes.length - offset }
  refine ⟨(decoded.appendField true field).setContext field.path mapped, ?_,
    ⟨[field], rfl, .cons ⟨rfl, rfl, rfl⟩ .nil⟩, rfl⟩
  rw [decodeMapper, hbase]
  dsimp only
  rw [hnumeric]
  dsimp only
  rw [Reader.offset_run, Reader.bind_run (hread offset suffix), Reader.offset_run, hmapped]
  rfl

/-- The size of an array or a buffer is read. -/
theorem reads_size {size : WireSize} {json path : Text} {context : ProtoDefContext}
    {owner : String} {allowRemaining lastPart : Bool} {count : ℕ} {header : List UInt8}
    (hsize : size.Described json) (h : size.code count = some header) :
    Reads (do
        let fixedCount ← readJsonIntegerField json (txt "count")
        ElementCounts.readSize owner allowRemaining lastPart json path context fixedCount)
      header (count : ℤ) := by
  refine (ElementCounts.Counted.reads_readSize_iff (encodeSize_of_code hsize h)).mpr ?_
  rw [ElementCounts.Counted.SizeFits]
  cases size with
  | counted countType =>
      obtain ⟨hfixed, hreferenced, htype⟩ := hsize
      rw [hfixed, hreferenced, htype]
      exact (countCode_eq_some h).1
  | fixed expected =>
      have hfixed : readJsonIntegerField json (txt "count") = .ok (some expected) := hsize
      rw [WireSize.code] at h
      split at h
      · rename_i hcount
        rw [hfixed, hcount.1]
        exact hcount.2
      · cases h

theorem reads_countCode {countType : Text} {count : ℕ} {header : List UInt8}
    (h : countCode countType count = some header) (allowRemaining : Bool) (owner message : String) :
    Reads (ElementCounts.readCount countType allowRemaining owner >>=
      ElementCounts.nonnegative message) header (count : ℤ) := by
  obtain ⟨hbound, hwrite⟩ := countCode_eq_some h
  exact (((ElementCounts.countReads_readCount hwrite allowRemaining owner).nonnegative
    message).reads_iff).mpr hbound

/-- The elements from the index `i`, one after the other. -/
theorem decodesRecords_items {decode : Text → Text → Decoded → Reader Decoded} {itemType : Text}
    {records : Text → ProtoDefValue → List Recorded} (path : Text) {items : List ProtoDefValue}
    {chunks : List (List UInt8)} (i : ℕ)
    (h : List.Forall₂ (fun value chunk ↦ ∀ path decoded,
      DecodesRecords (decode itemType path) chunk (records path value) decoded) items chunks)
    (decoded : Decoded) :
    DecodesRecords (fun decoded ↦ (List.range' i items.length).foldlM (fun decoded i ↦
        Reader.mapError (fun e ↦ "at " ++ shown (ElementCounts.itemPath path i) ++ ": " ++ e)
          (decode itemType (ElementCounts.itemPath path i) decoded)) decoded)
      chunks.flatten (itemRecords records path i items) decoded := by
  induction h generalizing i decoded with
  | nil => exact DecodesRecords.pure decoded
  | cons hfirst _ ih =>
      rw [List.length_cons, List.range'_succ, List.flatten_cons, itemRecords]
      exact (hfirst _ decoded).mapError.bind fun decoded' _ ↦ ih (i + 1) decoded'

theorem decodesRecords_pstring {json content header : Text} {countType : WireName}
    (htype : (readJsonStringField json (txt "countType")).getD (txt "varint") = countType.1)
    (h : countCode countType.1 content.length = some header) (path : Text) (decoded : Decoded) :
    DecodesRecords (ElementCounts.decodePString true json path) (header ++ content)
      [{ path := orName path "$string", value := content }] decoded := by
  have hsize : Reads (ElementCounts.Counted.size .pstring json path decoded.context) header
      (content.length : ℤ) := by
    rw [ElementCounts.Counted.size, ElementCounts.pstringLength, htype]
    exact reads_countCode h false "pstring" _
  refine decodesRecords_single rfl fun offset suffix ↦ ?_
  obtain ⟨field, hpath, hvalue, hstructured, hrun⟩ :=
    ElementCounts.Counted.decodePString_run true hsize offset suffix
  refine ⟨field, ⟨hpath, hvalue, hstructured⟩, ?_⟩
  rw [List.append_assoc, hrun, List.length_append, Nat.add_assoc]

theorem decodesRecords_buffer {json : Text} {size : WireSize} (hsize : size.Described json)
    {content header : List UInt8} (h : size.code content.length = some header) (path : Text)
    (decoded : Decoded) :
    DecodesRecords (ElementCounts.decodeBuffer true json path) (header ++ content)
      [{ path := orName path "$buffer", value := bufferText content.length
         structuredValue := some (.bytes content) }] decoded := by
  have hread : Reads (ElementCounts.Counted.size .buffer json path decoded.context) header
      (content.length : ℤ) := reads_size hsize h
  refine decodesRecords_single rfl fun offset suffix ↦ ?_
  obtain ⟨field, hpath, hvalue, hstructured, hrun⟩ :=
    ElementCounts.Counted.decodeBuffer_run true hread offset suffix
  rw [decimalInt_natCast] at hvalue
  refine ⟨field, ⟨hpath, hvalue, hstructured⟩, ?_⟩
  rw [List.append_assoc, hrun, List.length_append, Nat.add_assoc]

theorem decodesRecords_array {json itemType path : Text} {size : WireSize}
    {records : Text → ProtoDefValue → List Recorded}
    {decode : Text → Text → Decoded → Reader Decoded} (hsize : size.Described json)
    (htype : readJsonValueField json (txt "type") = some itemType)
    {items : List ProtoDefValue} {header : List UInt8} {chunks : List (List UInt8)}
    (h : size.code items.length = some header)
    (hchunks : List.Forall₂ (fun value chunk ↦ ∀ path decoded,
      DecodesRecords (decode itemType path) chunk (records path value) decoded) items chunks)
    (decoded : Decoded) :
    DecodesRecords (ElementCounts.decodeArray true decode json path) (header ++ chunks.flatten)
      (countRecord path items.length :: itemRecords records path 0 items) decoded := by
  intro offset suffix
  have hread : Reads (ElementCounts.Counted.size .array json path decoded.context) header
      (items.length : ℤ) := reads_size hsize h
  obtain ⟨countField, hpath, hvalue, hstructured, hrun⟩ :=
    ElementCounts.Counted.decodeArray_run true decode htype hread offset (chunks.flatten ++ suffix)
  have hitems := decodesRecords_items path 0 hchunks
    (decoded.record true countField) (offset + header.length) suffix
  obtain ⟨decoded', hdecode, hgrows⟩ := hitems
  have hcount : countField.Matches (countRecord path items.length) := ⟨hpath, hvalue, hstructured⟩
  refine ⟨decoded', ?_, (Grows.record hcount rfl decoded).trans hgrows⟩
  rw [List.append_assoc, hrun, ElementCounts.decodeItems, List.range_eq_range',
    List.length_append, ← Nat.add_assoc]
  exact hdecode

theorem decodesRecords_encapsulated {json innerType path : Text} {lengthType : WireName}
    {decode : Text → Text → Decoded → Reader Decoded}
    (hlength : (readJsonStringField json (txt "lengthType")).getD (txt "varint") = lengthType.1)
    (htype : readJsonValueField json (txt "type") = some innerType)
    {payload header : List UInt8} {records : List Recorded} {decoded : Decoded}
    (h : countCode lengthType.1 payload.length = some header)
    (hinner : DecodesRecords (decode innerType path) payload records decoded) :
    DecodesRecords (ElementCounts.decodeEncapsulated decode json path) (header ++ payload) records
      decoded := by
  intro offset suffix
  have hsize : Reads (ElementCounts.Counted.size .encapsulated json path decoded.context) header
      (payload.length : ℤ) := by
    rw [ElementCounts.Counted.size, ElementCounts.encapsulatedLength, hlength]
    exact reads_countCode h false "encapsulated" _
  obtain ⟨decoded', hrun, hgrows⟩ := hinner (offset + header.length) suffix
  refine ⟨decoded', ?_, hgrows⟩
  rw [List.append_assoc, ElementCounts.Counted.decodeEncapsulated_run decode htype hsize, hrun,
    List.length_append, Nat.add_assoc]

theorem decodesRecords_absent (atEnd : Except String Unit)
    (decode : Text → Text → Decoded → Reader Decoded) (json path : Text) (decoded : Decoded) :
    DecodesRecords (decodeOption true atEnd decode json path) [0] [presentRecord path false]
      decoded := by
  refine decodesRecords_single rfl fun offset suffix ↦ ?_
  refine ⟨{ path := if path = [] then txt "$option" else path ++ txt ".$present"
            type := txt "option_present", value := txt "false"
            offset := offset, size := offset + 1 - offset }, ⟨rfl, rfl, rfl⟩, ?_⟩
  have hremaining : ¬(([0] ++ suffix : List UInt8).length < 1) := by simp
  rw [decodeOption, Reader.offset_run, Reader.remaining_run, if_neg hremaining,
    Reader.bind_run (ProtoDefReader.reads_u8 0 offset suffix), Reader.offset_run]
  rfl

theorem decodesRecords_present (atEnd : Except String Unit)
    {decode : Text → Text → Decoded → Reader Decoded} {json innerType path : Text}
    (htype : readSecondElement json = some innerType) {bytes : List UInt8}
    {records : List Recorded}
    (hinner : ∀ decoded, DecodesRecords (decode innerType path) bytes records decoded)
    (decoded : Decoded) :
    DecodesRecords (decodeOption true atEnd decode json path) (1 :: bytes)
      (presentRecord path true :: records) decoded := by
  intro offset suffix
  let flag : ProtoDefField :=
    { path := if path = [] then txt "$option" else path ++ txt ".$present"
      type := txt "option_present", value := txt "true"
      offset := offset, size := offset + 1 - offset }
  obtain ⟨decoded', hrun, hgrows⟩ := hinner (decoded.record true flag) (offset + 1) suffix
  have hflag : flag.Matches (presentRecord path true) := ⟨rfl, rfl, rfl⟩
  refine ⟨decoded', ?_, (Grows.record hflag rfl decoded).trans hgrows⟩
  have hremaining : ¬((1 :: bytes ++ suffix).length < 1) := by simp
  have hbyte : ProtoDefReader.u8 ⟨offset, 1 :: bytes ++ suffix⟩ =
      .ok (1, ⟨offset + 1, bytes ++ suffix⟩) := ProtoDefReader.reads_u8 1 offset (bytes ++ suffix)
  rw [decodeOption, Reader.offset_run, Reader.remaining_run, if_neg hremaining,
    Reader.bind_run hbyte, Reader.offset_run, htype]
  have hlength : offset + (1 :: bytes).length = offset + 1 + bytes.length := by
    rw [List.length_cons]
    omega
  rw [hlength]
  exact hrun

/-! ### Fields -/

theorem decodeContainer_eq {decode : Text → Text → Decoded → Reader Decoded}
    {json fieldsText path : Text} {objects : List Text}
    (hfields : readSecondElement json = some fieldsText)
    (hbracket : startsWith (trim fieldsText) (txt "[") = true)
    (hobjects : fieldObjects fieldsText = some objects) (decoded : Decoded) :
    decodeContainer decode json path decoded =
      objects.foldlM (decodeObject decode path) decoded := by
  rw [decodeContainer, hfields]
  dsimp only
  rw [if_neg (not_not.mpr hbracket)]
  exact decoder_containerFieldsFrom decode fieldsText path hobjects decoded

theorem decodesRecords_object {decode : Text → Text → Decoded → Reader Decoded}
    {object type name path : Text} {bytes : List UInt8} {records : List Recorded} {decoded : Decoded}
    (hname : readJsonStringField object (txt "name") = some name)
    (hanon : (readJsonBoolField object (txt "anon")).getD false = false)
    (htype : readJsonValueField object (txt "type") = some type)
    (h : DecodesRecords (decode type (childPath path name)) bytes records decoded) :
    DecodesRecords (fun decoded ↦ decodeObject decode path decoded object) bytes records
      decoded := by
  unfold decodeObject
  rw [hname, hanon, htype]
  exact h.mapError

/-- A name is compared with the field beside the switch. -/
theorem resolveComparePath_childPath (path : Text) (name compareTo : WireName) :
    ElementCounts.resolveComparePath (childPath path name.1) compareTo.1 =
      childPath path compareTo.1 := by
  have hdot : (0x2e : UInt8) ∉ name.1 := name.2.not_mem (by decide)
  have hparent : ¬txt "../" <+: compareTo.1 := by
    intro hprefix
    have hmem : (0x2e : UInt8) ∈ compareTo.1 := hprefix.subset (by decide)
    exact compareTo.2.not_mem (by decide) hmem
  have hkeep (c : UInt8) (hc : c ∈ name.1) : decide (c ≠ 0x2e) = true :=
    decide_eq_true fun h ↦ hdot (h ▸ hc)
  rw [ElementCounts.resolveComparePath, if_neg hparent, childPath, childPath]
  split
  · have hall : name.1.rdropWhile (· ≠ 0x2e) = [] := List.rdropWhile_eq_nil_iff.mpr hkeep
    rw [hall, List.nil_append]
  · have hreverse : ∀ c ∈ name.1.reverse, decide (c ≠ 0x2e) = true :=
      fun c hc ↦ hkeep c (List.mem_reverse.mp hc)
    have hrest : (path ++ txt "." ++ name.1).rdropWhile (· ≠ 0x2e) = path ++ txt "." := by
      rw [List.rdropWhile, List.reverse_append, List.dropWhile_append_of_pos hreverse]
      have hfront : (path ++ txt ".").reverse.dropWhile (fun c ↦ decide (c ≠ 0x2e)) =
          (path ++ txt ".").reverse := by
        rw [List.reverse_append]
        rfl
      rw [hfront, List.reverse_reverse]
    rw [hrest]

/-- The switch finds the text that is known for the field it is compared with. -/
theorem compareValue_eq {switchJson key path : Text} (name : WireName) {compareTo : WireName}
    {env : List (Text × Text)} {context : ProtoDefContext}
    (hvalue : readJsonStringField switchJson (txt "compareToValue") = none)
    (hcompare : readJsonStringField switchJson (txt "compareTo") = some compareTo.1)
    (hknows : Knows env path context) (hlookup : env.lookup compareTo.1 = some key) :
    ProtoDefDecoder.compareValue switchJson (childPath path name.1) context = .ok key := by
  have hcontext : contextValue (childPath path name.1) context compareTo.1 = some key := by
    rw [contextValue, resolveComparePath_childPath, hknows compareTo key hlookup]
    rfl
  rw [ProtoDefDecoder.compareValue, hvalue, hcompare]
  dsimp only
  rw [evaluateProtoDefCompareExpression, compareTo.2.trim_eq, if_neg compareTo.2.1,
    compareTo.2.splitOr_eq]
  dsimp only
  rw [hcontext]
  rfl

theorem lift_ok_bind {α β : Type} (a : α) (k : α → Reader β) :
    ((liftM (Except.ok a : Except String α) : Reader α) >>= k) = k a := rfl

theorem decodesRecords_branch {decode : Text → Text → Decoded → Reader Decoded}
    {switchJson key path branch : Text} {decoded : Decoded} {bytes : List UInt8}
    {records : List Recorded}
    (hkey : ProtoDefDecoder.compareValue switchJson path decoded.context = .ok key)
    (hbranch : ProtoDefDecoder.switchBranch protoDefVariables switchJson key = some branch)
    (h : DecodesRecords (decode branch path) bytes records decoded) :
    DecodesRecords (decodeSwitch protoDefVariables true decode switchJson path) bytes records
      decoded := by
  intro offset suffix
  obtain ⟨decoded', hrun, hgrows⟩ := h offset suffix
  refine ⟨decoded', ?_, hgrows⟩
  rw [decodeSwitch, hkey, lift_ok_bind, hbranch]
  exact hrun

theorem decodesRecords_noBranch {decode : Text → Text → Decoded → Reader Decoded}
    {switchJson key path : Text} {decoded : Decoded}
    (hkey : ProtoDefDecoder.compareValue switchJson path decoded.context = .ok key)
    (hbranch : ProtoDefDecoder.switchBranch protoDefVariables switchJson key = none) :
    DecodesRecords (decodeSwitch protoDefVariables true decode switchJson path) []
      [{ path := orName path "$switch", value := txt "<no_branch:" ++ key ++ txt ">" }] decoded := by
  refine decodesRecords_single rfl fun offset suffix ↦ ?_
  refine ⟨{ path := if path = [] then txt "$switch" else path, type := txt "switch"
            value := txt "<no_branch:" ++ key ++ txt ">", offset }, ⟨rfl, rfl, rfl⟩, ?_⟩
  rw [decodeSwitch, hkey, lift_ok_bind, hbranch]
  rfl

/-! ### Schemas -/

mutual

theorem WireSchema.decode_wire : ∀ (schema : WireSchema) (text : Text) (value : ProtoDefValue)
    (bytes : List UInt8) (fuel : ℕ), schema.Described typeJson protoDefVariables text →
    schema.wire value = some bytes → schema.depth ≤ fuel → ∀ (path : Text) (decoded : Decoded),
    DecodesRecords (ProtoDefDecoder.decode typeJson protoDefVariables true fuel text path) bytes
      (schema.records path value) decoded
  | .scalar typeName, text, value, bytes, fuel, hdescribed, hwire, hfuel, path, decoded => by
      obtain ⟨levels, rfl⟩ := WireSchema.exists_levels hfuel
      obtain ⟨⟨bytes, known⟩, hcode, rfl⟩ := Option.map_eq_some_iff.mp hwire
      rw [WireSchema.records, hcode]
      refine DecodesRecords.congr (decodeLevel_typeName hdescribed) ?_
      exact decodesRecords_scalar hcode _ _ path decoded
  | .pstring countType, text, value, bytes, fuel, hdescribed, hwire, hfuel, path, decoded => by
      obtain ⟨levels, rfl⟩ := WireSchema.exists_levels hfuel
      obtain ⟨hstart, htype⟩ := hdescribed
      cases value with
      | string content =>
          obtain ⟨header, hheader, rfl⟩ := Option.map_eq_some_iff.mp hwire
          refine DecodesRecords.congr (decodeLevel_pstring hstart) ?_
          exact decodesRecords_pstring htype hheader path decoded
      | _ => cases hwire
  | .buffer size, text, value, bytes, fuel, hdescribed, hwire, hfuel, path, decoded => by
      obtain ⟨levels, rfl⟩ := WireSchema.exists_levels hfuel
      obtain ⟨hstart, hsize⟩ := hdescribed
      cases value with
      | bytes content =>
          obtain ⟨header, hheader, rfl⟩ := Option.map_eq_some_iff.mp hwire
          refine DecodesRecords.congr (decodeLevel_buffer hstart) ?_
          exact decodesRecords_buffer hsize hheader path decoded
      | _ => cases hwire
  | .array size item, text, value, bytes, fuel, hdescribed, hwire, hfuel, path, decoded => by
      obtain ⟨levels, rfl⟩ := WireSchema.exists_levels hfuel
      obtain ⟨hstart, hsize, itemType, htype, hitem⟩ := hdescribed
      rw [WireSchema.depth] at hfuel
      cases value with
      | array items =>
          obtain ⟨header, hheader, hwire⟩ := Option.bind_eq_some_iff.mp hwire
          obtain ⟨chunks, hchunks, hwire⟩ := Option.bind_eq_some_iff.mp hwire
          obtain rfl := Option.some.inj hwire
          refine DecodesRecords.congr (decodeLevel_array hstart) ?_
          refine decodesRecords_array hsize htype hheader ?_ decoded
          refine (forall₂_of_mapM_eq_some hchunks).imp fun element chunk hchunk path decoded ↦ ?_
          exact item.decode_wire itemType element chunk levels hitem hchunk (by omega) path decoded
      | _ => cases hwire
  | .option inner, text, value, bytes, fuel, hdescribed, hwire, hfuel, path, decoded => by
      obtain ⟨levels, rfl⟩ := WireSchema.exists_levels hfuel
      obtain ⟨hstart, innerType, htype, hinner⟩ := hdescribed
      rw [WireSchema.depth] at hfuel
      refine DecodesRecords.congr (decodeLevel_option hstart) ?_
      by_cases hnull : value = .null
      · subst hnull
        obtain rfl := Option.some.inj hwire
        exact decodesRecords_absent _ _ _ path decoded
      · have hpresent : (inner.wire value).map (1 :: ·) = some bytes := by
          cases value <;> first | exact hwire | exact absurd rfl hnull
        obtain ⟨content, hcontent, rfl⟩ := Option.map_eq_some_iff.mp hpresent
        have hrecords : (WireSchema.option inner).records path value =
            presentRecord path true :: inner.records path value := by
          rw [WireSchema.records]
          · rfl
          · exact hnull
        rw [hrecords]
        refine decodesRecords_present _ htype (fun decoded ↦ ?_) decoded
        exact inner.decode_wire innerType value content levels hinner hcontent (by omega) path
          decoded
  | .mapper baseType mappings, text, value, bytes, fuel, hdescribed, hwire, hfuel, path,
    decoded => by
      obtain ⟨levels, rfl⟩ := WireSchema.exists_levels hfuel
      obtain ⟨hstart, hbase, -, hnumbers⟩ := hdescribed
      obtain ⟨⟨n, bytes⟩, hcode, rfl⟩ := Option.map_eq_some_iff.mp hwire
      rw [WireSchema.records, hcode]
      refine DecodesRecords.congr (decodeLevel_mapper hstart) ?_
      obtain ⟨type, hmem, htype, -, hholds, rfl⟩ := mapperCode_eq_some hcode
      obtain ⟨read, hnumeric, hread⟩ := readNumeric_reads hmem htype hholds (.ok ())
      rw [decimalInt_natCast] at hread
      refine decodesRecords_mapper hbase hnumeric hread ?_ path decoded
      rw [hnumbers]
      rfl
  | .encapsulated lengthType inner, text, value, bytes, fuel, hdescribed, hwire, hfuel, path,
    decoded => by
      obtain ⟨levels, rfl⟩ := WireSchema.exists_levels hfuel
      obtain ⟨hstart, hlength, innerType, htype, hinner⟩ := hdescribed
      rw [WireSchema.depth] at hfuel
      obtain ⟨payload, hpayload, hwire⟩ := Option.bind_eq_some_iff.mp hwire
      obtain ⟨header, hheader, hwire⟩ := Option.bind_eq_some_iff.mp hwire
      obtain rfl := Option.some.inj hwire
      have hdecode := inner.decode_wire innerType value payload levels hinner hpayload (by omega)
        path decoded
      refine DecodesRecords.congr (decodeLevel_encapsulated hstart) ?_
      exact decodesRecords_encapsulated hlength htype hheader hdecode
  | .named typeName schema, text, value, bytes, fuel, hdescribed, hwire, hfuel, path, decoded => by
      obtain ⟨levels, rfl⟩ := WireSchema.exists_levels hfuel
      obtain ⟨htext, hname, json, hjson, hschema⟩ := hdescribed
      rw [WireSchema.depth] at hfuel
      refine DecodesRecords.congr (decodeLevel_typeName htext) ?_
      refine DecodesRecords.congr (decodeTypeName_named hname hjson) ?_
      exact schema.decode_wire json value bytes levels hschema hwire (by omega) path decoded
  | .container fields, text, value, bytes, fuel, hdescribed, hwire, hfuel, path, decoded => by
      obtain ⟨levels, rfl⟩ := WireSchema.exists_levels hfuel
      obtain ⟨hstart, fieldsText, objects, -, hsecond, hbracket, hobjects, hfields⟩ := hdescribed
      rw [WireSchema.depth] at hfuel
      have hfieldsWire : fields.wire [] value = some bytes := by
        cases value with
        | object members => exact hwire
        | _ => cases hwire
      have hdecode := fields.decode_wire objects [] value bytes levels hfields hfieldsWire
        (by omega) path decoded (Knows.nil path _)
      refine DecodesRecords.congr ?_ hdecode
      exact (decodeLevel_container hstart).trans
        (decodeContainer_eq hsecond hbracket hobjects decoded)

theorem WireFields.decode_wire : ∀ (fields : WireFields) (objects : List Text)
    (env : List (Text × Text)) (value : ProtoDefValue) (bytes : List UInt8) (fuel : ℕ),
    fields.Described typeJson protoDefVariables objects → fields.wire env value = some bytes →
    fields.depth ≤ fuel → ∀ (path : Text) (decoded : Decoded), Knows env path decoded.context →
    DecodesRecords (fun decoded ↦ objects.foldlM (decodeObject
        (ProtoDefDecoder.decode typeJson protoDefVariables true fuel) path) decoded) bytes
      (fields.records path value) decoded
  | .nil, objects, env, value, bytes, fuel, hdescribed, hwire, hfuel, path, decoded, hknows => by
      obtain rfl : objects = [] := hdescribed
      obtain rfl := Option.some.inj hwire
      exact DecodesRecords.pure decoded
  | .plain name schema rest, objects, env, value, bytes, fuel, hdescribed, hwire, hfuel, path,
    decoded, hknows => by
      obtain ⟨object, others, type, rfl, hname, hanon, htype, hschema, hrest⟩ := hdescribed
      rw [WireFields.depth] at hfuel
      obtain ⟨child, hchild, hwire⟩ := Option.bind_eq_some_iff.mp hwire
      obtain ⟨first, hfirst, hwire⟩ := Option.bind_eq_some_iff.mp hwire
      obtain ⟨more, hmore, hwire⟩ := Option.bind_eq_some_iff.mp hwire
      obtain rfl := Option.some.inj hwire
      have hdecode := schema.decode_wire type child first fuel hschema hfirst (by omega)
        (childPath path name.1) decoded
      rw [WireFields.records, hchild]
      refine (decodesRecords_object hname hanon htype hdecode).bind fun decoded' hgrows ↦ ?_
      refine rest.decode_wire others _ value more fuel hrest hmore (by omega) path decoded' ?_
      rw [hgrows.context]
      exact hknows.plain name schema child
  | .switch name compareTo cases rest, objects, env, value, bytes, fuel, hdescribed, hwire, hfuel,
    path, decoded, hknows => by
      obtain ⟨object, others, type, rfl, hname, hanon, htype, hstart, hvalue, hcompare, hcases,
        hrest⟩ := hdescribed
      rw [WireFields.depth] at hfuel
      obtain ⟨key, hkey, hwire⟩ := Option.bind_eq_some_iff.mp hwire
      obtain ⟨first, hfirst, hwire⟩ := Option.bind_eq_some_iff.mp hwire
      obtain ⟨more, hmore, hwire⟩ := Option.bind_eq_some_iff.mp hwire
      obtain rfl := Option.some.inj hwire
      obtain ⟨hlookup, hplain, compared, hcompared, hswitchKey⟩ := discriminator_eq_some hkey
      obtain ⟨levels, rfl⟩ : ∃ levels, fuel = levels + 1 := ⟨fuel - 1, by omega⟩
      have hcompareValue := compareValue_eq name hvalue hcompare hknows hlookup
      have hbranch := cases.decode_wire (trim type) _ key _ first levels hcases trivial hplain
        hfirst (by omega) (childPath path name.1) decoded hcompareValue
      have hdecode : DecodesRecords (ProtoDefDecoder.decode typeJson protoDefVariables true
          (levels + 1) type (childPath path name.1)) first
          (cases.records key (childPath path name.1) (branchValue name.1 value)) decoded :=
        DecodesRecords.congr (decodeLevel_switch hstart) hbranch
      have hkeyOf : ((value.get compareTo.1).bind fun compared ↦
          (ProtoDefEncoder.valueToSwitchKey compared).toOption) = some key := by
        rw [hcompared, Option.bind_some, hswitchKey]
        rfl
      rw [WireFields.records, hkeyOf]
      refine (decodesRecords_object hname hanon htype hdecode).bind fun decoded' hgrows ↦ ?_
      refine rest.decode_wire others _ value more (levels + 1) hrest hmore (by omega) path
        decoded' ?_
      rw [hgrows.context]
      exact hknows.switch name cases key (branchValue name.1 value)

theorem WireCases.decode_wire : ∀ (cases : WireCases) (switchJson : Text) (keys : Text → Prop)
    (key : Text) (value : ProtoDefValue) (bytes : List UInt8) (fuel : ℕ),
    cases.Described typeJson protoDefVariables switchJson keys → keys key → PlainKey key →
    cases.wire key value = some bytes → cases.depth ≤ fuel → ∀ (path : Text) (decoded : Decoded),
    ProtoDefDecoder.compareValue switchJson path decoded.context = .ok key →
    DecodesRecords (ProtoDefDecoder.decodeSwitch protoDefVariables true
        (ProtoDefDecoder.decode typeJson protoDefVariables true fuel) switchJson path) bytes
      (cases.records key path value) decoded
  | .nil, switchJson, keys, key, value, bytes, fuel, hdescribed, hkeys, hplain, hwire, hfuel, path,
    decoded, hkey => by
      obtain rfl := Option.some.inj hwire
      exact decodesRecords_noBranch hkey (hdescribed key hplain hkeys).2
  | .default schema, switchJson, keys, key, value, bytes, fuel, hdescribed, hkeys, hplain, hwire,
    hfuel, path, decoded, hkey => by
      obtain ⟨branch, hbranch, hfound⟩ := hdescribed
      refine decodesRecords_branch hkey (hfound key hplain hkeys).2 ?_
      exact schema.decode_wire branch value bytes fuel hbranch hwire hfuel path decoded
  | .case k schema rest, switchJson, keys, key, value, bytes, fuel, hdescribed, hkeys, hplain,
    hwire, hfuel, path, decoded, hkey => by
      obtain ⟨hcase, hrest⟩ := hdescribed
      rw [WireCases.depth] at hfuel
      rw [WireCases.wire] at hwire
      rw [WireCases.records]
      by_cases hsame : key = k.1
      · subst hsame
        rw [if_pos rfl] at hwire ⊢
        obtain ⟨branch, hbranch, hfound⟩ := hcase hkeys
        refine decodesRecords_branch hkey hfound.2 ?_
        exact schema.decode_wire branch value bytes fuel hbranch hwire (by omega) path decoded
      · rw [if_neg hsame] at hwire ⊢
        obtain ⟨hstring, hwire⟩ := (Option.ite_none_left_eq_some).mp hwire
        exact rest.decode_wire switchJson _ key value bytes fuel hrest ⟨hkeys, hsame, hstring⟩
          hplain hwire (by omega) path decoded hkey

end

end Decoding

end BedrockProtocol
