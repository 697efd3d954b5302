import BedrockProtocol.Protodef.FlatValues

/-!
# Round trips without switches

What the encoder writes for a value of a type without switches the decoder reads again: it consumes
the bytes of the value and no others, and lists the fields of the value.
-/

namespace BedrockProtocol

open SchemaText JsonPieces

open ProtoDefEncoder (quoted)

/-! ## The kinds of types -/

theorem FlatSchema.Spells.trimmed {schema : FlatSchema} {text : Text} (h : schema.Spells text) :
    schema.Spells (trim text) := by
  rwa [h.typeText.1.trim_eq]

/-- The type of a field chooses no branch. -/
theorem FlatSchema.Spells.not_choosesBranch {schema : FlatSchema} {text : Text}
    (h : schema.Spells text) : ProtoDefEncoder.choosesBranch text = false := by
  have htext := h.trimmed
  cases schema with
  | scalar typeName => exact choosesBranch_of_quoted htext
  | uuid => exact choosesBranch_of_quoted htext
  | mapper names =>
      obtain ⟨object, habout, -⟩ := htext
      exact choosesBranch_of_startsWith habout.startsWith_text (by decide) (by decide)
  | option inner =>
      obtain ⟨gap, lead, innerType, rear, -, hpair, -⟩ := htext
      exact choosesBranch_of_startsWith (startsWith_of_eq_pairText hpair) (by decide) (by decide)
  | array item =>
      obtain ⟨object, itemType, habout, -⟩ := htext
      exact choosesBranch_of_startsWith habout.startsWith_text (by decide) (by decide)
  | buffer =>
      obtain ⟨object, habout, -⟩ := htext
      exact choosesBranch_of_startsWith habout.startsWith_text (by decide) (by decide)
  | pstring =>
      obtain ⟨object, habout, -⟩ := htext
      exact choosesBranch_of_startsWith habout.startsWith_text (by decide) (by decide)
  | container fields =>
      obtain ⟨gap, lead, blank, objects, rear, -, hpair, -⟩ := htext
      exact choosesBranch_of_startsWith (startsWith_of_eq_pairText hpair) (by decide) (by decide)

section Kinds

variable (typeJson : Text → Option Text) (protoDefVariables : List (Text × Text))
  (undefinedCast : UInt64 → UInt64)

/-- What is written for the value of a type is read as its fields, at every path. -/
def RoundTrips (fuel : ℕ) (text : Text) (value : ProtoDefValue) (records : Text → List Recorded) :
    Prop :=
  ∃ bytes, ProtoDefEncoder.encode typeJson protoDefVariables undefinedCast fuel text value = .ok bytes ∧
    ∀ path decoded, DecodesRecords
      (ProtoDefDecoder.decode typeJson protoDefVariables true fuel text path) bytes (records path) decoded

/-- The same of the fields of a container. -/
def FieldsRoundTrip (fuel : ℕ) (objects : List Text) (value : ProtoDefValue)
    (records : Text → List Recorded) : Prop :=
  ∃ bytes, List.flatten <$> objects.mapM (ProtoDefEncoder.encodeObject
      (ProtoDefEncoder.encode typeJson protoDefVariables undefinedCast fuel) value) = .ok bytes ∧
    ∀ path decoded, DecodesRecords (fun decoded ↦ objects.foldlM (decodeObject
      (ProtoDefDecoder.decode typeJson protoDefVariables true fuel) path) decoded) bytes
      (records path) decoded

variable {typeJson protoDefVariables undefinedCast} {levels : ℕ} {text : Text} {value : ProtoDefValue}

theorem roundTrips_typeName {typeName bytes shown : Text} (htext : trim text = quoted typeName)
    (h : ScalarAgrees typeName value bytes shown) :
    RoundTrips typeJson protoDefVariables undefinedCast (levels + 1) text value fun path ↦
      [{ path := orName path "$value", value := shown }] := by
  refine ⟨bytes, ?_, fun path decoded ↦ ?_⟩
  · rw [ProtoDefEncoder.encode, encodeLevel_typeName _ _ _ _ _ htext]
    exact h.encodes typeJson undefinedCast _
  · refine DecodesRecords.congr (decodeLevel_typeName htext) ?_
    exact decodesRecords_single rfl fun offset suffix ↦
      ⟨_, ⟨rfl, rfl, rfl⟩, h.decodes typeJson _ _ path decoded offset suffix⟩

theorem roundTrips_mapper {names : NumberNames} {z : ℤ}
    (hstart : startsWith (trim text) (txt "[\"mapper\"") = true) (hfound : names.Found (trim text))
    (hnumber : names.number value = some z) (hz : names.type.Holds z) :
    RoundTrips typeJson protoDefVariables undefinedCast (levels + 1) text value
      ((FlatSchema.mapper names).records · value) := by
  obtain ⟨read, hnumeric, hread⟩ := exists_readNumeric (.ok ()) names hz
  refine ⟨names.type.bytes z, ?_, fun path decoded ↦ ?_⟩
  · rw [ProtoDefEncoder.encode, encodeLevel_mapper _ _ _ _ _ hstart]
    exact encodeMapper_number undefinedCast _ hfound hnumber hz
  · dsimp only
    rw [FlatSchema.records, hnumber]
    refine DecodesRecords.congr (decodeLevel_mapper hstart) ?_
    exact decodesRecords_mapper hfound.baseType hnumeric hread (mappedName_number hfound hnumber) path
      decoded

theorem roundTrips_absent (hstart : startsWith (trim text) (txt "[\"option\"") = true) :
    RoundTrips typeJson protoDefVariables undefinedCast (levels + 1) text .null fun path ↦
      [presentRecord path false] := by
  refine ⟨[0], ?_, fun path decoded ↦ ?_⟩
  · rw [ProtoDefEncoder.encode, encodeLevel_option _ _ _ _ _ hstart]
    rfl
  · exact DecodesRecords.congr (decodeLevel_option hstart) (decodesRecords_absent _ _ _ path decoded)

theorem roundTrips_present (hstart : startsWith (trim text) (txt "[\"option\"") = true)
    {innerType : Text} (htype : readSecondElement (trim text) = some innerType)
    {records : Text → List Recorded} (hvalue : value ≠ .null)
    (h : RoundTrips typeJson protoDefVariables undefinedCast levels innerType value records) :
    RoundTrips typeJson protoDefVariables undefinedCast (levels + 1) text value fun path ↦
      presentRecord path true :: records path := by
  obtain ⟨bytes, hencode, hdecode⟩ := h
  refine ⟨1 :: bytes, ?_, fun path decoded ↦ ?_⟩
  · rw [ProtoDefEncoder.encode, encodeLevel_option _ _ _ _ _ hstart, ProtoDefEncoder.encodeOption, htype]
    · dsimp only
      rw [hencode]
      rfl
    · exact hvalue
  · refine DecodesRecords.congr (decodeLevel_option hstart) ?_
    exact decodesRecords_present _ htype (fun decoded ↦ hdecode path decoded) decoded

theorem exists_countCode {count : ℕ} (h : count < 2 ^ 32) :
    ∃ header, countCode (txt "varint") count = some header := by
  have hbound : ElementCounts.countBound (txt "varint") = 2 ^ 32 := rfl
  rw [countCode, hbound, if_pos h]
  exact ⟨_, rfl⟩

theorem roundTrips_array (hstart : startsWith (trim text) (txt "[\"array\"") = true)
    (hsize : (WireSize.counted ⟨txt "varint", by decide⟩).Described (trim text)) {itemType : Text}
    (htype : readJsonValueField (trim text) (txt "type") = some itemType)
    {records : Text → ProtoDefValue → List Recorded} {items : List ProtoDefValue}
    (hlength : items.length < 2 ^ 32)
    (h : ∀ item ∈ items,
      RoundTrips typeJson protoDefVariables undefinedCast levels itemType item (records · item)) :
    RoundTrips typeJson protoDefVariables undefinedCast (levels + 1) text (.array items) fun path ↦
      countRecord path items.length :: itemRecords records path 0 items := by
  obtain ⟨header, hheader⟩ := exists_countCode hlength
  obtain ⟨chunks, hchunks, hdecodes⟩ := exists_mapM_eq_ok h
  refine ⟨header ++ chunks.flatten, ?_, fun path decoded ↦ ?_⟩
  · rw [ProtoDefEncoder.encode, encodeLevel_array _ _ _ _ _ hstart, ElementCounts.encodeArray, htype]
    dsimp only
    rw [encodeSize_of_code hsize hheader, ok_bind, hchunks]
    rfl
  · refine DecodesRecords.congr (decodeLevel_array hstart) ?_
    exact decodesRecords_array hsize htype hheader hdecodes decoded

theorem roundTrips_buffer (hstart : startsWith (trim text) (txt "[\"buffer\"") = true)
    (hsize : (WireSize.counted ⟨txt "varint", by decide⟩).Described (trim text))
    {content : List UInt8} (hlength : content.length < 2 ^ 32) :
    RoundTrips typeJson protoDefVariables undefinedCast (levels + 1) text (.bytes content)
      (FlatSchema.buffer.records · (.bytes content)) := by
  obtain ⟨header, hheader⟩ := exists_countCode hlength
  refine ⟨header ++ content, ?_, fun path decoded ↦ ?_⟩
  · rw [ProtoDefEncoder.encode, encodeLevel_buffer _ _ _ _ _ hstart, ElementCounts.encodeBuffer,
      encodeSize_of_code hsize hheader]
    rfl
  · exact DecodesRecords.congr (decodeLevel_buffer hstart)
      (decodesRecords_buffer hsize hheader path decoded)

theorem roundTrips_pstring (hstart : startsWith (trim text) (txt "[\"pstring\"") = true)
    (hsize : (WireSize.counted ⟨txt "varint", by decide⟩).Described (trim text)) {content : Text}
    (hlength : content.length < 2 ^ 32) :
    RoundTrips typeJson protoDefVariables undefinedCast (levels + 1) text (.string content)
      (FlatSchema.pstring.records · (.string content)) := by
  obtain ⟨-, -, htype⟩ := hsize
  obtain ⟨header, hheader⟩ := exists_countCode hlength
  refine ⟨header ++ content, ?_, fun path decoded ↦ ?_⟩
  · rw [ProtoDefEncoder.encode, encodeLevel_pstring _ _ _ _ _ hstart, ElementCounts.encodePString, htype]
    change (ElementCounts.writeCount (txt "varint") content.length >>= fun size ↦
      Except.ok (size ++ content)) = _
    rw [(countCode_eq_some hheader).2]
    rfl
  · refine DecodesRecords.congr (decodeLevel_pstring hstart) ?_
    exact decodesRecords_pstring htype hheader path decoded

theorem roundTrips_container (hstart : startsWith (trim text) (txt "[\"container\"") = true)
    {fields : Text} {objects : List Text}
    (harray : ProtoDefEncoder.findSecondArray (trim text) = some fields)
    (hsecond : readSecondElement (trim text) = some fields)
    (hbracket : startsWith (trim fields) (txt "[") = true) (hobjects : fieldObjects fields = some objects)
    {members : List (Text × ProtoDefValue)} {records : Text → List Recorded}
    (h : FieldsRoundTrip typeJson protoDefVariables undefinedCast levels objects (.object members)
      records) :
    RoundTrips typeJson protoDefVariables undefinedCast (levels + 1) text (.object members) records := by
  obtain ⟨bytes, hencode, hdecode⟩ := h
  refine ⟨bytes, ?_, fun path decoded ↦ ?_⟩
  · rw [ProtoDefEncoder.encode, encodeLevel_container _ _ _ _ _ hstart, ProtoDefEncoder.encodeContainer,
      harray]
    dsimp only
    rw [encoder_containerFieldsFrom _ _ _ hobjects]
    exact hencode
  · refine DecodesRecords.congr ?_ (hdecode path decoded)
    exact (decodeLevel_container hstart).trans (decodeContainer_eq hsecond hbracket hobjects decoded)

theorem fieldsRoundTrip_nil :
    FieldsRoundTrip typeJson protoDefVariables undefinedCast levels [] value fun _ ↦ [] :=
  ⟨[], rfl, fun _ decoded ↦ DecodesRecords.pure decoded⟩

/-- A field is encoded with its container as its parent. -/
theorem fieldsRoundTrip_cons {object type name : Text} {objects : List Text} {child : ProtoDefValue}
    (hname : readJsonStringField object (txt "name") = some name)
    (hanon : (readJsonBoolField object (txt "anon")).getD false = false)
    (htype : readJsonValueField object (txt "type") = some type)
    (hbranch : ProtoDefEncoder.choosesBranch type = false) (hchild : value.get name = some child)
    {records others : Text → List Recorded}
    (h : RoundTrips typeJson protoDefVariables undefinedCast levels type
      (ProtoDefEncoder.withParent value child) records)
    (h' : FieldsRoundTrip typeJson protoDefVariables undefinedCast levels objects value others) :
    FieldsRoundTrip typeJson protoDefVariables undefinedCast levels (object :: objects) value fun path ↦
      records (childPath path name) ++ others path := by
  obtain ⟨bytes, hencode, hdecode⟩ := h
  obtain ⟨more, hencodes, hdecodes⟩ := h'
  have hfield : ProtoDefEncoder.encodeField (ProtoDefEncoder.encode typeJson protoDefVariables
      undefinedCast levels) (some name) false type value = .ok bytes := by
    rw [ProtoDefEncoder.encodeField, hbranch, hchild]
    exact hencode
  refine ⟨bytes ++ more, flatten_mapM_cons (encodeObject_eq hname hanon htype hfield) hencodes,
    fun path decoded ↦ ?_⟩
  exact (decodesRecords_object hname hanon htype (hdecode _ decoded)).bind fun decoded' _ ↦
    hdecodes path decoded'

end Kinds

/-! ## The round trip -/

theorem FlatSchema.exists_levels {schema : FlatSchema} {fuel : ℕ} (h : schema.depth ≤ fuel) :
    ∃ levels, fuel = levels + 1 := by
  have hpos : 0 < schema.depth := by
    cases schema <;> exact Nat.succ_pos _
  exact ⟨fuel - 1, by omega⟩

mutual

theorem FlatSchema.innerNames_subset : ∀ schema : FlatSchema, schema.innerNames ⊆ schema.names
  | .option inner => inner.innerNames_subset
  | .array item => item.innerNames_subset
  | .container fields => fields.innerNames_subset
  | .scalar _ | .uuid | .mapper _ | .buffer | .pstring => List.nil_subset _

theorem FlatFields.innerNames_subset : ∀ fields : FlatFields, fields.innerNames ⊆ fields.names
  | .nil => List.nil_subset _
  | .field name schema rest => by
      have hrest := rest.innerNames_subset
      rw [FlatFields.innerNames, FlatFields.names]
      refine List.subset_cons_of_subset name.1 (List.append_subset.mpr ⟨?_, ?_⟩)
      · exact List.subset_append_left _ _
      · exact List.Subset.trans hrest (List.subset_append_right _ _)

end

section RoundTrip

variable {typeJson : Text → Option Text} {protoDefVariables : List (Text × Text)}
  {undefinedCast : UInt64 → UInt64}

mutual

/-- Every value of a type comes back as its fields, whatever text spells the type. -/
theorem FlatSchema.roundTrips : ∀ (schema : FlatSchema) (text : Text) (value : ProtoDefValue)
    (fuel : ℕ), schema.Spells (trim text) → txt ".." ∉ schema.innerNames → schema.HasType value →
    schema.depth ≤ fuel →
    RoundTrips typeJson protoDefVariables undefinedCast fuel text value (schema.records · value)
  | .scalar typeName, text, value, fuel, htext, hnames, hvalue, hfuel => by
      obtain ⟨levels, rfl⟩ := FlatSchema.exists_levels hfuel
      obtain ⟨⟨bytes, shown⟩, hcode⟩ := Option.isSome_iff_exists.mp hvalue
      simp only [FlatSchema.records, hcode]
      exact roundTrips_typeName htext (scalarAgrees hcode)
  | .uuid, text, value, fuel, htext, hnames, hvalue, hfuel => by
      obtain ⟨levels, rfl⟩ := FlatSchema.exists_levels hfuel
      obtain ⟨content, rfl, huuid⟩ := hvalue
      obtain ⟨bytes, hagrees⟩ := scalarAgrees_uuid huuid
      exact roundTrips_typeName htext hagrees
  | .mapper names, text, value, fuel, htext, hnames, hvalue, hfuel => by
      obtain ⟨levels, rfl⟩ := FlatSchema.exists_levels hfuel
      obtain ⟨object, habout, hmembers⟩ := htext
      obtain ⟨z, hnumber, hz⟩ := hvalue
      exact roundTrips_mapper habout.startsWith_text (NumberNames.found habout hmembers) hnumber hz
  | .option inner, text, value, fuel, htext, hnames, hvalue, hfuel => by
      obtain ⟨levels, rfl⟩ := FlatSchema.exists_levels hfuel
      obtain ⟨gap, lead, innerType, rear, hblank, hpair, hinner⟩ := htext
      have hstart := startsWith_of_eq_pairText hpair
      by_cases hnull : value = .null
      · subst hnull
        exact roundTrips_absent hstart
      · obtain ⟨hinnerText, hwhole⟩ := hinner.typeText
        have hsecond : readSecondElement (trim text) = some innerType := by
          rw [hpair]
          exact readSecondElement_pairText (by decide) (hblank gap (by simp)) (hblank lead (by simp))
            hinnerText hwhole rear
        have hround := inner.roundTrips innerType value levels hinner.trimmed hnames
          (hvalue.resolve_left hnull) (by rw [FlatSchema.depth] at hfuel; omega)
        have hrecords (path : Text) : (FlatSchema.option inner).records path value =
            presentRecord path true :: inner.records path value := by
          rw [FlatSchema.records]
          exact hnull
        simp only [hrecords]
        exact roundTrips_present hstart hsecond hnull hround
  | .array item, text, value, fuel, htext, hnames, hvalue, hfuel => by
      obtain ⟨levels, rfl⟩ := FlatSchema.exists_levels hfuel
      obtain ⟨object, itemType, habout, hcounted, htype, hitem⟩ := htext
      obtain ⟨items, rfl, hlength, hitems⟩ := hvalue
      have hfield := habout.readJsonValueField_text (by decide)
      refine roundTrips_array habout.startsWith_text (hcounted.described hfield)
        ((hfield _).trans htype) hlength fun element helement ↦ ?_
      exact item.roundTrips itemType element levels hitem.trimmed hnames (hitems element helement)
        (by rw [FlatSchema.depth] at hfuel; omega)
  | .buffer, text, value, fuel, htext, hnames, hvalue, hfuel => by
      obtain ⟨levels, rfl⟩ := FlatSchema.exists_levels hfuel
      obtain ⟨object, habout, hcounted⟩ := htext
      obtain ⟨content, rfl, hlength⟩ := hvalue
      exact roundTrips_buffer habout.startsWith_text
        (hcounted.described (habout.readJsonValueField_text (by decide))) hlength
  | .pstring, text, value, fuel, htext, hnames, hvalue, hfuel => by
      obtain ⟨levels, rfl⟩ := FlatSchema.exists_levels hfuel
      obtain ⟨object, habout, hcounted⟩ := htext
      obtain ⟨content, rfl, hlength⟩ := hvalue
      exact roundTrips_pstring habout.startsWith_text
        (hcounted.described (habout.readJsonValueField_text (by decide))) hlength
  | .container fields, text, value, fuel, htext, hnames, hvalue, hfuel => by
      obtain ⟨levels, rfl⟩ := FlatSchema.exists_levels hfuel
      obtain ⟨gap, lead, blank, objects, rear, hblank, hpair, hfields⟩ := htext
      obtain ⟨members, rfl, htypes⟩ := hvalue
      have hgap : isBlank gap = true := hblank gap (by simp)
      have hlead : isBlank lead = true := hblank lead (by simp)
      have hlist : isBlank blank = true := hblank blank (by simp)
      have hkind : (txt "container").all isKeyByte = true := by decide
      have hinside := piece_listed hlist hfields.isObject
      have hlistText : TypeText (listText blank (objects.map ObjectSpelling.element)) := .array hinside
      have hstart := startsWith_of_eq_pairText hpair
      have harray : ProtoDefEncoder.findSecondArray (trim text) =
          some (listText blank (objects.map ObjectSpelling.element)) := by
        rw [hpair]
        exact findSecondArray_pairText hkind hgap hlead hinside rear
      have hsecond : readSecondElement (trim text) =
          some (listText blank (objects.map ObjectSpelling.element)) := by
        rw [hpair]
        exact readSecondElement_pairText hkind hgap hlead hlistText rfl rear
      have hbracket : startsWith (trim (listText blank (objects.map ObjectSpelling.element)))
          (txt "[") = true := by
        rw [hlistText.trim_eq]
        rfl
      have hobjects : fieldObjects (listText blank (objects.map ObjectSpelling.element)) =
          some (objects.map ObjectSpelling.value) := by
        rw [fieldObjects_listText hlist hfields.isObject, List.map_map]
        rfl
      refine roundTrips_container hstart harray hsecond hbracket hobjects ?_
      exact fields.roundTrips objects members levels hfields hnames htypes
        (by rw [FlatSchema.depth] at hfuel; omega)

theorem FlatFields.roundTrips : ∀ (fields : FlatFields) (objects : List ObjectSpelling)
    (members : List (Text × ProtoDefValue)) (fuel : ℕ), fields.Spells objects →
    txt ".." ∉ fields.innerNames → fields.HasTypes (.object members) → fields.depth ≤ fuel →
    FieldsRoundTrip typeJson protoDefVariables undefinedCast fuel (objects.map ObjectSpelling.value)
      (.object members) (fields.records · (.object members))
  | .nil, objects, members, fuel, hobjects, hnames, hvalue, hfuel => by
      obtain rfl : objects = [] := hobjects
      exact fieldsRoundTrip_nil
  | .field name schema rest, objects, members, fuel, hobjects, hnames, hvalue, hfuel => by
      obtain ⟨object, others, type, rfl, hobject, hname, hanon, htype, hspells, hothers⟩ := hobjects
      rw [FlatFields.depth] at hfuel
      rw [FlatFields.innerNames, List.mem_append, not_or] at hnames
      obtain ⟨hnames, hrestNames⟩ := hnames
      obtain ⟨⟨child, hchild, hchildType⟩, hrest⟩ := hvalue
      obtain ⟨hparentType, hparentRecords⟩ :=
        schema.withParent_same (.object members) child hnames hchildType
      have hfield := hobject.readJsonValueField_value
      have hround := schema.roundTrips type (ProtoDefEncoder.withParent (.object members) child) fuel
        hspells.trimmed (fun hmem ↦ hnames (schema.innerNames_subset hmem)) hparentType (by omega)
      have hmore := rest.roundTrips others members fuel hothers hrestNames hrest (by omega)
      simp only [hparentRecords] at hround
      have hrecords (path : Text) : (FlatFields.field name schema rest).records path (.object members) =
          schema.records (childPath path name.1) child ++ rest.records path (.object members) := by
        rw [FlatFields.records, hchild]
        rfl
      simp only [hrecords]
      rw [List.map_cons]
      refine fieldsRoundTrip_cons (readJsonStringField_eq ((hfield _).trans hname)) ?_
        ((hfield _).trans htype) hspells.not_choosesBranch hchild hround hmore
      rcases List.mem_pair.mp hanon with hanon | hanon
      · rw [readJsonBoolField_none ((hfield _).trans hanon)]
        rfl
      · rw [readJsonBoolField, hfield, hanon]
        rfl

end

end RoundTrip

namespace FlatCodec

/-- Whatever follows them, the bytes of a value are read back as its fields, and no other bytes are
consumed. -/
theorem spelled_round_trip (typeJson : Text → Option Text) (protoDefVariables : List (Text × Text))
    (undefinedCast : UInt64 → UInt64) {schema : FlatSchema} {text : Text} {value : ProtoDefValue}
    {fuel : ℕ} (htext : schema.Spells (trim text)) (hnames : txt ".." ∉ schema.innerNames)
    (hvalue : schema.HasType value) (hfuel : schema.depth ≤ fuel) :
    ∃ bytes, ProtoDefEncoder.encode typeJson protoDefVariables undefinedCast fuel text value = .ok bytes ∧
      ∀ path decoded, DecodesRecords
        (ProtoDefDecoder.decode typeJson protoDefVariables true fuel text path) bytes
        (schema.records path value) decoded :=
  schema.roundTrips text value fuel htext hnames hvalue hfuel

/-! ### An example -/

/-- The numbers of a kind; one is negative. -/
def kindNames : NumberNames where
  baseType := txt "i8"
  type := ⟨8, true, leBytes 1⟩
  mappings := [(-1, txt "none"), (0, txt "some")]
  base := rfl
  holds := by decide
  numbers := by decide
  body := by decide

def entitySchema : FlatSchema :=
  .container (.field ⟨txt "id", by decide⟩ .uuid
    (.field ⟨txt "kind", by decide⟩ (.mapper kindNames)
      (.field ⟨txt "at", by decide⟩
        (.option (.container (.field ⟨txt "x", by decide⟩ (.scalar ⟨txt "li16", by decide⟩) .nil)))
        (.field ⟨txt "tags", by decide⟩ (.array .pstring) .nil))))

def entityText : Text :=
  txt ("[\"container\", [ \x7b \"name\": \"id\", \"type\": \"uuid\"\x7d, " ++
    "\x7b \"name\": \"kind\", \"type\": [\"mapper\", \x7b \"type\": \"i8\", " ++
    "\"mappings\": \x7b \"-1\": \"none\", \"0\": \"some\"\x7d\x7d]\x7d, " ++
    "\x7b \"name\": \"at\", \"type\": [\"option\", [\"container\", " ++
    "[ \x7b \"name\": \"x\", \"type\": \"li16\"\x7d]]]\x7d, " ++
    "\x7b \"name\": \"tags\", \"type\": [\"array\", \x7b \"countType\": \"varint\", " ++
    "\"type\": [\"pstring\", \x7b \"countType\": \"varint\"\x7d]\x7d]\x7d]]")

def entity : ProtoDefValue :=
  .object [(txt "id", .string (txt "00112233-4455-6677-8899-AABBCCDDEEFF")),
    (txt "kind", .string (txt "none")), (txt "at", .object [(txt "x", .int (-2))]),
    (txt "tags", .array [.string (txt "a"), .string []])]

def entityBytes : List UInt8 :=
  [0x00, 0x11, 0x22, 0x33, 0x44, 0x55, 0x66, 0x77, 0x88, 0x99, 0xaa, 0xbb, 0xcc, 0xdd, 0xee, 0xff,
    0xff, 0x01, 0xfe, 0xff, 0x02, 0x01, 0x61, 0x00]

/-- The fields of the entity, as path and text. -/
def entityFields : List (Text × Text) :=
  [(txt "id", txt "00112233-4455-6677-8899-aabbccddeeff"), (txt "kind", txt "-1/none"),
    (txt "at.$present", txt "true"), (txt "at.x", txt "-2"), (txt "tags.$count", txt "2"),
    (txt "tags[0]", txt "a"), (txt "tags[1]", [])]

theorem entity_hasType : entitySchema.HasType entity := by
  refine ⟨_, rfl, ⟨_, rfl, _, rfl, by decide, by decide⟩, ⟨_, rfl, -1, rfl, by decide⟩, ⟨_, rfl, .inr ?_⟩,
    ⟨_, rfl, _, rfl, by decide, ?_⟩, trivial⟩
  · exact ⟨_, rfl, ⟨_, rfl, rfl⟩, trivial⟩
  · rintro element (_ | ⟨_, _ | ⟨_, ⟨⟩⟩⟩)
    exacts [⟨_, rfl, by decide⟩, ⟨_, rfl, by decide⟩]

theorem spelled_round_trip_entity :
    ProtoDefEncoder.encode (fun _ ↦ none) [] id 4 entityText entity = .ok entityBytes ∧
      (entitySchema.records [] entity).map (fun record ↦ (record.path, record.value)) = entityFields ∧
      ∀ path decoded, DecodesRecords
        (ProtoDefDecoder.decode (fun _ ↦ none) [] true 4 entityText path) entityBytes
        (entitySchema.records path entity) decoded := by
  have htext : entityText = entitySchema.text (txt " ") := by decide +kernel
  have hspells : entitySchema.Spells (trim entityText) := by
    rw [htext]
    exact (entitySchema.text_spells rfl).trimmed
  obtain ⟨bytes, hencode, hdecode⟩ := spelled_round_trip (fun _ ↦ none) [] id hspells (by decide)
    entity_hasType (by decide : entitySchema.depth ≤ 4)
  have hbytes : ProtoDefEncoder.encode (fun _ ↦ none) [] id 4 entityText entity = .ok entityBytes := by
    decide +kernel
  obtain rfl := Except.ok.inj (hencode.symm.trans hbytes)
  exact ⟨hencode, by decide +kernel, hdecode⟩

/-! ### Values that do not come back -/

/-- The length of a string is a word of 32 bits, and this one is taken for no string at all. -/
theorem string_wraps {type text : Text} (htype : trim type = quoted (txt "string"))
    (h : text.length = 2 ^ 32) (levels : ℕ) :
    ProtoDefEncoder.encode (fun _ ↦ none) [] id (levels + 1) type (.string text) = .ok (0 :: text) ∧
      ∀ path decoded, DecodesRecords
        (ProtoDefDecoder.decode (fun _ ↦ none) [] true (levels + 1) type path) [0]
        [{ path := orName path "$value", value := [] }] decoded := by
  constructor
  · have hlength : leb128 4 (text.length % 2 ^ 32) = [0] := by
      rw [h]
      decide
    rw [ProtoDefEncoder.encode, encodeLevel_typeName _ _ _ _ _ htype]
    change Except.ok (leb128 4 (text.length % 2 ^ 32) ++ text) = _
    rw [hlength]
    rfl
  · have hempty : scalarCode (txt "string") (.string []) = some ([0], []) := by decide
    intro path decoded
    refine DecodesRecords.congr (decodeLevel_typeName htype) ?_
    exact decodesRecords_scalar hempty _ _ path decoded

/-- A container inside a container has a field that is called like the parent. -/
def parentSchema : FlatSchema :=
  .container (.field ⟨txt "a", by decide⟩
    (.container (.field ⟨txt "..", by decide⟩ (.scalar ⟨txt "u8", by decide⟩) .nil)) .nil)

def parentText : Text := parentSchema.text []

def parentValue : ProtoDefValue := .object [(txt "a", .object [(txt "..", .uint 5)])]

/-- The encoder has the parent in the place of the field; it knows a kind of type only right behind
the bracket, the names of a mapper only up to their first quote, and lengths up to `2 ^ 32`. -/
theorem not_every_text_round_trips :
    (parentSchema.Spells (trim parentText) ∧ parentSchema.HasType parentValue ∧
      ProtoDefEncoder.encode (fun _ ↦ none) [] id 3 parentText parentValue =
        .error "at container field a: at container field ..: expected uint-compatible value") ∧
      ProtoDefEncoder.encode (fun _ ↦ none) [] id 2 (txt "[ \"option\", \"u8\"]") (.uint 1) =
        .error "ProtoDefEncoder unsupported type json: [ \"option\", \"u8\"]" ∧
      ProtoDefEncoder.encode (fun _ ↦ none) [] id 1
          (txt "[\"mapper\",\x7b\"type\":\"u8\",\"mappings\":\x7b\"0\":\"a\\\"b\"\x7d\x7d]")
          (.string (txt "a\\\"b")) = .error "mapper encode unknown mapped value: a\\\"b" ∧
      ∀ text : Text, text.length = 2 ^ 32 →
        ProtoDefEncoder.encode (fun _ ↦ none) [] id 1 (txt "\"string\"") (.string text) =
          .ok (0 :: text) := by
  refine ⟨⟨?_, ?_, ?_⟩, ?_, ?_, fun text h ↦ (string_wraps (by decide) h 0).1⟩
  · exact (parentSchema.text_spells rfl).trimmed
  · exact ⟨_, rfl, ⟨_, rfl, _, rfl, ⟨_, rfl, rfl⟩, trivial⟩, trivial⟩
  · decide +kernel
  · decide +kernel
  · decide +kernel

end FlatCodec

end BedrockProtocol
