import BedrockProtocol.Protodef.SchemaRendering

/-!
# Round trips of whole schemas

What the encoder writes for a value the decoder reads again, for every schema: in whatever context
and in front of whatever bytes, it consumes the bytes of the value and records its fields.  So the
bytes of one value never begin those of another.
-/

namespace BedrockProtocol

namespace SchemaCodec

variable (typeJson : Text → Option Text) (protoDefVariables : List (Text × Text))
  (undefinedCast : UInt64 → UInt64) {schema : WireSchema} {value : ProtoDefValue}
  {bytes : List UInt8} {fuel : ℕ}

/-- A value that a schema has bytes for is encoded as these, and decoded from them. -/
theorem compact_round_trip (hschema : schema.Writable typeJson) (hwire : schema.wire value = some bytes)
    (hfuel : schema.depth ≤ fuel) :
    ProtoDefEncoder.encode typeJson protoDefVariables undefinedCast fuel schema.text value =
        .ok bytes ∧
      ∀ path decoded, DecodesRecords
        (ProtoDefDecoder.decode typeJson protoDefVariables true fuel schema.text path) bytes
        (schema.records path value) decoded := by
  have hdescribed := schema.text_described protoDefVariables hschema
  constructor
  · exact schema.encode_wire undefinedCast schema.text value bytes fuel hdescribed hwire hfuel
  · exact schema.decode_wire schema.text value bytes fuel hdescribed hwire hfuel

/-! ### An example -/

/-- Entries that are added or removed; there are names for those that are added. -/
def entriesSchema : WireSchema :=
  .container (.plain ⟨txt "action", by decide⟩
    (.mapper ⟨txt "u8", by decide⟩ [(0, ⟨txt "add", by decide⟩), (1, ⟨txt "remove", by decide⟩)])
    (.switch ⟨txt "entries", by decide⟩ ⟨txt "action", by decide⟩
      (.case ⟨txt "add", by decide⟩
        (.array (.counted ⟨txt "varint", by decide⟩) (.scalar ⟨txt "string", by decide⟩)) .nil)
      .nil))

def addedEntries : ProtoDefValue :=
  .object [(txt "action", .string (txt "add")), (txt "entries", .array [.string (txt "a")])]

theorem compact_round_trip_entries :
    ProtoDefEncoder.encode (fun _ ↦ none) [] id 4 entriesSchema.text addedEntries =
        .ok [0, 1, 1, 0x61] ∧
      ∀ path decoded, DecodesRecords
        (ProtoDefDecoder.decode (fun _ ↦ none) [] true 4 entriesSchema.text path) [0, 1, 1, 0x61]
        (entriesSchema.records path addedEntries) decoded :=
  compact_round_trip _ _ _ ⟨⟨by decide, by decide⟩, by decide, ⟨⟨trivial, trivial⟩, trivial⟩,
    trivial⟩ rfl (by decide)

/-! ### A value without bytes -/

/-- The branch of `a` has a field `b`, and there is a branch of `b`. -/
def mixedSchema : WireSchema :=
  .container (.plain ⟨txt "kind", by decide⟩
    (.mapper ⟨txt "u8", by decide⟩ [(0, ⟨txt "a", by decide⟩), (1, ⟨txt "b", by decide⟩)])
    (.switch ⟨txt "body", by decide⟩ ⟨txt "kind", by decide⟩
      (.case ⟨txt "a", by decide⟩
        (.container (.plain ⟨txt "b", by decide⟩ (.scalar ⟨txt "u8", by decide⟩) .nil))
        (.case ⟨txt "b", by decide⟩ (.scalar ⟨txt "u16", by decide⟩) .nil))
      .nil))

def mixedValue : ProtoDefValue :=
  .object [(txt "kind", .string (txt "b")), (txt "body", .uint 513)]

/-- The texts that are decoded from the bytes. -/
def mixedTexts (bytes : List UInt8) : Except String (List Text) :=
  (ProtoDefDecoder.decode (fun _ ↦ none) [] true 4 mixedSchema.text [] {} ⟨0, bytes⟩).map
    fun decoded ↦ decoded.1.out.map (·.value)

/-- The encoder takes the branch of `a`, as `switchBranch_firstField` says, and what it writes
cannot be read; the decoder expects the two bytes of the branch of `b`. -/
theorem mixed_encodes_first_branch :
    mixedSchema.wire mixedValue = none ∧
      ProtoDefEncoder.encode (fun _ ↦ none) [] id 4 mixedSchema.text mixedValue = .ok [1, 1] ∧
      mixedTexts [1, 1] = .error "at body: not enough bytes for u8 at offset 2" ∧
      mixedTexts [1, 2, 1] = .ok [txt "1/b", txt "513"] := by
  refine ⟨?_, ?_, ?_, ?_⟩ <;> decide +kernel

/-! ## Bytes of two values -/

/-- What a decoded field shows of a record. -/
def Recorded.SameField (record record' : Recorded) : Prop :=
  record.path = record'.path ∧ record.value = record'.value ∧
    record.structuredValue = record'.structuredValue

theorem sameFields_of_matches {fields : List ProtoDefField} {records records' : List Recorded}
    (h : List.Forall₂ ProtoDefField.Matches fields records)
    (h' : List.Forall₂ ProtoDefField.Matches fields records') :
    List.Forall₂ Recorded.SameField records records' := by
  induction h generalizing records' with
  | nil =>
      cases h'
      exact .nil
  | cons hfield _ ih =>
      cases h' with
      | cons hfield' hrest' =>
          refine .cons ⟨?_, ?_, ?_⟩ (ih hrest')
          · exact hfield.1.symm.trans hfield'.1
          · exact hfield.2.1.symm.trans hfield'.2.1
          · exact hfield.2.2.symm.trans hfield'.2.2

/-- Two texts that begin with the bytes of values of one schema begin with the same bytes if they
are equal, and the values have the same fields. -/
theorem compact_prefix_free {value' : ProtoDefValue} {bytes' suffix suffix' : List UInt8}
    (hschema : schema.Writable typeJson) (hwire : schema.wire value = some bytes)
    (hwire' : schema.wire value' = some bytes') (h : bytes ++ suffix = bytes' ++ suffix')
    (path : Text) :
    bytes = bytes' ∧ List.Forall₂ Recorded.SameField (schema.records path value)
      (schema.records path value') := by
  have hdescribed := schema.text_described [] hschema
  obtain ⟨decoded, hrun, hgrows⟩ := schema.decode_wire schema.text value bytes schema.depth
    hdescribed hwire le_rfl path {} 0 suffix
  obtain ⟨decoded', hrun', hgrows'⟩ := schema.decode_wire schema.text value' bytes' schema.depth
    hdescribed hwire' le_rfl path {} 0 suffix'
  rw [← h, hrun] at hrun'
  obtain ⟨hdecoded, hcursor⟩ := Prod.mk.inj (Except.ok.inj hrun')
  obtain ⟨-, hsuffix⟩ := Cursor.mk.inj hcursor
  obtain ⟨fields, hout, hfields⟩ := hgrows.fields
  obtain ⟨fields', hout', hfields'⟩ := hgrows'.fields
  have hsame : fields = fields' := by
    rw [← hdecoded, hout] at hout'
    exact List.append_cancel_left hout'
  constructor
  · rw [hsuffix] at h
    exact List.append_cancel_right h
  · rw [← hsame] at hfields'
    exact sameFields_of_matches hfields hfields'

/-- A name and its number. -/
def actionSchema : WireSchema :=
  .container (.plain ⟨txt "action", by decide⟩
    (.mapper ⟨txt "u8", by decide⟩ [(0, ⟨txt "add", by decide⟩), (1, ⟨txt "remove", by decide⟩)])
    .nil)

theorem actionSchema_writable : actionSchema.Writable fun _ ↦ none :=
  ⟨⟨by decide, by decide⟩, trivial⟩

theorem compact_prefix_free_action :
    [0] = ([0] : List UInt8) ∧ List.Forall₂ Recorded.SameField
      (actionSchema.records [] (.object [(txt "action", .string (txt "add"))]))
      (actionSchema.records [] (.object [(txt "action", .uint 0)])) :=
  compact_prefix_free (fun _ ↦ none) actionSchema_writable rfl rfl
    (rfl : ([0] : List UInt8) ++ [] = [0] ++ []) []

end SchemaCodec

end BedrockProtocol
