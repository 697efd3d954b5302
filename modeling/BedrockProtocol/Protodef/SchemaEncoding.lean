import BedrockProtocol.Protodef.ScalarCodec
import BedrockProtocol.Protodef.SchemaDescription

/-!
# The encoder writes what the schema means

The encoder gives every object its parent before it goes into it; no field of a schema is called
like the parent, so the bytes do not change.  The theorem for all schemas is by recursion over the
schema, with a lemma for each kind of type.
-/

namespace BedrockProtocol

open SchemaText

open ProtoDefValue (assign find_assign)

/-! ## Parents -/

open ProtoDefEncoder in
theorem withParentItems_eq_map (parent : ProtoDefValue) (items : List ProtoDefValue) :
    withParentItems parent items = items.map (withParent parent) := by
  induction items with
  | nil => rfl
  | cons item items ih => rw [withParentItems, ih, List.map_cons]

theorem get_assign_of_ne {key name : Text} (h : key ≠ name) (child : ProtoDefValue)
    (fields : List (Text × ProtoDefValue)) :
    (ProtoDefValue.object (assign key child fields)).get name =
      (ProtoDefValue.object fields).get name := by
  change ProtoDefValue.find name (assign key child fields) = ProtoDefValue.find name fields
  rw [find_assign, if_neg h]

theorem get_assign_self (key : Text) (child : ProtoDefValue)
    (fields : List (Text × ProtoDefValue)) :
    (ProtoDefValue.object (assign key child fields)).get key = some child := by
  change ProtoDefValue.find key (assign key child fields) = some child
  rw [find_assign, if_pos rfl]

/-- No scalar and no mapper is about an object or an array. -/
theorem scalarCode_withParent (typeName : Text) (parent value : ProtoDefValue) :
    scalarCode typeName (ProtoDefEncoder.withParent parent value) = scalarCode typeName value := by
  cases value with
  | object fields => rfl
  | array items => rfl
  | _ => rfl

theorem mapperCode_withParent (baseType : Text) (mappings : List (ℕ × WireKey))
    (parent value : ProtoDefValue) :
    mapperCode baseType mappings (ProtoDefEncoder.withParent parent value) =
      mapperCode baseType mappings value := by
  cases value with
  | object fields => rfl
  | array items => rfl
  | _ => rfl

theorem discriminator_assign (env : List (Text × Text)) (compareTo : WireName) {key : Text}
    (hkey : ¬PlainName key) (child : ProtoDefValue) (fields : List (Text × ProtoDefValue)) :
    discriminator env compareTo.1 (.object (assign key child fields)) =
      discriminator env compareTo.1 (.object fields) := by
  rw [discriminator, discriminator, get_assign_of_ne (compareTo.2.ne_of_not_plain hkey)]

mutual

theorem WireSchema.wire_withParent (parent : ProtoDefValue) : ∀ (schema : WireSchema)
    (value : ProtoDefValue),
    schema.wire (ProtoDefEncoder.withParent parent value) = schema.wire value
  | .scalar typeName, value => by
      rw [WireSchema.wire, WireSchema.wire, scalarCode_withParent]
  | .pstring countType, value => by cases value <;> rfl
  | .buffer size, value => by cases value <;> rfl
  | .array size item, value => by
      cases value with
      | array items =>
          have hitems : (items.map (ProtoDefEncoder.withParent parent)).mapM item.wire =
              items.mapM item.wire := by
            rw [List.mapM_map]
            exact congrArg (fun f ↦ items.mapM f) (funext (item.wire_withParent parent))
          rw [ProtoDefEncoder.withParent, withParentItems_eq_map, WireSchema.wire,
            WireSchema.wire, List.length_map, hitems]
      | _ => rfl
  | .option inner, value => by
      have hinner := inner.wire_withParent parent value
      cases value with
      | object fields => exact congrArg (fun code ↦ (1 :: ·) <$> code) hinner
      | array items => exact congrArg (fun code ↦ (1 :: ·) <$> code) hinner
      | _ => rfl
  | .mapper baseType mappings, value => by
      rw [WireSchema.wire, WireSchema.wire, mapperCode_withParent]
  | .encapsulated lengthType inner, value => by
      rw [WireSchema.wire, WireSchema.wire, inner.wire_withParent parent value]
  | .named typeName schema, value => by
      rw [WireSchema.wire, WireSchema.wire, schema.wire_withParent parent value]
  | .container fields, value => by
      cases value with
      | object members =>
          rw [ProtoDefEncoder.withParent, WireSchema.wire, WireSchema.wire]
          exact fields.wire_withParent parent [] members
      | _ => rfl

theorem WireFields.wire_withParent (parent : ProtoDefValue) : ∀ (fields : WireFields)
    (env : List (Text × Text)) (members : List (Text × ProtoDefValue)),
    fields.wire env (.object (assign (txt "..") parent members)) =
      fields.wire env (.object members)
  | .nil, env, members => rfl
  | .plain name schema rest, env, members => by
      rw [WireFields.wire, WireFields.wire,
        get_assign_of_ne (name.2.ne_of_not_plain (by decide))]
      refine bind_congr fun child ↦ bind_congr fun bytes ↦ ?_
      dsimp only
      rw [rest.wire_withParent parent _ members]
  | .switch name compareTo cases rest, env, members => by
      rw [WireFields.wire, WireFields.wire, discriminator_assign env compareTo (by decide),
        rest.wire_withParent parent _ members]
      refine bind_congr fun key ↦ ?_
      rw [branchValue, branchValue, get_assign_of_ne (name.2.ne_of_not_plain (by decide)),
        get_assign_of_ne (by decide)]
      cases hvalue : ((ProtoDefValue.object members).get name.1 <|>
          (ProtoDefValue.object members).get (txt "$value")) with
      | some child => rfl
      | none =>
          rw [Option.getD_none, Option.getD_none]
          have hcases := cases.wire_withParent parent key (.object members)
          rw [ProtoDefEncoder.withParent] at hcases
          rw [hcases]

theorem WireCases.wire_withParent (parent : ProtoDefValue) : ∀ (cases : WireCases) (key : Text)
    (value : ProtoDefValue),
    cases.wire key (ProtoDefEncoder.withParent parent value) = cases.wire key value
  | .nil, key, value => rfl
  | .default schema, key, value => by
      rw [WireCases.wire, WireCases.wire, schema.wire_withParent parent value]
  | .case k schema rest, key, value => by
      rw [WireCases.wire, WireCases.wire, schema.wire_withParent parent value,
        rest.wire_withParent parent key value]

end

/-! ## The kinds of types -/

section Kinds

variable (typeJson : Text → Option Text) (protoDefVariables : List (Text × Text))
  (undefinedCast : UInt64 → UInt64) (encode : Text → ProtoDefValue → Except String (List UInt8))
  {text : Text} (value : ProtoDefValue)

open ProtoDefEncoder

theorem encodeLevel_typeName {typeName : Text} (h : trim text = quoted typeName) :
    encodeLevel typeJson protoDefVariables undefinedCast encode text value =
      ProtoDefEncoder.encodeTypeName typeJson undefinedCast encode typeName value := by
  unfold encodeLevel
  dsimp only
  rw [h, if_pos (isJsonString_quoted typeName), unquote_quoted]

theorem encodeLevel_container (h : startsWith (trim text) (txt "[\"container\"") = true) :
    encodeLevel typeJson protoDefVariables undefinedCast encode text value =
      encodeContainer encode (trim text) value := by
  unfold encodeLevel
  dsimp only
  rw [if_neg (not_isJsonString h), if_pos h]

theorem encodeLevel_mapper (h : startsWith (trim text) (txt "[\"mapper\"") = true) :
    encodeLevel typeJson protoDefVariables undefinedCast encode text value =
      encodeMapper typeJson undefinedCast encode (trim text) value := by
  unfold encodeLevel
  dsimp only
  rw [if_neg (not_isJsonString h)]
  generalize trim text = type at h ⊢
  obtain ⟨rest, rfl⟩ := List.isPrefixOf_iff_prefix.mp h
  rfl

theorem encodeLevel_switch (h : startsWith (trim text) (txt "[\"switch\"") = true) :
    encodeLevel typeJson protoDefVariables undefinedCast encode text value =
      encodeSwitch protoDefVariables encode (trim text) value := by
  unfold encodeLevel
  dsimp only
  rw [if_neg (not_isJsonString h)]
  generalize trim text = type at h ⊢
  obtain ⟨rest, rfl⟩ := List.isPrefixOf_iff_prefix.mp h
  rfl

theorem encodeLevel_encapsulated (h : startsWith (trim text) (txt "[\"encapsulated\"") = true) :
    encodeLevel typeJson protoDefVariables undefinedCast encode text value =
      ElementCounts.encodeEncapsulated encode (trim text) value := by
  unfold encodeLevel
  dsimp only
  rw [if_neg (not_isJsonString h)]
  generalize trim text = type at h ⊢
  obtain ⟨rest, rfl⟩ := List.isPrefixOf_iff_prefix.mp h
  rfl

theorem encodeLevel_array (h : startsWith (trim text) (txt "[\"array\"") = true) :
    encodeLevel typeJson protoDefVariables undefinedCast encode text value =
      ElementCounts.encodeArray encode (trim text) value := by
  unfold encodeLevel
  dsimp only
  rw [if_neg (not_isJsonString h)]
  generalize trim text = type at h ⊢
  obtain ⟨rest, rfl⟩ := List.isPrefixOf_iff_prefix.mp h
  rfl

theorem encodeLevel_option (h : startsWith (trim text) (txt "[\"option\"") = true) :
    encodeLevel typeJson protoDefVariables undefinedCast encode text value =
      encodeOption encode (trim text) value := by
  unfold encodeLevel
  dsimp only
  rw [if_neg (not_isJsonString h)]
  generalize trim text = type at h ⊢
  obtain ⟨rest, rfl⟩ := List.isPrefixOf_iff_prefix.mp h
  rfl

theorem encodeLevel_pstring (h : startsWith (trim text) (txt "[\"pstring\"") = true) :
    encodeLevel typeJson protoDefVariables undefinedCast encode text value =
      ElementCounts.encodePString (trim text) value := by
  unfold encodeLevel
  dsimp only
  rw [if_neg (not_isJsonString h)]
  generalize trim text = type at h ⊢
  obtain ⟨rest, rfl⟩ := List.isPrefixOf_iff_prefix.mp h
  rfl

theorem encodeLevel_buffer (h : startsWith (trim text) (txt "[\"buffer\"") = true) :
    encodeLevel typeJson protoDefVariables undefinedCast encode text value =
      ElementCounts.encodeBuffer (trim text) value := by
  unfold encodeLevel
  dsimp only
  rw [if_neg (not_isJsonString h)]
  generalize trim text = type at h ⊢
  obtain ⟨rest, rfl⟩ := List.isPrefixOf_iff_prefix.mp h
  rfl

/-- A name that only the resolver knows. -/
theorem encodeTypeName_named {typeName json : Text} (hname : typeName ∉ primitiveTypes)
    (hjson : typeJson typeName = some json) :
    ProtoDefEncoder.encodeTypeName typeJson undefinedCast encode typeName value =
      encode json value := by
  simp only [primitiveTypes, integerTypes, floatTypes, stringTypes, List.map_cons, List.map_nil,
    List.mem_append, List.mem_cons, List.not_mem_nil, or_false, not_or] at hname
  simp only [ProtoDefEncoder.encodeTypeName, ProtoDefTypes.encodeTypeName, encodeNamed, hname, hjson,
    List.mem_cons, List.not_mem_nil, or_false, if_false]

end Kinds

/-! ## Loops -/

theorem forall₂_of_mapM_eq_some {α β : Type} {f : α → Option β} {items : List α} {results : List β}
    (h : items.mapM f = some results) : List.Forall₂ (fun a b ↦ f a = some b) items results := by
  induction items generalizing results with
  | nil =>
      obtain rfl := Option.some.inj h
      exact .nil
  | cons item items ih =>
      rw [List.mapM_cons] at h
      obtain ⟨b, hb, h⟩ := Option.bind_eq_some_iff.mp h
      obtain ⟨rest, hrest, h⟩ := Option.bind_eq_some_iff.mp h
      obtain rfl := Option.some.inj h
      exact .cons hb (ih hrest)

theorem flatten_mapM_cons {α β : Type} {f : α → Except String (List β)} {item : α}
    {items : List α} {first more : List β} (hfirst : f item = .ok first)
    (hmore : List.flatten <$> items.mapM f = .ok more) :
    List.flatten <$> (item :: items).mapM f = .ok (first ++ more) := by
  obtain ⟨chunks, hchunks, rfl⟩ := map_eq_ok.mp hmore
  rw [List.mapM_cons, hfirst, hchunks]
  rfl

/-! ## Counts -/

theorem countCode_eq_some {countType : Text} {count : ℕ} {header : List UInt8}
    (h : countCode countType count = some header) :
    count < ElementCounts.countBound countType ∧
      ElementCounts.writeCount countType count = .ok header := by
  rw [countCode] at h
  split at h
  · rename_i hbound
    cases hwrite : ElementCounts.writeCount countType count with
    | error e =>
        rw [hwrite] at h
        cases h
    | ok bytes =>
        rw [hwrite] at h
        exact ⟨hbound, congrArg Except.ok (Option.some.inj h)⟩
  · cases h

theorem encodeSize_of_code {owner : String} {json : Text} {size : WireSize} {count : ℕ}
    {header : List UInt8} (hsize : size.Described json) (h : size.code count = some header) :
    ElementCounts.encodeSize owner json count = .ok header := by
  rw [ElementCounts.encodeSize]
  cases size with
  | counted countType =>
      obtain ⟨hfixed, hreferenced, htype⟩ := hsize
      rw [hfixed, ok_bind]
      dsimp only
      rw [hreferenced, htype]
      exact (countCode_eq_some h).2
  | fixed expected =>
      have hfixed : readJsonIntegerField json (txt "count") = .ok (some expected) := hsize
      rw [WireSize.code] at h
      split at h
      · rename_i hcount
        obtain rfl := Option.some.inj h
        rw [hfixed, ok_bind]
        dsimp only
        rw [if_neg (not_not.mpr hcount.1)]
        rfl
      · cases h

/-! ## Discriminators -/

theorem getPath_name (context : ProtoDefValue) (name : WireName) :
    ProtoDefEncoder.getPath context name.1 = context.get name.1 := by
  have hdot : (0x2e : UInt8) ∉ name.1 := name.2.not_mem (by decide)
  have hslash : (0x2f : UInt8) ∉ name.1 := name.2.not_mem (by decide)
  have hhead : name.1.head? ∉ [some 0x2e, some 0x2f] := by
    intro hmem
    rcases List.mem_pair.mp hmem with h | h
    · exact hdot (List.mem_of_mem_head? h)
    · exact hslash (List.mem_of_mem_head? h)
  have hmap : (name.1.map fun c ↦ if c = 0x2e then 0x2f else c) = name.1 := by
    refine (List.map_congr_left fun c hc ↦ ?_).trans (List.map_id _)
    exact if_neg fun h : c = 0x2e ↦ hdot (h ▸ hc)
  have hparts : ProtoDefEncoder.pathParts name.1 = [name.1] := by
    rw [ProtoDefEncoder.pathParts, hmap]
    refine List.splitOnP_eq_singleton fun c hc ↦ ?_
    exact beq_eq_false_iff_ne.mpr fun h ↦ hslash (h ▸ hc)
  rw [ProtoDefEncoder.getPath, hparts, if_neg hhead]
  have hfilter : [name.1].filter (· ≠ []) = [name.1] :=
    List.filter_eq_self.mpr fun part hpart ↦
      decide_eq_true (List.mem_singleton.mp hpart ▸ name.2.1)
  rw [hfilter]
  exact bind_pure _

theorem resolveCompareValue_name {context compared : ProtoDefValue} {name : WireName} {key : Text}
    (hcompared : context.get name.1 = some compared)
    (hkey : ProtoDefEncoder.valueToSwitchKey compared = .ok key) :
    ProtoDefEncoder.resolveCompareValue context name.1 = .ok (some key) := by
  rw [ProtoDefEncoder.resolveCompareValue, name.2.trim_eq, if_neg name.2.1, name.2.splitOr_eq]
  dsimp only
  rw [getPath_name, hcompared]
  dsimp only
  rw [hkey, map_ok]

theorem discriminator_eq_some {env : List (Text × Text)} {compareTo key : Text}
    {value : ProtoDefValue} (h : discriminator env compareTo value = some key) :
    env.lookup compareTo = some key ∧ PlainKey key ∧
      ∃ compared, value.get compareTo = some compared ∧
        ProtoDefEncoder.valueToSwitchKey compared = .ok key := by
  obtain ⟨key', hlookup, h⟩ := Option.bind_eq_some_iff.mp h
  obtain ⟨compared, hcompared, h⟩ := Option.bind_eq_some_iff.mp h
  obtain ⟨seen, hseen, h⟩ := Option.bind_eq_some_iff.mp h
  split at h
  · rename_i hsame
    obtain rfl := Option.some.inj h
    obtain ⟨rfl, hplain⟩ := hsame
    refine ⟨hlookup, hplain, compared, hcompared, ?_⟩
    cases hkey : ProtoDefEncoder.valueToSwitchKey compared with
    | error e =>
        rw [hkey] at hseen
        cases hseen
    | ok key =>
        rw [hkey] at hseen
        exact congrArg Except.ok (Option.some.inj hseen)
  · cases h

/-! ## The encoder -/

section Encoding

variable {typeJson : Text → Option Text} {protoDefVariables : List (Text × Text)}
  (undefinedCast : UInt64 → UInt64)

theorem mapperNumber_eq_some {mappings : List (ℕ × WireKey)} {value : ProtoDefValue} {n : ℕ}
    (h : mapperNumber mappings value = some n) :
    (∃ name, value = .string name ∧ numberOf mappings name = some n) ∨ value = .uint n := by
  cases value with
  | string name => exact .inl ⟨name, rfl, h⟩
  | uint m => exact .inr (congrArg ProtoDefValue.uint (Option.some.inj h))
  | _ => cases h

theorem mapperCode_eq_some {baseType : Text} {mappings : List (ℕ × WireKey)}
    {value : ProtoDefValue} {n : ℕ} {bytes : List UInt8}
    (h : mapperCode baseType mappings value = some (n, bytes)) :
    ∃ type, baseType ∈ mapperTypes ∧ integerType baseType = some type ∧
      mapperNumber mappings value = some n ∧ type.Holds n ∧ bytes = type.bytes n := by
  rw [mapperCode] at h
  split at h
  · rename_i hmem
    obtain ⟨type, htype, h⟩ := Option.bind_eq_some_iff.mp h
    obtain ⟨m, hnumber, h⟩ := Option.bind_eq_some_iff.mp h
    split at h
    · rename_i hholds
      obtain ⟨rfl, rfl⟩ := Prod.mk.inj (Option.some.inj h)
      exact ⟨type, hmem, htype, hnumber, hholds, rfl⟩
    · cases h
  · cases h

/-- A name of a mapper is written as its number. -/
theorem encodeMapper_eq (encode : Text → ProtoDefValue → Except String (List UInt8))
    {mapperJson : Text} {baseType : WireName} {mappings : List (ℕ × WireKey)}
    {value : ProtoDefValue} {n : ℕ} {bytes : List UInt8}
    (hbase : readJsonStringField mapperJson (txt "type") = some baseType.1)
    (hnames : ∀ name, ProtoDefEncoder.findMapperNumericByName mapperJson name =
      .ok (numberOf mappings name))
    (h : mapperCode baseType.1 mappings value = some (n, bytes)) :
    ProtoDefEncoder.encodeMapper typeJson undefinedCast encode mapperJson value = .ok bytes := by
  obtain ⟨type, -, htype, hnumber, hholds, rfl⟩ := mapperCode_eq_some h
  have hscalar := (@scalarAgrees_integer _ (.uint n) _ _ htype rfl hholds).encodes typeJson
    undefinedCast encode
  rw [ProtoDefEncoder.encodeMapper, hbase]
  rcases mapperNumber_eq_some hnumber with ⟨name, rfl, hname⟩ | rfl
  · dsimp only
    rw [hnames, hname]
    exact hscalar
  · exact hscalar

/-- The encoder of a field has another object in front of it. -/
theorem encodeObject_eq {encode : Text → ProtoDefValue → Except String (List UInt8)}
    {object type name : Text} {value : ProtoDefValue} {bytes : List UInt8}
    (hname : readJsonStringField object (txt "name") = some name)
    (hanon : (readJsonBoolField object (txt "anon")).getD false = false)
    (htype : readJsonValueField object (txt "type") = some type)
    (h : ProtoDefEncoder.encodeField encode (some name) false type value = .ok bytes) :
    ProtoDefEncoder.encodeObject encode value object = .ok bytes := by
  rw [ProtoDefEncoder.encodeObject, hname, hanon, htype]
  dsimp only
  rw [h]
  rfl

/-- Any other opening is neither that of a switch nor that of an item of metadata. -/
theorem choosesBranch_of_startsWith {text opening : Text}
    (hstart : startsWith (trim text) opening = true)
    (hswitch : ¬txt "[\"switch\"" <+: opening ∧ ¬opening <+: txt "[\"switch\"")
    (hitem : ¬txt "[\"entityMetadataItem\"" <+: opening ∧
      ¬opening <+: txt "[\"entityMetadataItem\"") :
    ProtoDefEncoder.choosesBranch text = false :=
  decide_eq_false (not_or.mpr ⟨not_startsWith hstart hswitch, not_startsWith hstart hitem⟩)

theorem choosesBranch_of_quoted {text name : Text} (htext : trim text = ProtoDefEncoder.quoted name) :
    ProtoDefEncoder.choosesBranch text = false := by
  rw [ProtoDefEncoder.choosesBranch, htext]
  rfl

/-- The type of a plain field chooses no branch. -/
theorem WireSchema.Described.not_choosesBranch {schema : WireSchema} {text : Text}
    (h : schema.Described typeJson protoDefVariables text) :
    ProtoDefEncoder.choosesBranch text = false := by
  cases schema with
  | scalar typeName => exact choosesBranch_of_quoted h
  | pstring countType => exact choosesBranch_of_startsWith h.1 (by decide) (by decide)
  | buffer size => exact choosesBranch_of_startsWith h.1 (by decide) (by decide)
  | array size item => exact choosesBranch_of_startsWith h.1 (by decide) (by decide)
  | option inner => exact choosesBranch_of_startsWith h.1 (by decide) (by decide)
  | mapper baseType mappings => exact choosesBranch_of_startsWith h.1 (by decide) (by decide)
  | encapsulated lengthType inner => exact choosesBranch_of_startsWith h.1 (by decide) (by decide)
  | named typeName schema => exact choosesBranch_of_quoted h.1
  | container fields => exact choosesBranch_of_startsWith h.1 (by decide) (by decide)

/-- What the encoder of a switch goes on with has the bytes of what the schema says. -/
theorem wire_directValue (cases : WireCases) (key : Text) (name : WireName)
    (members : List (Text × ProtoDefValue)) :
    cases.wire key (ProtoDefEncoder.directValue
        (ProtoDefEncoder.switchContext name.1 (.object members))) =
      cases.wire key (branchValue name.1 (.object members)) := by
  rw [ProtoDefEncoder.switchContext, branchValue]
  cases hchild : (ProtoDefValue.object members).get name.1 with
  | none => rfl
  | some child =>
      dsimp only
      rw [ProtoDefEncoder.directValue, get_assign_self]
      exact cases.wire_withParent (.object members) key child

/-- The context of a switch is an object in which the compared field is the same. -/
theorem switchContext_cases (name compareTo : WireName) (members : List (Text × ProtoDefValue)) :
    ∃ members', ProtoDefEncoder.switchContext name.1 (.object members) = .object members' ∧
      (ProtoDefValue.object members').get compareTo.1 =
        (ProtoDefValue.object members).get compareTo.1 := by
  rw [ProtoDefEncoder.switchContext]
  cases (ProtoDefValue.object members).get name.1 with
  | none => exact ⟨members, rfl, rfl⟩
  | some child =>
      exact ⟨_, rfl, get_assign_of_ne (compareTo.2.ne_of_not_plain (by decide)) _ _⟩

theorem WireSchema.exists_levels {schema : WireSchema} {fuel : ℕ} (h : schema.depth ≤ fuel) :
    ∃ levels, fuel = levels + 1 := by
  have hpos : 0 < schema.depth := by
    cases schema <;> exact Nat.succ_pos _
  exact ⟨fuel - 1, by omega⟩

mutual

theorem WireSchema.encode_wire : ∀ (schema : WireSchema) (text : Text) (value : ProtoDefValue)
    (bytes : List UInt8) (fuel : ℕ), schema.Described typeJson protoDefVariables text →
    schema.wire value = some bytes → schema.depth ≤ fuel →
    ProtoDefEncoder.encode typeJson protoDefVariables undefinedCast fuel text value = .ok bytes
  | .scalar typeName, text, value, bytes, fuel, hdescribed, hwire, hfuel => by
      obtain ⟨levels, rfl⟩ := WireSchema.exists_levels hfuel
      obtain ⟨⟨bytes, known⟩, hcode, rfl⟩ := Option.map_eq_some_iff.mp hwire
      rw [ProtoDefEncoder.encode, encodeLevel_typeName _ _ _ _ _ hdescribed]
      exact (scalarAgrees hcode).encodes typeJson undefinedCast _
  | .pstring countType, text, value, bytes, fuel, hdescribed, hwire, hfuel => by
      obtain ⟨levels, rfl⟩ := WireSchema.exists_levels hfuel
      obtain ⟨hstart, htype⟩ := hdescribed
      cases value with
      | string content =>
          obtain ⟨header, hheader, rfl⟩ := Option.map_eq_some_iff.mp hwire
          rw [ProtoDefEncoder.encode, encodeLevel_pstring _ _ _ _ _ hstart,
            ElementCounts.encodePString, htype]
          change (ElementCounts.writeCount countType.1 content.length >>= fun size ↦
            Except.ok (size ++ content)) = _
          rw [(countCode_eq_some hheader).2]
          rfl
      | _ => cases hwire
  | .buffer size, text, value, bytes, fuel, hdescribed, hwire, hfuel => by
      obtain ⟨levels, rfl⟩ := WireSchema.exists_levels hfuel
      obtain ⟨hstart, hsize⟩ := hdescribed
      cases value with
      | bytes content =>
          obtain ⟨header, hheader, rfl⟩ := Option.map_eq_some_iff.mp hwire
          rw [ProtoDefEncoder.encode, encodeLevel_buffer _ _ _ _ _ hstart,
            ElementCounts.encodeBuffer, encodeSize_of_code hsize hheader]
          rfl
      | _ => cases hwire
  | .array size item, text, value, bytes, fuel, hdescribed, hwire, hfuel => by
      obtain ⟨levels, rfl⟩ := WireSchema.exists_levels hfuel
      obtain ⟨hstart, hsize, itemType, htype, hitem⟩ := hdescribed
      rw [WireSchema.depth] at hfuel
      cases value with
      | array items =>
          obtain ⟨header, hheader, hwire⟩ := Option.bind_eq_some_iff.mp hwire
          obtain ⟨chunks, hchunks, hwire⟩ := Option.bind_eq_some_iff.mp hwire
          obtain rfl := Option.some.inj hwire
          have hitems : items.mapM (ProtoDefEncoder.encode typeJson protoDefVariables undefinedCast
              levels itemType) = .ok chunks :=
            mapM_eq_ok_iff.mpr ((forall₂_of_mapM_eq_some hchunks).imp fun element chunk hchunk ↦
              item.encode_wire itemType element chunk levels hitem hchunk (by omega))
          rw [ProtoDefEncoder.encode, encodeLevel_array _ _ _ _ _ hstart,
            ElementCounts.encodeArray, htype]
          dsimp only
          rw [encodeSize_of_code hsize hheader, ok_bind, hitems]
          rfl
      | _ => cases hwire
  | .option inner, text, value, bytes, fuel, hdescribed, hwire, hfuel => by
      obtain ⟨levels, rfl⟩ := WireSchema.exists_levels hfuel
      obtain ⟨hstart, innerType, htype, hinner⟩ := hdescribed
      rw [WireSchema.depth] at hfuel
      rw [ProtoDefEncoder.encode, encodeLevel_option _ _ _ _ _ hstart]
      by_cases hnull : value = .null
      · subst hnull
        exact congrArg Except.ok (Option.some.inj hwire)
      · have hpresent : (inner.wire value).map (1 :: ·) = some bytes := by
          cases value <;> first | exact hwire | exact absurd rfl hnull
        obtain ⟨content, hcontent, rfl⟩ := Option.map_eq_some_iff.mp hpresent
        have hencode := inner.encode_wire innerType value content levels hinner hcontent (by omega)
        rw [ProtoDefEncoder.encodeOption, htype]
        · dsimp only
          rw [hencode]
          rfl
        · exact hnull
  | .mapper baseType mappings, text, value, bytes, fuel, hdescribed, hwire, hfuel => by
      obtain ⟨levels, rfl⟩ := WireSchema.exists_levels hfuel
      obtain ⟨hstart, hbase, hnames, -⟩ := hdescribed
      obtain ⟨⟨n, bytes⟩, hcode, rfl⟩ := Option.map_eq_some_iff.mp hwire
      rw [ProtoDefEncoder.encode, encodeLevel_mapper _ _ _ _ _ hstart]
      exact encodeMapper_eq undefinedCast _ hbase hnames hcode
  | .encapsulated lengthType inner, text, value, bytes, fuel, hdescribed, hwire, hfuel => by
      obtain ⟨levels, rfl⟩ := WireSchema.exists_levels hfuel
      obtain ⟨hstart, hlength, innerType, htype, hinner⟩ := hdescribed
      rw [WireSchema.depth] at hfuel
      obtain ⟨payload, hpayload, hwire⟩ := Option.bind_eq_some_iff.mp hwire
      obtain ⟨header, hheader, hwire⟩ := Option.bind_eq_some_iff.mp hwire
      obtain rfl := Option.some.inj hwire
      have hencode := inner.encode_wire innerType value payload levels hinner hpayload (by omega)
      rw [ProtoDefEncoder.encode, encodeLevel_encapsulated _ _ _ _ _ hstart,
        ElementCounts.encodeEncapsulated, htype]
      dsimp only
      rw [hencode, ok_bind, hlength, (countCode_eq_some hheader).2]
      rfl
  | .named typeName schema, text, value, bytes, fuel, hdescribed, hwire, hfuel => by
      obtain ⟨levels, rfl⟩ := WireSchema.exists_levels hfuel
      obtain ⟨htext, hname, json, hjson, hschema⟩ := hdescribed
      rw [WireSchema.depth] at hfuel
      rw [ProtoDefEncoder.encode, encodeLevel_typeName _ _ _ _ _ htext,
        encodeTypeName_named _ _ _ _ hname hjson]
      exact schema.encode_wire json value bytes levels hschema hwire (by omega)
  | .container fields, text, value, bytes, fuel, hdescribed, hwire, hfuel => by
      obtain ⟨levels, rfl⟩ := WireSchema.exists_levels hfuel
      obtain ⟨hstart, fieldsText, objects, harray, -, -, hobjects, hfields⟩ := hdescribed
      rw [WireSchema.depth] at hfuel
      cases value with
      | object members =>
          rw [ProtoDefEncoder.encode, encodeLevel_container _ _ _ _ _ hstart,
            ProtoDefEncoder.encodeContainer, harray]
          dsimp only
          rw [encoder_containerFieldsFrom _ _ _ hobjects]
          exact fields.encode_wire objects [] members bytes levels hfields hwire (by omega)
      | _ => cases hwire

theorem WireFields.encode_wire : ∀ (fields : WireFields) (objects : List Text)
    (env : List (Text × Text)) (members : List (Text × ProtoDefValue)) (bytes : List UInt8)
    (fuel : ℕ), fields.Described typeJson protoDefVariables objects →
    fields.wire env (.object members) = some bytes → fields.depth ≤ fuel →
    List.flatten <$> objects.mapM (ProtoDefEncoder.encodeObject
        (ProtoDefEncoder.encode typeJson protoDefVariables undefinedCast fuel) (.object members)) =
      .ok bytes
  | .nil, objects, env, members, bytes, fuel, hdescribed, hwire, hfuel => by
      obtain rfl : objects = [] := hdescribed
      exact congrArg Except.ok (Option.some.inj hwire)
  | .plain name schema rest, objects, env, members, bytes, fuel, hdescribed, hwire, hfuel => by
      obtain ⟨object, others, type, rfl, hname, hanon, htype, hschema, hrest⟩ := hdescribed
      rw [WireFields.depth] at hfuel
      obtain ⟨child, hchild, hwire⟩ := Option.bind_eq_some_iff.mp hwire
      obtain ⟨first, hfirst, hwire⟩ := Option.bind_eq_some_iff.mp hwire
      obtain ⟨more, hmore, hwire⟩ := Option.bind_eq_some_iff.mp hwire
      obtain rfl := Option.some.inj hwire
      have hparent : schema.wire (ProtoDefEncoder.withParent (.object members) child) =
          some first := by
        rw [schema.wire_withParent, hfirst]
      have hencode := schema.encode_wire type _ first fuel hschema hparent (by omega)
      have hfield : ProtoDefEncoder.encodeField (ProtoDefEncoder.encode typeJson protoDefVariables
          undefinedCast fuel) (some name.1) false type (.object members) = .ok first := by
        rw [ProtoDefEncoder.encodeField, hschema.not_choosesBranch, hchild]
        exact hencode
      have hothers := rest.encode_wire others _ members more fuel hrest hmore (by omega)
      exact flatten_mapM_cons (encodeObject_eq hname hanon htype hfield) hothers
  | .switch name compareTo cases rest, objects, env, members, bytes, fuel, hdescribed, hwire,
    hfuel => by
      obtain ⟨object, others, type, rfl, hname, hanon, htype, hstart, hvalue, hcompare, hcases,
        hrest⟩ := hdescribed
      rw [WireFields.depth] at hfuel
      obtain ⟨key, hkey, hwire⟩ := Option.bind_eq_some_iff.mp hwire
      obtain ⟨first, hfirst, hwire⟩ := Option.bind_eq_some_iff.mp hwire
      obtain ⟨more, hmore, hwire⟩ := Option.bind_eq_some_iff.mp hwire
      obtain rfl := Option.some.inj hwire
      obtain ⟨-, hplain, compared, hcompared, hswitchKey⟩ := discriminator_eq_some hkey
      obtain ⟨levels, rfl⟩ : ∃ levels, fuel = levels + 1 := ⟨fuel - 1, by omega⟩
      obtain ⟨members', hcontext, hsame⟩ := switchContext_cases name compareTo members
      rw [← wire_directValue, hcontext] at hfirst
      have hbranch := cases.encode_wire (trim type) _ key _ first levels hcases trivial hplain
        hfirst (by omega)
      have hchooses : ProtoDefEncoder.choosesBranch type = true := decide_eq_true (.inl hstart)
      have hfield : ProtoDefEncoder.encodeField (ProtoDefEncoder.encode typeJson protoDefVariables
          undefinedCast (levels + 1)) (some name.1) false type (.object members) = .ok first := by
        rw [ProtoDefEncoder.encodeField, if_pos hchooses, hcontext]
        refine (encodeLevel_switch _ _ _ _ _ hstart).trans ?_
        rw [ProtoDefEncoder.encodeSwitch, ProtoDefEncoder.compareValue, hvalue, hcompare]
        dsimp only
        rw [resolveCompareValue_name (hsame.trans hcompared) hswitchKey]
        exact hbranch
      have hothers := rest.encode_wire others _ members more (levels + 1) hrest hmore (by omega)
      exact flatten_mapM_cons (encodeObject_eq hname hanon htype hfield) hothers

theorem WireCases.encode_wire : ∀ (cases : WireCases) (switchJson : Text) (keys : Text → Prop)
    (key : Text) (value : ProtoDefValue) (bytes : List UInt8) (fuel : ℕ),
    cases.Described typeJson protoDefVariables switchJson keys → keys key → PlainKey key →
    cases.wire key value = some bytes → cases.depth ≤ fuel →
    (match ProtoDefEncoder.switchBranch protoDefVariables switchJson key with
      | none => Except.ok []
      | some branch =>
          ProtoDefEncoder.encode typeJson protoDefVariables undefinedCast fuel branch value) =
      .ok bytes
  | .nil, switchJson, keys, key, value, bytes, fuel, hdescribed, hkeys, hplain, hwire, hfuel => by
      rw [(hdescribed key hplain hkeys).1]
      exact congrArg Except.ok (Option.some.inj hwire)
  | .default schema, switchJson, keys, key, value, bytes, fuel, hdescribed, hkeys, hplain, hwire,
    hfuel => by
      obtain ⟨branch, hbranch, hfound⟩ := hdescribed
      rw [(hfound key hplain hkeys).1]
      exact schema.encode_wire branch value bytes fuel hbranch hwire hfuel
  | .case k schema rest, switchJson, keys, key, value, bytes, fuel, hdescribed, hkeys, hplain,
    hwire, hfuel => by
      obtain ⟨hcase, hrest⟩ := hdescribed
      rw [WireCases.depth] at hfuel
      rw [WireCases.wire] at hwire
      by_cases hkey : key = k.1
      · subst hkey
        rw [if_pos rfl] at hwire
        obtain ⟨branch, hbranch, hfound⟩ := hcase hkeys
        rw [hfound.1]
        exact schema.encode_wire branch value bytes fuel hbranch hwire (by omega)
      · rw [if_neg hkey] at hwire
        obtain ⟨hstring, hwire⟩ := (Option.ite_none_left_eq_some).mp hwire
        exact rest.encode_wire switchJson _ key value bytes fuel hrest ⟨hkeys, hkey, hstring⟩
          hplain hwire (by omega)

end

end Encoding

end BedrockProtocol
