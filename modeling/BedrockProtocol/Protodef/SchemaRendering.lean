import BedrockProtocol.Protodef.CompactTypes
import BedrockProtocol.Protodef.SchemaDecoding

/-!
# Schemas without blanks

The text of a schema, as a compact printer of JSON writes it.  Encoder and decoder find everything
in it that they need, so they agree on what the schema means.
-/

namespace BedrockProtocol

open SchemaText JsonPieces CompactJson

open ProtoDefEncoder (quoted)

/-! ## The text of a schema -/

def WireSize.entries : WireSize → List (Text × Text)
  | .counted countType => [(txt "countType", quoted countType.1)]
  | .fixed count => [(txt "count", decimal count)]

def mapperText (baseType : Text) (mappings : List (ℕ × WireKey)) : Text :=
  typed (txt "mapper") (objectText [(txt "type", quoted baseType),
    (txt "mappings", objectText (mappings.map mappingEntry))])

def switchText (compareTo : Text) (branches defaults : List (Text × Text)) : Text :=
  typed (txt "switch") (objectText ((txt "compareTo", quoted compareTo) ::
    (txt "fields", objectText branches) :: defaults))

def fieldText (name type : Text) : Text :=
  objectText [(txt "name", quoted name), (txt "type", type)]

mutual

def WireSchema.text : WireSchema → Text
  | .scalar typeName => quoted typeName.1
  | .pstring countType => typed (txt "pstring") (objectText [(txt "countType", quoted countType.1)])
  | .buffer size => typed (txt "buffer") (objectText size.entries)
  | .array size item =>
      typed (txt "array") (objectText (size.entries ++ [(txt "type", item.text)]))
  | .option inner => typed (txt "option") inner.text
  | .mapper baseType mappings => mapperText baseType.1 mappings
  | .encapsulated lengthType inner =>
      typed (txt "encapsulated") (objectText [(txt "lengthType", quoted lengthType.1),
        (txt "type", inner.text)])
  | .named typeName _ => quoted typeName.1
  | .container fields => typed (txt "container") (arrayText fields.objects)

/-- The objects of the fields. -/
def WireFields.objects : WireFields → List Text
  | .nil => []
  | .plain name schema rest => fieldText name.1 schema.text :: rest.objects
  | .switch name compareTo cases rest =>
      fieldText name.1 (switchText compareTo.1 cases.branches cases.defaults) :: rest.objects

def WireCases.branches : WireCases → List (Text × Text)
  | .nil => []
  | .default _ => []
  | .case k schema rest => (k.1, schema.text) :: rest.branches

def WireCases.defaults : WireCases → List (Text × Text)
  | .nil => []
  | .default schema => [(txt "default", schema.text)]
  | .case _ _ rest => rest.defaults

end

/-! ## Schemas with such a text -/

def WireSize.Writable : WireSize → Prop
  | .counted _ => True
  | .fixed count => count < 2 ^ 64

section Writable

variable (typeJson : Text → Option Text)

mutual

/-- Numerals have 64 bits, a name is resolved to the text of its schema, and no name is in the way
of the search for `mappings` or `fields`. -/
def WireSchema.Writable : WireSchema → Prop
  | .scalar _ => True
  | .pstring _ => True
  | .buffer size => size.Writable
  | .array size item => size.Writable ∧ item.Writable
  | .option inner => inner.Writable
  | .mapper baseType mappings =>
      baseType.1 ≠ txt "mappings" ∧ ∀ entry ∈ mappings, entry.1 < 2 ^ 64
  | .encapsulated _ inner => inner.Writable
  | .named typeName schema =>
      typeName.1 ∉ primitiveTypes ∧ typeJson typeName.1 = some schema.text ∧ schema.Writable
  | .container fields => fields.Writable

def WireFields.Writable : WireFields → Prop
  | .nil => True
  | .plain _ schema rest => schema.Writable ∧ rest.Writable
  | .switch _ compareTo cases rest =>
      compareTo.1 ≠ txt "fields" ∧ cases.Writable ∧ rest.Writable

def WireCases.Writable : WireCases → Prop
  | .nil => True
  | .default schema => schema.Writable
  | .case _ schema rest => schema.Writable ∧ rest.Writable

end

end Writable

/-! ## The strings of a text -/

theorem PlainName.all_isKeyByte {name : Text} (h : PlainName name) : name.all isKeyByte = true := by
  refine List.all_eq_true.mpr fun c hc ↦ decide_eq_true (.inl ?_)
  exact h.isNameByte_of_mem hc

variable {P : Text → Prop}

theorem compactEntry_string {key s : Text} (hkey : key.all isKeyByte = true) (hP : P key)
    (hs : s.all isKeyByte = true) (hPs : P s) : CompactEntry P (key, quoted s) :=
  ⟨hkey, hP, .inl (.string hs hPs)⟩

theorem compactEntry_value {key v : Text} (hkey : key.all isKeyByte = true) (hP : P key)
    (hv : CompactValue P v) : CompactEntry P (key, v) :=
  ⟨hkey, hP, .inl hv⟩

theorem WireSize.entries_compact (size : WireSize) (h : ∀ s ∈ size.strings, P s) :
    ∀ e ∈ size.entries, CompactEntry P e := by
  intro e he
  cases size with
  | counted countType =>
      obtain ⟨hkey, hcount⟩ := List.forall_mem_cons.mp h
      obtain rfl := List.mem_singleton.mp he
      exact compactEntry_string (by decide) hkey countType.2.all_isKeyByte
        (hcount _ (List.mem_singleton_self _))
  | fixed count =>
      have hkey : (txt "count").all isKeyByte = true := by decide
      obtain rfl := List.mem_singleton.mp he
      exact ⟨hkey, h _ (List.mem_singleton_self _), .inr ⟨count, rfl⟩⟩

theorem mapperText_value {baseType : WireName} {mappings : List (ℕ × WireKey)}
    (h : ∀ s ∈ (WireSchema.mapper baseType mappings).strings, P s) :
    CompactValue P (mapperText baseType.1 mappings) := by
  rw [WireSchema.strings, List.forall_mem_append] at h
  obtain ⟨hwords, hentries⟩ := h
  have hentry (entry : ℕ × WireKey) (hmem : entry ∈ mappings) (s : Text)
      (hs : s ∈ [decimal entry.1, entry.2.1]) : P s :=
    hentries s (List.mem_flatMap.mpr ⟨entry, hmem, hs⟩)
  refine typed_value (by decide) (hwords _ (by simp)) (objectText_value fun e he ↦ ?_)
  rcases List.mem_pair.mp he with rfl | rfl
  · exact compactEntry_string (by decide) (hwords _ (by simp)) baseType.2.all_isKeyByte
      (hwords _ (by simp))
  · refine compactEntry_value (by decide) (hwords _ (by simp)) (objectText_value fun e he ↦ ?_)
    obtain ⟨entry, hmem, rfl⟩ := List.mem_map.mp he
    exact mappingEntry_compact (hentry entry hmem _ (by simp)) (hentry entry hmem _ (by simp))

theorem switchText_value {compareTo : WireName} {branches defaults : List (Text × Text)}
    (hswitch : P (txt "switch")) (hcompareTo : P (txt "compareTo")) (hcompare : P compareTo.1)
    (hfields : P (txt "fields")) (hbranches : ∀ e ∈ branches, CompactEntry P e)
    (hdefaults : ∀ e ∈ defaults, CompactEntry P e) :
    CompactValue P (switchText compareTo.1 branches defaults) := by
  refine typed_value (by decide) hswitch (objectText_value fun e he ↦ ?_)
  rcases List.mem_cons.mp he with rfl | he
  · exact compactEntry_string (by decide) hcompareTo compareTo.2.all_isKeyByte hcompare
  · rcases List.mem_cons.mp he with rfl | he
    · exact compactEntry_value (by decide) hfields (objectText_value hbranches)
    · exact hdefaults e he

theorem fieldText_entries {name type : Text} (hname : name.all isKeyByte = true) (hP : P name)
    (hnameKey : P (txt "name")) (htypeKey : P (txt "type")) (htype : CompactValue P type) :
    ∀ e ∈ [(txt "name", quoted name), (txt "type", type)], CompactEntry P e := by
  intro e he
  rcases List.mem_pair.mp he with rfl | rfl
  · exact compactEntry_string (by decide) hnameKey hname hP
  · exact compactEntry_value (by decide) htypeKey htype

mutual

/-- The text of a schema is a value with the strings of the schema. -/
theorem WireSchema.text_value : ∀ (schema : WireSchema), (∀ s ∈ schema.strings, P s) →
    CompactValue P schema.text
  | .scalar typeName, h => .string typeName.2.all_isKeyByte (h _ (List.mem_singleton_self _))
  | .pstring countType, h => by
      have hstring (s : Text) (hs : s ∈ [txt "pstring", txt "countType", countType.1]) : P s := h s hs
      refine typed_value (by decide) (hstring _ (by simp)) (objectText_value fun e he ↦ ?_)
      obtain rfl := List.mem_singleton.mp he
      exact compactEntry_string (by decide) (hstring _ (by simp)) countType.2.all_isKeyByte
        (hstring _ (by simp))
  | .buffer size, h => by
      obtain ⟨hword, hsize⟩ := List.forall_mem_cons.mp h
      exact typed_value (by decide) hword (objectText_value (size.entries_compact hsize))
  | .array size item, h => by
      rw [WireSchema.strings, List.forall_mem_cons, List.forall_mem_append,
        List.forall_mem_cons] at h
      obtain ⟨hword, hsize, htype, hitem⟩ := h
      refine typed_value (by decide) hword (objectText_value fun e he ↦ ?_)
      rcases List.mem_append.mp he with he | he
      · exact size.entries_compact hsize e he
      · obtain rfl := List.mem_singleton.mp he
        exact compactEntry_value (by decide) htype (item.text_value hitem)
  | .option inner, h => by
      obtain ⟨hword, hinner⟩ := List.forall_mem_cons.mp h
      exact typed_value (by decide) hword (inner.text_value hinner)
  | .mapper baseType mappings, h => mapperText_value h
  | .encapsulated lengthType inner, h => by
      rw [WireSchema.strings, List.forall_mem_append] at h
      obtain ⟨hwords, hinner⟩ := h
      refine typed_value (by decide) (hwords _ (by simp)) (objectText_value fun e he ↦ ?_)
      rcases List.mem_pair.mp he with rfl | rfl
      · exact compactEntry_string (by decide) (hwords _ (by simp)) lengthType.2.all_isKeyByte
          (hwords _ (by simp))
      · exact compactEntry_value (by decide) (hwords _ (by simp)) (inner.text_value hinner)
  | .named typeName schema, h =>
      .string typeName.2.all_isKeyByte (h _ (List.mem_singleton_self _))
  | .container fields, h => by
      obtain ⟨hword, hfields⟩ := List.forall_mem_cons.mp h
      refine typed_value (by decide) hword (arrayText_value fun t ht ↦ ?_)
      obtain ⟨entries, hentries, rfl⟩ := fields.objects_compact hfields t ht
      exact objectText_value hentries

theorem WireFields.objects_compact : ∀ (fields : WireFields), (∀ s ∈ fields.strings, P s) →
    ∀ t ∈ fields.objects, ∃ entries, (∀ e ∈ entries, CompactEntry P e) ∧ t = objectText entries
  | .nil, h => fun t ht ↦ absurd ht List.not_mem_nil
  | .plain name schema rest, h => by
      rw [WireFields.strings, List.forall_mem_append, List.forall_mem_append] at h
      obtain ⟨⟨hwords, hschema⟩, hrest⟩ := h
      intro t ht
      rcases List.mem_cons.mp ht with rfl | ht
      · exact ⟨_, fieldText_entries name.2.all_isKeyByte (hwords _ (by simp)) (hwords _ (by simp))
          (hwords _ (by simp)) (schema.text_value hschema), rfl⟩
      · exact rest.objects_compact hrest t ht
  | .switch name compareTo cases rest, h => by
      rw [WireFields.strings, List.forall_mem_append, List.forall_mem_append] at h
      obtain ⟨⟨hwords, hcases⟩, hrest⟩ := h
      intro t ht
      rcases List.mem_cons.mp ht with rfl | ht
      · refine ⟨_, fieldText_entries name.2.all_isKeyByte (hwords _ (by simp)) (hwords _ (by simp))
          (hwords _ (by simp)) ?_, rfl⟩
        exact switchText_value (hwords _ (by simp)) (hwords _ (by simp)) (hwords _ (by simp))
          (hwords _ (by simp)) (cases.branches_compact hcases) (cases.defaults_compact hcases)
      · exact rest.objects_compact hrest t ht

theorem WireCases.branches_compact : ∀ (cases : WireCases), (∀ s ∈ cases.strings, P s) →
    ∀ e ∈ cases.branches, CompactEntry P e
  | .nil, h => fun e he ↦ absurd he List.not_mem_nil
  | .default schema, h => fun e he ↦ absurd he List.not_mem_nil
  | .case k schema rest, h => by
      rw [WireCases.strings, List.forall_mem_cons, List.forall_mem_append] at h
      obtain ⟨hkey, hschema, hrest⟩ := h
      intro e he
      rcases List.mem_cons.mp he with rfl | he
      · exact compactEntry_value k.2.1 hkey (schema.text_value hschema)
      · exact rest.branches_compact hrest e he

theorem WireCases.defaults_compact : ∀ (cases : WireCases), (∀ s ∈ cases.strings, P s) →
    ∀ e ∈ cases.defaults, CompactEntry P e
  | .nil, h => fun e he ↦ absurd he List.not_mem_nil
  | .default schema, h => by
      obtain ⟨hword, hschema⟩ := List.forall_mem_cons.mp h
      intro e he
      obtain rfl := List.mem_singleton.mp he
      exact compactEntry_value (by decide) hword (schema.text_value hschema)
  | .case k schema rest, h => by
      rw [WireCases.strings, List.forall_mem_cons, List.forall_mem_append] at h
      exact rest.defaults_compact h.2.2

end

/-- The same without a property of the strings. -/
theorem WireSchema.text_compact (schema : WireSchema) : CompactValue (fun _ ↦ True) schema.text :=
  schema.text_value fun _ _ ↦ trivial

theorem WireSchema.trim_text (schema : WireSchema) : trim schema.text = schema.text :=
  schema.text_compact.trim_eq

theorem WireFields.objects_isObject (fields : WireFields) :
    ∀ t ∈ fields.objects, IsObject (fun _ ↦ True) t := by
  intro t ht
  obtain ⟨entries, hentries, rfl⟩ := fields.objects_compact (fun _ _ ↦ trivial) t ht
  refine ⟨_, compact_commas fun t ht ↦ ?_, rfl⟩
  obtain ⟨entry, hentry, rfl⟩ := List.mem_map.mp ht
  exact (hentries entry hentry).compact

/-! ## Sizes -/

theorem readJsonIntegerField_decimal {json key : Text} {n : ℕ} (hn : n < 2 ^ 64)
    (h : readJsonValueField json key = some (decimal n)) :
    readJsonIntegerField json key = .ok (some n) := by
  have hnoSpace : ∀ c ∈ decimal n, isSpace c = false := by
    intro c hc
    have hdigit := decimal_digits hc
    refine decide_eq_false fun hspace ↦ ?_
    simp only [UInt8.le_iff_toNat_le, ← UInt8.toNat_inj, UInt8.reduceToNat] at hspace
    omega
  have htrim : trim (decimal n) = decimal n := by
    have hfirst : (decimal n).dropWhile isSpace = decimal n := by
      refine List.dropWhile_eq_self_iff.mpr fun hlength ↦ ?_
      rw [hnoSpace _ (List.getElem_mem hlength)]
      exact Bool.false_ne_true
    rw [trim, hfirst]
    refine List.rdropWhile_eq_self_iff.mpr fun hne ↦ ?_
    rw [hnoSpace _ (List.getLast_mem hne)]
    exact Bool.false_ne_true
  have hdigits : (decimal n).takeWhile isDigit = decimal n :=
    List.takeWhile_eq_self_iff.mpr fun d hd ↦ isDigit_of_mem_decimal hd
  rw [readJsonIntegerField, h]
  dsimp only
  rw [htrim, hdigits, if_neg (decimal_ne_nil n), stoull, decimalValue_decimal, if_pos hn]
  rfl

theorem readJsonIntegerField_none {json key : Text} (h : readJsonValueField json key = none) :
    readJsonIntegerField json key = .ok none := by
  rw [readJsonIntegerField, h]

/-- The size is found in a text that has its entries before others. -/
theorem WireSize.described_of_lookup {size : WireSize} (hsize : size.Writable) {json : Text}
    (later : List (Text × Text)) (hlater : later.lookup (txt "count") = none)
    (h : ∀ key, readJsonValueField json key = (size.entries ++ later).lookup key) :
    size.Described json := by
  cases size with
  | counted countType =>
      have hcount : readJsonValueField json (txt "count") = none := by
        rw [h]
        exact hlater
      have htype : readJsonValueField json (txt "countType") = some (quoted countType.1) := by
        rw [h]
        rfl
      refine ⟨readJsonIntegerField_none hcount, readJsonStringField_none hcount, ?_⟩
      rw [readJsonStringField_eq htype]
      rfl
  | fixed count =>
      refine readJsonIntegerField_decimal hsize ?_
      rw [h]
      rfl

/-! ## Mappers -/

theorem mappings_compact (mappings : List (ℕ × WireKey)) :
    ∀ e ∈ mappings.map mappingEntry, CompactEntry (fun _ ↦ True) e := by
  intro e he
  obtain ⟨entry, -, rfl⟩ := List.mem_map.mp he
  exact mappingEntry_compact trivial trivial

theorem mapperEntries_compact (baseType : WireName) (mappings : List (ℕ × WireKey)) :
    ∀ e ∈ [(txt "type", quoted baseType.1), (txt "mappings", objectText (mappings.map mappingEntry))],
      CompactEntry (fun _ ↦ True) e := by
  intro e he
  rcases List.mem_pair.mp he with rfl | rfl
  · exact compactEntry_string (by decide) trivial baseType.2.all_isKeyByte trivial
  · exact compactEntry_value (by decide) trivial (objectText_value (mappings_compact mappings))

theorem findMapperNumericByName_mapper {baseType : WireName} {mappings : List (ℕ × WireKey)}
    (hbase : baseType.1 ≠ txt "mappings") (hnumbers : ∀ entry ∈ mappings, entry.1 < 2 ^ 64)
    (name : Text) :
    ProtoDefEncoder.findMapperNumericByName (mapperText baseType.1 mappings) name =
      .ok (numberOf mappings name) := by
  have hsearched : Searched (txt "mappings") := ⟨by decide, _, _, rfl, by decide⟩
  have hbehind := objectBehind_typed hsearched (by decide : (txt "mapper").all isKeyByte = true)
    (by decide : (txt "type").all isKeyByte = true) baseType.2.all_isKeyByte (by decide) (by decide)
    (by decide) hbase (mappings_compact mappings) []
  have hcount := length_le_length_commas (mappings.map mappingEntry)
  rw [List.length_map] at hcount
  rw [ProtoDefEncoder.findMapperNumericByName, mapperText, hbehind]
  refine mapperNumericFrom_mappings hnumbers name _ ?_
  rw [objectText, length_bracketed 0x7b 0x7d]
  omega

theorem nameOf_eq_lookup (mappings : List (ℕ × WireKey)) (n : ℕ) :
    (mappings.map mappingEntry).lookup (decimal n) = (nameOf mappings n).map quoted := by
  induction mappings with
  | nil => rfl
  | cons entry mappings ih =>
      have hfirst : (mappingEntry entry).1 = decimal entry.1 := rfl
      rw [List.map_cons, lookup_cons, nameOf, List.find?_cons, hfirst]
      by_cases h : entry.1 = n
      · rw [decide_eq_true h, if_pos (congrArg decimal h)]
        rfl
      · rw [decide_eq_false h, if_neg fun heq ↦ h (decimal_injective heq), ih]
        rfl

theorem mappedName_mapper (baseType : WireName) (mappings : List (ℕ × WireKey)) (n : ℕ) :
    ProtoDefDecoder.mappedName (mapperText baseType.1 mappings) (decimal n) = nameOf mappings n := by
  have hmappings : readJsonValueField (mapperText baseType.1 mappings) (txt "mappings") =
      some (objectText (mappings.map mappingEntry)) :=
    readJsonValueField_typed (by decide) (mapperEntries_compact baseType mappings) _
  have hname : readJsonValueField (objectText (mappings.map mappingEntry)) (decimal n) =
      (nameOf mappings n).map quoted := by
    rw [readJsonValueField_objectText (mappings_compact mappings), nameOf_eq_lookup]
  rw [ProtoDefDecoder.mappedName, hmappings]
  dsimp only [Option.bind_eq_bind, Option.bind_some]
  cases hnameOf : nameOf mappings n with
  | none =>
      rw [hnameOf] at hname
      exact readJsonStringField_none hname
  | some name =>
      rw [hnameOf] at hname
      exact readJsonStringField_eq hname

/-! ## Switches -/

theorem PlainKey.searched {key : Text} (h : PlainKey key) : Searched key := by
  refine ⟨not_mem_of_all h.1 (by decide), ?_⟩
  obtain ⟨hkey, hhead⟩ := h
  cases key with
  | nil => cases hhead
  | cons c rest =>
      refine ⟨c, rest, rfl, Bool.eq_false_iff.mpr fun hmark ↦ ?_⟩
      have hbegins : decide (isNameByte c ∨ c = 0x2d) = true := hhead
      simp only [isMark, isSpace, isNameByte, isDigit, List.mem_cons, List.not_mem_nil, or_false,
        Bool.or_eq_true, decide_eq_true_eq, UInt8.le_iff_toNat_le, ← UInt8.toNat_inj,
        UInt8.reduceToNat] at hmark hbegins
      omega

theorem PlainKey.switchLookupKeys_eq {key : Text} (h : PlainKey key) :
    ProtoDefDecoder.switchLookupKeys key = [key, txt "/" ++ key] := by
  have hall : ∀ c ∈ key, decide (c ≠ 0x2f) = true := fun c hc ↦
    decide_eq_true (ne_of_mem h.1 hc (by decide))
  have hafter : (key.dropWhile fun c ↦ decide (c ≠ 0x2f)).tail = [] := by
    rw [List.dropWhile_eq_nil_iff.mpr hall]
    rfl
  rw [ProtoDefDecoder.switchLookupKeys, hafter, if_pos rfl]

section Switch

variable (protoDefVariables : List (Text × Text)) (compareTo : WireName)
  {branches defaults : List (Text × Text)}
  (hbranches : ∀ e ∈ branches, CompactEntry (fun _ ↦ True) e)
  (hdefaults : ∀ e ∈ defaults, CompactEntry (fun _ ↦ True) e)

include hbranches hdefaults

theorem readJsonValueField_switch (key : Text) :
    readJsonValueField (switchText compareTo.1 branches defaults) key =
      ((txt "compareTo", quoted compareTo.1) :: (txt "fields", objectText branches) ::
        defaults).lookup key := by
  refine readJsonValueField_typed (P := fun _ ↦ True) (by decide) (fun e he ↦ ?_) key
  rcases List.mem_cons.mp he with rfl | he
  · exact compactEntry_string (by decide) trivial compareTo.2.all_isKeyByte trivial
  · rcases List.mem_cons.mp he with rfl | he
    · exact compactEntry_value (by decide) trivial (objectText_value hbranches)
    · exact hdefaults e he

/-- The encoder takes the branch that it finds behind the key, or the default. -/
theorem encoder_switchBranch (hcompare : compareTo.1 ≠ txt "fields") {key : Text}
    (hkey : PlainKey key) :
    ProtoDefEncoder.switchBranch protoDefVariables (switchText compareTo.1 branches defaults) key =
      (ProtoDefEncoder.readSwitchObjectField (objectText branches) key <|>
        defaults.lookup (txt "default")) := by
  have hsearched : Searched (txt "fields") := ⟨by decide, _, _, rfl, by decide⟩
  have hfields := objectBehind_typed hsearched (by decide : (txt "switch").all isKeyByte = true)
    (by decide : (txt "compareTo").all isKeyByte = true) compareTo.2.all_isKeyByte (by decide)
    (by decide) (by decide) hcompare hbranches defaults
  have hdefault : readJsonValueField (switchText compareTo.1 branches defaults) (txt "default") =
      defaults.lookup (txt "default") := readJsonValueField_switch compareTo hbranches hdefaults _
  have hvariables : (protoDefVariables.findSome? fun entry ↦
      if ProtoDefDecoder.switchValuesEqual key entry.2 then
        ProtoDefEncoder.readSwitchObjectField (objectText branches) (txt "/" ++ entry.1)
      else none) = none := by
    refine List.findSome?_eq_none_iff.mpr fun entry _ ↦ ?_
    rw [readSwitchObjectField_slash hbranches]
    exact ite_self none
  rw [ProtoDefEncoder.switchBranch, ProtoDefEncoder.findSwitchBranchType, hdefault]
  change (((ProtoDefEncoder.objectBehind (typed _ _) _).bind fun fields ↦ _) <|> _) = _
  rw [hfields]
  dsimp only [Option.bind_some]
  rw [hvariables, hkey.switchLookupKeys_eq]
  dsimp only [List.findSome?]
  rw [readSwitchObjectField_slash hbranches]
  cases ProtoDefEncoder.readSwitchObjectField (objectText branches) key <;> rfl

/-- The decoder takes the branch of the key, or the default. -/
theorem decoder_switchBranch {key : Text} (hkey : PlainKey key) :
    ProtoDefDecoder.switchBranch protoDefVariables (switchText compareTo.1 branches defaults) key =
      (branches.lookup key <|> defaults.lookup (txt "default")) := by
  have hfields : readJsonValueField (switchText compareTo.1 branches defaults) (txt "fields") =
      some (objectText branches) := readJsonValueField_switch compareTo hbranches hdefaults _
  have hdefault : readJsonValueField (switchText compareTo.1 branches defaults) (txt "default") =
      defaults.lookup (txt "default") := readJsonValueField_switch compareTo hbranches hdefaults _
  have hvariables : (protoDefVariables.findSome? fun entry ↦
      if ProtoDefDecoder.switchValuesEqual key entry.2 then
        readJsonValueField (objectText branches) (txt "/" ++ entry.1)
      else none) = none := by
    refine List.findSome?_eq_none_iff.mpr fun entry _ ↦ ?_
    rw [readJsonValueField_objectText hbranches, lookup_slash hbranches]
    exact ite_self none
  rw [ProtoDefDecoder.switchBranch, ProtoDefDecoder.findSwitchBranchType, hdefault, hfields]
  dsimp only [Option.bind_eq_bind, Option.bind_some]
  rw [hvariables, hkey.switchLookupKeys_eq]
  dsimp only [List.findSome?]
  rw [readJsonValueField_objectText hbranches, readJsonValueField_objectText hbranches,
    lookup_slash hbranches]
  cases branches.lookup key <;> rfl

end Switch

/-! ## A key inside an earlier branch -/

theorem lookup_append_of_ne {earlier : List (Text × Text)} {key : Text}
    (h : ∀ e ∈ earlier, CompactEntry (· ≠ key) e) (later : List (Text × Text)) :
    (earlier ++ later).lookup key = later.lookup key := by
  induction earlier with
  | nil => rfl
  | cons e earlier ih =>
      rw [List.cons_append, lookup_cons, if_neg (h e List.mem_cons_self).key]
      exact ih fun e' he' ↦ h e' (List.mem_cons_of_mem e he')

theorem PlainName.plainKey {name : Text} (h : PlainName name) : PlainKey name := by
  refine ⟨h.all_isKeyByte, ?_⟩
  obtain ⟨hne, hall⟩ := h
  obtain ⟨c, rest, rfl⟩ := List.exists_cons_of_ne_nil hne
  exact decide_eq_true (.inl (List.all_eq_true.mp hall c List.mem_cons_self))

/-- What stands in front of the name of the first field of a branch. -/
def beforeFirstField (earlier : List (Text × Text)) (key : Text) : Text :=
  0x7b :: before earlier ++ (quoted key ++ ([0x3a] ++ ([0x5b] ++ (quoted (txt "container") ++
    ([0x2c] ++ ([0x5b] ++ ([0x7b] ++ (quoted (txt "name") ++ [0x3a]))))))))

theorem lacks_beforeFirstField {k key : Text} (hk : Searched k) {earlier : List (Text × Text)}
    (h : ∀ e ∈ earlier, CompactEntry (· ≠ k) e) (hkey : key.all isKeyByte = true) (hne : key ≠ k)
    (hcontainer : txt "container" ≠ k) (hname : txt "name" ≠ k) :
    Lacks k (beforeFirstField earlier key) := by
  have hmark {c : UInt8} (hc : isMark c = true) (hquote : c ≠ 0x22) : Lacks k [c] := .mark hc hquote
  have hfield : Lacks k (quoted (txt "name") ++ [0x3a]) :=
    (Lacks.string hk (by decide) hname).append (hmark rfl (by decide))
  have hfields : Lacks k ([0x2c] ++ ([0x5b] ++ ([0x7b] ++ (quoted (txt "name") ++ [0x3a])))) :=
    (hmark rfl (by decide)).append ((hmark rfl (by decide)).append
      ((hmark rfl (by decide)).append hfield))
  exact (lacks_before hk h).append ((Lacks.string hk (not_mem_of_all hkey (by decide)) hne).append
    ((hmark rfl (by decide)).append ((hmark rfl (by decide)).append
      ((Lacks.string hk (by decide) hcontainer).append hfields))))

/-- The encoder looks for the key in quotes and takes what follows the next colon: behind a field
of that name in an earlier branch this is the type of the field. -/
theorem readSwitchObjectField_firstField {key : WireKey} {name : WireName} (hne : key.1 ≠ name.1)
    (hcontainer : txt "container" ≠ name.1) (hname : txt "name" ≠ name.1)
    {earlier : List (Text × Text)} (h : ∀ e ∈ earlier, CompactEntry (· ≠ name.1) e)
    (inner : WireSchema) (fields : WireFields) (later : List (Text × Text)) :
    ProtoDefEncoder.readSwitchObjectField (objectText (earlier ++
      (key.1, (WireSchema.container (.plain name inner fields)).text) :: later)) name.1 =
        some inner.text := by
  have hk : Searched name.1 := name.2.plainKey.searched
  have htext : objectText (earlier ++
      (key.1, (WireSchema.container (.plain name inner fields)).text) :: later) =
      beforeFirstField earlier key.1 ++ (quoted name.1 ++ ((0x2c :: quoted (txt "type")) ++
        0x3a :: (inner.text ++ ([0x7d] ++ ((fields.objects.flatMap fun u ↦ 0x2c :: u) ++ ([0x5d] ++
          ([0x5d] ++ (((later.map entryText).flatMap fun u ↦ 0x2c :: u) ++ [0x7d])))))))) := by
    rw [objectText, commas_append_cons, beforeFirstField, WireSchema.text, WireFields.objects,
      typed_eq, arrayText, commas, fieldText, objectText]
    simp only [entryText, commas, List.map_cons, List.map_nil, List.flatMap_cons, List.flatMap_nil,
      List.append_assoc, List.cons_append, List.nil_append]
  have hplace := findText_at (lacks_beforeFirstField hk h key.2.1 hne hcontainer hname)
    ((0x2c :: quoted (txt "type")) ++ 0x3a :: (inner.text ++ ([0x7d] ++
      ((fields.objects.flatMap fun u ↦ 0x2c :: u) ++ ([0x5d] ++ ([0x5d] ++
        (((later.map entryText).flatMap fun u ↦ 0x2c :: u) ++ [0x7d])))))))
  rw [← htext] at hplace
  exact readSwitchObjectField_of_text hplace (by decide) (rfl : isBlank [] = true)
    inner.text_compact.typeText inner.text_compact.isWhole htext

section

variable (protoDefVariables : List (Text × Text)) (compareTo : WireName)
  {earlier later defaults : List (Text × Text)}

/-- Encoder and decoder part where an earlier branch begins with a field that is named like the
key: the encoder takes the type of that field, and the decoder the branch of the key. -/
theorem switchBranch_firstField {key : WireKey} {name : WireName} (hne : key.1 ≠ name.1)
    (hcontainer : txt "container" ≠ name.1) (hname : txt "name" ≠ name.1)
    (hcompare : compareTo.1 ≠ txt "fields") (hearlier : ∀ e ∈ earlier, CompactEntry (· ≠ name.1) e)
    (hlater : ∀ e ∈ later, CompactEntry (fun _ ↦ True) e)
    (hdefaults : ∀ e ∈ defaults, CompactEntry (fun _ ↦ True) e) (inner : WireSchema)
    (fields : WireFields) :
    ProtoDefEncoder.switchBranch protoDefVariables (switchText compareTo.1 (earlier ++
        (key.1, (WireSchema.container (.plain name inner fields)).text) :: later) defaults) name.1 =
        some inner.text ∧
      ProtoDefDecoder.switchBranch protoDefVariables (switchText compareTo.1 (earlier ++
        (key.1, (WireSchema.container (.plain name inner fields)).text) :: later) defaults) name.1 =
        (later.lookup name.1 <|> defaults.lookup (txt "default")) := by
  have hkey : PlainKey name.1 := name.2.plainKey
  have hbranches : ∀ e ∈ earlier ++
      (key.1, (WireSchema.container (.plain name inner fields)).text) :: later,
      CompactEntry (fun _ ↦ True) e := by
    intro e he
    rcases List.mem_append.mp he with he | he
    · exact (hearlier e he).mono fun _ _ ↦ trivial
    · rcases List.mem_cons.mp he with rfl | he
      · exact compactEntry_value key.2.1 trivial (WireSchema.text_compact _)
      · exact hlater e he
  constructor
  · rw [encoder_switchBranch protoDefVariables compareTo hbranches hdefaults hcompare hkey,
      readSwitchObjectField_firstField hne hcontainer hname hearlier]
    rfl
  · rw [decoder_switchBranch protoDefVariables compareTo hbranches hdefaults hkey,
      lookup_append_of_ne hearlier, lookup_cons, if_neg hne]

end

/-! ## Encoder and decoder agree on the text -/

theorem WireCases.lookup_defaults {key : Text} (hkey : txt "default" ≠ key) :
    ∀ cases : WireCases, cases.defaults.lookup key = none
  | .nil => rfl
  | .default schema => by
      rw [WireCases.defaults, lookup_cons, if_neg hkey]
      rfl
  | .case k schema rest => rest.lookup_defaults hkey

section Described

variable {typeJson : Text → Option Text} (protoDefVariables : List (Text × Text))

theorem typed_described {name argument : Text} {opening : Text} (hopening : opening = 0x5b :: quoted name) :
    startsWith (trim (typed name argument)) opening = true := by
  rw [trim_typed, hopening]
  exact startsWith_typed name argument

mutual

theorem WireSchema.text_described : ∀ schema : WireSchema, schema.Writable typeJson →
    schema.Described typeJson protoDefVariables schema.text
  | .scalar typeName, h => (WireSchema.scalar typeName).trim_text
  | .pstring countType, h => by
      refine ⟨typed_described rfl, ?_⟩
      have hentries : ∀ e ∈ [(txt "countType", quoted countType.1)],
          CompactEntry (fun _ ↦ True) e := by
        intro e he
        obtain rfl := List.mem_singleton.mp he
        exact compactEntry_string (by decide) trivial countType.2.all_isKeyByte trivial
      have hvalue : readJsonValueField (WireSchema.pstring countType).text (txt "countType") =
          some (quoted countType.1) := readJsonValueField_typed (by decide) hentries _
      rw [WireSchema.trim_text, readJsonStringField_eq hvalue]
      rfl
  | .buffer size, h => by
      refine ⟨typed_described rfl, ?_⟩
      rw [WireSchema.trim_text]
      refine WireSize.described_of_lookup h [] rfl fun key ↦ ?_
      rw [List.append_nil]
      exact readJsonValueField_typed (by decide) (size.entries_compact fun _ _ ↦ trivial) key
  | .array size item, h => by
      have hentries : ∀ e ∈ size.entries ++ [(txt "type", item.text)],
          CompactEntry (fun _ ↦ True) e := by
        intro e he
        rcases List.mem_append.mp he with he | he
        · exact size.entries_compact (fun _ _ ↦ trivial) e he
        · obtain rfl := List.mem_singleton.mp he
          exact compactEntry_value (by decide) trivial item.text_compact
      have hvalue (key : Text) : readJsonValueField (WireSchema.array size item).text key =
          (size.entries ++ [(txt "type", item.text)]).lookup key :=
        readJsonValueField_typed (by decide) hentries key
      refine ⟨typed_described rfl, ?_⟩
      rw [WireSchema.trim_text]
      refine ⟨WireSize.described_of_lookup h.1 _ rfl hvalue, item.text, ?_, item.text_described h.2⟩
      rw [hvalue]
      cases size <;> rfl
  | .option inner, h => by
      refine ⟨typed_described rfl, inner.text, ?_, inner.text_described h⟩
      rw [WireSchema.trim_text]
      exact readSecondElement_typed (by decide) inner.text_compact
  | .mapper baseType mappings, h => by
      refine ⟨typed_described rfl, ?_⟩
      rw [WireSchema.trim_text]
      have hbase : readJsonValueField (mapperText baseType.1 mappings) (txt "type") =
          some (quoted baseType.1) :=
        readJsonValueField_typed (by decide) (mapperEntries_compact baseType mappings) _
      exact ⟨readJsonStringField_eq hbase, findMapperNumericByName_mapper h.1 h.2,
        mappedName_mapper baseType mappings⟩
  | .encapsulated lengthType inner, h => by
      have hentries : ∀ e ∈ [(txt "lengthType", quoted lengthType.1), (txt "type", inner.text)],
          CompactEntry (fun _ ↦ True) e := by
        intro e he
        rcases List.mem_pair.mp he with rfl | rfl
        · exact compactEntry_string (by decide) trivial lengthType.2.all_isKeyByte trivial
        · exact compactEntry_value (by decide) trivial inner.text_compact
      have hvalue (key : Text) :
          readJsonValueField (WireSchema.encapsulated lengthType inner).text key =
            [(txt "lengthType", quoted lengthType.1), (txt "type", inner.text)].lookup key :=
        readJsonValueField_typed (by decide) hentries key
      refine ⟨typed_described rfl, ?_⟩
      rw [WireSchema.trim_text, readJsonStringField_eq (hvalue _)]
      exact ⟨rfl, inner.text, hvalue _, inner.text_described h⟩
  | .named typeName schema, h => by
      obtain ⟨hname, hjson, hschema⟩ := h
      exact ⟨(WireSchema.named typeName schema).trim_text, hname, _, hjson,
        schema.text_described hschema⟩
  | .container fields, h => by
      have hitems : ∀ t ∈ fields.objects, CompactValue (fun _ ↦ True) t := by
        intro t ht
        obtain ⟨entries, hentries, rfl⟩ := fields.objects_compact (fun _ _ ↦ trivial) t ht
        exact objectText_value hentries
      have harray : CompactValue (fun _ ↦ True) (arrayText fields.objects) := arrayText_value hitems
      refine ⟨typed_described rfl, arrayText fields.objects, fields.objects, ?_, ?_, ?_, ?_,
        fields.objects_described h⟩
      · rw [WireSchema.trim_text]
        exact findSecondArray_typed (by decide) hitems
      · rw [WireSchema.trim_text]
        exact readSecondElement_typed (by decide) harray
      · rw [harray.trim_eq]
        rfl
      · exact fieldObjects_arrayText fields.objects_isObject

theorem WireFields.objects_described : ∀ fields : WireFields, fields.Writable typeJson →
    fields.Described typeJson protoDefVariables fields.objects
  | .nil, h => rfl
  | .plain name schema rest, h => by
      have hvalue (key : Text) : readJsonValueField (fieldText name.1 schema.text) key =
          [(txt "name", quoted name.1), (txt "type", schema.text)].lookup key :=
        readJsonValueField_objectText (fieldText_entries name.2.all_isKeyByte trivial trivial trivial
          schema.text_compact) key
      refine ⟨_, _, schema.text, rfl, readJsonStringField_eq (hvalue _), ?_, hvalue _,
        schema.text_described h.1, rest.objects_described h.2⟩
      rw [readJsonBoolField_none (hvalue _)]
      rfl
  | .switch name compareTo cases rest, h => by
      obtain ⟨hcompare, hcases, hrest⟩ := h
      have hbranches := cases.branches_compact (P := fun _ ↦ True) fun _ _ ↦ trivial
      have hdefaults := cases.defaults_compact (P := fun _ ↦ True) fun _ _ ↦ trivial
      have htype : CompactValue (fun _ ↦ True)
          (switchText compareTo.1 cases.branches cases.defaults) :=
        switchText_value trivial trivial trivial trivial hbranches hdefaults
      have hvalue (key : Text) : readJsonValueField
          (fieldText name.1 (switchText compareTo.1 cases.branches cases.defaults)) key =
          [(txt "name", quoted name.1),
            (txt "type", switchText compareTo.1 cases.branches cases.defaults)].lookup key :=
        readJsonValueField_objectText (fieldText_entries name.2.all_isKeyByte trivial trivial trivial
          htype) key
      have hswitch := readJsonValueField_switch compareTo hbranches hdefaults
      refine ⟨_, _, _, rfl, readJsonStringField_eq (hvalue _), ?_, hvalue _, typed_described rfl, ?_,
        ?_, ?_, rest.objects_described hrest⟩
      · rw [readJsonBoolField_none (hvalue _)]
        rfl
      · rw [htype.trim_eq]
        exact readJsonStringField_none ((hswitch _).trans (cases.lookup_defaults (by decide)))
      · rw [htype.trim_eq]
        exact readJsonStringField_eq (hswitch _)
      · rw [htype.trim_eq]
        exact cases.branches_described hcompare [] (fun _ ↦ True) hcases
          (fun _ _ _ he ↦ absurd he List.not_mem_nil) fun _ he ↦ absurd he List.not_mem_nil

/-- The branches behind some earlier ones that do not mention their keys. -/
theorem WireCases.branches_described {compareTo : WireName} (hcompare : compareTo.1 ≠ txt "fields") :
    ∀ (cases : WireCases) (earlier : List (Text × Text)) (keys : Text → Prop),
    cases.Writable typeJson → (∀ key, keys key → ∀ e ∈ earlier, CompactEntry (· ≠ key) e) →
    (∀ e ∈ earlier, CompactEntry (fun _ ↦ True) e) →
    cases.Described typeJson protoDefVariables
      (switchText compareTo.1 (earlier ++ cases.branches) cases.defaults) keys
  | .nil, earlier, keys, h, hne, hearlier => by
      intro key hkey hkeys
      have hnone : ∀ e ∈ ([] : List (Text × Text)), CompactEntry (fun _ ↦ True) e :=
        fun e he ↦ absurd he List.not_mem_nil
      rw [WireCases.branches, WireCases.defaults, List.append_nil]
      constructor
      · rw [encoder_switchBranch protoDefVariables compareTo hearlier hnone hcompare hkey,
          readSwitchObjectField_none hkey.searched (hne key hkeys)]
        rfl
      · have hlookup := lookup_append_of_ne (hne key hkeys) []
        rw [List.append_nil] at hlookup
        rw [decoder_switchBranch protoDefVariables compareTo hearlier hnone hkey, hlookup]
        rfl
  | .default schema, earlier, keys, h, hne, hearlier => by
      refine ⟨schema.text, schema.text_described h, fun key hkey hkeys ↦ ?_⟩
      have hdefaults := (WireCases.default schema).defaults_compact (P := fun _ ↦ True)
        fun _ _ ↦ trivial
      rw [WireCases.branches, List.append_nil]
      constructor
      · rw [encoder_switchBranch protoDefVariables compareTo hearlier hdefaults hcompare hkey,
          readSwitchObjectField_none hkey.searched (hne key hkeys)]
        rfl
      · have hlookup := lookup_append_of_ne (hne key hkeys) []
        rw [List.append_nil] at hlookup
        rw [decoder_switchBranch protoDefVariables compareTo hearlier hdefaults hkey, hlookup]
        rfl
  | .case k schema rest, earlier, keys, h, hne, hearlier => by
      have hdefaults := rest.defaults_compact (P := fun _ ↦ True) fun _ _ ↦ trivial
      have hbranches : ∀ e ∈ earlier ++ (WireCases.case k schema rest).branches,
          CompactEntry (fun _ ↦ True) e := by
        intro e he
        rcases List.mem_append.mp he with he | he
        · exact hearlier e he
        · exact (WireCases.case k schema rest).branches_compact (fun _ _ ↦ trivial) e he
      refine ⟨fun hkeys ↦ ⟨schema.text, schema.text_described h.1, ?_, ?_⟩, ?_⟩
      · rw [WireCases.defaults, encoder_switchBranch protoDefVariables compareTo hbranches hdefaults hcompare
          k.2, WireCases.branches, readSwitchObjectField_at k.2.searched (hne k.1 hkeys)
          schema.text_compact]
        rfl
      · rw [WireCases.defaults, decoder_switchBranch protoDefVariables compareTo hbranches hdefaults k.2,
          WireCases.branches, lookup_append_of_ne (hne k.1 hkeys), lookup_cons, if_pos rfl]
        rfl
      · have hrest := rest.branches_described hcompare (earlier ++ [(k.1, schema.text)])
          (fun key ↦ keys key ∧ key ≠ k.1 ∧ key ∉ schema.strings) h.2 ?_ ?_
        · rw [List.append_assoc] at hrest
          exact hrest
        · rintro key ⟨hkeys, hk, hstrings⟩ e he
          rcases List.mem_append.mp he with he | he
          · exact hne key hkeys e he
          · obtain rfl := List.mem_singleton.mp he
            refine compactEntry_value k.2.1 (Ne.symm hk) (schema.text_value fun s hs ↦ ?_)
            rintro rfl
            exact hstrings hs
        · intro e he
          rcases List.mem_append.mp he with he | he
          · exact hearlier e he
          · obtain rfl := List.mem_singleton.mp he
            exact compactEntry_value k.2.1 trivial schema.text_compact

end

end Described

end BedrockProtocol
