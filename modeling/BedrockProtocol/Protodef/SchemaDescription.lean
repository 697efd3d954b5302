import BedrockProtocol.Protodef.WireSchema

/-!
# Texts that describe a schema

What encoder and decoder find in the text of a type, and that they find the same: the parts of a
type, the objects of the fields of a container, the numbers of a mapper and the branches of a
switch.  The encoder looks up a branch or a name of a mapper in another way than the decoder, so
both are named where they could differ.
-/

namespace BedrockProtocol

open SchemaText

/-! ## Fields of a container -/

/-- The objects in the text of the fields from `pos`, as encoder and decoder go through them. -/
def fieldObjectsFrom (fields : Text) : ℕ → ℕ → Option (List Text)
  | 0, _ => some []
  | turns + 1, pos =>
      match find fields 0x7b pos with
      | none => some []
      | some objStart => do
          let objEnd ← findMatching fields objStart 0x7b 0x7d
          let rest ← fieldObjectsFrom fields turns (objEnd + 1)
          some (substr fields objStart (objEnd - objStart + 1) :: rest)

def fieldObjects (fields : Text) : Option (List Text) :=
  fieldObjectsFrom fields (fields.length + 1) 0

theorem encoder_containerFieldsFrom (encode : Text → ProtoDefValue → Except String (List UInt8))
    (fields : Text) (value : ProtoDefValue) {turns pos : ℕ} {objects : List Text}
    (h : fieldObjectsFrom fields turns pos = some objects) :
    ProtoDefEncoder.containerFieldsFrom encode fields value turns pos =
      List.flatten <$> objects.mapM (ProtoDefEncoder.encodeObject encode value) := by
  induction turns generalizing pos objects with
  | zero =>
      obtain rfl := Option.some.inj h
      rfl
  | succ turns ih =>
      rw [fieldObjectsFrom] at h
      rw [ProtoDefEncoder.containerFieldsFrom]
      cases hstart : find fields 0x7b pos with
      | none =>
          rw [hstart] at h
          obtain rfl := Option.some.inj h
          rfl
      | some objStart =>
          rw [hstart] at h
          obtain ⟨objEnd, hend, h⟩ := Option.bind_eq_some_iff.mp h
          obtain ⟨rest, hrest, h⟩ := Option.bind_eq_some_iff.mp h
          obtain rfl := Option.some.inj h
          dsimp only
          rw [hend, List.mapM_cons]
          dsimp only
          rw [ih hrest]
          cases ProtoDefEncoder.encodeObject encode value
              (substr fields objStart (objEnd - objStart + 1)) with
          | error e => rfl
          | ok written =>
              cases rest.mapM (ProtoDefEncoder.encodeObject encode value) with
              | error e => rfl
              | ok chunks => rfl

/-- What the decoder does with one object. -/
def decodeObject (decode : Text → Text → Decoded → Reader Decoded) (path : Text)
    (decoded : Decoded) (fieldObj : Text) : Reader Decoded :=
  let name := readJsonStringField fieldObj (txt "name")
  let anon := (readJsonBoolField fieldObj (txt "anon")).getD false
  let child := ProtoDefDecoder.fieldPath path name anon
  match readJsonValueField fieldObj (txt "type") with
  | none => pure decoded
  | some type =>
      Reader.mapError (fun e ↦ "at " ++ (if child = [] then "$container" else shown child) ++ ": " ++ e)
        (decode type child decoded)

theorem decoder_containerFieldsFrom (decode : Text → Text → Decoded → Reader Decoded)
    (fields path : Text) {turns pos : ℕ} {objects : List Text}
    (h : fieldObjectsFrom fields turns pos = some objects) (decoded : Decoded) :
    ProtoDefDecoder.containerFieldsFrom decode fields path turns pos decoded =
      objects.foldlM (decodeObject decode path) decoded := by
  induction turns generalizing pos objects decoded with
  | zero =>
      obtain rfl := Option.some.inj h
      rfl
  | succ turns ih =>
      rw [fieldObjectsFrom] at h
      rw [ProtoDefDecoder.containerFieldsFrom]
      cases hstart : find fields 0x7b pos with
      | none =>
          rw [hstart] at h
          obtain rfl := Option.some.inj h
          rfl
      | some objStart =>
          rw [hstart] at h
          obtain ⟨objEnd, hend, h⟩ := Option.bind_eq_some_iff.mp h
          obtain ⟨rest, hrest, h⟩ := Option.bind_eq_some_iff.mp h
          obtain rfl := Option.some.inj h
          dsimp only
          rw [hend, List.foldlM_cons]
          dsimp only
          exact bind_congr fun decoded ↦ ih hrest decoded

/-! ## Types -/

/-- The names that encoder or decoder take for a type of their own. -/
def primitiveTypes : List Text :=
  integerTypes.map Prod.fst ++ floatTypes.map Prod.fst ++ stringTypes.map Prod.fst ++
    [txt "void", txt "bool", txt "li8", txt "uuid", txt "ipAddress", txt "restBuffer",
      txt "MapInfo", txt "byterot", txt "nbtLoop", txt "enum_size_based_on_values_len",
      txt "native", txt "nbt", txt "lnbt", txt "vec3i", txt "vec3f"]

def WireSize.Described : WireSize → Text → Prop
  | .counted countType, json =>
      readJsonIntegerField json (txt "count") = .ok none ∧
        readJsonStringField json (txt "count") = none ∧
        (readJsonStringField json (txt "countType")).getD (txt "varint") = countType.1
  | .fixed count, json => readJsonIntegerField json (txt "count") = .ok (some count)

section Described

variable (typeJson : Text → Option Text) (protoDefVariables : List (Text × Text))

/-- Encoder and decoder find the same branch. -/
def HasBranch (switchJson key : Text) (branch : Option Text) : Prop :=
  ProtoDefEncoder.switchBranch protoDefVariables switchJson key = branch ∧
    ProtoDefDecoder.switchBranch protoDefVariables switchJson key = branch

mutual

def WireSchema.Described : WireSchema → Text → Prop
  | .scalar typeName, text => trim text = ProtoDefEncoder.quoted typeName.1
  | .pstring countType, text =>
      startsWith (trim text) (txt "[\"pstring\"") ∧
        (readJsonStringField (trim text) (txt "countType")).getD (txt "varint") = countType.1
  | .buffer size, text =>
      startsWith (trim text) (txt "[\"buffer\"") ∧ size.Described (trim text)
  | .array size item, text =>
      startsWith (trim text) (txt "[\"array\"") ∧ size.Described (trim text) ∧
        ∃ itemType, readJsonValueField (trim text) (txt "type") = some itemType ∧
          item.Described itemType
  | .option inner, text =>
      startsWith (trim text) (txt "[\"option\"") ∧
        ∃ innerType, readSecondElement (trim text) = some innerType ∧ inner.Described innerType
  | .mapper baseType mappings, text =>
      startsWith (trim text) (txt "[\"mapper\"") ∧
        readJsonStringField (trim text) (txt "type") = some baseType.1 ∧
        (∀ name, ProtoDefEncoder.findMapperNumericByName (trim text) name =
          .ok (numberOf mappings name)) ∧
        ∀ n, ProtoDefDecoder.mappedName (trim text) (decimal n) = nameOf mappings n
  | .encapsulated lengthType inner, text =>
      startsWith (trim text) (txt "[\"encapsulated\"") ∧
        (readJsonStringField (trim text) (txt "lengthType")).getD (txt "varint") = lengthType.1 ∧
        ∃ innerType, readJsonValueField (trim text) (txt "type") = some innerType ∧
          inner.Described innerType
  | .named typeName schema, text =>
      trim text = ProtoDefEncoder.quoted typeName.1 ∧ typeName.1 ∉ primitiveTypes ∧
        ∃ json, typeJson typeName.1 = some json ∧ schema.Described json
  | .container fields, text =>
      startsWith (trim text) (txt "[\"container\"") ∧
        ∃ fieldsText objects, ProtoDefEncoder.findSecondArray (trim text) = some fieldsText ∧
          readSecondElement (trim text) = some fieldsText ∧
          startsWith (trim fieldsText) (txt "[") ∧ fieldObjects fieldsText = some objects ∧
          fields.Described objects

/-- There is one object for each field. -/
def WireFields.Described : WireFields → List Text → Prop
  | .nil, objects => objects = []
  | .plain name schema rest, objects =>
      ∃ object others type, objects = object :: others ∧
        readJsonStringField object (txt "name") = some name.1 ∧
        (readJsonBoolField object (txt "anon")).getD false = false ∧
        readJsonValueField object (txt "type") = some type ∧ schema.Described type ∧
        rest.Described others
  | .switch name compareTo cases rest, objects =>
      ∃ object others type, objects = object :: others ∧
        readJsonStringField object (txt "name") = some name.1 ∧
        (readJsonBoolField object (txt "anon")).getD false = false ∧
        readJsonValueField object (txt "type") = some type ∧
        startsWith (trim type) (txt "[\"switch\"") ∧
        readJsonStringField (trim type) (txt "compareToValue") = none ∧
        readJsonStringField (trim type) (txt "compareTo") = some compareTo.1 ∧
        cases.Described (trim type) (fun _ ↦ True) ∧ rest.Described others

/-- The branches for some keys: a case is for its own key, and the later ones are for those that
no earlier one mentions. -/
def WireCases.Described : WireCases → Text → (Text → Prop) → Prop
  | .nil, switchJson, keys =>
      ∀ key, PlainKey key → keys key → HasBranch protoDefVariables switchJson key none
  | .default schema, switchJson, keys =>
      ∃ branch, schema.Described branch ∧
        ∀ key, PlainKey key → keys key → HasBranch protoDefVariables switchJson key (some branch)
  | .case k schema rest, switchJson, keys =>
      (keys k.1 → ∃ branch, schema.Described branch ∧
        HasBranch protoDefVariables switchJson k.1 (some branch)) ∧
        rest.Described switchJson fun key ↦ keys key ∧ key ≠ k.1 ∧ key ∉ schema.strings

end

end Described

/-! ## Names -/

namespace PlainName

variable {name : Text}

theorem ne_of_not_plain (hname : PlainName name) {other : Text} (h : ¬PlainName other) :
    other ≠ name := by
  rintro rfl
  exact h hname

theorem isNameByte_of_mem (hname : PlainName name) {c : UInt8} (hc : c ∈ name) :
    isNameByte c = true := List.all_eq_true.mp hname.2 c hc

/-- A character that is no letter, digit or underscore. -/
theorem ne_of_mem (hname : PlainName name) {c d : UInt8} (hc : c ∈ name)
    (hd : isNameByte d = false) : c ≠ d := by
  rintro rfl
  rw [hname.isNameByte_of_mem hc] at hd
  cases hd

theorem not_mem (hname : PlainName name) {c : UInt8} (hc : isNameByte c = false) : c ∉ name :=
  fun hmem ↦ hname.ne_of_mem hmem hc rfl

theorem not_space (hname : PlainName name) : ∀ c ∈ name, isSpace c = false := by
  intro c hc
  cases hspace : isSpace c with
  | false => rfl
  | true =>
      have hbyte := hname.isNameByte_of_mem hc
      simp only [isSpace, isNameByte, isDigit, decide_eq_true_eq, UInt8.le_iff_toNat_le,
        ← UInt8.toNat_inj, UInt8.reduceToNat] at hspace hbyte
      omega

theorem trim_eq (hname : PlainName name) : trim name = name := by
  have hfirst : name.dropWhile isSpace = name := by
    refine List.dropWhile_eq_self_iff.mpr fun hlength ↦ ?_
    rw [hname.not_space _ (List.getElem_mem hlength)]
    exact Bool.false_ne_true
  rw [trim, hfirst]
  refine List.rdropWhile_eq_self_iff.mpr fun hne ↦ ?_
  rw [hname.not_space _ (List.getLast_mem hne)]
  exact Bool.false_ne_true

theorem splitOr_eq (hname : PlainName name) : ProtoDefDecoder.splitOr name = [name] := by
  have hbar : (0x7c : UInt8) ∉ name := hname.not_mem (by decide)
  clear hname
  induction name with
  | nil => rfl
  | cons c name ih =>
      have hc : c ≠ 0x7c := fun h ↦ hbar (h ▸ List.mem_cons_self)
      rw [ProtoDefDecoder.splitOr, ih fun h ↦ hbar (List.mem_cons_of_mem c h)]
      · rfl
      · intro rest h
        exact absurd h hc

end PlainName

/-! ## The type of a text -/

theorem length_quoted (name : Text) : (ProtoDefEncoder.quoted name).length = name.length + 2 := by
  have hquote : (txt "\"").length = 1 := rfl
  rw [ProtoDefEncoder.quoted, List.length_append, List.length_append, hquote]
  omega

theorem isJsonString_quoted (name : Text) : isJsonString (ProtoDefEncoder.quoted name) = true := by
  have hlast : (ProtoDefEncoder.quoted name).getLast? = some 0x22 :=
    List.getLast?_append_of_ne_nil _ (by decide)
  have hlength : 2 ≤ (ProtoDefEncoder.quoted name).length := by
    rw [length_quoted]
    exact Nat.le_add_left 2 _
  exact decide_eq_true ⟨hlength, rfl, hlast⟩

theorem unquote_quoted (name : Text) : unquote (ProtoDefEncoder.quoted name) = name := by
  rw [unquote, if_pos (isJsonString_quoted name), substr]
  have hdrop : (ProtoDefEncoder.quoted name).drop 1 = name ++ txt "\"" := rfl
  rw [hdrop, length_quoted, Nat.add_sub_cancel, List.take_left]

/-- A text that starts with a bracket is no name of a type. -/
theorem not_isJsonString {type opening : Text} (h : startsWith type (0x5b :: opening) = true) :
    ¬isJsonString type = true := by
  intro hstring
  obtain ⟨rest, rfl⟩ := List.isPrefixOf_iff_prefix.mp h
  have hhead := (of_decide_eq_true hstring).2.1
  cases hhead

/-- Of two openings that differ a text has one only. -/
theorem not_startsWith {type opening other : Text} (h : startsWith type opening = true)
    (hother : ¬other <+: opening ∧ ¬opening <+: other) : ¬startsWith type other = true := by
  intro hstart
  rcases List.prefix_or_prefix_of_prefix (List.isPrefixOf_iff_prefix.mp h)
    (List.isPrefixOf_iff_prefix.mp hstart) with hle | hle
  · exact hother.2 hle
  · exact hother.1 hle

end BedrockProtocol
