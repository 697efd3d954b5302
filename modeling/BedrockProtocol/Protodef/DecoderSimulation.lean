import BedrockProtocol.Protodef.DecodedTexts
import Mathlib.Data.List.Chain
import Mathlib.Logic.Relation

/-!
# One decoder follows another

Two decoders of the same schema with the same variables may differ in what they do at the
end of the input, in whether they keep the fields, and in the input behind what they read.
`Compared` collects what a relation between what they have decoded needs for the second to
follow the first: there is one lemma for each construct, and the theorem for all of them is
by induction on the levels of the recursion.
-/

namespace BedrockProtocol

namespace ProtoDefDecoder

open ProtoDefTypes SchemaText ElementCounts ProtoDefReader

/-! ## What a type is made of -/

/-- The constructs with one type inside. -/
def elementOpenings : List Text :=
  [txt "[\"array\"", txt "[\"endOfArray\"", txt "[\"entityMetadataLoop\"", txt "[\"count\"",
    txt "[\"encapsulated\""]

/-- The second text is the JSON text of a type that the decoder of the first one may go on with. -/
inductive Uses (typeJson : Text → Option Text) (protoDefVariables : List (Text × Text)) (json : Text) :
    Text → Prop
  | named {sub : Text} : isJsonString (trim json) = true → typeJson (unquote (trim json)) = some sub →
      Uses typeJson protoDefVariables json sub
  | element {opening sub : Text} : opening ∈ elementOpenings →
      startsWith (trim json) opening = true →
      readJsonValueField (trim json) (txt "type") = some sub → Uses typeJson protoDefVariables json sub
  | inner {sub : Text} : startsWith (trim json) (txt "[\"option\"") = true →
      readSecondElement (trim json) = some sub → Uses typeJson protoDefVariables json sub
  | field {fields sub : Text} {start len : ℕ} :
      startsWith (trim json) (txt "[\"container\"") = true →
      readSecondElement (trim json) = some fields →
      readJsonValueField (substr fields start len) (txt "type") = some sub →
      Uses typeJson protoDefVariables json sub
  | branch {value sub : Text} : startsWith (trim json) (txt "[\"switch\"") = true →
      switchBranch protoDefVariables (trim json) value = some sub →
      Uses typeJson protoDefVariables json sub
  | metadata {switchJson value sub : Text} :
      startsWith (trim json) (txt "[\"entityMetadataItem\"") = true →
      typeJson (txt "entityMetadataItem") = some switchJson →
      switchBranch protoDefVariables switchJson value = some sub →
      Uses typeJson protoDefVariables json sub

/-- The types that the decoder can do without a byte for. -/
def ReadsOptionally (json : Text) : Prop :=
  isJsonString (trim json) = true ∧ unquote (trim json) ∈ [txt "u8", txt "lu8", txt "byte"] ∨
    startsWith (trim json) (txt "[\"option\"") = true ∨
    startsWith (trim json) (txt "[\"mapper\"") = true ∧
      readJsonStringField (trim json) (txt "type") ∈ [some (txt "u8"), some (txt "lu8")]

/-- The types that depend on how much input is left. -/
def TakesRest (json : Text) : Prop :=
  isJsonString (trim json) = true ∧ unquote (trim json) ∈ restTypes ∨
    startsWith (trim json) (txt "[\"endOfArray\"") = true ∨
    startsWith (trim json) (txt "[\"buffer\"") = true ∧
      readJsonStringField (trim json) (txt "countType") = some (txt "remaining")

instance (json : Text) : Decidable (ReadsOptionally json) :=
  inferInstanceAs (Decidable (_ ∨ _))

instance (json : Text) : Decidable (TakesRest json) := inferInstanceAs (Decidable (_ ∨ _))

/-- The path of an element of an array; a decoder without fields has one path for all scalars. -/
def elementPath (collectFields : Bool) (itemType path : Text) (i : ℕ) : Text :=
  if !collectFields && isScalarArrayType itemType then path ++ txt "[]" else itemPath path i

section Within

variable (typeJson : Text → Option Text) (protoDefVariables : List (Text × Text))
  (collectFields : Bool) (atEnd : Except String Unit) (admits : Text → Prop) [DecidablePred admits]

/-- The decoder with a check of every type that it comes to. -/
def decodeWithin : ℕ → Text → Text → Decoded → Reader Decoded
  | 0, _, _, _ => throw "out of fuel"
  | fuel + 1, json, path, decoded =>
      if admits json then
        decodeLevel typeJson protoDefVariables collectFields atEnd (decodeWithin fuel) fuel json path
          decoded
      else throw "refused type"

theorem decodeWithin_true (fuel : ℕ) :
    decodeWithin typeJson protoDefVariables collectFields atEnd (fun _ ↦ True) fuel =
      decodeLevels typeJson protoDefVariables collectFields atEnd fuel := by
  induction fuel with
  | zero => rfl
  | succ fuel ih =>
      funext json path decoded
      rw [decodeWithin, if_pos True.intro, ih, decodeLevels]

end Within

/-! ## The relation -/

section Comparison

variable (collectFields collectFields' : Bool) (atEnd atEnd' : Except String Unit)
  (suffix : List UInt8) (G : Text → Prop) (E : Text → Text → Prop) (V : Decoded → Decoded → Prop)

/-- What the relation `V` between what two decoders have decoded needs: `G` holds of the types
that they meet, and `E` relates the paths of an element where they differ. -/
structure Compared : Prop where
  optional {json : Text} : G json → ReadsOptionally json →
    (∃ e, atEnd = .error e) ∨ suffix = [] ∧ atEnd = atEnd'
  rest {json : Text} : G json → TakesRest json → suffix = []
  element {json itemType : Text} : G json → startsWith (trim json) (txt "[\"array\"") = true →
    readJsonValueField (trim json) (txt "type") = some itemType → ∀ path i,
    elementPath collectFields itemType path i = elementPath collectFields' itemType path i ∨
      isScalarArrayType itemType = true ∧
        E (elementPath collectFields itemType path i) (elementPath collectFields' itemType path i)
  paths {p p' : Text} : E p p' → p ≠ [] ∧ p' ≠ [] ∧ isRuntimeId p = isRuntimeId p'
  appendField {d d' : Decoded} {field : ProtoDefField} {path : Text} : V d d' →
    field.path = path ∨ E field.path path →
    Recorded field.type field.value ∨ atEnd = .ok () →
    V (d.appendField collectFields field) (d'.appendField collectFields' { field with path := path })
  setContext {d d' : Decoded} {key key' value : Text} : V d d' → key = key' ∨ E key key' →
    V (d.setContext key value) (d'.setContext key' value)
  size {json countRef : Text} {d d' : Decoded} : G json →
    startsWith (trim json) (txt "[\"array\"") = true ∨
      startsWith (trim json) (txt "[\"buffer\"") = true →
    readJsonStringField (trim json) (txt "count") = some countRef → V d d' →
    ∀ owner lastPart path, referencedText owner lastPart path countRef d.context =
      referencedText owner lastPart path countRef d'.context
  compared {json : Text} {d d' : Decoded} : G json →
    startsWith (trim json) (txt "[\"switch\"") = true → V d d' →
    ∀ path, compareValue (trim json) path d.context = compareValue (trim json) path d'.context
  metadata {json : Text} {d d' : Decoded} : G json →
    startsWith (trim json) (txt "[\"entityMetadataItem\"") = true → V d d' →
    ∀ path, metadataValue ((readJsonStringField (trim json) (txt "compareTo")).getD (txt "type")) path
        d.context =
      metadataValue ((readJsonStringField (trim json) (txt "compareTo")).getD (txt "type")) path
        d'.context
  valuesLen {d d' : Decoded} : V d d' →
    d.context.get (txt "values_len") = d'.context.get (txt "values_len")

end Comparison

section Constructs

variable {typeJson : Text → Option Text} {protoDefVariables : List (Text × Text)}
  {collectFields collectFields' both : Bool} {atEnd atEnd' : Except String Unit}
  {suffix : List UInt8} {G : Text → Prop} {E : Text → Text → Prop} {V : Decoded → Decoded → Prop}
  {decode decode' : Text → Text → Decoded → Reader Decoded} {json p p' : Text} {d d' : Decoded}

/-! ## Primitive types -/

/-- What the decoder does where it may go on without a byte. -/
theorem follows_unlessAtEnd {α β : Type} {W : α → β → Prop} {missing read : Reader α}
    {missing' read' : Reader β} (hend : (∃ e, atEnd = .error e) ∨ suffix = [] ∧ atEnd = atEnd')
    (hmissing : atEnd = .ok () → Follows both suffix W missing missing')
    (hread : Follows both suffix W read read') :
    Follows both suffix W
      (do
        if (← Reader.remaining) < 1 then
          liftM atEnd
          missing
        else read)
      (do
        if (← Reader.remaining) < 1 then
          liftM atEnd'
          missing'
        else read') := by
  cases hatEnd : atEnd with
  | error e =>
      refine Follows.guardRemaining 1 (fun n m hn hm ↦ ?_) fun n hn ↦ ⟨e, ?_⟩
      · rw [if_neg (by omega), if_neg (by omega)]
        exact hread
      · rw [if_pos hn]
        rfl
  | ok _ =>
      rcases hend with ⟨e, he⟩ | ⟨rfl, hatEnd'⟩
      · rw [hatEnd] at he
        cases he
      · rw [← hatEnd', hatEnd]
        refine Follows.remaining.bind ?_
        rintro n _ rfl
        exact Follows.ite (fun _ ↦ hmissing hatEnd) fun _ ↦ hread

/-- A byte that may be missing. -/
theorem follows_orMissing {type : Text} {read : Reader Text} (hread : ReadsText type read)
    (hend : (∃ e, atEnd = .error e) ∨ suffix = [] ∧ atEnd = atEnd') :
    Follows both suffix (fun a b ↦ a = b ∧ (Recorded type a ∨ atEnd = .ok ()))
      (orMissing atEnd read) (orMissing atEnd' read) := by
  refine follows_unlessAtEnd hend (fun hatEnd ↦ Follows.pure ⟨rfl, .inr hatEnd⟩) ?_
  exact ((hread.looksNoFurther suffix).and_yields hread.recorded).mono fun a b h ↦ ⟨h.1, .inl h.2⟩

/-- A scalar is a type with a reader, not one with JSON text. -/
theorem isSome_of_isScalarArrayType (h : isScalarArrayType json = true) :
    unquote (trim json) ∈ [txt "u8", txt "lu8", txt "byte"] ∨
      (readText (unquote (trim json)) p).isSome = true ∨
      (readOther (unquote (trim json))).isSome = true := by
  have hpath (name : Text) : (readText name p).isSome = (readText name []).isSome := by
    simp only [readText, apply_ite Option.isSome, Option.isSome_some, ite_self]
  have hnames : ∀ name ∈ [txt "void", txt "bool", txt "byte", txt "u8", txt "lu8", txt "i8",
      txt "li8", txt "u16", txt "lu16", txt "i16", txt "li16", txt "u32", txt "lu32", txt "i32",
      txt "li32", txt "u64", txt "lu64", txt "i64", txt "li64", txt "varint", txt "varuint",
      txt "varint64", txt "varuint64", txt "varlong", txt "zigzag32", txt "zigzag64",
      txt "varint128", txt "f32", txt "lf32", txt "f64", txt "lf64"],
      name ∈ [txt "u8", txt "lu8", txt "byte"] ∨ (readText name []).isSome = true ∨
        (readOther name).isSome = true := by decide +kernel
  rw [isScalarArrayType, decide_eq_true_eq] at h
  rw [hpath]
  exact hnames _ h.2

theorem unmarked_enumType (valuesLen : ℕ) : Unmarked (enumType valuesLen) := by
  rw [enumType]
  split
  · decide
  · split
    · decide
    · decide

theorem unmarked_enumSize {context : ProtoDefContext} {value : Text}
    (h : enumSizeBasedOnValuesLen context = .ok value) : Unmarked value := by
  rw [enumSizeBasedOnValuesLen] at h
  split at h
  · cases h
  · cases htext : stoullText (beforeSlash (context.get (txt "values_len"))) with
    | error e =>
        rw [htext] at h
        cases h
    | ok n =>
        rw [htext] at h
        obtain rfl := Except.ok.inj h
        exact unmarked_enumType n

/-- The second table has a reader for what the first one has a reader for. -/
def FollowsTable (both : Bool) (suffix : List UInt8) (table table' : Option (Reader Text)) : Prop :=
  ∀ read, table = some read → ∃ read', table' = some read' ∧ Follows both suffix Eq read read'

theorem FollowsTable.ite {c : Prop} [Decidable c] {read read' : Reader Text}
    {table table' : Option (Reader Text)} (hread : c → Follows both suffix Eq read read')
    (htable : FollowsTable both suffix table table') :
    FollowsTable both suffix (if c then some read else table) (if c then some read' else table') := by
  by_cases h : c
  · rw [if_pos h, if_pos h]
    rintro _ ⟨⟩
    exact ⟨read', rfl, hread h⟩
  · rw [if_neg h, if_neg h]
    exact htable

theorem follows_readNumeric {baseType : Text}
    (hend : baseType ∈ [txt "u8", txt "lu8"] →
      (∃ e, atEnd = .error e) ∨ suffix = [] ∧ atEnd = atEnd') :
    FollowsTable both suffix (readNumeric atEnd baseType) (readNumeric atEnd' baseType) := by
  unfold readNumeric
  dsimp only
  refine .ite (fun h ↦ (follows_orMissing (@readsText_u8 baseType) (hend h)).mono fun _ _ ↦ And.left) ?_
  refine .ite (fun _ ↦ (looksNoFurther_u8.map _).map _ suffix) ?_
  refine .ite (fun _ ↦ looksNoFurther_u16be.map _ suffix) ?_
  refine .ite (fun _ ↦ looksNoFurther_u16le.map _ suffix) ?_
  refine .ite (fun _ ↦ looksNoFurther_u16be.map _ suffix) ?_
  refine .ite (fun _ ↦ looksNoFurther_u16le.map _ suffix) ?_
  refine .ite (fun _ ↦ looksNoFurther_u32be.map _ suffix) ?_
  refine .ite (fun _ ↦ looksNoFurther_u32le.map _ suffix) ?_
  refine .ite (fun _ ↦ looksNoFurther_i32be.map _ suffix) ?_
  refine .ite (fun _ ↦ looksNoFurther_i32le.map _ suffix) ?_
  refine .ite (fun _ ↦ looksNoFurther_varuint32.map _ suffix) ?_
  refine .ite (fun _ ↦ looksNoFurther_varuint64.map _ suffix) ?_
  refine .ite (fun _ ↦ looksNoFurther_zigzag32.map _ suffix) ?_
  intro read h
  cases h

section

variable (hV : Compared collectFields collectFields' atEnd atEnd' suffix G E V)

include hV

theorem Compared.record {field : ProtoDefField} {path : Text} (h : V d d')
    (hpath : field.path = path ∨ E field.path path)
    (hfield : Recorded field.type field.value ∨ atEnd = .ok ()) :
    V (d.record collectFields field) (d'.record collectFields' { field with path := path }) :=
  hV.setContext (hV.appendField h hpath hfield) hpath

theorem Compared.record_self {field : ProtoDefField} (h : V d d')
    (hfield : Recorded field.type field.value ∨ atEnd = .ok ()) :
    V (d.record collectFields field) (d'.record collectFields' field) :=
  hV.record h (.inl rfl) hfield

/-- The recording of a field whose text has been read, under the path or under a name if there
is none. -/
theorem Compared.follows_record {type value fallback : Text} {structuredValue : Option ProtoDefValue}
    {start : ℕ} (h : V d d') (hpath : p = p' ∨ E p p')
    (hvalue : Recorded type value ∨ atEnd = .ok ()) :
    Follows both suffix V
      (do
        let offset ← Reader.offset
        pure (d.record collectFields
          { path := if p = [] then fallback else p, type, value, offset := start
            size := offset - start, structuredValue }))
      (do
        let offset ← Reader.offset
        pure (d'.record collectFields'
          { path := if p' = [] then fallback else p', type, value, offset := start
            size := offset - start, structuredValue })) := by
  refine Follows.offset.bind ?_
  rintro offset _ rfl
  refine Follows.pure (hV.record h ?_ hvalue)
  rcases hpath with rfl | hE
  · exact .inl rfl
  · obtain ⟨hp, hp', -⟩ := hV.paths hE
    dsimp only
    rw [if_neg hp, if_neg hp']
    exact .inr hE

theorem Compared.follows_decodeTypeName (hG : G json) (hjson : isJsonString (trim json) = true)
    (hpath : p = p' ∨ isScalarArrayType json = true ∧ E p p') (h : V d d')
    (hdecode : ∀ sub, Uses typeJson protoDefVariables json sub → ∀ p,
      Follows both suffix V (decode sub p d) (decode' sub p d')) :
    Follows both suffix V (decodeTypeName typeJson collectFields atEnd decode (unquote (trim json)) p d)
      (decodeTypeName typeJson collectFields' atEnd' decode' (unquote (trim json)) p' d') := by
  have hpath' : p = p' ∨ E p p' := hpath.imp_right And.right
  have hruntime : isRuntimeId p = isRuntimeId p' := by
    rcases hpath' with rfl | hE
    · rfl
    · exact (hV.paths hE).2.2
  generalize hname : unquote (trim json) = typeName
  unfold decodeTypeName
  refine Follows.ite (fun hbyte ↦ ?_) fun hbyte ↦ ?_
  · have hend := hV.optional hG (.inl ⟨hjson, hname ▸ hbyte⟩)
    refine Follows.offset.bind ?_
    rintro start _ rfl
    refine (follows_orMissing (@readsText_u8 typeName) hend).bind ?_
    rintro value _ ⟨rfl, hvalue⟩
    exact hV.follows_record h hpath' hvalue
  · rw [ProtoDefTypes.decodeTypeName, ProtoDefTypes.decodeTypeName,
      show readText typeName p' = readText typeName p by simp only [readText, hruntime]]
    cases htext : readText typeName p with
    | some read =>
        have hread := readsTexts_readText p hbyte read htext
        refine Follows.offset.bind ?_
        rintro start _ rfl
        refine ((hread.looksNoFurther suffix).and_yields hread.recorded).bind ?_
        rintro value _ ⟨rfl, hvalue⟩
        exact hV.follows_record h hpath' (.inl hvalue)
    | none =>
        unfold decodeNamed
        cases hother : readOther typeName with
        | some read =>
            obtain ⟨hlook, hrecorded⟩ := readsOthers_readOther typeName read hother
            have hread : Follows both suffix Eq read read := by
              by_cases hrest : typeName ∈ restTypes
              · obtain rfl := hV.rest hG (.inl ⟨hjson, hname ▸ hrest⟩)
                exact Follows.self read
              · exact hlook hrest suffix
            refine Follows.offset.bind ?_
            rintro start _ rfl
            refine (hread.and_yields hrecorded).bind ?_
            rintro ⟨value, structuredValue⟩ _ ⟨rfl, hvalue⟩
            exact hV.follows_record h hpath' (.inl hvalue)
        | none =>
            obtain rfl : p = p' := by
              rcases hpath with rfl | ⟨hscalar, -⟩
              · rfl
              · have hsome := @isSome_of_isScalarArrayType json p hscalar
                rw [hname, htext, hother] at hsome
                simp [hbyte] at hsome
            refine Follows.ite (fun _ ↦ ?_) fun _ ↦ ?_
            · have hcontext : enumSizeBasedOnValuesLen d.context =
                  enumSizeBasedOnValuesLen d'.context := by
                rw [enumSizeBasedOnValuesLen, enumSizeBasedOnValuesLen, hV.valuesLen h]
              rw [hcontext]
              refine (@Follows.lift_self _ both suffix (fun a b ↦ a = b ∧ Unmarked a) _
                fun value hvalue ↦ ⟨rfl, unmarked_enumSize hvalue⟩).bind ?_
              rintro value _ ⟨rfl, hvalue⟩
              refine Follows.offset.bind ?_
              rintro offset _ rfl
              exact Follows.pure (hV.record_self h (.inl (.inr hvalue)))
            · cases htype : typeJson typeName with
              | none => exact Follows.throw _
              | some sub => exact hdecode sub (.named hjson (hname ▸ htype)) p

theorem Compared.follows_decodeMapper (hG : G json)
    (hjson : startsWith (trim json) (txt "[\"mapper\"") = true) (h : V d d') :
    Follows both suffix V (decodeMapper collectFields atEnd (trim json) p d)
      (decodeMapper collectFields' atEnd' (trim json) p d') := by
  unfold decodeMapper
  cases hbase : readJsonStringField (trim json) (txt "type") with
  | none => exact Follows.throw _
  | some baseType =>
      have hend (hbyte : baseType ∈ [txt "u8", txt "lu8"]) :
          (∃ e, atEnd = .error e) ∨ suffix = [] ∧ atEnd = atEnd' := by
        refine hV.optional hG (.inr (.inr ⟨hjson, ?_⟩))
        rw [hbase]
        rcases List.mem_pair.mp hbyte with rfl | rfl
        · exact List.mem_pair.mpr (.inl rfl)
        · exact List.mem_pair.mpr (.inr rfl)
      have hnumeric : FollowsTable both suffix (readNumeric atEnd baseType)
          (readNumeric atEnd' baseType) := follows_readNumeric hend
      dsimp only
      cases hread : readNumeric atEnd baseType with
      | none => exact Follows.throw _
      | some read =>
          obtain ⟨read', hread', hfollows⟩ := hnumeric read hread
          rw [hread']
          refine Follows.offset.bind ?_
          rintro start _ rfl
          refine hfollows.bind ?_
          rintro numeric _ rfl
          refine Follows.offset.bind ?_
          rintro offset _ rfl
          have htype : txt "mapper<" <+: txt "mapper<" ++ baseType ++ txt ">" :=
            ⟨baseType ++ txt ">", (List.append_assoc _ _ _).symm⟩
          exact Follows.pure
            (hV.setContext (hV.appendField h (.inl rfl) (.inl (.inl (.inr htype)))) (.inl rfl))

/-! ## Types with types inside -/

theorem Compared.follows_decodeOption (hG : G json)
    (hjson : startsWith (trim json) (txt "[\"option\"") = true) (h : V d d')
    (hdecode : ∀ sub, Uses typeJson protoDefVariables json sub → ∀ p d d', V d d' →
      Follows both suffix V (decode sub p d) (decode' sub p d')) :
    Follows both suffix V (decodeOption collectFields atEnd decode (trim json) p d)
      (decodeOption collectFields' atEnd' decode' (trim json) p d') := by
  unfold decodeOption
  refine Follows.offset.bind ?_
  rintro start _ rfl
  refine follows_unlessAtEnd (hV.optional hG (.inr (.inl hjson))) (fun hatEnd ↦ ?_) ?_
  · exact Follows.pure (hV.appendField h (.inl rfl) (.inr hatEnd))
  · refine (looksNoFurther_u8 suffix).bind ?_
    rintro present _ rfl
    refine Follows.offset.bind ?_
    rintro offset _ rfl
    have hflag : Unmarked (if present ≠ 0 then txt "true" else txt "false") := by split <;> decide
    refine Follows.ite (fun _ ↦ Follows.pure (hV.record_self h (.inl (.inr hflag)))) fun _ ↦ ?_
    cases hinner : readSecondElement (trim json) with
    | none => exact Follows.throw _
    | some sub =>
        exact hdecode sub (.inner hjson hinner) p _ _ (hV.record_self h (.inl (.inr hflag)))

theorem Compared.follows_decodeSwitch (hG : G json)
    (hjson : startsWith (trim json) (txt "[\"switch\"") = true) (h : V d d')
    (hdecode : ∀ sub, Uses typeJson protoDefVariables json sub → ∀ p d d', V d d' →
      Follows both suffix V (decode sub p d) (decode' sub p d')) :
    Follows both suffix V (decodeSwitch protoDefVariables collectFields decode (trim json) p d)
      (decodeSwitch protoDefVariables collectFields' decode' (trim json) p d') := by
  unfold decodeSwitch
  rw [hV.compared hG hjson h p]
  refine (Follows.lift_self fun value _ ↦ rfl).bind ?_
  rintro value _ rfl
  cases hbranch : switchBranch protoDefVariables (trim json) value with
  | some branch => exact hdecode branch (.branch hjson hbranch) p d d' h
  | none =>
      refine Follows.offset.bind ?_
      rintro offset _ rfl
      have htype : txt "switch" ∈ textTypes := by decide
      exact Follows.pure (hV.record_self h (.inl (.inl (.inl htype))))

omit hV in
theorem follows_decodeCount
    (hjson : startsWith (trim json) (txt "[\"count\"") = true) (h : V d d')
    (hdecode : ∀ sub, Uses typeJson protoDefVariables json sub → ∀ p d d', V d d' →
      Follows both suffix V (decode sub p d) (decode' sub p d')) :
    Follows both suffix V (decodeCount decode (trim json) p d) (decodeCount decode' (trim json) p d') := by
  unfold decodeCount
  cases htype : readJsonValueField (trim json) (txt "type") with
  | none => exact Follows.throw _
  | some sub => exact hdecode sub (.element (by decide) hjson htype) _ d d' h

omit hV in
theorem follows_itemsToEnd {itemType : Text} (hsuffix : suffix = [])
    (hitem : ∀ p d d', V d d' → Follows both suffix V (decode itemType p d) (decode' itemType p d'))
    {turns turns' : ℕ} (hturns : turns ≤ turns') (i : ℕ) (h : V d d') :
    Follows both suffix V (itemsToEnd decode itemType p turns i d)
      (itemsToEnd decode' itemType p turns' i d') := by
  induction turns generalizing turns' i d d' with
  | zero => exact Follows.throw _
  | succ turns ih =>
      obtain ⟨turns', rfl⟩ := Nat.exists_eq_add_of_le' (Nat.succ_pos turns |>.trans_le hturns)
      refine Follows.remaining.bind ?_
      rintro n _ rfl
      rw [hsuffix]
      refine Follows.ite (fun _ ↦ Follows.pure h) fun _ ↦ ?_
      rw [← hsuffix]
      exact (hitem _ d d' h).bind fun a b hab ↦ ih (Nat.le_of_succ_le_succ hturns) (i + 1) hab

theorem Compared.follows_decodeEndOfArray (hG : G json)
    (hjson : startsWith (trim json) (txt "[\"endOfArray\"") = true) {turns turns' : ℕ}
    (hturns : turns ≤ turns') (h : V d d')
    (hdecode : ∀ sub, Uses typeJson protoDefVariables json sub → ∀ p d d', V d d' →
      Follows both suffix V (decode sub p d) (decode' sub p d')) :
    Follows both suffix V (decodeEndOfArray decode turns (trim json) p d)
      (decodeEndOfArray decode' turns' (trim json) p d') := by
  unfold decodeEndOfArray
  cases htype : readJsonValueField (trim json) (txt "type") with
  | none => exact Follows.throw _
  | some sub =>
      exact follows_itemsToEnd (hV.rest hG (.inr (.inl hjson)))
        (hdecode sub (.element (by decide) hjson htype)) hturns 0 h

theorem Compared.follows_itemsToMark {itemType : Text} {endVal : ℕ}
    (hitem : ∀ p d d', V d d' → Follows both suffix V (decode itemType p d) (decode' itemType p d'))
    {turns turns' : ℕ} (hturns : turns ≤ turns') (i : ℕ) (h : V d d') :
    Follows both suffix V (itemsToMark collectFields decode itemType p endVal turns i d)
      (itemsToMark collectFields' decode' itemType p endVal turns' i d') := by
  induction turns generalizing turns' i d d' with
  | zero => exact Follows.throw _
  | succ turns ih =>
      obtain ⟨turns', rfl⟩ := Nat.exists_eq_add_of_le' (Nat.succ_pos turns |>.trans_le hturns)
      refine Follows.get.bind ?_
      rintro before _ rfl
      refine (looksNoFurther_u8 suffix).bind ?_
      rintro marker _ rfl
      refine Follows.ite (fun _ ↦ ?_) fun _ ↦ ?_
      · exact Follows.pure (hV.record_self h (.inl (.inr (unmarked_decimal endVal))))
      · refine (Follows.set before).bind fun _ _ _ ↦ ?_
        exact (hitem _ d d' h).bind fun a b hab ↦ ih (Nat.le_of_succ_le_succ hturns) (i + 1) hab

theorem Compared.follows_decodeEntityMetadataLoop
    (hjson : startsWith (trim json) (txt "[\"entityMetadataLoop\"") = true) {turns turns' : ℕ}
    (hturns : turns ≤ turns') (h : V d d')
    (hdecode : ∀ sub, Uses typeJson protoDefVariables json sub → ∀ p d d', V d d' →
      Follows both suffix V (decode sub p d) (decode' sub p d')) :
    Follows both suffix V (decodeEntityMetadataLoop collectFields decode turns (trim json) p d)
      (decodeEntityMetadataLoop collectFields' decode' turns' (trim json) p d') := by
  unfold decodeEntityMetadataLoop
  refine (Follows.lift_self fun endVal _ ↦ rfl).bind ?_
  rintro endVal _ rfl
  cases htype : readJsonValueField (trim json) (txt "type") with
  | none => exact Follows.throw _
  | some sub =>
      exact hV.follows_itemsToMark (hdecode sub (.element (by decide) hjson htype)) hturns 0 h

theorem Compared.follows_decodeEntityMetadataItem (hG : G json)
    (hjson : startsWith (trim json) (txt "[\"entityMetadataItem\"") = true) (h : V d d')
    (hdecode : ∀ sub, Uses typeJson protoDefVariables json sub → ∀ p d d', V d d' →
      Follows both suffix V (decode sub p d) (decode' sub p d')) :
    Follows both suffix V (decodeEntityMetadataItem typeJson protoDefVariables decode (trim json) p d)
      (decodeEntityMetadataItem typeJson protoDefVariables decode' (trim json) p d') := by
  unfold decodeEntityMetadataItem
  dsimp only
  rw [hV.metadata hG hjson h p]
  refine Follows.ite (fun _ ↦ Follows.throw _) fun _ ↦ ?_
  cases hswitch : typeJson (txt "entityMetadataItem") with
  | none => exact Follows.throw _
  | some switchJson =>
      dsimp only
      cases hbranch : switchBranch protoDefVariables switchJson _ with
      | none => exact Follows.throw _
      | some branch => exact hdecode branch (.metadata hjson hswitch hbranch) p d d' h

omit hV in
theorem follows_containerFieldsFrom {fields : Text}
    (hfield : ∀ start len sub, readJsonValueField (substr fields start len) (txt "type") = some sub →
      ∀ p d d', V d d' → Follows both suffix V (decode sub p d) (decode' sub p d'))
    (turns pos : ℕ) (h : V d d') :
    Follows both suffix V (containerFieldsFrom decode fields p turns pos d)
      (containerFieldsFrom decode' fields p turns pos d') := by
  induction turns generalizing pos d d' with
  | zero => exact Follows.pure h
  | succ turns ih =>
      rw [containerFieldsFrom, containerFieldsFrom]
      cases hstart : find fields 0x7b pos with
      | none => exact Follows.pure h
      | some objStart =>
          dsimp only
          cases hend : findMatching fields objStart 0x7b 0x7d with
          | none => exact Follows.throw _
          | some objEnd =>
              dsimp only
              refine Follows.bind ?_ fun a b hab ↦ ih (objEnd + 1) hab
              cases htype : readJsonValueField (substr fields objStart (objEnd - objStart + 1))
                  (txt "type") with
              | none => exact Follows.pure h
              | some sub => exact (hfield objStart _ sub htype _ d d' h).mapError

omit hV in
theorem follows_decodeContainer
    (hjson : startsWith (trim json) (txt "[\"container\"") = true) (h : V d d')
    (hdecode : ∀ sub, Uses typeJson protoDefVariables json sub → ∀ p d d', V d d' →
      Follows both suffix V (decode sub p d) (decode' sub p d')) :
    Follows both suffix V (decodeContainer decode (trim json) p d)
      (decodeContainer decode' (trim json) p d') := by
  unfold decodeContainer
  cases hfields : readSecondElement (trim json) with
  | none => exact Follows.throw _
  | some fields =>
      refine Follows.ite (fun _ ↦ Follows.throw _) fun _ ↦ ?_
      exact follows_containerFieldsFrom
        (fun start len sub htype ↦ hdecode sub (.field hjson hfields htype)) _ 0 h

/-! ## Counts -/

theorem Compared.follows_readSize (hG : G json)
    (hjson : startsWith (trim json) (txt "[\"array\"") = true ∨
      startsWith (trim json) (txt "[\"buffer\"") = true) (h : V d d') {owner : String}
    {allowRemaining lastPart : Bool} {fixedCount : Option ℕ}
    (hrest : allowRemaining = true →
      readJsonStringField (trim json) (txt "countType") = some (txt "remaining") → suffix = []) :
    Follows both suffix Eq (readSize owner allowRemaining lastPart (trim json) p d.context fixedCount)
      (readSize owner allowRemaining lastPart (trim json) p d'.context fixedCount) := by
  have hcount := looksNoFurther_nonnegative (owner ++ " negative count")
  unfold readSize
  cases fixedCount with
  | some fixedCount => exact hcount _ suffix
  | none =>
      cases href : readJsonStringField (trim json) (txt "count") with
      | some countRef =>
          dsimp only
          rw [hV.size hG hjson href h owner lastPart p]
          exact ((LooksNoFurther.lift _).bind fun raw ↦ (LooksNoFurther.lift _).bind hcount) suffix
      | none =>
          refine Follows.bind (V := Eq) ?_ fun a b hab ↦ hab ▸ hcount a suffix
          by_cases hremaining : allowRemaining = true ∧
              (readJsonStringField (trim json) (txt "countType")).getD (txt "varint") = txt "remaining"
          · have hcountType : readJsonStringField (trim json) (txt "countType") =
                some (txt "remaining") := by
              cases htype : readJsonStringField (trim json) (txt "countType") with
              | none =>
                  rw [htype] at hremaining
                  exact absurd hremaining.2 (by decide)
              | some countType =>
                  rw [htype] at hremaining
                  exact congrArg some hremaining.2
            obtain rfl := hrest hremaining.1 hcountType
            exact Follows.self _
          · exact looksNoFurther_readCount owner hremaining suffix

theorem Compared.follows_decodeArray (hG : G json)
    (hjson : startsWith (trim json) (txt "[\"array\"") = true) (h : V d d')
    (hdecode : ∀ sub, Uses typeJson protoDefVariables json sub → ∀ p p' d d',
      p = p' ∨ isScalarArrayType sub = true ∧ E p p' → V d d' →
      Follows both suffix V (decode sub p d) (decode' sub p' d')) :
    Follows both suffix V (decodeArray collectFields decode (trim json) p d)
      (decodeArray collectFields' decode' (trim json) p d') := by
  unfold decodeArray
  refine (Follows.lift_self fun fixedCount _ ↦ rfl).bind ?_
  rintro fixedCount _ rfl
  cases htype : readJsonValueField (trim json) (txt "type") with
  | none => exact Follows.throw _
  | some itemType =>
      have huses : Uses typeJson protoDefVariables json itemType :=
        .element (by decide) hjson htype
      refine Follows.offset.bind ?_
      rintro start _ rfl
      refine (hV.follows_readSize hG (.inl hjson) h (fun hfalse ↦ Bool.noConfusion hfalse)).bind ?_
      rintro count _ rfl
      refine Follows.offset.bind ?_
      rintro offset _ rfl
      refine Follows.foldlM _ (fun i _ a b hab ↦ (hdecode itemType huses _ _ a b ?_ hab).mapError)
        (hV.record_self h (.inl (.inr (unmarked_decimalInt count))))
      exact hV.element hG hjson htype p i

theorem Compared.follows_decodeBuffer (hG : G json)
    (hjson : startsWith (trim json) (txt "[\"buffer\"") = true) (h : V d d') :
    Follows both suffix V (decodeBuffer collectFields (trim json) p d)
      (decodeBuffer collectFields' (trim json) p d') := by
  unfold decodeBuffer
  refine (Follows.lift_self fun fixedCount _ ↦ rfl).bind ?_
  rintro fixedCount _ rfl
  refine Follows.offset.bind ?_
  rintro start _ rfl
  refine (hV.follows_readSize hG (.inr hjson) h fun _ hremaining ↦
    hV.rest hG (.inr (.inr ⟨hjson, hremaining⟩))).bind ?_
  rintro count _ rfl
  refine (looksNoFurther_readBytes count.toNat suffix).bind ?_
  rintro content _ rfl
  refine Follows.offset.bind ?_
  rintro offset _ rfl
  exact Follows.pure (hV.record_self h
    (.inl (.inr (unmarked_bufferText (no_bracket_decimalInt count)))))

theorem Compared.follows_decodePString (h : V d d') :
    Follows both suffix V (decodePString collectFields json p d)
      (decodePString collectFields' json p d') := by
  unfold decodePString
  refine Follows.offset.bind ?_
  rintro start _ rfl
  refine (looksNoFurther_pstringLength json suffix).bind ?_
  rintro count _ rfl
  refine (looksNoFurther_u8.many count.toNat suffix).bind ?_
  rintro value _ rfl
  refine Follows.offset.bind ?_
  rintro offset _ rfl
  have htype : (if (readJsonStringField json (txt "encoding")).getD (txt "utf8") = txt "latin1"
      then txt "pstring<latin1>" else txt "pstring") ∈ textTypes := by split <;> decide
  exact Follows.pure (hV.record_self h (.inl (.inl (.inl htype))))

omit hV in
theorem follows_decodeEncapsulated
    (hjson : startsWith (trim json) (txt "[\"encapsulated\"") = true) (h : V d d')
    (hdecode : ∀ sub, Uses typeJson protoDefVariables json sub → ∀ p d d', V d d' →
      Follows both suffix V (decode sub p d) (decode' sub p d')) :
    Follows both suffix V (decodeEncapsulated decode (trim json) p d)
      (decodeEncapsulated decode' (trim json) p d') := by
  unfold decodeEncapsulated
  cases htype : readJsonValueField (trim json) (txt "type") with
  | none => exact Follows.throw _
  | some sub =>
      refine (looksNoFurther_encapsulatedLength _ suffix).bind ?_
      rintro length _ rfl
      exact hdecode sub (.element (by decide) hjson htype) p d d' h

/-! ## Flags and bits -/

theorem Compared.follows_decodeBitflags (h : V d d') :
    Follows both suffix V (Bitflags.decodeBitflags collectFields json p d)
      (Bitflags.decodeBitflags collectFields' json p d') := by
  unfold Bitflags.decodeBitflags
  refine Follows.offset.bind ?_
  rintro start _ rfl
  have hraw := readsRaw_readRaw ((readJsonStringField json (txt "type")).getD (txt "lu32"))
  refine ((hraw.looksNoFurther suffix).and_yields hraw.unmarked).bind ?_
  rintro raw _ ⟨rfl, htext⟩
  refine Follows.offset.bind ?_
  rintro offset _ rfl
  have hflags (flags : List (Text × BitVec 128)) {a b : Decoded} (hab : V a b) :
      V (flags.foldl (Bitflags.recordFlag collectFields p raw start (offset - start)) a)
        (flags.foldl (Bitflags.recordFlag collectFields' p raw start (offset - start)) b) := by
    induction flags generalizing a b with
    | nil => exact hab
    | cons flag flags ih => exact ih (hV.record_self hab (.inl (.inr (unmarked_bool _))))
  exact Follows.pure (hflags _ (hV.record_self h (.inl (.inr htext))))

theorem Compared.follows_readPart {part : BitfieldPart} {state state' : Bitfield.BitReader × Decoded}
    (hstate : state.1 = state'.1 ∧ V state.2 state'.2) :
    Follows both suffix (fun a b ↦ a.1 = b.1 ∧ V a.2 b.2) (Bitfield.readPart collectFields p state part)
      (Bitfield.readPart collectFields' p state' part) := by
  unfold Bitfield.readPart
  refine Follows.offset.bind ?_
  rintro start _ rfl
  refine Follows.ite (fun _ ↦ Follows.throw _) fun _ ↦ ?_
  rw [hstate.1]
  refine (looksNoFurther_readBits _ _ _ _ suffix).bind ?_
  rintro ⟨value, r⟩ _ rfl
  refine Follows.offset.bind ?_
  rintro offset _ rfl
  exact Follows.pure ⟨rfl, hV.record_self hstate.2 (.inl (.inr (unmarked_decimalInt _)))⟩

theorem Compared.follows_decodeBitfield (h : V d d') :
    Follows both suffix V (Bitfield.decodeBitfield collectFields json p d)
      (Bitfield.decodeBitfield collectFields' json p d') := by
  unfold Bitfield.decodeBitfield
  refine (Follows.lift_self fun parts _ ↦ rfl).bind ?_
  rintro parts _ rfl
  have hparts : Follows both suffix (fun a b ↦ a.1 = b.1 ∧ V a.2 b.2)
      (parts.foldlM (Bitfield.readPart collectFields p) ({}, d))
      (parts.foldlM (Bitfield.readPart collectFields' p) ({}, d')) := by
    refine Follows.foldlM parts (fun part _ a b hab ↦ ?_) ⟨rfl, h⟩
    exact hV.follows_readPart hab
  refine hparts.bind ?_
  rintro ⟨r, decoded⟩ ⟨r', decoded'⟩ hab
  exact Follows.pure hab.2

theorem Compared.follows_decodeEnumSize (h : V d d') :
    Follows both suffix V (decodeEnumSize collectFields p d) (decodeEnumSize collectFields' p d') := by
  unfold decodeEnumSize
  rw [hV.valuesLen h]
  refine Follows.ite (fun _ ↦ Follows.throw _) fun _ ↦ ?_
  refine Follows.offset.bind ?_
  rintro offset _ rfl
  refine Follows.pure (hV.setContext (hV.record_self h (.inl (.inr ?_))) (.inl rfl))
  exact unmarked_enumType _

/-! ## Every type -/

theorem Compared.follows_decodeLevel (hG : G json) {turns turns' : ℕ} (hturns : turns ≤ turns')
    (hpath : p = p' ∨ isScalarArrayType json = true ∧ E p p') (h : V d d')
    (hdecode : ∀ sub, Uses typeJson protoDefVariables json sub → ∀ p p' d d',
      p = p' ∨ isScalarArrayType sub = true ∧ E p p' → V d d' →
      Follows both suffix V (decode sub p d) (decode' sub p' d')) :
    Follows both suffix V
      (decodeLevel typeJson protoDefVariables collectFields atEnd decode turns json p d)
      (decodeLevel typeJson protoDefVariables collectFields' atEnd' decode' turns' json p' d') := by
  have hsame : ∀ sub, Uses typeJson protoDefVariables json sub → ∀ p d d', V d d' →
      Follows both suffix V (decode sub p d) (decode' sub p d') :=
    fun sub hsub p d d' hd ↦ hdecode sub hsub p p d d' (.inl rfl) hd
  unfold decodeLevel
  dsimp only
  refine Follows.ite (fun hname ↦ hV.follows_decodeTypeName hG hname hpath h
    fun sub hsub p ↦ hsame sub hsub p d d' h) fun hname ↦ ?_
  -- a type that is not a name has the same path in both decoders
  obtain rfl : p = p' := by
    rcases hpath with rfl | ⟨hscalar, -⟩
    · rfl
    · rw [isScalarArrayType, decide_eq_true_eq] at hscalar
      exact absurd hscalar.1 hname
  refine .ite (fun hjson ↦ follows_decodeContainer hjson h hsame) fun _ ↦ ?_
  refine .ite (fun hjson ↦ hV.follows_decodeArray hG hjson h hdecode) fun _ ↦ ?_
  refine .ite (fun hjson ↦ hV.follows_decodeEndOfArray hG hjson hturns h hsame) fun _ ↦ ?_
  refine .ite (fun hjson ↦ hV.follows_decodeEntityMetadataLoop hjson hturns h hsame) fun _ ↦ ?_
  refine .ite (fun hjson ↦ follows_decodeCount hjson h hsame) fun _ ↦ ?_
  refine .ite (fun hjson ↦ hV.follows_decodeMapper hG hjson h) fun _ ↦ ?_
  refine .ite (fun hjson ↦ hV.follows_decodeSwitch hG hjson h hsame) fun _ ↦ ?_
  refine .ite (fun hjson ↦ hV.follows_decodeOption hG hjson h hsame) fun _ ↦ ?_
  refine .ite (fun _ ↦ hV.follows_decodePString h) fun _ ↦ ?_
  refine .ite (fun hjson ↦ hV.follows_decodeBuffer hG hjson h) fun _ ↦ ?_
  refine .ite (fun hjson ↦ follows_decodeEncapsulated hjson h hsame) fun _ ↦ ?_
  refine .ite (fun _ ↦ hV.follows_decodeBitflags h) fun _ ↦ ?_
  refine .ite (fun _ ↦ hV.follows_decodeBitfield h) fun _ ↦ ?_
  refine .ite (fun hjson ↦ hV.follows_decodeEntityMetadataItem hG hjson h hsame) fun _ ↦ ?_
  exact .ite (fun _ ↦ hV.follows_decodeEnumSize h) fun _ ↦ Follows.throw _

/-- The second decoder follows the first one at every depth, with as much fuel or more.  Each
may refuse types; one that only the second refuses does not matter where both have to come back. -/
theorem Compared.follows_decodeWithin {admits admits' R : Text → Prop} [DecidablePred admits]
    [DecidablePred admits']
    (huses : ∀ json sub, R json → Uses typeJson protoDefVariables json sub → R sub)
    (hG : ∀ json, R json → admits json → admits' json → G json)
    (hadmits : ∀ json, R json → admits json → admits' json ∨ both = true) {fuel fuel' : ℕ}
    (hfuel : fuel ≤ fuel') (hR : R json) (hpath : p = p' ∨ isScalarArrayType json = true ∧ E p p')
    (h : V d d') :
    Follows both suffix V
      (decodeWithin typeJson protoDefVariables collectFields atEnd admits fuel json p d)
      (decodeWithin typeJson protoDefVariables collectFields' atEnd' admits' fuel' json p' d') := by
  induction fuel generalizing fuel' json p p' d d' with
  | zero => exact Follows.throw _
  | succ fuel ih =>
      obtain ⟨fuel', rfl⟩ := Nat.exists_eq_add_of_le' (Nat.succ_pos fuel |>.trans_le hfuel)
      have hle : fuel ≤ fuel' := Nat.le_of_succ_le_succ hfuel
      rw [decodeWithin, decodeWithin]
      by_cases hfirst : admits json
      · rw [if_pos hfirst]
        by_cases hsecond : admits' json
        · rw [if_pos hsecond]
          exact hV.follows_decodeLevel (hG json hR hfirst hsecond) hle hpath h
            fun sub hsub p p' d d' hpath hd ↦ ih hle (huses json sub hR hsub) hpath hd
        · obtain rfl := (hadmits json hR hfirst).resolve_left hsecond
          rw [if_neg hsecond]
          exact Follows.throw_right _
      · rw [if_neg hfirst]
        exact Follows.throw _

/-- Two decoders that refuse no type. -/
theorem Compared.follows_decodeLevels {fuel fuel' : ℕ}
    (huses : ∀ json sub, G json → Uses typeJson protoDefVariables json sub → G sub)
    (hfuel : fuel ≤ fuel') (hG : G json)
    (hpath : p = p' ∨ isScalarArrayType json = true ∧ E p p') (h : V d d') :
    Follows both suffix V
      (decodeLevels typeJson protoDefVariables collectFields atEnd fuel json p d)
      (decodeLevels typeJson protoDefVariables collectFields' atEnd' fuel' json p' d') := by
  rw [← decodeWithin_true, ← decodeWithin_true]
  exact hV.follows_decodeWithin huses (fun _ h _ _ ↦ h) (fun _ _ _ ↦ .inl True.intro) hfuel hG hpath h

end

end Constructs

/-- The relation of two decoders that decode the same, of which `P` is known besides. -/
theorem Compared.of_eq {collectFields : Bool} {atEnd atEnd' : Except String Unit}
    {suffix : List UInt8} {G : Text → Prop} {P : Decoded → Prop}
    (hoptional : ∀ json, G json → ReadsOptionally json →
      (∃ e, atEnd = .error e) ∨ suffix = [] ∧ atEnd = atEnd')
    (hrest : ∀ json, G json → TakesRest json → suffix = [])
    (happend : ∀ (d : Decoded) (field : ProtoDefField), P d →
      Recorded field.type field.value ∨ atEnd = .ok () → P (d.appendField collectFields field))
    (hset : ∀ (d : Decoded) (key value : Text), P d → P (d.setContext key value)) :
    Compared collectFields collectFields atEnd atEnd' suffix G (fun _ _ ↦ False)
      (fun d d' ↦ d = d' ∧ P d) where
  optional := fun hG h ↦ hoptional _ hG h
  rest := fun hG h ↦ hrest _ hG h
  element := fun _ _ _ _ _ ↦ .inl rfl
  paths := False.elim
  appendField := by
    rintro d _ field path ⟨rfl, hd⟩ (rfl | hfalse) hfield
    · exact ⟨rfl, happend d field hd hfield⟩
    · exact hfalse.elim
  setContext := by
    rintro d _ key _ value ⟨rfl, hd⟩ (rfl | hfalse)
    · exact ⟨rfl, hset d key value hd⟩
    · exact hfalse.elim
  size := by
    rintro json countRef d _ _ _ _ ⟨rfl, -⟩ owner lastPart path
    rfl
  compared := by
    rintro json d _ _ _ ⟨rfl, -⟩ path
    rfl
  metadata := by
    rintro json d _ _ _ ⟨rfl, -⟩ path
    rfl
  valuesLen := by
    rintro d _ ⟨rfl, -⟩
    rfl

/-! ## Decoding a whole payload -/

section Payloads

variable (typeJson : Text → Option Text) (protoDefVariables : List (Text × Text))

/-- The decoder reads the payload and does not meet the end of it on the way. -/
def ReadsWithoutEnd (fuel : ℕ) (json : Text) (payload : List UInt8) (decoded : Decoded) : Prop :=
  ∃ c, decodeLevels typeJson protoDefVariables true (.error "end of input") fuel json [] {}
    (Cursor.start payload) = .ok (decoded, c)

variable {typeJson protoDefVariables} {fuel fuel' : ℕ} {json : Text} {payload : List UInt8}
  {decoded : Decoded} {c : Cursor}

/-- What a decoder with checks decodes does not depend on the fuel that is left, and is what a
decoder with fewer checks decodes. -/
theorem decodeWithin_mono {admits admits' : Text → Prop} [DecidablePred admits]
    [DecidablePred admits'] (hadmits : ∀ json, admits json → admits' json) (hfuel : fuel ≤ fuel')
    {collectFields : Bool}
    (h : decodeWithin typeJson protoDefVariables collectFields (.ok ()) admits fuel json [] {}
      (Cursor.start payload) = .ok (decoded, c)) :
    decodeWithin typeJson protoDefVariables collectFields (.ok ()) admits' fuel' json [] {}
      (Cursor.start payload) = .ok (decoded, c) := by
  have hcompared : Compared collectFields collectFields (.ok ()) (.ok ()) [] (fun _ ↦ True)
      (fun _ _ ↦ False) (fun d d' ↦ d = d' ∧ True) :=
    Compared.of_eq (fun _ _ _ ↦ .inr ⟨rfl, rfl⟩) (fun _ _ _ ↦ rfl)
      (fun _ _ _ _ ↦ True.intro) fun _ _ _ _ ↦ True.intro
  obtain ⟨_, hrun, rfl, -⟩ := (hcompared.follows_decodeWithin
    (fun _ _ (_ : True) (_ : Uses typeJson protoDefVariables _ _) ↦ True.intro) (fun _ _ _ _ ↦ True.intro)
    (fun json _ h ↦ .inl (hadmits json h)) hfuel True.intro (.inl rfl)
    ⟨rfl, True.intro⟩).same_input h
  exact hrun

/-- What is decoded does not depend on the fuel that is left. -/
theorem decode_fuel (hfuel : fuel ≤ fuel') {collectFields : Bool}
    (h : decode typeJson protoDefVariables collectFields fuel json [] {} (Cursor.start payload) =
      .ok (decoded, c)) :
    decode typeJson protoDefVariables collectFields fuel' json [] {} (Cursor.start payload) =
      .ok (decoded, c) := by
  unfold decode at h ⊢
  rw [← decodeWithin_true] at h ⊢
  exact decodeWithin_mono (fun _ ↦ id) hfuel h

/-- What is decoded without meeting the end is what the decoder decodes, and only texts of
the packet or of the schema can contain the marker. -/
theorem ReadsWithoutEnd.decode_eq (hfuel : fuel ≤ fuel')
    (h : ReadsWithoutEnd typeJson protoDefVariables fuel json payload decoded) :
    (∃ c, decode typeJson protoDefVariables true fuel' json [] {} (Cursor.start payload) =
      .ok (decoded, c)) ∧ ∀ field ∈ decoded.out, Recorded field.type field.value := by
  obtain ⟨c, hrun⟩ := h
  have hcompared : Compared true true (.error "end of input") (.ok ()) []
      (fun _ ↦ True) (fun _ _ ↦ False)
      (fun d d' ↦ d = d' ∧ ∀ field ∈ d.out, Recorded field.type field.value) := by
    refine Compared.of_eq (fun _ _ _ ↦ .inl ⟨_, rfl⟩)
      (fun _ _ _ ↦ rfl) (fun d field hd hfield ↦ ?_) fun d key value hd ↦ hd
    rintro other hother
    rcases List.mem_append.mp hother with hold | hnew
    · exact hd other hold
    · obtain rfl := List.mem_singleton.mp hnew
      exact hfield.resolve_right fun hend ↦ by cases hend
  have hstart : ∀ field ∈ ({} : Decoded).out, Recorded field.type field.value := by simp
  obtain ⟨_, hrun', rfl, hrecorded⟩ := (hcompared.follows_decodeLevels
    (fun _ _ _ (_ : Uses typeJson protoDefVariables _ _) ↦ True.intro) hfuel True.intro (.inl rfl)
    ⟨rfl, hstart⟩).same_input hrun
  exact ⟨⟨c, hrun'⟩, hrecorded⟩

/-- The types that the decoder of a type may come to. -/
def Reaches (typeJson : Text → Option Text) (protoDefVariables : List (Text × Text)) :
    Text → Text → Prop := Relation.ReflTransGen (Uses typeJson protoDefVariables)

theorem switchBranch_isInfix {switchJson key sub : Text}
    (h : switchBranch protoDefVariables switchJson key = some sub) : sub <:+: switchJson := by
  rw [switchBranch, Option.orElse_eq_orElse, Option.orElse_eq_or, Option.or_eq_some_iff] at h
  rcases h with h | ⟨-, h⟩
  · obtain ⟨fields, hfields, h⟩ := Option.bind_eq_some_iff.mp h
    refine List.IsInfix.trans ?_ (readJsonValueField_isInfix hfields)
    rw [Option.orElse_eq_orElse, Option.orElse_eq_or, Option.or_eq_some_iff] at h
    rcases h with h | ⟨-, h⟩
    · obtain ⟨entry, -, hentry⟩ := List.exists_of_findSome?_eq_some h
      split at hentry
      · exact readJsonValueField_isInfix hentry
      · cases hentry
    · obtain ⟨name, -, hname⟩ := List.exists_of_findSome?_eq_some h
      exact readJsonValueField_isInfix hname
  · exact readJsonValueField_isInfix h

/-- A type is a piece of the text that it is found in: of the type before it or of a named one. -/
theorem infix_of_uses {sub : Text} (h : Uses typeJson protoDefVariables json sub) :
    sub <:+: json ∨ ∃ name text, typeJson name = some text ∧ sub <:+: text := by
  cases h with
  | named _ hname => exact .inr ⟨_, sub, hname, List.infix_rfl⟩
  | element _ _ htype => exact .inl ((readJsonValueField_isInfix htype).trans (trim_isInfix json))
  | inner _ hinner => exact .inl ((readSecondElement_isInfix hinner).trans (trim_isInfix json))
  | field _ hfields htype =>
      exact .inl (((readJsonValueField_isInfix htype).trans (substr_isInfix _ _ _)).trans
        ((readSecondElement_isInfix hfields).trans (trim_isInfix json)))
  | branch _ hbranch => exact .inl ((switchBranch_isInfix hbranch).trans (trim_isInfix json))
  | metadata _ hname hbranch => exact .inr ⟨_, _, hname, switchBranch_isInfix hbranch⟩

/-- What holds of any two neighbours in the texts holds of them in every type that is reached. -/
theorem isChain_of_reaches {R : UInt8 → UInt8 → Prop}
    (hall : ∀ name text, typeJson name = some text → text.IsChain R) (hjson : json.IsChain R)
    {sub : Text} (h : Reaches typeJson protoDefVariables json sub) : sub.IsChain R := by
  induction h with
  | refl => exact hjson
  | tail _ huses ih =>
      rcases infix_of_uses huses with hpiece | ⟨name, text, hname, hpiece⟩
      · exact List.IsChain.infix ih hpiece
      · exact List.IsChain.infix (hall name text hname) hpiece

/-- A type that is not an array has nothing to go on with but the JSON text of its name. -/
theorem named_of_uses {sub : Text} (hhead : (trim json).head? ≠ some 0x5b)
    (h : Uses typeJson protoDefVariables json sub) : typeJson (unquote (trim json)) = some sub := by
  have hopening {opening : Text} (hbracket : opening.head? = some 0x5b)
      (hstart : startsWith (trim json) opening = true) : False := by
    obtain ⟨rest, hrest⟩ := List.isPrefixOf_iff_prefix.mp hstart
    refine hhead ?_
    rw [← hrest]
    cases opening with
    | nil => cases hbracket
    | cons c opening => exact hbracket
  cases h with
  | named _ hnamed => exact hnamed
  | element hmem hstart _ =>
      exact (hopening ((by decide : ∀ o ∈ elementOpenings, o.head? = some 0x5b) _ hmem) hstart).elim
  | inner hstart _ => exact (hopening (by decide) hstart).elim
  | field hstart _ _ => exact (hopening (by decide) hstart).elim
  | branch hstart _ => exact (hopening (by decide) hstart).elim
  | metadata hstart _ _ => exact (hopening (by decide) hstart).elim

/-- The name of a primitive type is the only type that its decoder comes to. -/
theorem eq_of_reaches_primitive {sub : Text} (hhead : (trim json).head? ≠ some 0x5b)
    (hname : typeJson (unquote (trim json)) = none) (h : Reaches typeJson protoDefVariables json sub) :
    sub = json := by
  induction h with
  | refl => rfl
  | tail _ huses ih =>
      subst ih
      rw [named_of_uses hhead huses] at hname
      cases hname

/-- The decoder reads the payload and comes to no type that it can do without a byte for. -/
def ReadsMandatory (typeJson : Text → Option Text) (protoDefVariables : List (Text × Text))
    (json : Text) (payload : List UInt8) : Prop :=
  ∃ fuel result, decodeWithin typeJson protoDefVariables true (.ok ()) (fun sub ↦ ¬ReadsOptionally sub)
    fuel json [] {} (Cursor.start payload) = .ok result

/-- A schema without an optional byte is read so. -/
theorem readsMandatory_of_decode
    (h : decode typeJson protoDefVariables true fuel json [] {} (Cursor.start payload) =
      .ok (decoded, c))
    (hmandatory : ∀ sub, Reaches typeJson protoDefVariables json sub → ¬ReadsOptionally sub) :
    ReadsMandatory typeJson protoDefVariables json payload := by
  have hcompared : Compared true true (.ok ()) (.ok ()) [] (fun _ ↦ True) (fun _ _ ↦ False)
      (fun d d' ↦ d = d' ∧ True) :=
    Compared.of_eq (fun _ _ _ ↦ .inr ⟨rfl, rfl⟩) (fun _ _ _ ↦ rfl)
      (fun _ _ _ _ ↦ True.intro) fun _ _ _ _ ↦ True.intro
  unfold decode at h
  rw [← decodeWithin_true] at h
  obtain ⟨_, hrun, rfl, -⟩ := (hcompared.follows_decodeWithin
    (fun json sub (hR : Reaches typeJson protoDefVariables _ json) hsub ↦ hR.tail hsub)
    (fun _ _ _ _ ↦ True.intro) (fun sub hR _ ↦ .inl (hmandatory sub hR)) le_rfl .refl (.inl rfl)
    ⟨rfl, True.intro⟩).same_input h
  exact ⟨fuel, _, hrun⟩

/-- A decoder that needs every byte it comes to decodes a payload as the front is decoded, where
both are, and leaves what is behind the front: nothing is different until the front ends, and
there it needs a byte. -/
theorem ReadsMandatory.of_front {front suffix : List UInt8}
    (h : ReadsMandatory typeJson protoDefVariables json (front ++ suffix))
    (hrest : ∀ sub, Reaches typeJson protoDefVariables json sub → ¬TakesRest sub)
    (hfront : decode typeJson protoDefVariables true fuel json [] {} (Cursor.start front) =
      .ok (decoded, c)) :
    ∃ fuel', decode typeJson protoDefVariables true fuel' json [] {}
      (Cursor.start (front ++ suffix)) = .ok (decoded, ⟨c.offset, c.rest ++ suffix⟩) := by
  obtain ⟨mandatoryFuel, result, hmandatory⟩ := h
  have hcompared : Compared true true (.ok ()) (.ok ()) suffix
      (fun sub ↦ Reaches typeJson protoDefVariables json sub ∧ ¬ReadsOptionally sub) (fun _ _ ↦ False)
      (fun d d' ↦ d = d' ∧ True) :=
    Compared.of_eq (fun _ hG hoptional ↦ absurd hoptional hG.2)
      (fun sub hG htakes ↦ absurd htakes (hrest sub hG.1)) (fun _ _ _ _ ↦ True.intro)
      fun _ _ _ _ ↦ True.intro
  unfold decode at hfront
  rw [← decodeWithin_true] at hfront
  obtain ⟨_, hrun, rfl, -⟩ := hcompared.follows_decodeWithin
    (fun json sub (hR : Reaches typeJson protoDefVariables _ json) hsub ↦ hR.tail hsub)
    (fun _ hR _ hsecond ↦ ⟨hR, hsecond⟩) (fun _ _ _ ↦ .inr rfl) (le_max_left fuel mandatoryFuel) .refl
    (.inl rfl) ⟨rfl, True.intro⟩ _ _ _ hfront
    fun _ ↦ ⟨result, decodeWithin_mono (fun _ ↦ id) (le_max_right fuel mandatoryFuel) hmandatory⟩
  refine ⟨max fuel mandatoryFuel, ?_⟩
  unfold decode
  rw [← decodeWithin_true]
  exact decodeWithin_mono (fun _ _ ↦ True.intro) le_rfl hrun

end Payloads

end ProtoDefDecoder

end BedrockProtocol
