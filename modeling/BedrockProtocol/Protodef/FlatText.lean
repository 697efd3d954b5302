import BedrockProtocol.Protodef.CompactTypes
import BedrockProtocol.Protodef.FlatSchema
import BedrockProtocol.Protodef.SchemaDecoding

/-!
# What is found in the text of a type

Encoder and decoder find the same parts in every text that spells a type without switches: the
type of the elements, the objects of the fields, and the numbers that stand for names.
-/

namespace BedrockProtocol

open SchemaText JsonPieces

open ProtoDefEncoder (quoted)

/-! ## Objects -/

namespace ObjectSpelling

variable {object : ObjectSpelling}

theorem Spelled.isObject (h : object.Spelled) : object.element.IsObject where
  blank := by
    intro t ht
    exact h.blank t (List.mem_cons_of_mem _ ht)
  value := ⟨_, piece_inside (h.blank _ (by simp)) h.members, rfl⟩

theorem Spelled.readJsonValueField_value (h : object.Spelled) (key : Text) :
    readJsonValueField object.value key = valueOf object.members key := by
  have htrim : trim object.value = [] ++ (spelledObject object.blank object.members ++ []) := by
    rw [List.nil_append, List.append_nil]
    exact JsonPieces.trim_eq 0x7b 0x7d _ (by decide) (by decide)
  exact readJsonValueField_object (h.blank _ (by simp)) h.members List.not_mem_nil htrim key

end ObjectSpelling

/-- The text of a type about an object. -/
theorem IsAbout.readJsonValueField_text {kind : String} {text : Text} {object : ObjectSpelling}
    (h : IsAbout kind text object) (hkind : (txt kind).all isKeyByte = true) (key : Text) :
    readJsonValueField text key = valueOf object.members key := by
  obtain ⟨hobject, gap, hgap, rfl⟩ := h
  exact readJsonValueField_pairText hkind hgap (hobject.blank _ (by simp [ObjectSpelling.element]))
    (hobject.blank _ (by simp)) hobject.members (trim_pairText _ _ _) key

theorem startsWith_of_eq_pairText {text kind gap body : Text} (h : text = pairText kind gap body) :
    startsWith text (0x5b :: quoted kind) = true := by
  rw [h]
  exact startsWith_pairText kind gap body

theorem IsAbout.startsWith_text {kind : String} {text : Text} {object : ObjectSpelling}
    (h : IsAbout kind text object) : startsWith text (0x5b :: quoted (txt kind)) = true := by
  obtain ⟨-, gap, -, hpair⟩ := h
  exact startsWith_of_eq_pairText hpair

theorem IsAbout.typeText {kind : String} {text : Text} {object : ObjectSpelling}
    (h : IsAbout kind text object) (hkind : isBody (txt kind) = true) : TypeText text := by
  obtain ⟨hobject, gap, hgap, rfl⟩ := h
  exact typeText_pairText hkind hgap hobject.isObject.piece

theorem CountedByVarint.described {members : List Member} (h : CountedByVarint members) {text : Text}
    (hfield : ∀ key, readJsonValueField text key = valueOf members key) :
    (WireSize.counted ⟨txt "varint", by decide⟩).Described text := by
  obtain ⟨hcount, htype⟩ := h
  have hnone : readJsonValueField text (txt "count") = none := (hfield _).trans hcount
  refine ⟨?_, readJsonStringField_none hnone, ?_⟩
  · rw [readJsonIntegerField, hnone]
  · rcases List.mem_pair.mp htype with htype | htype
    · rw [readJsonStringField_none ((hfield _).trans htype)]
      rfl
    · rw [readJsonStringField_eq ((hfield _).trans htype)]
      rfl

/-! ## Mappers -/

theorem not_mem_decimalInt {c : UInt8} (hc : isDigit c = false) (hminus : c ≠ 0x2d) (z : ℤ) :
    c ∉ decimalInt z := by
  have hdigits : c ∉ decimal z.natAbs := by
    intro hmem
    rw [isDigit_of_mem_decimal hmem] at hc
    cases hc
  rw [decimalInt]
  split
  · rw [List.mem_cons, not_or]
    exact ⟨hminus, hdigits⟩
  · exact hdigits

/-- A minus sign turns the word around. -/
theorem stoullText_decimalInt {z : ℤ} (hlow : -2 ^ 64 < z) (hhigh : z < 2 ^ 64) :
    ProtoDefDecoder.stoullText (decimalInt z) = .ok (toUnsigned 64 z) := by
  by_cases hneg : z < 0
  · have hvalid : ¬(decimal z.natAbs = [] ∨ 2 ^ 64 ≤ decimalValue (decimal z.natAbs)) := by
      rw [decimalValue_decimal]
      exact not_or.mpr ⟨decimal_ne_nil _, by omega⟩
    have hdigits : (decimal z.natAbs).takeWhile isDigit = decimal z.natAbs :=
      List.takeWhile_eq_self_iff.mpr fun d hd ↦ isDigit_of_mem_decimal hd
    have hskip : (0x2d :: decimal z.natAbs).dropWhile isSpace = 0x2d :: decimal z.natAbs :=
      List.dropWhile_cons_of_neg (by decide)
    have htail : (if (0x2d :: decimal z.natAbs).head? = some 0x2d ∨
        (0x2d :: decimal z.natAbs).head? = some 0x2b then (0x2d :: decimal z.natAbs).tail
        else 0x2d :: decimal z.natAbs) = decimal z.natAbs := if_pos (.inl rfl)
    have habs : -(z.natAbs : ℤ) = z := by omega
    rw [decimalInt, if_pos hneg, ProtoDefDecoder.stoullText, hskip, htail, hdigits, if_neg hvalid,
      List.head?_cons, if_pos rfl, decimalValue_decimal, habs]
  · obtain ⟨n, rfl⟩ := Int.eq_ofNat_of_zero_le (Int.not_lt.mp hneg)
    have hword := toUnsigned_of_nonneg (w := 64) (Int.not_lt.mp hneg) hhigh
    rw [decimalInt_natCast, CompactJson.stoullText_decimal (by omega)]
    exact congrArg Except.ok (by omega)

theorem holds_bounds {type : IntegerType} (hwidth : type.width ≤ 64) {z : ℤ} (h : type.Holds z) :
    -2 ^ 64 < z ∧ z < 2 ^ 64 := by
  have hpow : (2 : ℤ) ^ type.width ≤ 2 ^ 64 := pow_le_pow_right₀ (by decide) hwidth
  have hhalf : (2 : ℤ) ^ (type.width - 1) ≤ 2 ^ 63 := pow_le_pow_right₀ (by decide) (by omega)
  rw [IntegerType.Holds] at h
  split at h
  · obtain ⟨hlow, hhigh⟩ := h
    constructor <;> omega
  · obtain ⟨hlow, hhigh⟩ := h
    constructor <;> omega

namespace NumberNames

variable {names : NumberNames}

theorem base_cases (names : NumberNames) :
    (names.baseType = txt "li8" ∧ names.type = ⟨8, true, leBytes 1⟩) ∨
      (names.baseType ∈ mapperTypes ∧ integerType names.baseType = some names.type) := by
  have hbase := names.base
  rw [mapperBase] at hbase
  split at hbase
  · rename_i hname
    exact .inl ⟨hname, (Option.some.inj hbase).symm⟩
  · split at hbase
    · rename_i hmem
      exact .inr ⟨hmem, hbase⟩
    · cases hbase

theorem width_le (names : NumberNames) : names.type.width ≤ 64 := by
  have hall : ∀ entry ∈ integerTypes, entry.2.width ≤ 64 := by decide
  rcases names.base_cases with ⟨-, htype⟩ | ⟨-, htype⟩
  · rw [htype]
    decide
  · exact hall _ (mem_of_lookup htype)

theorem baseType_plain (names : NumberNames) :
    isBody names.baseType = true ∧ (0x22 : UInt8) ∉ names.baseType ∧
      names.baseType ≠ txt "mappings" := by
  have hall : ∀ name ∈ mapperTypes, isBody name = true ∧ (0x22 : UInt8) ∉ name ∧
      name ≠ txt "mappings" := by decide
  rcases names.base_cases with ⟨hname, -⟩ | ⟨hmem, -⟩
  · rw [hname]
    decide
  · exact hall _ hmem

theorem exists_isNamed {members : List Member} (h : ∀ m ∈ members, m.Spelled)
    {mappings : List (ℤ × Text)}
    (hbody : ∀ entry ∈ mappings, isBody entry.2 = true ∧ (0x22 : UInt8) ∉ entry.2)
    (hsame : members.map (fun m ↦ (m.key, m.value)) =
      mappings.map fun entry ↦ (decimalInt entry.1, quoted entry.2)) :
    ∀ m ∈ members, ∃ name, m.IsNamed name := by
  intro m hm
  have hentry : (m.key, m.value) ∈ mappings.map fun entry ↦ (decimalInt entry.1, quoted entry.2) := by
    rw [← hsame]
    exact List.mem_map_of_mem hm
  obtain ⟨entry, hmem, heq⟩ := List.mem_map.mp hentry
  obtain ⟨hkey, hvalue⟩ := Prod.mk.inj heq
  refine ⟨entry.2, h m hm, hvalue.symm, ?_, (hbody entry hmem).2⟩
  rw [← hkey]
  exact not_mem_decimalInt (by decide) (by decide) entry.1

theorem firstNumber_eq {members : List Member} {mappings : List (ℤ × Text)}
    (hrange : ∀ entry ∈ mappings, -2 ^ 64 < entry.1 ∧ entry.1 < 2 ^ 64)
    (hsame : members.map (fun m ↦ (m.key, m.value)) =
      mappings.map fun entry ↦ (decimalInt entry.1, quoted entry.2)) (name : Text) :
    firstNumber members name = .ok ((numberNamed mappings name).map (toUnsigned 64)) := by
  induction mappings generalizing members with
  | nil =>
      obtain rfl := List.map_eq_nil_iff.mp hsame
      rfl
  | cons entry mappings ih =>
      obtain ⟨m, members, rfl, hfirst, hrest⟩ := List.map_eq_cons_iff.mp hsame
      obtain ⟨hkey, hvalue⟩ := Prod.mk.inj hfirst
      have hmore := ih (fun e he ↦ hrange e (List.mem_cons_of_mem entry he)) hrest
      obtain ⟨hlow, hhigh⟩ := hrange entry List.mem_cons_self
      rw [firstNumber_cons hvalue, hkey, hmore, stoullText_decimalInt hlow hhigh, numberNamed, numberNamed,
        List.find?_cons]
      by_cases hname : entry.2 = name
      · rw [if_pos hname, decide_eq_true hname]
        rfl
      · rw [if_neg hname, decide_eq_false hname]

theorem valueOf_eq {members : List Member} {mappings : List (ℤ × Text)}
    (hsame : members.map (fun m ↦ (m.key, m.value)) =
      mappings.map fun entry ↦ (decimalInt entry.1, quoted entry.2)) (z : ℤ) :
    valueOf members (decimalInt z) = (nameGiven mappings z).map quoted := by
  induction mappings generalizing members with
  | nil =>
      obtain rfl := List.map_eq_nil_iff.mp hsame
      rfl
  | cons entry mappings ih =>
      obtain ⟨m, members, rfl, hfirst, hrest⟩ := List.map_eq_cons_iff.mp hsame
      obtain ⟨hkey, hvalue⟩ := Prod.mk.inj hfirst
      rw [valueOf_cons, hkey, hvalue, ih hrest, nameGiven, nameGiven, List.find?_cons]
      by_cases hz : entry.1 = z
      · rw [if_pos (congrArg decimalInt hz), decide_eq_true hz]
        rfl
      · rw [if_neg fun heq ↦ hz (decimalInt_injective heq), decide_eq_false hz]

/-- What encoder and decoder find in the text of a mapper. -/
structure Found (names : NumberNames) (text : Text) : Prop where
  baseType : readJsonStringField text (txt "type") = some names.baseType
  number (name : Text) : ProtoDefEncoder.findMapperNumericByName text name =
    .ok ((numberNamed names.mappings name).map (toUnsigned 64))
  name (z : ℤ) : ProtoDefDecoder.mappedName text (decimalInt z) = nameGiven names.mappings z

/-- The encoder searches the text for the key of the mappings; the type does not have it in quotes. -/
theorem objectBehind_mappings {text : Text} {object mappings : ObjectSpelling}
    {typeMember mappingsMember : Member} (habout : IsAbout "mapper" text object)
    (horder : object.members = [typeMember, mappingsMember] ∨
      object.members = [mappingsMember, typeMember])
    (htypeKey : typeMember.key = txt "type") (htypeValue : typeMember.value = quoted names.baseType)
    (hkey : mappingsMember.key = txt "mappings") (hvalue : mappingsMember.value = mappings.value)
    (hmappings : mappings.Spelled) :
    ProtoDefEncoder.objectBehind text (txt "mappings") = some mappings.value := by
  obtain ⟨hobject, gap, hgap, rfl⟩ := habout
  have hsearched : Searched (txt "mappings") := ⟨by decide, _, _, rfl, by decide⟩
  obtain ⟨-, hbaseQuote, hbaseNe⟩ := names.baseType_plain
  have hblank : isBlank mappings.blank = true := hmappings.blank _ (by simp)
  have hfind (earlier later : List Member) (hmembers : object.members = earlier ++ mappingsMember :: later)
      (hlacks : ∀ e ∈ earlier, Lacks (txt "mappings") e.text) :
      ProtoDefEncoder.objectBehind (pairText (txt "mapper") gap object.element.text)
        (txt "mappings") = some mappings.value := by
    have hspelled : mappingsMember.Spelled := by
      refine hobject.members _ ?_
      rw [hmembers]
      exact List.mem_append_right _ List.mem_cons_self
    rw [Element.text, ObjectSpelling.element, ObjectSpelling.value, hmembers]
    exact objectBehind_pairText hsearched (by decide) (by decide) hgap (hobject.blank _ (by simp))
      (hobject.blank _ (by simp)) hlacks hspelled hkey (piece_inside hblank hmappings.members) hvalue later
      object.rear
  rcases horder with horder | horder
  · refine hfind [typeMember] [] horder fun e he ↦ ?_
    obtain rfl := List.mem_singleton.mp he
    have hspelled := hobject.members e (by rw [horder]; exact List.mem_cons_self)
    have hcolon : Lacks (txt "mappings") [0x3a] := .mark rfl (by decide)
    rw [Member.text, htypeKey, htypeValue]
    exact (Lacks.blank hspelled.lead).append ((Lacks.string hsearched (by decide) (by decide)).append
      ((Lacks.blank hspelled.before).append (hcolon.append ((Lacks.blank hspelled.after).append
        ((Lacks.string hsearched hbaseQuote hbaseNe).append (.blank hspelled.rear))))))
  · exact hfind [] [typeMember] horder fun e he ↦ absurd he List.not_mem_nil

theorem found {text : Text} {object : ObjectSpelling} (habout : IsAbout "mapper" text object)
    (h : names.Spells object.members) : names.Found text := by
  obtain ⟨typeMember, mappingsMember, mappings, horder, htypeKey, htypeValue, hkey, hvalue, hmappings,
    hsame⟩ := h.exists_members
  have hfield := habout.readJsonValueField_text (by decide)
  have htypeOf : valueOf object.members (txt "type") = some (quoted names.baseType) := by
    rcases horder with horder | horder
    · rw [horder, valueOf_cons, if_pos htypeKey, htypeValue]
    · rw [horder, valueOf_cons, hkey, if_neg (by decide), valueOf_cons, if_pos htypeKey, htypeValue]
  have hmappingsOf : valueOf object.members (txt "mappings") = some mappings.value := by
    rcases horder with horder | horder
    · rw [horder, valueOf_cons, htypeKey, if_neg (by decide), valueOf_cons, if_pos hkey, hvalue]
    · rw [horder, valueOf_cons, if_pos hkey, hvalue]
  have hbehind := objectBehind_mappings habout horder htypeKey htypeValue hkey hvalue hmappings
  refine ⟨readJsonStringField_eq ((hfield _).trans htypeOf), fun name ↦ ?_, fun z ↦ ?_⟩
  · have hrange : ∀ entry ∈ names.mappings, -2 ^ 64 < entry.1 ∧ entry.1 < 2 ^ 64 :=
      fun entry hentry ↦ holds_bounds names.width_le (names.holds entry hentry)
    have hnamed := exists_isNamed hmappings.members names.body hsame
    have hcount := length_le_length_inside mappings.blank mappings.members
    rw [ProtoDefEncoder.findMapperNumericByName, hbehind]
    dsimp only
    refine (mapperNumericFrom_object (hmappings.blank _ (by simp)) hnamed name _ ?_).trans
      (firstNumber_eq hrange hsame name)
    rw [ObjectSpelling.value, spelledObject, length_bracketed 0x7b 0x7d]
    omega
  · have hname := (hmappings.readJsonValueField_value (decimalInt z)).trans (valueOf_eq hsame z)
    rw [ProtoDefDecoder.mappedName, hfield, hmappingsOf]
    dsimp only [Option.bind_eq_bind, Option.bind_some]
    cases hname' : nameGiven names.mappings z with
    | none =>
        rw [hname'] at hname
        exact readJsonStringField_none hname
    | some name =>
        rw [hname'] at hname
        exact readJsonStringField_eq hname

end NumberNames

/-! ## Containers -/

theorem FlatFields.Spells.isObject : ∀ {fields : FlatFields} {objects : List ObjectSpelling},
    fields.Spells objects → ∀ e ∈ objects.map ObjectSpelling.element, e.IsObject
  | .nil, objects, h => by
      obtain rfl : objects = [] := h
      exact fun e he ↦ absurd he List.not_mem_nil
  | .field name schema rest, objects, h => by
      obtain ⟨object, others, type, rfl, hobject, -, -, -, -, hrest⟩ := h
      rw [List.map_cons]
      exact List.forall_mem_cons.mpr ⟨hobject.isObject, hrest.isObject⟩

/-! ## The texts of types -/

theorem isWhole_of_isAbout {kind : String} {text : Text} {object : ObjectSpelling}
    (h : IsAbout kind text object) : isWhole text = true := by
  obtain ⟨-, gap, -, rfl⟩ := h
  rfl

theorem isBody_of_mem : ∀ name ∈ flatTypes, isBody name = true ∧ (0x22 : UInt8) ∉ name := by decide

/-- A text that spells a type is a name in which no quote is escaped, or an array. -/
theorem FlatSchema.Spells.typeText : ∀ {schema : FlatSchema} {text : Text}, schema.Spells text →
    TypeText text ∧ isWhole text = true
  | .scalar typeName, text, h => by
      obtain rfl : text = quoted typeName.1 := h
      obtain ⟨hbody, hquote⟩ := isBody_of_mem typeName.1 typeName.2
      refine ⟨.string hbody, ?_⟩
      have hinner : ((quoted typeName.1).drop 1).dropLast = typeName.1 := List.dropLast_concat
      rw [isWhole, hinner, decide_eq_true hquote, Bool.or_true]
  | .uuid, text, h => by
      obtain rfl : text = quoted (txt "uuid") := h
      exact ⟨.string (by decide), by decide⟩
  | .mapper names, text, h => by
      obtain ⟨object, habout, -⟩ := h
      exact ⟨habout.typeText (by decide), isWhole_of_isAbout habout⟩
  | .option inner, text, h => by
      obtain ⟨gap, lead, innerType, rear, hblank, rfl, hinner⟩ := h
      have hpiece : Piece (lead ++ (innerType ++ rear)) :=
        (piece_blank (hblank _ (by simp))).append (hinner.typeText.1.piece.append
          (piece_blank (hblank _ (by simp))))
      exact ⟨typeText_pairText (by decide) (hblank _ (by simp)) hpiece, rfl⟩
  | .array item, text, h => by
      obtain ⟨object, itemType, habout, -⟩ := h
      exact ⟨habout.typeText (by decide), isWhole_of_isAbout habout⟩
  | .buffer, text, h => by
      obtain ⟨object, habout, -⟩ := h
      exact ⟨habout.typeText (by decide), isWhole_of_isAbout habout⟩
  | .pstring, text, h => by
      obtain ⟨object, habout, -⟩ := h
      exact ⟨habout.typeText (by decide), isWhole_of_isAbout habout⟩
  | .container fields, text, h => by
      obtain ⟨gap, lead, blank, objects, rear, hblank, rfl, hfields⟩ := h
      have hpiece : Piece (lead ++ (listText blank (objects.map ObjectSpelling.element) ++ rear)) :=
        (piece_blank (hblank _ (by simp))).append ((Piece.array (piece_listed (hblank _ (by simp))
          hfields.isObject)).append (piece_blank (hblank _ (by simp))))
      exact ⟨typeText_pairText (by decide) (hblank _ (by simp)) hpiece, rfl⟩

/-! ## A spelling of each type -/

theorem isBody_decimalInt (z : ℤ) : isBody (decimalInt z) = true := by
  refine isBody_of_all ?_
  rw [decimalInt]
  split
  · rw [List.all_cons, CompactJson.all_isKeyByte_decimal]
    rfl
  · exact CompactJson.all_isKeyByte_decimal _

section Rendering

variable {gap : Text}

theorem countedByVarint_spaced (members : List Member) (hcount : valueOf members (txt "count") = none) :
    CountedByVarint (spaced gap (txt "countType") (quoted (txt "varint")) :: members) := by
  have hne : txt "countType" ≠ txt "count" := by decide
  constructor
  · rw [valueOf_cons, spaced, if_neg hne, hcount]
  · rw [valueOf_cons, spaced, if_pos rfl]
    exact .tail _ (.head _)

variable (hgap : isBlank gap = true)
include hgap

theorem spelled_spaced {key value : Text} (hkey : isBody key = true) (hvalue : ValueText value) :
    (spaced gap key value).Spelled where
  key := hkey
  value := hvalue
  blank := by
    simp only [spaced, List.mem_cons, List.not_mem_nil, or_false]
    rintro t (rfl | rfl | rfl | rfl)
    exacts [hgap, rfl, hgap, rfl]

theorem spelled_object {members : List Member} (h : ∀ m ∈ members, m.Spelled) :
    ObjectSpelling.Spelled { members, lead := gap } where
  members := h
  blank := by
    simp only [List.mem_cons, List.not_mem_nil, or_false]
    rintro t (rfl | rfl | rfl)
    exacts [rfl, hgap, rfl]

theorem isAbout_aboutText (kind : String) {members : List Member} (h : ∀ m ∈ members, m.Spelled) :
    IsAbout kind (aboutText kind { members, lead := gap }) { members, lead := gap } :=
  ⟨spelled_object hgap h, [], rfl, rfl⟩

theorem NumberNames.spelled_mappingsObject (names : NumberNames) :
    (names.mappingsObject gap).Spelled where
  members := by
    intro m hm
    obtain ⟨entry, hentry, rfl⟩ := List.mem_map.mp hm
    exact spelled_spaced hgap (isBody_decimalInt entry.1) (.type (.string (names.body entry hentry).1))
  blank := by
    simp only [NumberNames.mappingsObject, List.mem_cons, List.not_mem_nil, or_false]
    rintro t (rfl | rfl | rfl) <;> rfl

theorem spelled_countType :
    (spaced gap (txt "countType") (quoted (txt "varint"))).Spelled :=
  spelled_spaced hgap (by decide) (.type (.string (by decide)))

mutual

/-- Every type has a spelling with these blanks. -/
theorem FlatSchema.text_spells : ∀ schema : FlatSchema, schema.Spells (schema.text gap)
  | .scalar typeName => rfl
  | .uuid => rfl
  | .mapper names => by
      have hmappings := names.spelled_mappingsObject hgap
      refine ⟨_, isAbout_aboutText hgap "mapper" ?_, ⟨_, _, _, .inl rfl, rfl, rfl, rfl, rfl, hmappings, ?_⟩⟩
      · refine List.forall_mem_cons.mpr ⟨?_, List.forall_mem_singleton.mpr ?_⟩
        · exact spelled_spaced hgap (by decide) (.type (.string names.baseType_plain.1))
        · exact spelled_spaced hgap (by decide) (.type (.object (piece_inside rfl hmappings.members)))
      · rw [NumberNames.mappingsObject, List.map_map]
        rfl
  | .option inner => by
      refine ⟨[], gap, inner.text gap, [], ?_, rfl, inner.text_spells⟩
      simp only [List.mem_cons, List.not_mem_nil, or_false]
      rintro t (rfl | rfl | rfl)
      exacts [rfl, hgap, rfl]
  | .array item => by
      have hitem := item.text_spells
      refine ⟨_, item.text gap, isAbout_aboutText hgap "array" ?_, countedByVarint_spaced _ rfl, rfl,
        hitem⟩
      exact List.forall_mem_cons.mpr ⟨spelled_countType hgap,
        List.forall_mem_singleton.mpr (spelled_spaced hgap (by decide) (.type hitem.typeText.1))⟩
  | .buffer =>
      ⟨_, isAbout_aboutText hgap "buffer" (List.forall_mem_singleton.mpr (spelled_countType hgap)),
        countedByVarint_spaced [] rfl⟩
  | .pstring =>
      ⟨_, isAbout_aboutText hgap "pstring" (List.forall_mem_singleton.mpr (spelled_countType hgap)),
        countedByVarint_spaced [] rfl⟩
  | .container fields => by
      refine ⟨[], gap, [], fields.objects gap, [], ?_, rfl, fields.objects_spells⟩
      simp only [List.mem_cons, List.not_mem_nil, or_false]
      rintro t (rfl | rfl | rfl | rfl)
      exacts [rfl, hgap, rfl, rfl]

theorem FlatFields.objects_spells : ∀ fields : FlatFields, fields.Spells (fields.objects gap)
  | .nil => rfl
  | .field name schema rest => by
      have hschema := schema.text_spells
      refine ⟨_, _, schema.text gap, rfl, spelled_object hgap ?_, rfl, .head _, rfl, hschema,
        rest.objects_spells⟩
      exact List.forall_mem_cons.mpr ⟨spelled_spaced hgap (by decide) (.type (.string name.2)),
        List.forall_mem_singleton.mpr (spelled_spaced hgap (by decide) (.type hschema.typeText.1))⟩

end

end Rendering

end BedrockProtocol
