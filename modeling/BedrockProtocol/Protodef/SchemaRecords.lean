import BedrockProtocol.Protodef.ScalarCodec
import BedrockProtocol.Protodef.SchemaDescription

/-!
# What the decoder has recorded

The fields that were appended and the context after them.  A field writes under its path and under
the last part of it, so what is known under a name stays until a field with that name comes.
-/

namespace BedrockProtocol

open SchemaText

/-! ## Records and the context -/

def ProtoDefField.Matches (field : ProtoDefField) (record : Recorded) : Prop :=
  field.path = record.path ∧ field.value = record.value ∧
    field.structuredValue = record.structuredValue

/-- The context after the records. -/
def learn (records : List Recorded) (context : ProtoDefContext) : ProtoDefContext :=
  records.foldl (fun context record ↦ context.set record.path record.known) context

/-- What was decoded since, and nothing else. -/
structure Grows (records : List Recorded) (decoded decoded' : Decoded) : Prop where
  fields : ∃ fields, decoded'.out = decoded.out ++ fields ∧
    List.Forall₂ ProtoDefField.Matches fields records
  context : decoded'.context = learn records decoded.context

namespace Grows

variable {records more : List Recorded} {decoded decoded' decoded'' : Decoded}

theorem refl (decoded : Decoded) : Grows [] decoded decoded :=
  ⟨⟨[], (List.append_nil _).symm, .nil⟩, rfl⟩

theorem trans (h : Grows records decoded decoded') (h' : Grows more decoded' decoded'') :
    Grows (records ++ more) decoded decoded'' := by
  obtain ⟨fields, hout, hfields⟩ := h.fields
  obtain ⟨fields', hout', hfields'⟩ := h'.fields
  refine ⟨⟨fields ++ fields', ?_, List.rel_append hfields hfields'⟩, ?_⟩
  · rw [hout', hout, List.append_assoc]
  · rw [h'.context, h.context, learn, learn, learn, List.foldl_append]

theorem record {field : ProtoDefField} {record : Recorded} (hfield : field.Matches record)
    (hknown : record.known = record.value) (decoded : Decoded) :
    Grows [record] decoded (decoded.record true field) := by
  refine ⟨⟨[field], rfl, .cons hfield .nil⟩, ?_⟩
  change decoded.context.set field.path field.value = decoded.context.set record.path record.known
  rw [hfield.1, hfield.2.1, hknown]

end Grows

/-- The decoder consumes exactly the bytes and records exactly the records. -/
def DecodesRecords (run : Decoded → Reader Decoded) (bytes : List UInt8)
    (records : List Recorded) (decoded : Decoded) : Prop :=
  ∀ offset suffix, ∃ decoded', run decoded ⟨offset, bytes ++ suffix⟩ =
    .ok (decoded', ⟨offset + bytes.length, suffix⟩) ∧ Grows records decoded decoded'

namespace DecodesRecords

variable {run run' : Decoded → Reader Decoded} {bytes more : List UInt8}
  {records others : List Recorded} {decoded : Decoded}

theorem bind (h : DecodesRecords run bytes records decoded)
    (h' : ∀ decoded', Grows records decoded decoded' →
      DecodesRecords run' more others decoded') :
    DecodesRecords (fun decoded ↦ run decoded >>= run') (bytes ++ more) (records ++ others)
      decoded := by
  intro offset suffix
  obtain ⟨decoded', hrun, hgrows⟩ := h offset (more ++ suffix)
  obtain ⟨decoded'', hrun', hgrows'⟩ := h' decoded' hgrows (offset + bytes.length) suffix
  refine ⟨decoded'', ?_, hgrows.trans hgrows'⟩
  dsimp only
  rw [List.append_assoc, Reader.bind_run hrun, hrun', List.length_append, Nat.add_assoc]

theorem congr (hrun : run decoded = run' decoded) (h : DecodesRecords run' bytes records decoded) :
    DecodesRecords run bytes records decoded := by
  intro offset suffix
  rw [hrun]
  exact h offset suffix

theorem mapError {f : String → String} (h : DecodesRecords run bytes records decoded) :
    DecodesRecords (fun decoded ↦ Reader.mapError f (run decoded)) bytes records decoded := by
  intro offset suffix
  obtain ⟨decoded', hrun, hgrows⟩ := h offset suffix
  exact ⟨decoded', Reader.mapError_eq_ok.mpr hrun, hgrows⟩

theorem pure (decoded : Decoded) : DecodesRecords Pure.pure [] [] decoded :=
  fun _ _ ↦ ⟨decoded, rfl, Grows.refl decoded⟩

end DecodesRecords

/-! ## Paths -/

/-- What follows the last dot of a path. -/
def lastPart (path : Text) : Text := path.rtakeWhile (· ≠ 0x2e)

theorem lastPart_append_dot (path : Text) {part : Text} (hpart : (0x2e : UInt8) ∉ part) :
    lastPart (path ++ (0x2e :: part)) = part := by
  have hreverse : ∀ c ∈ part.reverse, (decide (c ≠ 0x2e)) = true := fun c hc ↦
    decide_eq_true fun h ↦ hpart (h ▸ List.mem_reverse.mp hc)
  rw [lastPart, List.rtakeWhile, List.reverse_append, List.reverse_cons, List.append_assoc,
    List.takeWhile_append_of_pos hreverse]
  rw [List.singleton_append, List.takeWhile_cons_of_neg (by decide), List.append_nil,
    List.reverse_reverse]

theorem lastPart_of_not_mem {part : Text} (hpart : (0x2e : UInt8) ∉ part) :
    lastPart part = part := by
  refine List.rtakeWhile_eq_self_iff.mpr fun c hc ↦ ?_
  exact decide_eq_true fun h ↦ hpart (h ▸ hc)

theorem lastPart_childPath (path : Text) (name : WireName) :
    lastPart (childPath path name.1) = name.1 := by
  have hdot : (0x2e : UInt8) ∉ name.1 := name.2.not_mem (by decide)
  rw [childPath]
  split
  · exact lastPart_of_not_mem hdot
  · rw [List.append_assoc]
    exact lastPart_append_dot path hdot

/-- The last part of a path that ends with a bracket is no name. -/
theorem lastPart_ne_of_getLast {path : Text} {c : UInt8} (hlast : path.getLast? = some c)
    (hc : isNameByte c = false) {name : Text} (hname : PlainName name) : lastPart path ≠ name := by
  rintro rfl
  obtain ⟨front, hfront⟩ := List.rtakeWhile_suffix (fun c ↦ decide (c ≠ 0x2e)) path
  have hfront : front ++ lastPart path = path := hfront
  have hne : lastPart path ≠ [] := hname.1
  have hmem : c ∈ lastPart path := by
    rw [← hfront, List.getLast?_append_of_ne_nil _ hne] at hlast
    exact List.mem_of_getLast? hlast
  exact hname.not_mem hc hmem

theorem childPath_ne_nil (path : Text) (name : WireName) : childPath path name.1 ≠ [] := by
  rw [childPath]
  split
  · exact name.2.1
  · rename_i hpath
    exact fun h ↦ hpath (List.append_eq_nil_iff.mp (List.append_eq_nil_iff.mp h).1).1

/-- Nothing is recorded under the key. -/
def Untouched (key : Text) (records : List Recorded) : Prop :=
  ∀ record ∈ records, record.path ≠ key ∧ ProtoDefContext.shortKey record.path ≠ some key

theorem learn_untouched {key : Text} {records : List Recorded} (h : Untouched key records)
    (context : ProtoDefContext) : (learn records context).values key = context.values key := by
  induction records generalizing context with
  | nil => rfl
  | cons record records ih =>
      obtain ⟨hpath, hshort⟩ := h record List.mem_cons_self
      have hset : (context.set record.path record.known).values key = context.values key := by
        rw [ProtoDefContext.set]
        cases hkey : ProtoDefContext.shortKey record.path with
        | none => exact Function.update_of_ne (Ne.symm hpath) _ _
        | some short =>
            have hne : key ≠ short := fun h ↦ hshort (h ▸ hkey)
            dsimp only
            rw [Function.update_of_ne hne, Function.update_of_ne (Ne.symm hpath)]
      exact (ih (fun r hr ↦ h r (List.mem_cons_of_mem _ hr)) _).trans hset

/-- A record with another last part does not touch a name. -/
theorem untouched_of_lastPart {records : List Recorded} (path : Text) (name : WireName)
    (h : ∀ record ∈ records, lastPart record.path ≠ name.1) :
    Untouched (childPath path name.1) records := by
  intro record hrecord
  refine ⟨fun heq ↦ h record hrecord (heq ▸ lastPart_childPath path name), fun hshort ↦ ?_⟩
  rw [ProtoDefContext.shortKey] at hshort
  split at hshort
  · dsimp only at hshort
    split at hshort
    · cases hshort
    · have hpart : lastPart record.path = childPath path name.1 := Option.some.inj hshort
      have hsame := lastPart_childPath path name
      rw [← hpart] at hsame
      have hdots : (0x2e : UInt8) ∉ lastPart record.path := by
        intro hmem
        have hkept := List.mem_rtakeWhile_imp hmem
        exact absurd rfl (of_decide_eq_true hkept)
      rw [lastPart_of_not_mem hdots] at hsame
      exact h record hrecord hsame
  · cases hshort

/-! ## The paths of the records -/

theorem getLast?_itemPath (path : Text) (i : ℕ) :
    (ElementCounts.itemPath path i).getLast? = some 0x5d :=
  List.getLast?_append_of_ne_nil _ (by decide)

theorem itemPath_ne_nil (path : Text) (i : ℕ) : ElementCounts.itemPath path i ≠ [] := by
  intro h
  have hlast := getLast?_itemPath path i
  rw [h] at hlast
  cases hlast

theorem lastPart_itemPath_ne (path : Text) (i : ℕ) {x : Text} (hx : PlainName x) :
    lastPart (ElementCounts.itemPath path i) ≠ x :=
  lastPart_ne_of_getLast (getLast?_itemPath path i) (by decide) hx

theorem orName_of_ne_nil {path : Text} (h : path ≠ []) (name : String) : orName path name = path :=
  if_neg h

/-- The elements are recorded under paths of their own. -/
theorem itemRecords_lastPart {records : Text → ProtoDefValue → List Recorded} {x : Text}
    (hx : PlainName x)
    (h : ∀ path value, path ≠ [] → lastPart path ≠ x →
      ∀ record ∈ records path value, lastPart record.path ≠ x) (path : Text)
    (items : List ProtoDefValue) (i : ℕ) :
    ∀ record ∈ itemRecords records path i items, lastPart record.path ≠ x := by
  induction items generalizing i with
  | nil => exact fun record hrecord ↦ absurd hrecord List.not_mem_nil
  | cons item items ih =>
      intro record hrecord
      rcases List.mem_append.mp hrecord with hfirst | hrest
      · exact h _ item (itemPath_ne_nil path i) (lastPart_itemPath_ne path i hx) record hfirst
      · exact ih (i + 1) record hrest

theorem forall_mem_singleton_path {path x : Text} {record : Recorded}
    (hpath : record.path = path) (h : lastPart path ≠ x) :
    ∀ r ∈ [record], lastPart r.path ≠ x := by
  intro r hr
  rw [List.mem_singleton.mp hr, hpath]
  exact h

/-- Two endings of paths that are no names. -/
theorem lastPart_mark_ne {path x : Text} (part : Text) (hpart : (0x2e : UInt8) ∉ part)
    (hplain : ¬PlainName part) (hx : PlainName x) : lastPart (path ++ (0x2e :: part)) ≠ x := by
  rw [lastPart_append_dot path hpart]
  exact hx.ne_of_not_plain hplain

mutual

theorem WireSchema.records_lastPart {x : Text} (hx : PlainName x) : ∀ (schema : WireSchema)
    (path : Text) (value : ProtoDefValue), x ∉ schema.names → path ≠ [] → lastPart path ≠ x →
    ∀ record ∈ schema.records path value, lastPart record.path ≠ x
  | .scalar typeName, path, value, hnames, hpath, hlast => by
      rw [WireSchema.records]
      cases scalarCode typeName.1 value with
      | none => exact fun record hrecord ↦ absurd hrecord List.not_mem_nil
      | some code => exact forall_mem_singleton_path (orName_of_ne_nil hpath "$value") hlast
  | .pstring countType, path, value, hnames, hpath, hlast => by
      cases value with
      | string text => exact forall_mem_singleton_path (orName_of_ne_nil hpath "$string") hlast
      | _ => exact fun record hrecord ↦ absurd hrecord List.not_mem_nil
  | .buffer size, path, value, hnames, hpath, hlast => by
      cases value with
      | bytes content => exact forall_mem_singleton_path (orName_of_ne_nil hpath "$buffer") hlast
      | _ => exact fun record hrecord ↦ absurd hrecord List.not_mem_nil
  | .array size item, path, value, hnames, hpath, hlast => by
      cases value with
      | array items =>
          intro record hrecord
          rcases List.mem_cons.mp hrecord with rfl | hrecord
          · dsimp only
            rw [if_neg hpath]
            exact lastPart_mark_ne (txt "$count") (by decide) (by decide) hx
          · exact itemRecords_lastPart hx (fun path value hpath hlast ↦
              item.records_lastPart hx path value hnames hpath hlast) path items 0 record hrecord
      | _ => exact fun record hrecord ↦ absurd hrecord List.not_mem_nil
  | .option inner, path, value, hnames, hpath, hlast => by
      have hpresent {text : Text} : ∀ record ∈
          [({ path := if path = [] then txt "$option" else path ++ txt ".$present",
              value := text } : Recorded)], lastPart record.path ≠ x := by
        refine forall_mem_singleton_path rfl ?_
        rw [if_neg hpath]
        exact lastPart_mark_ne (txt "$present") (by decide) (by decide) hx
      by_cases hnull : value = .null
      · subst hnull
        exact hpresent
      · rw [WireSchema.records]
        · intro record hrecord
          rcases List.mem_cons.mp hrecord with rfl | hrecord
          · exact hpresent _ (List.mem_singleton_self _)
          · exact inner.records_lastPart hx path value hnames hpath hlast record hrecord
        · exact hnull
  | .mapper baseType mappings, path, value, hnames, hpath, hlast => by
      rw [WireSchema.records]
      cases mapperCode baseType.1 mappings value with
      | none => exact fun record hrecord ↦ absurd hrecord List.not_mem_nil
      | some code => exact forall_mem_singleton_path (orName_of_ne_nil hpath "$value") hlast
  | .encapsulated lengthType inner, path, value, hnames, hpath, hlast =>
      inner.records_lastPart hx path value hnames hpath hlast
  | .named typeName schema, path, value, hnames, hpath, hlast =>
      schema.records_lastPart hx path value hnames hpath hlast
  | .container fields, path, value, hnames, hpath, hlast =>
      fields.records_lastPart hx path value hnames

theorem WireFields.records_lastPart {x : Text} (hx : PlainName x) : ∀ (fields : WireFields)
    (path : Text) (value : ProtoDefValue), x ∉ fields.names →
    ∀ record ∈ fields.records path value, lastPart record.path ≠ x
  | .nil, path, value, hnames => fun record hrecord ↦ absurd hrecord List.not_mem_nil
  | .plain name schema rest, path, value, hnames => by
      rw [WireFields.names, List.mem_cons, List.mem_append, not_or, not_or] at hnames
      obtain ⟨hname, hschema, hrest⟩ := hnames
      intro record hrecord
      rcases List.mem_append.mp hrecord with hfirst | hmore
      · cases hchild : value.get name.1 with
        | none =>
            rw [hchild] at hfirst
            exact absurd hfirst List.not_mem_nil
        | some child =>
            rw [hchild] at hfirst
            have hlast : lastPart (childPath path name.1) ≠ x := by
              rw [lastPart_childPath]
              exact Ne.symm hname
            exact schema.records_lastPart hx _ child hschema (childPath_ne_nil path name) hlast
              record hfirst
      · exact rest.records_lastPart hx path value hrest record hmore
  | .switch name compareTo cases rest, path, value, hnames => by
      rw [WireFields.names, List.mem_cons, List.mem_append, not_or, not_or] at hnames
      obtain ⟨hname, hcases, hrest⟩ := hnames
      intro record hrecord
      rcases List.mem_append.mp hrecord with hfirst | hmore
      · have hlast : lastPart (childPath path name.1) ≠ x := by
          rw [lastPart_childPath]
          exact Ne.symm hname
        exact cases.records_lastPart hx _ _ _ hcases (childPath_ne_nil path name) hlast record
          hfirst
      · exact rest.records_lastPart hx path value hrest record hmore

theorem WireCases.records_lastPart {x : Text} (hx : PlainName x) : ∀ (cases : WireCases)
    (key path : Text) (value : ProtoDefValue), x ∉ cases.names → path ≠ [] →
    lastPart path ≠ x → ∀ record ∈ cases.records key path value, lastPart record.path ≠ x
  | .nil, key, path, value, hnames, hpath, hlast =>
      forall_mem_singleton_path (orName_of_ne_nil hpath "$switch") hlast
  | .default schema, key, path, value, hnames, hpath, hlast =>
      schema.records_lastPart hx path value hnames hpath hlast
  | .case k schema rest, key, path, value, hnames, hpath, hlast => by
      rw [WireCases.names, List.mem_append, not_or] at hnames
      rw [WireCases.records]
      split
      · exact schema.records_lastPart hx path value hnames.1 hpath hlast
      · exact rest.records_lastPart hx key path value hnames.2 hpath hlast

end

/-! ## Known texts -/

/-- The decoder has the known texts of the fields of one container. -/
def Knows (env : List (Text × Text)) (path : Text) (context : ProtoDefContext) : Prop :=
  ∀ (name : WireName) (text : Text), env.lookup name.1 = some text →
    context.values (childPath path name.1) = some text

theorem lookup_forget {names : List Text} {env : List (Text × Text)} {x text : Text}
    (h : (forget names env).lookup x = some text) : x ∉ names ∧ env.lookup x = some text := by
  induction env with
  | nil => cases h
  | cons entry env ih =>
      obtain ⟨key, known⟩ := entry
      rw [forget] at h
      by_cases hkey : key ∈ names
      · rw [List.filter_cons_of_neg (by simpa using hkey)] at h
        obtain ⟨hx, hlookup⟩ := ih h
        have hne : x ≠ key := fun heq ↦ hx (heq ▸ hkey)
        exact ⟨hx, by rw [List.lookup_cons, beq_false_of_ne hne]; exact hlookup⟩
      · rw [List.filter_cons_of_pos (by simpa using hkey)] at h
        rw [List.lookup_cons] at h ⊢
        by_cases hx : x = key
        · subst hx
          rw [beq_self_eq_true] at h ⊢
          exact ⟨hkey, h⟩
        · rw [beq_false_of_ne hx] at h ⊢
          exact ih h

theorem Knows.nil (path : Text) (context : ProtoDefContext) : Knows [] path context :=
  fun _ _ h ↦ by cases h

/-- What is recorded under other names leaves the known texts. -/
theorem Knows.forget {env : List (Text × Text)} {path : Text} {context : ProtoDefContext}
    {names : List Text} {records : List Recorded} (h : Knows env path context)
    (hrecords : ∀ x, PlainName x → x ∉ names → ∀ record ∈ records, lastPart record.path ≠ x) :
    Knows (forget names env) path (learn records context) := by
  intro name text hlookup
  obtain ⟨hname, hlookup⟩ := lookup_forget hlookup
  rw [learn_untouched (untouched_of_lastPart path name (hrecords name.1 name.2 hname))]
  exact h name text hlookup

theorem values_set_self (context : ProtoDefContext) (key value : Text) :
    (context.set key value).values key = some value := by
  rw [ProtoDefContext.set]
  cases ProtoDefContext.shortKey key with
  | none => exact Function.update_self key _ _
  | some short =>
      by_cases hshort : key = short
      · subst hshort
        exact Function.update_self key _ _
      · exact (Function.update_of_ne hshort _ _).trans (Function.update_self key _ _)

/-- A known text is recorded last under the path of the value. -/
theorem WireSchema.learn_known {text : Text} {path : Text} (hpath : path ≠ []) :
    ∀ (schema : WireSchema) (value : ProtoDefValue), schema.known value = some text →
    ∀ context, (learn (schema.records path value) context).values path = some text
  | .scalar typeName, value, hknown, context => by
      obtain ⟨code, hcode, rfl⟩ := Option.map_eq_some_iff.mp hknown
      rw [WireSchema.records, hcode]
      change ((context.set (orName path "$value") code.2).values path) = _
      rw [orName_of_ne_nil hpath]
      exact values_set_self context path code.2
  | .mapper baseType mappings, value, hknown, context => by
      obtain ⟨code, hcode, rfl⟩ := Option.map_eq_some_iff.mp hknown
      rw [WireSchema.records, hcode]
      change ((context.set (orName path "$value") (mapperName mappings code.1)).values path) = _
      rw [orName_of_ne_nil hpath]
      exact values_set_self context path _
  | .named typeName schema, value, hknown, context =>
      schema.learn_known hpath value hknown context
  | .pstring countType, value, hknown, context => by cases hknown
  | .buffer size, value, hknown, context => by cases hknown
  | .array size item, value, hknown, context => by cases hknown
  | .option inner, value, hknown, context => by cases hknown
  | .encapsulated lengthType inner, value, hknown, context => by cases hknown
  | .container fields, value, hknown, context => by cases hknown

/-- After a plain field its own text is known, and those of the names that it does not use. -/
theorem Knows.plain {env : List (Text × Text)} {path : Text} {context : ProtoDefContext}
    (h : Knows env path context) (name : WireName) (schema : WireSchema) (child : ProtoDefValue) :
    Knows ((schema.known child).toList.map (fun text ↦ (name.1, text)) ++
        BedrockProtocol.forget (name.1 :: schema.names) env) path
      (learn (schema.records (childPath path name.1) child) context) := by
  have hforget : Knows (BedrockProtocol.forget (name.1 :: schema.names) env) path
      (learn (schema.records (childPath path name.1) child) context) := by
    refine h.forget fun x hx hnames ↦ ?_
    rw [List.mem_cons, not_or] at hnames
    have hlast : lastPart (childPath path name.1) ≠ x := by
      rw [lastPart_childPath]
      exact Ne.symm hnames.1
    exact schema.records_lastPart hx _ child hnames.2 (childPath_ne_nil path name) hlast
  cases hknown : schema.known child with
  | none => exact hforget
  | some text =>
      intro other text' hlookup
      change List.lookup other.1 ((name.1, text) :: _) = _ at hlookup
      rw [List.lookup_cons] at hlookup
      by_cases hsame : other.1 = name.1
      · rw [hsame, beq_self_eq_true] at hlookup
        obtain rfl := Option.some.inj hlookup
        rw [hsame]
        exact schema.learn_known (childPath_ne_nil path name) child hknown context
      · rw [beq_false_of_ne hsame] at hlookup
        exact hforget other text' hlookup

/-- After a switch the texts of the names that no branch uses are known. -/
theorem Knows.switch {env : List (Text × Text)} {path : Text} {context : ProtoDefContext}
    (h : Knows env path context) (name : WireName) (cases : WireCases) (key : Text)
    (value : ProtoDefValue) :
    Knows (BedrockProtocol.forget (name.1 :: cases.names) env) path
      (learn (cases.records key (childPath path name.1) value) context) := by
  refine h.forget fun x hx hnames ↦ ?_
  rw [List.mem_cons, not_or] at hnames
  have hlast : lastPart (childPath path name.1) ≠ x := by
    rw [lastPart_childPath]
    exact Ne.symm hnames.1
  exact cases.records_lastPart hx key _ value hnames.2 (childPath_ne_nil path name) hlast

end BedrockProtocol
