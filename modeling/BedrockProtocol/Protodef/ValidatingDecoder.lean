import BedrockProtocol.Protodef.StrictDecoding

/-!
# Decoding without keeping the fields

`validatePacketStrict` decodes like `decodePacketStrict` but keeps no fields, so it learns
nothing from the item palette, and it has one path for all scalars of an array.  The two
agree where no name that a type looks up is that of an element and the packets with the
palette are decoded.
-/

namespace BedrockProtocol

namespace ProtoDefPacketDecoder

open ProtoDefDecoder ProtoDefTypes SchemaText ElementCounts

/-! ## Names of elements -/

/-- A name that ends like the path of an element. -/
def NamesElement (name : Text) : Prop := name.getLast? = some 0x5d

instance (name : Text) : Decidable (NamesElement name) := inferInstanceAs (Decidable (_ = _))

theorem namesElement_append {base name : Text} (h : NamesElement name) :
    NamesElement (base ++ name) := by
  rw [NamesElement, List.getLast?_append, h]
  rfl

theorem not_namesElement_append {base name : Text} (hbase : ¬NamesElement base)
    (hname : ¬NamesElement name) : ¬NamesElement (base ++ name) := by
  rw [NamesElement, List.getLast?_append]
  cases hlast : name.getLast? with
  | none => exact hbase
  | some c => exact fun h ↦ hname (hlast.trans h)

theorem not_namesElement_dot (base : Text) : ¬NamesElement (base ++ txt ".") := by
  rw [NamesElement, List.getLast?_append]
  exact fun h ↦ absurd h (by decide : some (0x2e : UInt8) ≠ some 0x5d)

/-- What is in front of the last part of a path ends with a dot. -/
theorem not_namesElement_rdropWhile (path : Text) :
    ¬NamesElement (path.rdropWhile (· ≠ 0x2e)) := by
  intro h
  obtain ⟨front, hfront⟩ := List.getLast?_eq_some_iff.mp h
  have hne : path.rdropWhile (· ≠ 0x2e) ≠ [] := by
    rw [hfront]
    simp
  have hdot := List.rdropWhile_last_not _ path hne
  have hlast : (path.rdropWhile (· ≠ 0x2e)).getLast hne = 0x5d :=
    Option.some.inj ((List.getLast?_eq_getLast_of_ne_nil hne).symm.trans h)
  rw [hlast] at hdot
  exact hdot (by decide)

theorem not_namesElement_resolveComparePath {path name : Text} (hname : ¬NamesElement name) :
    ¬NamesElement (resolveComparePath path name) := by
  have hrest : ¬NamesElement (name.drop 3) := by
    intro h
    obtain ⟨front, hfront⟩ := List.getLast?_eq_some_iff.mp h
    refine hname ?_
    rw [← List.take_append_drop 3 name]
    exact namesElement_append h
  rw [resolveComparePath]
  split
  · dsimp only
    split
    · exact hrest
    · exact not_namesElement_append (not_namesElement_dot _) hrest
  · exact not_namesElement_append (not_namesElement_rdropWhile path) hname

/-- The short name of a path ends like the path. -/
theorem namesElement_shortKey {key short : Text} (h : ProtoDefContext.shortKey key = some short) :
    NamesElement short ↔ NamesElement key := by
  rw [ProtoDefContext.shortKey] at h
  split at h
  · dsimp only at h
    split at h
    · cases h
    · rename_i hne
      obtain rfl := Option.some.inj h
      obtain ⟨front, hfront⟩ := List.rtakeWhile_suffix (fun c ↦ decide (c ≠ 0x2e)) key
      conv_rhs => rw [← hfront]
      rw [NamesElement, NamesElement, List.getLast?_append_of_ne_nil _ hne]
  · cases h

/-! ## Paths of an element -/

/-- Two paths of one element: with its index, or shared by all of them. -/
def SameElement (p p' : Text) : Prop :=
  ∃ base i, (p = itemPath base i ∨ p = base ++ txt "[]") ∧
    (p' = itemPath base i ∨ p' = base ++ txt "[]")

/-- What an element's path adds to that of the array. -/
theorem exists_element_suffix {base p : Text} {i : ℕ}
    (h : p = itemPath base i ∨ p = base ++ txt "[]") :
    ∃ suffix, p = base ++ suffix ∧ NamesElement suffix ∧ ∀ c ∈ suffix, c < 0x5f := by
  have hbracket {text : Text} (htext : text.all fun c ↦ decide (c < 0x5f)) :
      ∀ c ∈ text, c < 0x5f := forall_mem_of_all htext
  rcases h with rfl | rfl
  · refine ⟨txt "[" ++ decimal i ++ txt "]", ?_, ?_, fun c hc ↦ ?_⟩
    · rw [itemPath, List.append_assoc, List.append_assoc, List.append_assoc]
    · exact namesElement_append (by decide)
    · rcases List.mem_append.mp hc with hc | hc
      · rcases List.mem_append.mp hc with hc | hc
        · exact hbracket (by decide) c hc
        · exact UInt8.lt_iff_toNat_lt.mpr (lt_of_le_of_lt (decimal_digits hc).2 (by decide))
      · exact hbracket (by decide) c hc
  · exact ⟨txt "[]", rfl, by decide, hbracket (by decide)⟩

theorem infix_append_iff {word base suffix : Text} (hword : word ≠ []) (h : ∀ c ∈ suffix, c ∉ word) :
    word <:+: base ++ suffix ↔ word <:+: base := by
  induction suffix using List.reverseRecOn with
  | nil => rw [List.append_nil]
  | append_singleton suffix c ih =>
      rw [← List.append_assoc, List.infix_concat_iff,
        ih fun c hc ↦ h c (List.mem_append_left _ hc), or_iff_right]
      intro hsuffix
      rcases List.suffix_concat_iff.mp hsuffix with rfl | ⟨front, rfl, -⟩
      · exact hword rfl
      · exact h c (by simp) (by simp)

theorem isRuntimeId_append {base suffix : Text} (h : ∀ c ∈ suffix, c < 0x5f) :
    isRuntimeId (base ++ suffix) = isRuntimeId base := by
  have hword {word : Text} (hne : word ≠ []) (hletters : word.all fun c ↦ decide (0x5f ≤ c)) :
      word <:+: base ++ suffix ↔ word <:+: base :=
    infix_append_iff hne fun c hc hmem ↦
      absurd (h c hc) (UInt8.not_lt.mpr (forall_mem_of_all hletters c hmem))
  rw [isRuntimeId, isRuntimeId, decide_eq_decide]
  rw [hword (by decide) (by decide), hword (by decide) (by decide), hword (by decide) (by decide),
    hword (by decide) (by decide)]

theorem SameElement.paths {p p' : Text} (h : SameElement p p') :
    p ≠ [] ∧ p' ≠ [] ∧ isRuntimeId p = isRuntimeId p' := by
  obtain ⟨base, i, hp, hp'⟩ := h
  obtain ⟨suffix, rfl, hnames, hchars⟩ := exists_element_suffix hp
  obtain ⟨suffix', rfl, hnames', hchars'⟩ := exists_element_suffix hp'
  have hne {suffix : Text} (hnames : NamesElement suffix) : base ++ suffix ≠ [] := by
    rintro hnil
    rw [(List.append_eq_nil_iff.mp hnil).2] at hnames
    cases hnames
  exact ⟨hne hnames, hne hnames', by rw [isRuntimeId_append hchars, isRuntimeId_append hchars']⟩

theorem SameElement.namesElement {p p' : Text} (h : SameElement p p') :
    NamesElement p ∧ NamesElement p' := by
  obtain ⟨base, i, hp, hp'⟩ := h
  obtain ⟨suffix, rfl, hnames, -⟩ := exists_element_suffix hp
  obtain ⟨suffix', rfl, hnames', -⟩ := exists_element_suffix hp'
  exact ⟨namesElement_append hnames, namesElement_append hnames'⟩

/-! ## Contexts -/

theorem values_set (context : ProtoDefContext) (key value name : Text) :
    (context.set key value).values name =
      if name = key ∨ ProtoDefContext.shortKey key = some name then some value
      else context.values name := by
  rw [ProtoDefContext.set]
  cases hshort : ProtoDefContext.shortKey key with
  | none => simp [Function.update_apply]
  | some short =>
      simp only [Function.update_apply, Option.some.injEq]
      by_cases hname : name = short
      · simp [hname]
      · by_cases hkey : name = key
        · simp [hkey]
        · simp [hname, hkey, Ne.symm hname]

/-- The contexts agree on every name but those of elements. -/
def SameNames (d d' : Decoded) : Prop :=
  ∀ name, ¬NamesElement name → d.context.values name = d'.context.values name

theorem SameNames.setContext {d d' : Decoded} {key key' value : Text} (h : SameNames d d')
    (hkey : key = key' ∨ SameElement key key') :
    SameNames (d.setContext key value) (d'.setContext key' value) := by
  intro name hname
  change (d.context.set key value).values name = (d'.context.set key' value).values name
  rw [values_set, values_set, h name hname]
  rcases hkey with rfl | helement
  · rfl
  · obtain ⟨hnames, hnames'⟩ := helement.namesElement
    have hother {key : Text} (hnames : NamesElement key) :
        ¬(name = key ∨ ProtoDefContext.shortKey key = some name) := by
      rintro (rfl | hshort)
      · exact hname hnames
      · exact hname ((namesElement_shortKey hshort).mpr hnames)
    rw [if_neg (hother hnames), if_neg (hother hnames')]

theorem SameNames.get {d d' : Decoded} (h : SameNames d d') {name : Text}
    (hname : ¬NamesElement name) : d.context.get name = d'.context.get name := by
  rw [ProtoDefContext.get, ProtoDefContext.get, h name hname]

/-! ## Types that look up no element -/

/-- The count and the discriminator of the type are not elements of an array. -/
structure AvoidsElements (json : Text) : Prop where
  count {countRef : Text} : startsWith (trim json) (txt "[\"array\"") = true ∨
      startsWith (trim json) (txt "[\"buffer\"") = true →
    readJsonStringField (trim json) (txt "count") = some countRef → ¬NamesElement countRef
  switch {compareTo : Text} : startsWith (trim json) (txt "[\"switch\"") = true →
    readJsonStringField (trim json) (txt "compareTo") = some compareTo →
    ¬NamesElement (trim compareTo) ∧
      ∀ operand ∈ splitOr (trim compareTo), ¬NamesElement (trim operand)
  metadata {compareTo : Text} : startsWith (trim json) (txt "[\"entityMetadataItem\"") = true →
    readJsonStringField (trim json) (txt "compareTo") = some compareTo → ¬NamesElement compareTo

theorem SameNames.referencedText {d d' : Decoded} (h : SameNames d d') {countRef : Text}
    (hname : ¬NamesElement countRef) (owner : String) (lastPart : Bool) (path : Text) :
    referencedText owner lastPart path countRef d.context =
      referencedText owner lastPart path countRef d'.context := by
  have hpath : ¬NamesElement (resolveComparePath path countRef) :=
    not_namesElement_resolveComparePath hname
  have hshort : (ProtoDefContext.shortKey (resolveComparePath path countRef)).map d.context.get =
      (ProtoDefContext.shortKey (resolveComparePath path countRef)).map d'.context.get := by
    cases hkey : ProtoDefContext.shortKey (resolveComparePath path countRef) with
    | none => rfl
    | some short =>
        have hget := h.get fun hnames ↦ hpath ((namesElement_shortKey hkey).mp hnames)
        rw [Option.map_some, Option.map_some, hget]
  rw [ElementCounts.referencedText, ElementCounts.referencedText]
  simp only [h.get hpath, h.get hname, hshort]

theorem SameNames.contextValue {d d' : Decoded} (h : SameNames d d') {name : Text}
    (hname : ¬NamesElement name) (path : Text) :
    contextValue path d.context name = contextValue path d'.context name := by
  have hbelow : ¬NamesElement (path ++ txt "." ++ name) :=
    not_namesElement_append (not_namesElement_dot path) hname
  rw [ProtoDefDecoder.contextValue, ProtoDefDecoder.contextValue,
    h _ (not_namesElement_resolveComparePath hname), h name hname, h _ hbelow,
    h (txt "_enum_type") (by decide)]

theorem evaluateOr_congr {resolve resolve' : Text → Option Text} (expression : Text)
    {operands : List Text} (h : ∀ operand ∈ operands, resolve (trim operand) = resolve' (trim operand)) :
    evaluateOr resolve expression operands = evaluateOr resolve' expression operands := by
  induction operands with
  | nil => rfl
  | cons operand operands ih =>
      rw [evaluateOr, evaluateOr, h operand List.mem_cons_self,
        ih fun other hother ↦ h other (List.mem_cons_of_mem operand hother)]

theorem evaluateProtoDefCompareExpression_congr {resolve resolve' : Text → Option Text}
    {expression : Text} (hwhole : resolve (trim expression) = resolve' (trim expression))
    (h : ∀ operand ∈ splitOr (trim expression), resolve (trim operand) = resolve' (trim operand)) :
    evaluateProtoDefCompareExpression resolve expression =
      evaluateProtoDefCompareExpression resolve' expression := by
  rw [evaluateProtoDefCompareExpression, evaluateProtoDefCompareExpression]
  rw [hwhole]
  split
  · rfl
  · split
    · rename_i hsplit
      rw [hsplit] at h
      rw [evaluateOr_congr _ h]
    · rfl

theorem SameNames.compareValue {d d' : Decoded} (h : SameNames d d') {json : Text}
    (hjson : AvoidsElements json) (hswitch : startsWith (trim json) (txt "[\"switch\"") = true)
    (path : Text) :
    compareValue (trim json) path d.context = compareValue (trim json) path d'.context := by
  rw [ProtoDefDecoder.compareValue, ProtoDefDecoder.compareValue]
  cases readJsonStringField (trim json) (txt "compareToValue") with
  | some value => rfl
  | none =>
      cases hcompareTo : readJsonStringField (trim json) (txt "compareTo") with
      | none => rfl
      | some compareTo =>
          obtain ⟨hwhole, hoperands⟩ := hjson.switch hswitch hcompareTo
          dsimp only
          rw [evaluateProtoDefCompareExpression_congr (h.contextValue hwhole path)
            fun operand hoperand ↦ h.contextValue (hoperands operand hoperand) path]

theorem SameNames.metadataValue {d d' : Decoded} (h : SameNames d d') {compareTo : Text}
    (hname : ¬NamesElement compareTo) (path : Text) :
    metadataValue compareTo path d.context = metadataValue compareTo path d'.context := by
  have hbelow : ¬NamesElement (path ++ txt "." ++ compareTo) :=
    not_namesElement_append (not_namesElement_dot path) hname
  rw [ProtoDefDecoder.metadataValue, ProtoDefDecoder.metadataValue,
    h.get (not_namesElement_resolveComparePath hname), h.get hname, h.get hbelow]

theorem elementPath_cases (collectFields : Bool) (itemType path : Text) (i : ℕ) :
    elementPath collectFields itemType path i = itemPath path i ∨
      elementPath collectFields itemType path i = path ++ txt "[]" := by
  rw [elementPath]
  split
  · exact .inr rfl
  · exact .inl rfl

/-- Whether fields are kept makes no difference to what is read. -/
theorem compared_sameNames (resolveType : Text → Option Text) (store : List (Text × Text))
    {typeJson : Text}
    (h : ∀ sub, Reaches resolveType store typeJson sub → AvoidsElements sub)
    (collectFields collectFields' : Bool) :
    Compared collectFields collectFields' (.ok ()) (.ok ()) []
      (Reaches resolveType store typeJson) SameElement SameNames where
  optional := fun _ _ ↦ .inr ⟨rfl, rfl⟩
  rest := fun _ _ ↦ rfl
  element := by
    intro json itemType hG _ _ path i
    cases hscalar : isScalarArrayType itemType with
    | false => exact .inl (by simp [elementPath, hscalar])
    | true =>
        exact .inr ⟨rfl, path, i, elementPath_cases collectFields itemType path i,
          elementPath_cases collectFields' itemType path i⟩
  paths := SameElement.paths
  appendField := by
    intro d d' field path hd _ _ name hname
    have hcontext (collect : Bool) (field : ProtoDefField) (d : Decoded) :
        (d.appendField collect field).context = d.context := by
      cases collect <;> rfl
    rw [hcontext, hcontext, hd name hname]
  setContext := SameNames.setContext
  size := fun hG hjson hcount hd ↦ hd.referencedText ((h _ hG).count hjson hcount)
  compared := fun hG hjson hd ↦ hd.compareValue (h _ hG) hjson
  metadata := by
    intro json d d' hG hjson hd path
    refine hd.metadataValue ?_ path
    cases hcompareTo : readJsonStringField (trim json) (txt "compareTo") with
    | none => decide
    | some compareTo => exact (h json hG).metadata hjson hcompareTo
  valuesLen := fun hd ↦ hd.get (by decide)

/-! ## Brackets in a schema -/

/-- A closing bracket stands before a comma or another bracket, as in a text of JSON that has no
blanks and no string with a bracket at its end. -/
def Outward (c next : UInt8) : Prop := c = 0x5d → next ∈ [0x2c, 0x5d, 0x7d]

instance (c next : UInt8) : Decidable (Outward c next) := inferInstanceAs (Decidable (_ → _))

/-- A character that no closing bracket stands before. -/
def Inward (text : Text) : Prop := ∃ c rest, text = c :: rest ∧ c ∉ [0x2c, 0x5d, 0x7d]

theorem inward_of_isSpace {c : UInt8} (hc : isSpace c = true) (rest : Text) :
    Inward (c :: rest) := by
  refine ⟨c, rest, rfl, fun hmem ↦ ?_⟩
  simp only [List.mem_cons, List.not_mem_nil, or_false] at hmem
  rcases hmem with rfl | rfl | rfl
  · exact absurd hc (by decide)
  · exact absurd hc (by decide)
  · exact absurd hc (by decide)

theorem inward_append {blanks rest : Text} (hblanks : ∀ c ∈ blanks, isSpace c = true)
    (hrest : Inward rest) : Inward (blanks ++ rest) := by
  cases blanks with
  | nil => exact hrest
  | cons c blanks => exact inward_of_isSpace (hblanks c List.mem_cons_self) _

theorem not_namesElement_of_isChain {name rest : Text} (hrest : Inward rest)
    (h : List.IsChain Outward (name ++ rest)) : ¬NamesElement name := by
  intro hname
  obtain ⟨front, rfl⟩ := List.getLast?_eq_some_iff.mp hname
  obtain ⟨c, rest, rfl, hc⟩ := hrest
  rw [List.append_assoc, List.singleton_append, List.isChain_append_cons_cons] at h
  exact hc (h.2.1 rfl)

theorem exists_blanks_of_trim (name : Text) :
    ∃ lead blanks, name = lead ++ (trim name ++ blanks) ∧ ∀ c ∈ blanks, isSpace c = true := by
  refine ⟨name.takeWhile isSpace, (name.dropWhile isSpace).rtakeWhile isSpace, ?_,
    fun c hc ↦ List.mem_rtakeWhile_imp hc⟩
  rw [trim, List.rdropWhile_append_rtakeWhile, List.takeWhile_append_dropWhile]

/-- A string that ends in a bracket, blanks aside, has a quote, a bar or a blank behind it. -/
theorem not_namesElement_trim {name rest : Text} (hrest : Inward rest)
    (h : List.IsChain Outward (name ++ rest)) : ¬NamesElement (trim name) := by
  obtain ⟨lead, blanks, hname, hblanks⟩ := exists_blanks_of_trim name
  rw [hname, List.append_assoc, List.append_assoc] at h
  have hend := List.IsChain.infix h (List.suffix_append _ _).isInfix
  exact not_namesElement_of_isChain (inward_append hblanks hrest) hend

/-- An operand stands before a bar or at the end. -/
theorem splitOr_pieces (expression : Text) : ∃ first others,
    splitOr expression = first :: others ∧
      (∃ rest, expression = first ++ rest ∧ (rest = [] ∨ ∃ more, rest = 0x7c :: more)) ∧
      ∀ operand ∈ others, ∃ front rest, expression = front ++ (operand ++ rest) ∧
        (rest = [] ∨ ∃ more, rest = 0x7c :: more) := by
  fun_induction splitOr expression with
  | case1 => exact ⟨[], [], rfl, ⟨[], rfl, .inl rfl⟩, by simp⟩
  | case2 rest ih =>
      obtain ⟨first, others, hsplit, ⟨after, hafter, hbound⟩, hothers⟩ := ih
      refine ⟨[], _, rfl, ⟨_, rfl, .inr ⟨_, rfl⟩⟩, fun operand hoperand ↦ ?_⟩
      rw [hsplit] at hoperand
      rcases List.mem_cons.mp hoperand with rfl | hoperand
      · exact ⟨[0x7c, 0x7c], after, by rw [hafter]; rfl, hbound⟩
      · obtain ⟨front, after, hpiece, hbound⟩ := hothers operand hoperand
        exact ⟨0x7c :: 0x7c :: front, after, by rw [hpiece]; rfl, hbound⟩
  | case3 c rest _ ih =>
      obtain ⟨first, others, hsplit, ⟨after, hafter, hbound⟩, hothers⟩ := ih
      refine ⟨c :: first, others, by rw [hsplit]; rfl, ⟨after, by rw [hafter]; rfl, hbound⟩, ?_⟩
      intro operand hoperand
      obtain ⟨front, after, hpiece, hbound⟩ := hothers operand hoperand
      exact ⟨c :: front, after, by rw [hpiece]; rfl, hbound⟩

theorem exists_pieces_of_mem_splitOr {operand expression : Text}
    (h : operand ∈ splitOr expression) : ∃ front rest, expression = front ++ (operand ++ rest) ∧
      (rest = [] ∨ ∃ more, rest = 0x7c :: more) := by
  obtain ⟨first, others, hsplit, ⟨rest, hrest, hbound⟩, hothers⟩ := splitOr_pieces expression
  rw [hsplit] at h
  rcases List.mem_cons.mp h with rfl | h
  · exact ⟨[], rest, hrest, hbound⟩
  · exact hothers operand h

theorem not_namesElement_operand {compareTo operand rest : Text} (hrest : Inward rest)
    (h : List.IsChain Outward (compareTo ++ rest)) (hoperand : operand ∈ splitOr (trim compareTo)) :
    ¬NamesElement (trim operand) := by
  obtain ⟨lead, blanks, hname, hblanks⟩ := exists_blanks_of_trim compareTo
  obtain ⟨front, after, hpieces, hbound⟩ := exists_pieces_of_mem_splitOr hoperand
  have hafter : Inward (after ++ (blanks ++ rest)) := by
    rcases hbound with rfl | ⟨more, rfl⟩
    · rw [List.nil_append]
      exact inward_append hblanks hrest
    · exact ⟨0x7c, _, rfl, by decide⟩
  have htext : compareTo ++ rest = (lead ++ front) ++ (operand ++ (after ++ (blanks ++ rest))) := by
    rw [hname, hpieces]
    simp only [List.append_assoc]
  rw [htext] at h
  have hend := List.IsChain.infix h (List.suffix_append _ _).isInfix
  exact not_namesElement_trim hafter hend

/-- A type looks up no element if no string in its text ends like the path of one. -/
theorem avoidsElements_of_isChain {json : Text} (h : List.IsChain Outward json) :
    AvoidsElements json := by
  have hquote : Inward [0x22] := ⟨0x22, [], rfl, by decide⟩
  have hfield {key value : Text} (hvalue : readJsonStringField (trim json) key = some value) :
      List.IsChain Outward (value ++ [0x22]) :=
    List.IsChain.infix h ((List.suffix_cons _ _).isInfix.trans
      ((readJsonStringField_isInfix hvalue).trans (trim_isInfix json)))
  refine ⟨fun _ hcount ↦ ?_, fun _ hcompare ↦ ⟨?_, fun operand hoperand ↦ ?_⟩, fun _ hcompare ↦ ?_⟩
  · exact not_namesElement_of_isChain hquote (hfield hcount)
  · exact not_namesElement_trim hquote (hfield hcompare)
  · exact not_namesElement_operand hquote (hfield hcompare) hoperand
  · exact not_namesElement_of_isChain hquote (hfield hcompare)

/-! ## Sequences of packets -/

section Sequences

variable (resolveType : Text → Option Text) (fuel : ℕ)

/-- Whether a packet is accepted by the decoder or by the validator, and the variables
afterwards: a rejected packet leaves them. -/
def accept (decodes : Bool) (packetName : Text) (payload : List UInt8)
    (store : List (Text × Text)) : Bool × List (Text × Text) :=
  match if decodes then Prod.snd <$> decodePacketStrict resolveType fuel packetName payload store
      else validatePacketStrict resolveType fuel packetName payload store with
  | .ok store => (true, store)
  | .error _ => (false, store)

/-- A sequence of packets, each decoded or validated, depending on its name. -/
def acceptAll (decodes : Text → Bool) :
    List (Text × List UInt8) → List (Text × Text) → List Bool × List (Text × Text)
  | [], store => ([], store)
  | (packetName, payload) :: packets, store =>
      let (accepted, store) := accept resolveType fuel (decodes packetName) packetName payload store
      let (rest, store) := acceptAll decodes packets store
      (accepted :: rest, store)

end Sequences

variable {resolveType : Text → Option Text} {fuel : ℕ} {packetName : Text} {payload : List UInt8}
  {store : List (Text × Text)}

/-- No type of a packet looks up an element, whatever the variables are. -/
def LooksUpNoElement (resolveType : Text → Option Text) (packetName : Text) : Prop :=
  ∀ typeJson, resolveType (txt "packet_" ++ packetName) = some typeJson → ∀ store sub,
    Reaches resolveType store typeJson sub → AvoidsElements sub

theorem looksUpNoElement_of_isChain
    (hall : ∀ name text, resolveType name = some text → List.IsChain Outward text)
    (packetName : Text) : LooksUpNoElement resolveType packetName :=
  fun _ hschema _ _ hreaches ↦ avoidsElements_of_isChain
    (isChain_of_reaches hall (hall _ _ hschema) hreaches)

theorem decodePacketImpl_ok (h : LooksUpNoElement resolveType packetName)
    {collectFields : Bool} (collectFields' : Bool) {result : List ProtoDefField × List (Text × Text)}
    (hok : decodePacketImpl resolveType fuel collectFields packetName payload store = .ok result) :
    ∃ fields, decodePacketImpl resolveType fuel collectFields' packetName payload store =
      .ok (fields, if collectFields' then updateItemPaletteFromFields packetName fields store
        else store) := by
  rw [decodePacketImpl] at hok ⊢
  cases hschema : resolveType (txt "packet_" ++ packetName) with
  | none =>
      rw [hschema] at hok
      cases hok
  | some typeJson =>
      rw [hschema] at hok
      obtain ⟨⟨decoded, c⟩, hrun, hrest⟩ := bind_eq_ok.mp hok
      have hfollows := compared_sameNames resolveType store (h typeJson hschema store) collectFields
        collectFields'
      obtain ⟨decoded', hrun', -⟩ := (hfollows.follows_decodeLevels
        (fun _ _ hG hsub ↦ hG.tail hsub) le_rfl .refl (.inl rfl) fun _ _ ↦ rfl).same_input hrun
      refine ⟨decoded'.out, bind_eq_ok.mpr ⟨_, hrun', ?_⟩⟩
      dsimp only at hrest ⊢
      split at hrest
      · cases hrest
      · rename_i hremaining
        rw [if_neg hremaining]

theorem accept_eq (decodes : Bool) : accept resolveType fuel decodes packetName payload store =
    match decodePacketImpl resolveType fuel decodes packetName payload store with
    | .ok (_, store) => (true, store)
    | .error _ => (false, store) := by
  have hresult : (if decodes then
      Prod.snd <$> decodePacketStrict resolveType fuel packetName payload store
      else validatePacketStrict resolveType fuel packetName payload store) =
        Prod.snd <$> decodePacketImpl resolveType fuel decodes packetName payload store := by
    cases decodes <;> rfl
  rw [accept, hresult]
  cases decodePacketImpl resolveType fuel decodes packetName payload store <;> rfl

theorem accept_fst (h : LooksUpNoElement resolveType packetName) (decodes decodes' : Bool) :
    (accept resolveType fuel decodes packetName payload store).1 =
      (accept resolveType fuel decodes' packetName payload store).1 := by
  rw [accept_eq, accept_eq]
  cases hrun : decodePacketImpl resolveType fuel decodes packetName payload store with
  | ok result =>
      obtain ⟨fields, hrun'⟩ := decodePacketImpl_ok h decodes' hrun
      rw [hrun']
  | error e =>
      cases hrun' : decodePacketImpl resolveType fuel decodes' packetName payload store with
      | error e' => rfl
      | ok result =>
          obtain ⟨fields, hrun''⟩ := decodePacketImpl_ok h decodes hrun'
          rw [hrun] at hrun''
          cases hrun''

/-- The variables change only where a packet with the palette is decoded. -/
theorem accept_snd (h : LooksUpNoElement resolveType packetName) {decodes : Bool}
    (hpalette : (decodes && packetCarriesItemPalette packetName) = false) :
    (accept resolveType fuel decodes packetName payload store).2 = store := by
  rw [accept_eq]
  cases hrun : decodePacketImpl resolveType fuel decodes packetName payload store with
  | error e => rfl
  | ok result =>
      obtain ⟨fields, hrun'⟩ := decodePacketImpl_ok h decodes hrun
      rw [hrun] at hrun'
      rw [Except.ok.inj hrun']
      cases decodes with
      | false => rfl
      | true =>
          rw [Bool.true_and] at hpalette
          simp [updateItemPaletteFromFields, hpalette]

/-- Validation accepts a packet just like decoding, from the same variables, and leaves them.
So a sequence in which only the packets with the palette are decoded is accepted like one in
which all are, and ends with the same variables. -/
theorem validate_decode_agree (h : ∀ packetName, LooksUpNoElement resolveType packetName)
    (fuel : ℕ) :
    (∀ packetName payload store,
      (accept resolveType fuel false packetName payload store).1 =
        (accept resolveType fuel true packetName payload store).1 ∧
      (accept resolveType fuel false packetName payload store).2 = store) ∧
    ∀ packets store, acceptAll resolveType fuel packetCarriesItemPalette packets store =
      acceptAll resolveType fuel (fun _ ↦ true) packets store := by
  refine ⟨fun packetName payload store ↦ ⟨accept_fst (h packetName) false true,
    accept_snd (h packetName) rfl⟩, fun packets ↦ ?_⟩
  induction packets with
  | nil => exact fun store ↦ rfl
  | cons packet packets ih =>
      obtain ⟨packetName, payload⟩ := packet
      intro store
      have hsame : accept resolveType fuel (packetCarriesItemPalette packetName) packetName payload
          store = accept resolveType fuel true packetName payload store := by
        cases hpalette : packetCarriesItemPalette packetName with
        | true => rfl
        | false =>
            refine Prod.ext (accept_fst (h packetName) false true) ?_
            rw [accept_snd (h packetName) rfl,
              accept_snd (h packetName) (by rw [hpalette, Bool.and_false])]
      simp only [acceptAll, hsame, ih]

/-- A palette, a packet that depends on the id of the shield, and one that looks up an element. -/
def shieldTypes (typeName : Text) : Option Text :=
  if typeName = txt "packet_item_registry" then
    some (txt "[\"container\",[\x7b\"name\":\"itemstates\",\"type\":[\"array\"," ++
      txt "\x7b\"countType\":\"varint\",\"type\":[\"container\"," ++
      txt "[\x7b\"name\":\"name\",\"type\":\"string\"\x7d," ++
      txt "\x7b\"name\":\"runtime_id\",\"type\":\"li16\"\x7d]]\x7d]\x7d]]")
  else if typeName = txt "packet_item" then
    some (txt "[\"container\",[\x7b\"name\":\"id\",\"type\":\"li16\"\x7d," ++
      txt "\x7b\"name\":\"tick\",\"type\":[\"switch\",\x7b\"compareTo\":\"id\"," ++
      txt "\"fields\":\x7b\"/ShieldItemID\":\"u8\"\x7d,\"default\":\"void\"\x7d]\x7d]]")
  else if typeName = txt "packet_flags" then
    some (txt "[\"container\",[\x7b\"name\":\"flags\"," ++
      txt "\"type\":[\"array\",\x7b\"count\":1,\"type\":\"u8\"\x7d]\x7d," ++
      txt "\x7b\"name\":\"rest\",\"type\":[\"switch\",\x7b\"compareTo\":\"flags[0]\"," ++
      txt "\"fields\":\x7b\"1\":\"li16\"\x7d,\"default\":\"void\"\x7d]\x7d]]")
  else none

/-- Without a lookup of an element: the last packet has an array of scalars. -/
def paletteTypes (typeName : Text) : Option Text :=
  if typeName = txt "packet_scores" then
    some (txt "[\"container\",[\x7b\"name\":\"scores\"," ++
      txt "\"type\":[\"array\",\x7b\"countType\":\"varint\",\"type\":\"u8\"\x7d]\x7d]]")
  else if typeName = txt "packet_flags" then none
  else shieldTypes typeName

/-- Only the palette is decoded: the id of the shield is known when the items are validated. -/
theorem validate_decode_agree_palette :
    acceptAll paletteTypes 10 packetCarriesItemPalette
        [(txt "item_registry", [1, 16] ++ txt "minecraft:shield" ++ [7, 0]), (txt "scores", [2, 5, 6]),
          (txt "item", [7, 0, 1]), (txt "item", [8, 0, 1])] [] =
      ([true, true, true, false], [(txt "ShieldItemID", txt "7")]) := by
  rw [(validate_decode_agree (looksUpNoElement_of_isChain fun typeName text htext ↦ ?_) 10).2]
  · decide +kernel
  · rw [paletteTypes] at htext
    split at htext
    · exact Option.some.inj htext ▸ by decide +kernel
    split at htext
    · cases htext
    rw [shieldTypes, if_neg ‹typeName ≠ txt "packet_flags"›] at htext
    split at htext
    · exact Option.some.inj htext ▸ by decide +kernel
    split at htext
    · exact Option.some.inj htext ▸ by decide +kernel
    · cases htext

/-- The validator learns no variable, and it does not find the element of an array. -/
theorem validation_learns_nothing :
    acceptAll shieldTypes 10 (fun _ ↦ true)
        [(txt "item_registry", [1, 16] ++ txt "minecraft:shield" ++ [7, 0]), (txt "item", [7, 0, 1])]
        [] = ([true, true], [(txt "ShieldItemID", txt "7")]) ∧
      acceptAll shieldTypes 10 (fun _ ↦ false)
        [(txt "item_registry", [1, 16] ++ txt "minecraft:shield" ++ [7, 0]), (txt "item", [7, 0, 1])]
        [] = ([true, false], []) ∧
      acceptAll shieldTypes 10 (fun _ ↦ true) [(txt "flags", [1, 2, 3])] [] = ([true], []) ∧
      acceptAll shieldTypes 10 (fun _ ↦ false) [(txt "flags", [1, 2, 3])] [] = ([false], []) := by
  decide +kernel

end ProtoDefPacketDecoder

end BedrockProtocol
