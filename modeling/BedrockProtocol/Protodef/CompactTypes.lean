import BedrockProtocol.Protodef.CompactJson

/-!
# Types without blanks

The text of a type is a name, or an array of a name and what it is about.  Encoder and decoder find
the same parts of it, although the encoder looks for a branch of a switch or a name of a mapper as
a text in quotes, wherever that stands.
-/

namespace BedrockProtocol

namespace CompactJson

open SchemaText ProtoDefEncoder JsonPieces

variable {P : Text → Prop}

/-! ## The array of a type -/

theorem typed_eq_pairText (name argument : Text) : typed name argument = pairText name [] argument :=
  typed_eq name argument

theorem startsWith_typed (name argument : Text) :
    startsWith (typed name argument) (0x5b :: quoted name) = true := by
  rw [typed_eq_pairText]
  exact startsWith_pairText name [] argument

theorem trim_typed (name argument : Text) : trim (typed name argument) = typed name argument := by
  rw [typed_eq_pairText]
  exact trim_pairText name [] argument

theorem readSecondElement_typed {name argument : Text} (hname : name.all isKeyByte = true)
    (h : CompactValue P argument) :
    readSecondElement (typed name argument) = some argument := by
  have hsecond := readSecondElement_pairText hname (rfl : isBlank [] = true) (rfl : isBlank [] = true)
    h.typeText h.isWhole []
  rw [List.nil_append, List.append_nil] at hsecond
  rw [typed_eq_pairText]
  exact hsecond

theorem readJsonValueField_typed {name : Text} (hname : name.all isKeyByte = true)
    {entries : List (Text × Text)} (h : ∀ e ∈ entries, CompactEntry P e) (key : Text) :
    readJsonValueField (typed name (objectText entries)) key = entries.lookup key := by
  have htrim : trim (typed name (objectText entries)) =
      pairText name [] ([] ++ (spelledObject [] (entries.map member) ++ [])) := by
    rw [trim_typed, typed_eq_pairText, spelledObject_member, List.nil_append, List.append_nil]
  rw [← valueOf_member]
  exact readJsonValueField_pairText hname rfl rfl rfl (spelled_of_compact h) htrim key

theorem findSecondArray_typed {name : Text} (hname : name.all isKeyByte = true) {items : List Text}
    (h : ∀ t ∈ items, CompactValue P t) :
    findSecondArray (typed name (arrayText items)) = some (arrayText items) := by
  have hinside : Compact P (commas items) := compact_commas fun t ht ↦ (h t ht).compact
  have hsecond := findSecondArray_pairText hname (rfl : isBlank [] = true) (rfl : isBlank [] = true)
    hinside.piece []
  rw [List.nil_append, List.append_nil] at hsecond
  rw [typed_eq_pairText]
  exact hsecond

/-! ## The objects of a container -/

/-- Objects in braces. -/
def IsObject (P : Text → Prop) (t : Text) : Prop := ∃ u, Compact P u ∧ t = 0x7b :: (u ++ [0x7d])

theorem fieldObjects_arrayText {objects : List Text} (h : ∀ t ∈ objects, IsObject P t) :
    fieldObjects (arrayText objects) = some objects := by
  have helements : ∀ e ∈ objects.map fun t ↦ ({ value := t } : Element), e.IsObject := by
    intro e he
    obtain ⟨t, ht, rfl⟩ := List.mem_map.mp he
    obtain ⟨u, hu, hvalue⟩ := h t ht
    exact ⟨by simp only [List.mem_pair]; rintro t (rfl | rfl) <;> rfl, u, hu.piece, hvalue⟩
  have hobjects := fieldObjects_listText (rfl : isBlank [] = true) helements
  have htexts : (objects.map fun t ↦ ({ value := t } : Element)).map Element.text = objects := by
    rw [List.map_map]
    refine (List.map_congr_left fun t _ ↦ ?_).trans (List.map_id _)
    rw [Function.comp_apply, Element.text, List.nil_append, List.append_nil, id]
  have hvalues : (objects.map fun t ↦ ({ value := t } : Element)).map Element.value = objects := by
    rw [List.map_map]
    exact List.map_id _
  rw [listText, listed, htexts, List.nil_append, hvalues] at hobjects
  exact hobjects

/-! ## A text in quotes -/

theorem Compact.lacks {k t : Text} (hk : Searched k) (h : Compact (· ≠ k) t) : Lacks k t := by
  induction h with
  | nil => exact .nil
  | comma => exact .mark rfl (by decide)
  | colon => exact .mark rfl (by decide)
  | number n =>
      refine .plain rfl fun hmem ↦ ?_
      rcases List.mem_cons.mp hmem with h | h
      · exact absurd h (by decide)
      · exact not_mem_decimal (by decide) h
  | string hkey hne => exact .string hk (not_mem_of_all hkey (by decide)) hne
  | array _ ih =>
      have hopen : Lacks k [0x5b] := .mark rfl (by decide)
      exact hopen.append (ih.append (.mark rfl (by decide)))
  | object _ ih =>
      have hopen : Lacks k [0x7b] := .mark rfl (by decide)
      exact hopen.append (ih.append (.mark rfl (by decide)))
  | append _ _ iht ihu => exact iht.append ihu

theorem Compact.not_mem {t : Text} (h : Compact P t) {c : UInt8} (hkey : isKeyByte c = false)
    (hmark : isMark c = false) : c ∉ t := by
  have hne {d : UInt8} (hd : isMark d = true) : c ≠ d := by
    rintro rfl
    rw [hmark] at hd
    cases hd
  induction h with
  | nil => exact List.not_mem_nil
  | comma => exact fun h ↦ hne rfl (List.mem_singleton.mp h)
  | colon => exact fun h ↦ hne rfl (List.mem_singleton.mp h)
  | number n =>
      exact fun h ↦ (List.mem_cons.mp h).elim (hne rfl) (not_mem_decimal hkey)
  | string hs =>
      rw [quoted_eq, List.mem_cons, List.mem_append, List.mem_singleton]
      rintro (h | h | h)
      · exact hne rfl h
      · exact not_mem_of_all hs hkey h
      · exact hne rfl h
  | array _ ih =>
      rw [List.mem_cons, List.mem_append, List.mem_singleton]
      rintro (h | h | h)
      · exact hne rfl h
      · exact ih h
      · exact hne rfl h
  | object _ ih =>
      rw [List.mem_cons, List.mem_append, List.mem_singleton]
      rintro (h | h | h)
      · exact hne rfl h
      · exact ih h
      · exact hne rfl h
  | append _ _ iht ihu => exact fun h ↦ (List.mem_append.mp h).elim iht ihu

/-! ## Branches -/

/-- The entries in front of one of them, with a comma. -/
def before (entries : List (Text × Text)) : Text :=
  if entries = [] then [] else commas (entries.map entryText) ++ [0x2c]

theorem commas_append_cons (entries : List (Text × Text)) (entry : Text × Text)
    (later : List (Text × Text)) :
    commas ((entries ++ entry :: later).map entryText) =
      before entries ++ (entryText entry ++ (later.map entryText).flatMap fun u ↦ 0x2c :: u) := by
  rw [before]
  cases entries with
  | nil => rfl
  | cons e entries =>
      rw [if_neg (List.cons_ne_nil e entries), List.cons_append, List.map_cons, List.map_cons, commas,
        commas, List.map_append, List.flatMap_append, List.map_cons, List.flatMap_cons]
      simp only [List.append_assoc, List.cons_append, List.nil_append]

theorem compact_before {entries : List (Text × Text)} (h : ∀ e ∈ entries, CompactEntry P e) :
    Compact P (before entries) := by
  rw [before]
  split
  · exact .nil
  · refine (compact_commas fun t ht ↦ ?_).append .comma
    obtain ⟨entry, hentry, rfl⟩ := List.mem_map.mp ht
    exact (h entry hentry).compact

theorem lacks_before {k : Text} (hk : Searched k) {entries : List (Text × Text)}
    (h : ∀ e ∈ entries, CompactEntry (· ≠ k) e) : Lacks k (0x7b :: before entries) := by
  have hopen : Lacks k [0x7b] := .mark rfl (by decide)
  exact hopen.append ((compact_before h).lacks hk)

/-- The encoder finds the branch of a key that the entries before it do not mention. -/
theorem readSwitchObjectField_at {k v : Text} (hk : Searched k)
    {entries : List (Text × Text)} (h : ∀ e ∈ entries, CompactEntry (· ≠ k) e)
    (hv : CompactValue P v) (later : List (Text × Text)) :
    readSwitchObjectField (objectText (entries ++ (k, v) :: later)) k = some v := by
  have htext : objectText (entries ++ (k, v) :: later) = (0x7b :: before entries) ++ (quoted k ++
      ([] ++ 0x3a :: (v ++ (((later.map entryText).flatMap fun u ↦ 0x2c :: u) ++ [0x7d])))) := by
    rw [objectText, commas_append_cons, entryText]
    simp only [List.append_assoc, List.cons_append, List.nil_append]
  have hplace := findText_at (lacks_before hk h)
    (0x3a :: (v ++ (((later.map entryText).flatMap fun u ↦ 0x2c :: u) ++ [0x7d])))
  rw [List.nil_append] at htext
  rw [← htext] at hplace
  exact readSwitchObjectField_of_text hplace List.not_mem_nil (rfl : isBlank [] = true) hv.typeText
    hv.isWhole htext

/-- A key that no entry mentions has no branch. -/
theorem readSwitchObjectField_none {k : Text} (hk : Searched k) {entries : List (Text × Text)}
    (h : ∀ e ∈ entries, CompactEntry (· ≠ k) e) :
    readSwitchObjectField (objectText entries) k = none := by
  have hlacks := (objectText_value h).compact.lacks hk
  rw [readSwitchObjectField, findText_none hlacks]
  rfl

/-- A text with a slash is no key of the entries. -/
theorem readSwitchObjectField_slash {entries : List (Text × Text)}
    (h : ∀ e ∈ entries, CompactEntry P e) (name : Text) :
    readSwitchObjectField (objectText entries) (txt "/" ++ name) = none := by
  have hslash : (0x2f : UInt8) ∈ txt "/" ++ name := List.mem_append_left _ (by decide)
  have htext : (0x2f : UInt8) ∉ objectText entries :=
    (objectText_value h).compact.not_mem (by decide) (by decide)
  rw [readSwitchObjectField, findText_none_of_not_mem hslash htext]
  rfl

theorem lookup_slash {entries : List (Text × Text)} (h : ∀ e ∈ entries, CompactEntry P e)
    (name : Text) : entries.lookup (txt "/" ++ name) = none := by
  refine List.lookup_eq_none_iff.mpr fun e he ↦ ?_
  have hslash : (0x2f : UInt8) ∈ txt "/" ++ name := List.mem_append_left _ (by decide)
  refine bne_iff_ne.mpr fun heq ↦ ?_
  rw [heq] at hslash
  exact not_mem_of_all (h e he).isKey (by decide) hslash

/-- The encoder finds the object of the second key of a type. -/
theorem objectBehind_typed {name first second argument : Text} (hsecond : Searched second)
    (hname : name.all isKeyByte = true) (hfirst : first.all isKeyByte = true)
    (hargument : argument.all isKeyByte = true) (hkey : second.all isKeyByte = true) (hne : name ≠ second)
    (hne' : first ≠ second) (hne'' : argument ≠ second) {entries : List (Text × Text)}
    (h : ∀ e ∈ entries, CompactEntry P e) (later : List (Text × Text)) :
    objectBehind (typed name (objectText ((first, quoted argument) ::
      (second, objectText entries) :: later))) second = some (objectText entries) := by
  have hnoQuote {s : Text} (hs : s.all isKeyByte = true) : (0x22 : UInt8) ∉ s :=
    not_mem_of_all hs (by decide)
  have hlacks : ∀ e ∈ [member (first, quoted argument)], Lacks second e.text := by
    intro e he
    rw [List.mem_singleton.mp he, text_member]
    have hcolon : Lacks second [0x3a] := .mark rfl (by decide)
    exact (Lacks.string hsecond (hnoQuote hfirst) hne').append
      (hcolon.append (.string hsecond (hnoQuote hargument) hne''))
  have hinside : Compact P (commas (entries.map entryText)) := compact_commas fun t ht ↦ by
    obtain ⟨entry, hentry, rfl⟩ := List.mem_map.mp ht
    exact (h entry hentry).compact
  have hspelled : (member (second, objectText entries)).Spelled :=
    CompactEntry.spelled (P := fun _ ↦ True) ⟨hkey, trivial, .inl (.object (hinside.mono fun _ _ ↦ trivial))⟩
  have hbehind := objectBehind_pairText hsecond (hnoQuote hname) hne (rfl : isBlank [] = true)
    (rfl : isBlank [] = true) (rfl : isBlank [] = true) hlacks hspelled rfl hinside.piece rfl
    (later.map member) []
  have htext : typed name (objectText ((first, quoted argument) :: (second, objectText entries) ::
      later)) =
      pairText name [] ([] ++ (spelledObject [] ([member (first, quoted argument)] ++
        member (second, objectText entries) :: later.map member) ++ [])) := by
    rw [typed_eq_pairText, List.nil_append, List.append_nil, ← spelledObject_member]
    rfl
  rw [htext]
  exact hbehind

/-! ## Mappers -/

theorem stoullText_decimal {n : ℕ} (hn : n < 2 ^ 64) : ProtoDefDecoder.stoullText (decimal n) = .ok n := by
  obtain ⟨c, rest, hcons⟩ := List.exists_cons_of_ne_nil (decimal_ne_nil n)
  have hdigit : isDigit c = true := isDigit_of_mem_decimal (hcons ▸ List.mem_cons_self)
  have hbyte := decimal_digits (hcons ▸ List.mem_cons_self : c ∈ decimal n)
  have hspace : isSpace c = false := by
    refine decide_eq_false fun h ↦ ?_
    simp only [UInt8.le_iff_toNat_le, ← UInt8.toNat_inj, UInt8.reduceToNat] at h
    omega
  have hskip : (decimal n).dropWhile isSpace = decimal n := by
    rw [hcons]
    exact List.dropWhile_cons_of_neg (by rw [hspace]; exact Bool.false_ne_true)
  have hminus : c ≠ 0x2d := by
    rintro rfl
    exact absurd hdigit (by decide)
  have hplus : c ≠ 0x2b := by
    rintro rfl
    exact absurd hdigit (by decide)
  have hsign (d : UInt8) (hd : c ≠ d) : (decimal n).head? ≠ some d := by
    rw [hcons]
    exact fun h ↦ hd (Option.some.inj h)
  have hunsigned : ¬((decimal n).head? = some 0x2d ∨ (decimal n).head? = some 0x2b) :=
    not_or.mpr ⟨hsign _ hminus, hsign _ hplus⟩
  have hdigits : (decimal n).takeWhile isDigit = decimal n :=
    List.takeWhile_eq_self_iff.mpr fun d hd ↦ isDigit_of_mem_decimal hd
  have hvalid : ¬(decimal n = [] ∨ 2 ^ 64 ≤ decimalValue (decimal n)) := by
    rw [decimalValue_decimal]
    exact not_or.mpr ⟨decimal_ne_nil n, Nat.not_le.mpr hn⟩
  rw [ProtoDefDecoder.stoullText, hskip, if_neg hunsigned, hdigits, if_neg hvalid,
    if_neg (hsign _ hminus), decimalValue_decimal]

/-- The entry of a name in the mappings. -/
def mappingEntry (entry : ℕ × WireKey) : Text × Text := (decimal entry.1, quoted entry.2.1)

theorem mappingEntry_compact {entry : ℕ × WireKey} (hn : P (decimal entry.1))
    (hname : P entry.2.1) : CompactEntry P (mappingEntry entry) :=
  ⟨all_isKeyByte_decimal entry.1, hn, .inl (.string entry.2.2.1 hname)⟩

theorem isNamed_mappingEntry (entry : ℕ × WireKey) :
    (member (mappingEntry entry)).IsNamed entry.2.1 where
  spelled := (mappingEntry_compact (P := fun _ ↦ True) trivial trivial).spelled
  value := rfl
  noQuote := ⟨not_mem_decimal (by decide), not_mem_of_all entry.2.2.1 (by decide)⟩

theorem numberOf_cons (entry : ℕ × WireKey) (mappings : List (ℕ × WireKey)) (name : Text) :
    numberOf (entry :: mappings) name =
      if entry.2.1 = name then some entry.1 else numberOf mappings name := by
  rw [numberOf, List.find?_cons]
  by_cases h : entry.2.1 = name
  · rw [decide_eq_true h, if_pos h]
    rfl
  · rw [decide_eq_false h, if_neg h]
    rfl

theorem firstNumber_mappings {mappings : List (ℕ × WireKey)}
    (hnumbers : ∀ entry ∈ mappings, entry.1 < 2 ^ 64) (mappedName : Text) :
    firstNumber ((mappings.map mappingEntry).map member) mappedName =
      .ok (numberOf mappings mappedName) := by
  induction mappings with
  | nil => rfl
  | cons entry mappings ih =>
      have hmore := ih fun e he ↦ hnumbers e (List.mem_cons_of_mem entry he)
      rw [List.map_cons, List.map_cons, firstNumber_cons (isNamed_mappingEntry entry).value, numberOf_cons,
        hmore]
      split
      · change some <$> ProtoDefDecoder.stoullText (decimal entry.1) = _
        rw [stoullText_decimal (hnumbers entry List.mem_cons_self)]
        rfl
      · rfl

theorem mapperNumericFrom_mappings {mappings : List (ℕ × WireKey)}
    (hnumbers : ∀ entry ∈ mappings, entry.1 < 2 ^ 64) (mappedName : Text) (turns : ℕ)
    (hturns : mappings.length < turns) :
    mapperNumericFrom (objectText (mappings.map mappingEntry)) mappedName turns 0 =
      .ok (numberOf mappings mappedName) := by
  have hnamed : ∀ m ∈ (mappings.map mappingEntry).map member, ∃ name, m.IsNamed name := by
    intro m hm
    rw [List.map_map] at hm
    obtain ⟨entry, -, rfl⟩ := List.mem_map.mp hm
    exact ⟨_, isNamed_mappingEntry entry⟩
  rw [← spelledObject_member, mapperNumericFrom_object rfl hnamed, firstNumber_mappings hnumbers]
  rwa [List.length_map, List.length_map]

end CompactJson

end BedrockProtocol
