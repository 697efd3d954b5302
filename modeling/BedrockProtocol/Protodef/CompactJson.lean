import BedrockProtocol.Protodef.JsonTypes

/-!
# JSON text without blanks

What the search functions find in a text of strings, arrays and objects in which every string is
made of the characters of keys.  A text in quotes is found there only where it is a string of its
own.
-/

namespace BedrockProtocol

namespace CompactJson

open SchemaText ProtoDefEncoder JsonPieces

/-! ## Pieces of text -/

/-- A piece of a text whose strings have the property. -/
inductive Compact (P : Text → Prop) : Text → Prop
  | nil : Compact P []
  | comma : Compact P [0x2c]
  | colon : Compact P [0x3a]
  | number (n : ℕ) : Compact P (0x3a :: decimal n)
  | string {s : Text} (hkey : s.all isKeyByte = true) (h : P s) : Compact P (quoted s)
  | array {u : Text} (h : Compact P u) : Compact P (0x5b :: (u ++ [0x5d]))
  | object {u : Text} (h : Compact P u) : Compact P (0x7b :: (u ++ [0x7d]))
  | append {t u : Text} (h : Compact P t) (h' : Compact P u) : Compact P (t ++ u)

/-- A string, an array or an object. -/
inductive CompactValue (P : Text → Prop) : Text → Prop
  | string {s : Text} (hkey : s.all isKeyByte = true) (h : P s) : CompactValue P (quoted s)
  | array {u : Text} (h : Compact P u) : CompactValue P (0x5b :: (u ++ [0x5d]))
  | object {u : Text} (h : Compact P u) : CompactValue P (0x7b :: (u ++ [0x7d]))

variable {P : Text → Prop}

theorem CompactValue.compact {v : Text} (h : CompactValue P v) : Compact P v := by
  cases h with
  | string hkey h => exact .string hkey h
  | array h => exact .array h
  | object h => exact .object h

theorem Compact.mono {Q : Text → Prop} (hP : ∀ s, P s → Q s) {t : Text} (h : Compact P t) :
    Compact Q t := by
  induction h with
  | nil => exact .nil
  | comma => exact .comma
  | colon => exact .colon
  | number n => exact .number n
  | string hkey h => exact .string hkey (hP _ h)
  | array _ ih => exact .array ih
  | object _ ih => exact .object ih
  | append _ _ iht ihu => exact .append iht ihu

theorem CompactValue.mono {Q : Text → Prop} (hP : ∀ s, P s → Q s) {v : Text}
    (h : CompactValue P v) : CompactValue Q v := by
  cases h with
  | string hkey h => exact .string hkey (hP _ h)
  | array h => exact .array (h.mono hP)
  | object h => exact .object (h.mono hP)

theorem all_isKeyByte_decimal (n : ℕ) : (decimal n).all isKeyByte = true := by
  refine List.all_eq_true.mpr fun c hc ↦ decide_eq_true (.inl (decide_eq_true (.inl ?_)))
  exact isDigit_of_mem_decimal hc

theorem not_mem_decimal {n : ℕ} {c : UInt8} (hc : isKeyByte c = false) : c ∉ decimal n :=
  not_mem_of_all (all_isKeyByte_decimal n) hc

theorem Compact.piece {t : Text} (h : Compact P t) : Piece t := by
  induction h with
  | nil => exact .nil
  | comma => exact .char (by decide)
  | colon => exact .char (by decide)
  | number n =>
      refine piece_of_chars fun c hc hmem ↦ ?_
      rcases List.mem_cons.mp hc with rfl | hc
      · exact absurd hmem (by decide)
      · have hnone : ([0x22, 0x5b, 0x5d, 0x7b, 0x7d] : List UInt8).all (fun c ↦ !isKeyByte c) = true :=
          rfl
        have hmark := List.all_eq_true.mp hnone c hmem
        rw [List.all_eq_true.mp (all_isKeyByte_decimal n) c hc] at hmark
        cases hmark
  | string hkey _ => exact .string (isBody_of_all hkey)
  | array _ ih => exact .array ih
  | object _ ih => exact .object ih
  | append _ _ iht ihu => exact iht.append ihu

theorem CompactValue.typeText {v : Text} (h : CompactValue P v) : TypeText v := by
  cases h with
  | string hkey _ => exact .string (isBody_of_all hkey)
  | array h => exact .array h.piece
  | object h => exact .object h.piece

/-- A name of the characters of keys has no quotes. -/
theorem CompactValue.isWhole {v : Text} (h : CompactValue P v) : isWhole v = true := by
  cases h with
  | @string s hkey _ =>
      have hinner : ((quoted s).drop 1).dropLast = s := List.dropLast_concat
      rw [JsonPieces.isWhole, hinner, Bool.or_eq_true, decide_eq_true_iff, decide_eq_true_iff]
      exact .inr (not_mem_of_all hkey (by decide))
  | array => rfl
  | object => rfl

theorem CompactValue.trim_eq {v : Text} (h : CompactValue P v) : trim v = v := h.typeText.trim_eq

/-! ## Objects and arrays -/

def entryText (entry : Text × Text) : Text := quoted entry.1 ++ 0x3a :: entry.2

def objectText (entries : List (Text × Text)) : Text :=
  0x7b :: (commas (entries.map entryText) ++ [0x7d])

def arrayText (items : List Text) : Text := 0x5b :: (commas items ++ [0x5d])

/-- The array of a type: its name, and what it is about. -/
def typed (name argument : Text) : Text := arrayText [quoted name, argument]

theorem typed_eq (name argument : Text) :
    typed name argument = 0x5b :: (quoted name ++ (0x2c :: (argument ++ [0x5d]))) := by
  rw [typed, arrayText, commas, List.flatMap_cons, List.flatMap_nil, List.append_nil,
    List.append_assoc]
  rfl

/-- A key with a value, or with a number. -/
structure CompactEntry (P : Text → Prop) (entry : Text × Text) : Prop where
  isKey : entry.1.all isKeyByte = true
  key : P entry.1
  value : CompactValue P entry.2 ∨ ∃ n, entry.2 = decimal n

theorem CompactEntry.mono {Q : Text → Prop} (hP : ∀ s, P s → Q s) {entry : Text × Text}
    (h : CompactEntry P entry) : CompactEntry Q entry :=
  ⟨h.isKey, hP _ h.key, h.value.imp_left (CompactValue.mono hP)⟩

theorem CompactEntry.compact {entry : Text × Text} (h : CompactEntry P entry) :
    Compact P (entryText entry) := by
  obtain ⟨hkey, hP, hvalue | ⟨n, hvalue⟩⟩ := h
  · exact (Compact.string hkey hP).append (Compact.colon.append hvalue.compact)
  · rw [entryText, hvalue]
    exact (Compact.string hkey hP).append (.number n)

theorem compact_flatMap {texts : List Text} (h : ∀ t ∈ texts, Compact P t) :
    Compact P (texts.flatMap fun u ↦ 0x2c :: u) := by
  induction texts with
  | nil => exact .nil
  | cons t texts ih =>
      rw [List.flatMap_cons]
      have hfirst : Compact P ([0x2c] ++ t) := Compact.comma.append (h t List.mem_cons_self)
      exact hfirst.append (ih fun u hu ↦ h u (List.mem_cons_of_mem t hu))

theorem compact_commas {texts : List Text} (h : ∀ t ∈ texts, Compact P t) :
    Compact P (commas texts) := by
  cases texts with
  | nil => exact .nil
  | cons t texts =>
      exact (h t List.mem_cons_self).append
        (compact_flatMap fun u hu ↦ h u (List.mem_cons_of_mem t hu))

theorem objectText_value {entries : List (Text × Text)} (h : ∀ e ∈ entries, CompactEntry P e) :
    CompactValue P (objectText entries) := by
  refine .object (compact_commas fun t ht ↦ ?_)
  obtain ⟨entry, hentry, rfl⟩ := List.mem_map.mp ht
  exact (h entry hentry).compact

theorem arrayText_value {items : List Text} (h : ∀ t ∈ items, CompactValue P t) :
    CompactValue P (arrayText items) :=
  .array (compact_commas fun t ht ↦ (h t ht).compact)

theorem typed_value {name argument : Text} (hname : name.all isKeyByte = true) (hP : P name)
    (h : CompactValue P argument) : CompactValue P (typed name argument) := by
  refine arrayText_value fun t ht ↦ ?_
  rcases List.mem_pair.mp ht with rfl | rfl
  · exact .string hname hP
  · exact h

/-! ## Fields of an object -/

/-- The member without blanks. -/
def member (entry : Text × Text) : Member := { key := entry.1, value := entry.2 }

theorem text_member (entry : Text × Text) : (member entry).text = entryText entry := by
  rw [Member.text, entryText]
  simp only [member, List.nil_append, List.append_nil]

theorem inside_member (entries : List (Text × Text)) :
    inside [] (entries.map member) = commas (entries.map entryText) := by
  have htexts : (entries.map member).map Member.text = entries.map entryText := by
    rw [List.map_map]
    exact List.map_congr_left fun entry _ ↦ text_member entry
  rw [inside, htexts, List.nil_append]

theorem spelledObject_member (entries : List (Text × Text)) :
    spelledObject [] (entries.map member) = objectText entries := by
  rw [spelledObject, inside_member, objectText]

theorem length_le_length_commas (entries : List (Text × Text)) :
    entries.length ≤ (commas (entries.map entryText)).length := by
  have hcount := length_le_length_inside [] (entries.map member)
  rwa [List.length_map, inside_member] at hcount

theorem isLiteralByte_of_isDigit {c : UInt8} (h : isDigit c = true) : isLiteralByte c = true := by
  simp only [isDigit, decide_eq_true_eq, UInt8.le_iff_toNat_le, UInt8.reduceToNat] at h
  simp only [isLiteralByte, isSpace, List.mem_cons, List.not_mem_nil, or_false, Bool.and_eq_true,
    Bool.not_eq_true', decide_eq_true_eq, decide_eq_false_iff_not, UInt8.le_iff_toNat_le,
    ← UInt8.toNat_inj, UInt8.reduceToNat]
  omega

theorem CompactEntry.spelled {entry : Text × Text} (h : CompactEntry P entry) :
    (member entry).Spelled where
  key := isBody_of_all h.isKey
  value := by
    rcases h.value with hvalue | ⟨n, hn⟩
    · exact .type hvalue.typeText
    · rw [member, hn]
      exact .literal (decimal_ne_nil n) (List.all_eq_true.mpr fun c hc ↦
        isLiteralByte_of_isDigit (isDigit_of_mem_decimal hc))
  blank := by
    simp only [member]
    decide

theorem spelled_of_compact {entries : List (Text × Text)} (h : ∀ e ∈ entries, CompactEntry P e) :
    ∀ m ∈ entries.map member, m.Spelled := by
  intro m hm
  obtain ⟨entry, hentry, rfl⟩ := List.mem_map.mp hm
  exact (h entry hentry).spelled

theorem lookup_cons (entry : Text × Text) (entries : List (Text × Text)) (key : Text) :
    (entry :: entries).lookup key = if entry.1 = key then some entry.2 else entries.lookup key := by
  obtain ⟨k, v⟩ := entry
  rw [List.lookup_cons]
  by_cases h : k = key
  · rw [h, beq_self_eq_true, if_pos rfl]
  · rw [beq_false_of_ne (Ne.symm h), if_neg h]

theorem valueOf_member (entries : List (Text × Text)) (key : Text) :
    valueOf (entries.map member) key = entries.lookup key := by
  induction entries with
  | nil => rfl
  | cons entry entries ih =>
      rw [List.map_cons, valueOf_cons, lookup_cons, ih]
      rfl

theorem readJsonValueField_objectText {entries : List (Text × Text)}
    (h : ∀ e ∈ entries, CompactEntry P e) (key : Text) :
    readJsonValueField (objectText entries) key = entries.lookup key := by
  have htrim : trim (objectText entries) = [] ++ (spelledObject [] (entries.map member) ++ []) := by
    rw [spelledObject_member, List.nil_append, List.append_nil, (objectText_value h).trim_eq]
  rw [← valueOf_member]
  exact readJsonValueField_object (by decide) (spelled_of_compact h) List.not_mem_nil htrim key

end CompactJson

end BedrockProtocol
