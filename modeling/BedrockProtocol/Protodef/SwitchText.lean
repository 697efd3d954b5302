import BedrockProtocol.Protodef.CompactJson

/-!
# Branches of a switch

Encoder and decoder look for the branch of a discriminator in the text of the switch.  The decoder
goes over the members of the object `fields`, and the encoder takes the first place where a key
stands in quotes, which may be inside the branch of another key.  What they should find is the
branch of the first key that is tried and that the object has itself.
-/

namespace BedrockProtocol

open SchemaText JsonPieces CompactJson

open ProtoDefEncoder (quoted findText)

/-! ## Switches as text -/

/-- The text of a switch, blanks included: an array of its name and of an object, which has the
branches under `fields` and perhaps a `default`.  Keys are taken as they are written. -/
structure SwitchType where
  outside : Text := []
  beforeName : Text := []
  behindName : Text := []
  beforeObject : Text := []
  behindObject : Text := []
  behind : Text := []
  members : List Member
  fieldsBlank : Text := []
  fields : List Member
  blank : ∀ t ∈ [outside, beforeName, behindName, beforeObject, behindObject, behind, fieldsBlank],
    isBlank t = true
  spelled : ∀ m ∈ members ++ fields, m.Spelled
  hasFields : valueOf members (txt "fields") = some (spelledObject fieldsBlank fields)
  isType : ∀ m ∈ fields, TypeText m.value

namespace SwitchType

def opening (switch : SwitchType) : Text :=
  0x5b :: (switch.beforeName ++ (quoted (txt "switch") ++ (switch.behindName ++
    0x2c :: switch.beforeObject)))

def text (switch : SwitchType) : Text :=
  switch.outside ++ (switch.opening ++ (spelledObject [] switch.members ++
    (switch.behindObject ++ [0x5d]))) ++ switch.behind

def fieldsText (switch : SwitchType) : Text := spelledObject switch.fieldsBlank switch.fields

/-! ## The branch of a discriminator -/

/-- The keys that are tried one after the other: variables with the value, then the value itself
without a type in front of it, and both behind a slash. -/
def triedKeys (protoDefVariables : List (Text × Text)) (key : Text) : List Text :=
  ((protoDefVariables.filter fun entry ↦ ProtoDefDecoder.switchValuesEqual key entry.2).map fun entry ↦
    txt "/" ++ entry.1) ++ ProtoDefDecoder.switchLookupKeys key

/-- The first tried key that is a key of the fields has the branch; without one it is the
default. -/
def branch (switch : SwitchType) (protoDefVariables : List (Text × Text)) (key : Text) : Option Text :=
  (triedKeys protoDefVariables key).findSome? (valueOf switch.fields) <|>
    valueOf switch.members (txt "default")

/-- The keys up to the first one that is a key of the members. -/
def upToOwn (members : List Member) : List Text → List Text
  | [] => []
  | key :: keys => if (valueOf members key).isSome then [key] else key :: upToOwn members keys

/-- The searches of the encoder meet keys of their own object only: in the text of the switch
`"fields"` stands first where its member begins, and in the text of the branches every key that is
tried stands in quotes first where its branch begins, or nowhere.  In a branch that is a name no
quote is escaped. -/
structure Unmistaken (switch : SwitchType) (protoDefVariables : List (Text × Text)) (key : Text) :
    Prop where
  fields : findText switch.text (quoted (txt "fields")) 0 =
    keyPlaceFrom (switch.outside ++ switch.opening ++ [0x7b]).length switch.members (txt "fields")
  keys : ∀ k ∈ upToOwn switch.fields (triedKeys protoDefVariables key),
    findText switch.fieldsText (quoted k) 0 =
      keyPlaceFrom (0x7b :: switch.fieldsBlank).length switch.fields k
  names : ∀ k ∈ upToOwn switch.fields (triedKeys protoDefVariables key),
    (valueOf switch.fields k).all isWhole = true

instance (switch : SwitchType) (protoDefVariables : List (Text × Text)) (key : Text) :
    Decidable (switch.Unmistaken protoDefVariables key) :=
  decidable_of_iff (_ ∧ _ ∧ _) ⟨fun h ↦ ⟨h.1, h.2.1, h.2.2⟩, fun h ↦ ⟨h.fields, h.keys, h.names⟩⟩

variable {switch : SwitchType} (protoDefVariables : List (Text × Text)) (key : Text)

theorem findSome?_tried (read : Text → Option Text) :
    ((protoDefVariables.findSome? fun entry ↦
        if ProtoDefDecoder.switchValuesEqual key entry.2 then read (txt "/" ++ entry.1) else none) <|>
      (ProtoDefDecoder.switchLookupKeys key).findSome? read) =
      (triedKeys protoDefVariables key).findSome? read := by
  rw [triedKeys, List.findSome?_append, Option.orElse_eq_orElse, Option.orElse_eq_or]
  congr 1
  induction protoDefVariables with
  | nil => rfl
  | cons entry entries ih =>
      rw [List.findSome?_cons, List.filter_cons]
      cases ProtoDefDecoder.switchValuesEqual key entry.2 with
      | false => exact ih
      | true =>
          rw [if_pos rfl, if_pos rfl, List.map_cons, List.findSome?_cons, ih]

/-- Only the keys up to the first own one matter. -/
theorem findSome?_upToOwn {members : List Member} {read : Text → Option Text} {keys : List Text}
    (h : ∀ k ∈ upToOwn members keys, read k = valueOf members k) :
    keys.findSome? read = keys.findSome? (valueOf members) := by
  induction keys with
  | nil => rfl
  | cons k keys ih =>
      rw [upToOwn] at h
      rw [List.findSome?_cons, List.findSome?_cons]
      split at h
      · rename_i hown
        rw [h k List.mem_cons_self]
        obtain ⟨v, hv⟩ := Option.isSome_iff_exists.mp hown
        rw [hv]
      · rename_i hown
        rw [h k List.mem_cons_self, Option.not_isSome_iff_eq_none.mp hown]
        exact ih fun k' hk' ↦ h k' (List.mem_cons_of_mem k hk')

/-! ### The decoder -/

theorem spelled_members : ∀ m ∈ switch.members, m.Spelled := fun m hm ↦
  switch.spelled m (List.mem_append_left _ hm)

theorem spelled_fields : ∀ m ∈ switch.fields, m.Spelled := fun m hm ↦
  switch.spelled m (List.mem_append_right _ hm)

theorem not_mem_opening : (0x7b : UInt8) ∉ switch.opening := by
  have hblank (t : Text) (ht : t ∈ [switch.outside, switch.beforeName, switch.behindName,
      switch.beforeObject, switch.behindObject, switch.behind, switch.fieldsBlank]) :
      (0x7b : UInt8) ∉ t := not_mem_blank (switch.blank t ht) (by decide)
  have hname : (0x7b : UInt8) ∉ quoted (txt "switch") := by decide
  rw [opening]
  simp only [List.mem_cons, List.mem_append, not_or]
  exact ⟨by decide, hblank _ (by simp), hname, hblank _ (by simp), by decide, hblank _ (by simp)⟩

theorem trim_text : trim switch.text =
    switch.opening ++ (spelledObject [] switch.members ++ (switch.behindObject ++ [0x5d])) := by
  rw [text, trim_append_blank (switch.blank _ (by simp)) (switch.blank _ (by simp)), opening]
  have hsame : (0x5b :: (switch.beforeName ++ (quoted (txt "switch") ++ (switch.behindName ++
      0x2c :: switch.beforeObject)))) ++ (spelledObject [] switch.members ++
        (switch.behindObject ++ [0x5d])) =
      0x5b :: (switch.beforeName ++ (quoted (txt "switch") ++ (switch.behindName ++
        0x2c :: switch.beforeObject)) ++ (spelledObject [] switch.members ++ switch.behindObject) ++
          [0x5d]) := by
    simp only [List.append_assoc, List.cons_append]
  rw [hsame]
  exact trim_eq 0x5b 0x5d _ (by decide) (by decide)

theorem readJsonValueField_text : readJsonValueField switch.text key = valueOf switch.members key :=
  readJsonValueField_object (by decide) spelled_members not_mem_opening trim_text key

theorem readJsonValueField_fieldsText :
    readJsonValueField switch.fieldsText key = valueOf switch.fields key := by
  have htrim : trim switch.fieldsText = [] ++ (switch.fieldsText ++ []) := by
    rw [List.nil_append, List.append_nil]
    exact trim_eq 0x7b 0x7d _ (by decide) (by decide)
  exact readJsonValueField_object (switch.blank _ (by simp)) spelled_fields List.not_mem_nil htrim key

/-- The decoder takes the branch of the first tried key among the keys of the fields, else the
default. -/
theorem decoder_switchBranch_text :
    ProtoDefDecoder.switchBranch protoDefVariables switch.text key =
      switch.branch protoDefVariables key := by
  have hfields : readJsonValueField switch.text (txt "fields") = some switch.fieldsText :=
    (readJsonValueField_text _).trans switch.hasFields
  have hread : readJsonValueField switch.fieldsText = valueOf switch.fields :=
    funext readJsonValueField_fieldsText
  have htried := findSome?_tried protoDefVariables key (readJsonValueField switch.fieldsText)
  rw [ProtoDefDecoder.switchBranch, ProtoDefDecoder.findSwitchBranchType, hfields, branch, ← hread,
    ← htried, readJsonValueField_text]
  rfl

/-! ### The encoder -/

theorem objectBehind_text (h : findText switch.text (quoted (txt "fields")) 0 =
    keyPlaceFrom (switch.outside ++ switch.opening ++ [0x7b]).length switch.members
      (txt "fields")) :
    ProtoDefEncoder.objectBehind switch.text (txt "fields") = some switch.fieldsText := by
  have hsome := isSome_keyPlaceFrom (switch.outside ++ switch.opening ++ [0x7b]).length
    switch.members (txt "fields")
  rw [switch.hasFields] at hsome
  obtain ⟨n, hn⟩ := Option.isSome_iff_exists.mp hsome
  rw [hn] at h
  obtain ⟨m, hm, front, post, hvalue, hfront, hmembers⟩ := exists_of_keyPlaceFrom _ hn
  rw [switch.hasFields] at hvalue
  have hspelled := spelled_members m hm
  have hmid : (0x7b : UInt8) ∉ m.before ++ 0x3a :: m.after := by
    rw [List.mem_append, List.mem_cons, not_or, not_or]
    exact ⟨not_mem_blank hspelled.before (by decide), by decide,
      not_mem_blank hspelled.after (by decide)⟩
  have htext : switch.text = front ++ (quoted (txt "fields") ++ ((m.before ++ 0x3a :: m.after) ++
      (switch.fieldsText ++ (post ++ 0x7d :: (switch.behindObject ++ [0x5d] ++ switch.behind))))) := by
    have hsame : switch.text = switch.outside ++ switch.opening ++ [0x7b] ++
        commas (switch.members.map Member.text) ++
          0x7d :: (switch.behindObject ++ [0x5d] ++ switch.behind) := by
      rw [text, spelledObject, inside]
      simp only [List.append_assoc, List.cons_append, List.nil_append]
    rw [hsame, hmembers, ← Option.some.inj hvalue]
    simp only [List.append_assoc, List.cons_append, fieldsText]
  rw [← hfront] at h
  exact objectBehind_of_text h hmid (piece_inside (switch.blank _ (by simp)) spelled_fields) htext

theorem readSwitchObjectField_fieldsText {k : Text}
    (h : findText switch.fieldsText (quoted k) 0 =
      keyPlaceFrom (0x7b :: switch.fieldsBlank).length switch.fields k)
    (hwhole : (valueOf switch.fields k).all isWhole = true) :
    ProtoDefEncoder.readSwitchObjectField switch.fieldsText k = valueOf switch.fields k := by
  cases hplace : keyPlaceFrom (0x7b :: switch.fieldsBlank).length switch.fields k with
  | none =>
      have hsome := isSome_keyPlaceFrom (0x7b :: switch.fieldsBlank).length switch.fields k
      rw [hplace] at hsome
      rw [hplace] at h
      rw [Option.isSome_eq_false_iff.mp hsome.symm |> Option.isNone_iff_eq_none.mp,
        ProtoDefEncoder.readSwitchObjectField, h]
      rfl
  | some n =>
      obtain ⟨m, hm, front, post, hvalue, hfront, hfields⟩ := exists_of_keyPlaceFrom _ hplace
      have hspelled := spelled_fields m hm
      have htext : switch.fieldsText = front ++ (quoted k ++ (m.before ++ 0x3a :: (m.after ++
          (m.value ++ (post ++ [0x7d]))))) := by
        have hsame : switch.fieldsText = (0x7b :: switch.fieldsBlank) ++
            commas (switch.fields.map Member.text) ++ [0x7d] := by
          rw [fieldsText, spelledObject, inside]
          simp only [List.cons_append]
        rw [hsame, hfields]
        simp only [List.append_assoc, List.cons_append]
      rw [hplace, ← hfront] at h
      rw [hvalue] at hwhole ⊢
      exact readSwitchObjectField_of_text h (not_mem_blank hspelled.before (by decide)) hspelled.after
        (switch.isType m hm) hwhole htext

/-- The encoder takes the same branch where its searches are not mistaken. -/
theorem encoder_switchBranch_text (h : switch.Unmistaken protoDefVariables key) :
    ProtoDefEncoder.switchBranch protoDefVariables switch.text key =
      switch.branch protoDefVariables key := by
  have hread : ∀ k ∈ upToOwn switch.fields (triedKeys protoDefVariables key),
      ProtoDefEncoder.readSwitchObjectField switch.fieldsText k = valueOf switch.fields k :=
    fun k hk ↦ readSwitchObjectField_fieldsText (h.keys k hk) (h.names k hk)
  have htried := findSome?_tried protoDefVariables key
    (ProtoDefEncoder.readSwitchObjectField switch.fieldsText)
  rw [findSome?_upToOwn hread] at htried
  rw [ProtoDefEncoder.switchBranch, ProtoDefEncoder.findSwitchBranchType, objectBehind_text h.fields,
    branch, ← htried, readJsonValueField_text]
  rfl

/-! ### A key inside the branch of another one -/

/-- A container with a field `b`. -/
def containerText : Text :=
  typed (txt "container") (arrayText [objectText [(txt "name", quoted (txt "b")),
    (txt "type", quoted (txt "u8"))]])

theorem containerText_typeText : TypeText containerText := by
  have hcolon : Piece [0x3a] := .char (by decide)
  have hcomma : Piece [0x2c] := .char (by decide)
  have hname : Piece (entryText (txt "name", quoted (txt "b"))) :=
    (Piece.string (by decide)).append (hcolon.append (.string (by decide)))
  have htype : Piece (entryText (txt "type", quoted (txt "u8"))) :=
    (Piece.string (by decide)).append (hcolon.append (.string (by decide)))
  have hfield : Piece (objectText [(txt "name", quoted (txt "b")), (txt "type", quoted (txt "u8"))]) :=
    .object (hname.append ((hcomma.append htype).append .nil))
  exact .array ((Piece.string (by decide)).append ((hcomma.append (.array (hfield.append .nil))).append
    .nil))

theorem name_typeText {name : Text} (h : isBody name = true) : TypeText (quoted name) := .string h

/-- The branch of `a` has a field `b`, in front of the branch of `b`. -/
def mentioningFields : List Member :=
  [{ key := txt "a", value := containerText, after := txt " " },
    { key := txt "b", value := quoted (txt "u16"), lead := txt "\n  " },
    { key := txt "/ShieldItemID", value := quoted (txt "li64") }]

def mentioningSwitch : SwitchType where
  beforeObject := txt " "
  members := [{ key := txt "compareTo", value := quoted (txt "kind") },
    { key := txt "fields", value := spelledObject [] mentioningFields, rear := txt " " },
    { key := txt "default", value := quoted (txt "void") }]
  fields := mentioningFields
  blank := by decide
  spelled := by
    have hfields : ∀ m ∈ mentioningFields, m.Spelled := by
      intro m hm
      simp only [mentioningFields, List.mem_cons, List.not_mem_nil, or_false] at hm
      rcases hm with rfl | rfl | rfl
      · exact ⟨by decide, .type containerText_typeText, by decide⟩
      · exact ⟨by decide, .type (name_typeText (by decide)), by decide⟩
      · exact ⟨by decide, .type (name_typeText (by decide)), by decide⟩
    intro m hm
    rcases List.mem_append.mp hm with hm | hm
    · simp only [List.mem_cons, List.not_mem_nil, or_false] at hm
      rcases hm with rfl | rfl | rfl
      · exact ⟨by decide, .type (name_typeText (by decide)), by decide⟩
      · exact ⟨by decide, .type (.object (piece_inside (by decide) hfields)), by decide⟩
      · exact ⟨by decide, .type (name_typeText (by decide)), by decide⟩
    · exact hfields m hm
  hasFields := by rfl
  isType := by
    intro m hm
    simp only [mentioningFields, List.mem_cons, List.not_mem_nil, or_false] at hm
    rcases hm with rfl | rfl | rfl
    · exact containerText_typeText
    · exact name_typeText (by decide)
    · exact name_typeText (by decide)

/-- The encoder takes the type of the field `b` for the branch of `b`, and what a field is named for
a branch where the decoder takes the default. -/
theorem switchBranch_mentioning :
    ProtoDefEncoder.switchBranch [] mentioningSwitch.text (txt "b") = some (quoted (txt "u8")) ∧
      ProtoDefDecoder.switchBranch [] mentioningSwitch.text (txt "b") = some (quoted (txt "u16")) ∧
      mentioningSwitch.branch [] (txt "b") = some (quoted (txt "u16")) ∧
      ProtoDefEncoder.switchBranch [] mentioningSwitch.text (txt "name") = some (quoted (txt "b")) ∧
      ProtoDefDecoder.switchBranch [] mentioningSwitch.text (txt "name") =
        some (quoted (txt "void")) ∧
      mentioningSwitch.branch [] (txt "name") = some (quoted (txt "void")) := by
  refine ⟨?_, ?_, ?_, ?_, ?_, ?_⟩ <;> decide +kernel

/-! ### Encoder and decoder -/

/-- Encoder and decoder take the branch of the same key. -/
theorem switchBranch_eq_branch (h : switch.Unmistaken protoDefVariables key) :
    ProtoDefEncoder.switchBranch protoDefVariables switch.text key =
        switch.branch protoDefVariables key ∧
      ProtoDefDecoder.switchBranch protoDefVariables switch.text key =
        switch.branch protoDefVariables key :=
  ⟨encoder_switchBranch_text protoDefVariables key h,
    decoder_switchBranch_text protoDefVariables key⟩

/-- What a variable stands for, a branch that mentions another key, and the default. -/
theorem switchBranch_eq_branch_mentioning :
    (ProtoDefEncoder.switchBranch [(txt "ShieldItemID", txt "355")] mentioningSwitch.text (txt "355") =
          some (quoted (txt "li64")) ∧
        ProtoDefDecoder.switchBranch [(txt "ShieldItemID", txt "355")] mentioningSwitch.text
          (txt "355") = some (quoted (txt "li64"))) ∧
      (ProtoDefEncoder.switchBranch [] mentioningSwitch.text (txt "a") = some containerText ∧
        ProtoDefDecoder.switchBranch [] mentioningSwitch.text (txt "a") = some containerText) ∧
      ProtoDefEncoder.switchBranch [] mentioningSwitch.text (txt "c") = some (quoted (txt "void")) ∧
        ProtoDefDecoder.switchBranch [] mentioningSwitch.text (txt "c") =
          some (quoted (txt "void")) := by
  have hvariable : mentioningSwitch.branch [(txt "ShieldItemID", txt "355")] (txt "355") =
      some (quoted (txt "li64")) := by decide +kernel
  have hown : mentioningSwitch.branch [] (txt "a") = some containerText := by decide +kernel
  have hdefault : mentioningSwitch.branch [] (txt "c") = some (quoted (txt "void")) := by
    decide +kernel
  rw [← hvariable, ← hown, ← hdefault]
  exact ⟨switchBranch_eq_branch _ _ (by decide +kernel), switchBranch_eq_branch _ _ (by decide +kernel),
    switchBranch_eq_branch _ _ (by decide +kernel)⟩

end SwitchType

end BedrockProtocol
