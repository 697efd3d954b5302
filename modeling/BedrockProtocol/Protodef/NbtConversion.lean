import BedrockProtocol.Nbt.BedrockNbtFile
import BedrockProtocol.Protodef.ProtoDefNbt

/-!
# Tags through dynamic values

A tag comes back equal from its dynamic value exactly when it is one that the
tags can stand for: integers in the range of their tag, floats of 32 bits, list
elements of the type of the list and no end tag under a name.  Only the last
child of a name matters.
-/

namespace BedrockProtocol

namespace ProtoDefNbt

open ProtoDefValue BedrockNbt

/-! ## The dynamic value of a tag -/

/-- The payload of the node of a tag. -/
def HasPayload (value : NbtValue) (payload : ProtoDefValue) : Prop :=
  nbtValueToProtoDefValue value = .ok (tagNode (protoDefNbtTagName value.type) payload)

theorem itemsToValues_eq_ok {items : List NbtValue}
    (h : ∀ item ∈ items, ∃ payload, HasPayload item payload) :
    ∃ values, itemsToValues items = .ok values ∧ List.Forall₂ HasPayload items values := by
  induction items with
  | nil => exact ⟨[], by rw [itemsToValues], .nil⟩
  | cons item items ih =>
      obtain ⟨payload, hpayload⟩ := h item (by simp)
      obtain ⟨values, hvalues, hall⟩ := ih fun other hother ↦ h other (by simp [hother])
      refine ⟨payload :: values, ?_, .cons hpayload hall⟩
      rw [itemsToValues, hpayload, hvalues]
      rfl

theorem names_assign (name : Text) (value : ProtoDefValue) (fields : List (Text × ProtoDefValue)) :
    (assign name value fields).map Prod.fst =
      if name ∈ fields.map Prod.fst then fields.map Prod.fst
      else fields.map Prod.fst ++ [name] := by
  induction fields with
  | nil => rfl
  | cons field fields ih =>
      obtain ⟨k, v⟩ := field
      rw [assign]
      by_cases hk : k = name
      · rw [if_pos hk, if_pos (by simp [hk])]
        rfl
      · rw [if_neg hk, List.map_cons, ih, List.map_cons]
        by_cases hmem : name ∈ fields.map Prod.fst
        · rw [if_pos hmem, if_pos (List.mem_cons_of_mem _ hmem)]
        · rw [if_neg hmem, if_neg, List.cons_append]
          rw [List.mem_cons, not_or]
          exact ⟨Ne.symm hk, hmem⟩

theorem mem_names_assign {name other : Text} {value : ProtoDefValue}
    {fields : List (Text × ProtoDefValue)} :
    other ∈ (assign name value fields).map Prod.fst ↔
      other ∈ fields.map Prod.fst ∨ other = name := by
  rw [names_assign]
  split
  · rename_i hmem
    exact ⟨.inl, fun h ↦ h.elim id fun heq ↦ heq ▸ hmem⟩
  · rw [List.mem_append, List.mem_singleton]

theorem nodup_assign {name : Text} {value : ProtoDefValue} {fields : List (Text × ProtoDefValue)}
    (h : (fields.map Prod.fst).Nodup) : ((assign name value fields).map Prod.fst).Nodup := by
  rw [names_assign]
  split
  · exact h
  · rename_i hmem
    refine List.nodup_append.mpr ⟨h, by simp, ?_⟩
    rintro a ha b hb rfl
    exact hmem (List.mem_singleton.mp hb ▸ ha)

/-- The node that stands for a tag. -/
def HasNode (value : NbtValue) (node : ProtoDefValue) : Prop :=
  ∃ payload, HasPayload value payload ∧ node = tagNode (protoDefNbtTagName value.type) payload

/-- The fields of a compound: a node for the last child of every name. -/
structure IndexedBy (fields before : List (Text × ProtoDefValue))
    (children : List (Text × NbtValue)) : Prop where
  nodup : (before.map Prod.fst).Nodup → (fields.map Prod.fst).Nodup
  names : ∀ name, name ∈ fields.map Prod.fst ↔
    name ∈ before.map Prod.fst ∨ name ∈ children.map Prod.fst
  other : ∀ name ∉ children.map Prod.fst, find name fields = find name before
  last : ∀ child, IsLast Prod.fst children child →
    ∃ node, HasNode child.2 node ∧ find child.1 fields = some node

theorem childrenToFields_eq_ok {children : List (Text × NbtValue)}
    (h : ∀ child ∈ children, ∃ payload, HasPayload child.2 payload)
    (before : List (Text × ProtoDefValue)) :
    ∃ fields, childrenToFields before children = .ok fields ∧
      IndexedBy fields before children := by
  induction children generalizing before with
  | nil =>
      refine ⟨before, by rw [childrenToFields], id, by simp, fun _ _ ↦ rfl, ?_⟩
      intro child hlast
      cases hlast.mem
  | cons first children ih =>
      obtain ⟨name, first⟩ := first
      obtain ⟨payload, hpayload⟩ := h (name, first) (by simp)
      obtain ⟨node, hnode⟩ : ∃ node, node = tagNode (protoDefNbtTagName first.type) payload :=
        ⟨_, rfl⟩
      obtain ⟨fields, hfields, hindexed⟩ := ih (fun child hchild ↦ h child (by simp [hchild]))
        (assign name node before)
      refine ⟨fields, ?_, fun hnodup ↦ hindexed.nodup (nodup_assign hnodup), ?_, ?_, ?_⟩
      · rw [childrenToFields, hpayload, ok_bind, ← hnode]
        exact hfields
      · intro other
        rw [hindexed.names, mem_names_assign, List.map_cons, List.mem_cons, or_assoc]
      · intro other hother
        rw [List.map_cons, List.mem_cons, not_or] at hother
        rw [hindexed.other other hother.2, find_assign, if_neg (Ne.symm hother.1)]
      · rintro child ⟨earlier, after, heq, hafter⟩
        cases earlier with
        | nil =>
            obtain ⟨rfl, rfl⟩ := List.cons.inj heq
            have hnone : name ∉ children.map Prod.fst := by
              intro hmem
              obtain ⟨later, hlater, hname⟩ := List.mem_map.mp hmem
              exact hafter later hlater hname
            refine ⟨node, ⟨payload, hpayload, hnode⟩, ?_⟩
            rw [hindexed.other name hnone, find_assign, if_pos rfl]
        | cons skipped earlier =>
            obtain ⟨-, rfl⟩ := List.cons.inj heq
            exact hindexed.last child ⟨earlier, after, rfl, hafter⟩

/-- Every tag has a node. -/
theorem exists_payload (value : NbtValue) : ∃ payload, HasPayload value payload := by
  induction value using nbtValue_induction with
  | step value hitems hchildren =>
  obtain ⟨type, integer, bits, text, array, elementType, items, children, ints, longs⟩ := value
  cases type with
  | list =>
      obtain ⟨values, hvalues, -⟩ := itemsToValues_eq_ok hitems
      simp only [HasPayload, nbtValueToProtoDefValue, hvalues]
      exact ⟨_, rfl⟩
  | compound =>
      obtain ⟨fields, hfields, -⟩ := childrenToFields_eq_ok hchildren []
      simp only [HasPayload, nbtValueToProtoDefValue, hfields]
      exact ⟨_, rfl⟩
  | _ =>
      simp only [HasPayload, nbtValueToProtoDefValue]
      exact ⟨_, rfl⟩

/-! ## Values that come back -/

/-- What a tag asks of its own fields. -/
def OwnFits (value : NbtValue) : Prop :=
  match value.type with
  | .byte => InSigned 8 value.integerValue.toInt
  | .short => InSigned 16 value.integerValue.toInt
  | .int => InSigned 32 value.integerValue.toInt
  | .float => doubleEq (widen (narrow value.floatingValue)) value.floatingValue = true
  | .double => isNaN value.floatingValue = false
  | .list => ∀ item ∈ value.listValue, item.type = value.listElementType
  | .compound => ∀ child, IsLast Prod.fst value.compoundValue child → child.2.type ≠ .endTag
  | _ => True

/-- A value that the tags can stand for, at every level. -/
inductive Convertible : NbtValue → Prop
  | intro {value : NbtValue} :
      OwnFits value →
      (value.type = .list → ∀ item ∈ value.listValue, Convertible item) →
      (value.type = .compound → ∀ child, IsLast Prod.fst value.compoundValue child →
        Convertible child.2) →
      Convertible value

section RoundTrip

variable (undefinedCast : UInt64 → UInt64)

/-- The dynamic value of the tag is converted to an equal tag. -/
def RoundTrips (value : NbtValue) : Prop :=
  ∃ node back, nbtValueToProtoDefValue value = .ok node ∧
    protoDefValueToNbtValue undefinedCast node = .ok back ∧ BedrockNbt.equal back value = true

variable {undefinedCast}

theorem roundTrips_iff_back {value : NbtValue} {payload : ProtoDefValue}
    (h : HasPayload value payload) :
    RoundTrips undefinedCast value ↔
      ∃ back, payloadToNbtValue undefinedCast (protoDefValueToNbtValue undefinedCast) value.type
          payload = .ok back ∧ BedrockNbt.equal back value = true := by
  constructor
  · rintro ⟨node, back, hnode, hback, hequal⟩
    obtain rfl := Except.ok.inj (hnode.symm.trans h)
    rw [protoDefValueToNbtValue_tagNode] at hback
    exact ⟨back, hback, hequal⟩
  · rintro ⟨back, hback, hequal⟩
    rw [← protoDefValueToNbtValue_tagNode] at hback
    exact ⟨_, back, h, hback, hequal⟩

/-- The elements of a list come back if they have its type. -/
theorem items_return_iff {items : List NbtValue} {values : List ProtoDefValue}
    (hvalues : List.Forall₂ HasPayload items values) (elementType : NbtTagType) :
    (∃ out, values.mapM (fun item ↦ protoDefValueToNbtValue undefinedCast
          (tagNode (protoDefNbtTagName elementType) item)) = .ok out ∧
        List.Forall₂ (fun l r ↦ BedrockNbt.equal l r = true) out items) ↔
      ∀ item ∈ items, item.type = elementType ∧ RoundTrips undefinedCast item := by
  induction hvalues with
  | nil => exact iff_of_true ⟨[], rfl, .nil⟩ (by simp)
  | @cons item payload items values hpayload hvalues ih =>
      rw [List.forall_mem_cons, ← ih]
      constructor
      · rintro ⟨out, hout, hequal⟩
        rw [List.mapM_cons] at hout
        obtain ⟨back, hback, hout⟩ := bind_eq_ok.mp hout
        obtain ⟨rest, hrest, hout⟩ := bind_eq_ok.mp hout
        obtain rfl := Except.ok.inj hout
        obtain ⟨hfirst, hothers⟩ := List.forall₂_cons.mp hequal
        rw [protoDefValueToNbtValue_tagNode] at hback
        have htype : item.type = elementType :=
          (type_eq_of_equal hfirst).symm.trans (type_payloadToNbtValue hback)
        subst htype
        exact ⟨⟨rfl, (roundTrips_iff_back hpayload).mpr ⟨back, hback, hfirst⟩⟩, rest, hrest, hothers⟩
      · rintro ⟨⟨rfl, hitem⟩, rest, hrest, hothers⟩
        obtain ⟨back, hback, hfirst⟩ := (roundTrips_iff_back hpayload).mp hitem
        rw [← protoDefValueToNbtValue_tagNode] at hback
        refine ⟨back :: rest, ?_, .cons hfirst hothers⟩
        rw [List.mapM_cons, hback, hrest]
        rfl

/-- One child of a compound. -/
theorem namedChild_eq_ok {fields : List (Text × ProtoDefValue)} {children : List (Text × NbtValue)}
    (hfields : IndexedBy fields [] children) {child : Text × NbtValue}
    (hlast : IsLast Prod.fst children child) {entry : Text × NbtValue} :
    namedChild (protoDefValueToNbtValue undefinedCast) fields child.1 = .ok entry ↔
      entry.1 = child.1 ∧ entry.2.type ≠ .endTag ∧
        ∃ node, nbtValueToProtoDefValue child.2 = .ok node ∧
          protoDefValueToNbtValue undefinedCast node = .ok entry.2 := by
  obtain ⟨node, ⟨payload, hpayload, rfl⟩, hfind⟩ := hfields.last child hlast
  rw [namedChild, hfind, Option.getD_some]
  constructor
  · intro h
    obtain ⟨converted, hconverted, h⟩ := bind_eq_ok.mp h
    split at h
    · cases h
    · rename_i htype
      obtain rfl := Except.ok.inj h
      exact ⟨rfl, htype, _, hpayload, hconverted⟩
  · obtain ⟨name, converted⟩ := entry
    rintro ⟨rfl, htype, node, hnode, hconverted⟩
    obtain rfl := Except.ok.inj (hnode.symm.trans hpayload)
    rw [hconverted, ok_bind, if_neg htype]
    rfl

/-- The children of a compound come back if no last one is an end tag. -/
theorem children_return_iff {fields : List (Text × ProtoDefValue)} {value : NbtValue}
    (htype : value.type = .compound) (hfields : IndexedBy fields [] value.compoundValue) :
    (∃ out, (sortedNames fields).mapM
          (namedChild (protoDefValueToNbtValue undefinedCast) fields) = .ok out ∧
        BedrockNbt.equal { type := .compound, compoundValue := out } value = true) ↔
      ∀ child, IsLast Prod.fst value.compoundValue child →
        child.2.type ≠ .endTag ∧ RoundTrips undefinedCast child.2 := by
  have hnames (name : Text) :
      name ∈ sortedNames fields ↔ name ∈ value.compoundValue.map Prod.fst := by
    rw [sortedNames, List.mem_mergeSort, hfields.names]
    simp
  have hnodup : (sortedNames fields).Nodup :=
    (List.mergeSort_perm _ _).nodup_iff.mpr (hfields.nodup List.nodup_nil)
  constructor
  · rintro ⟨out, hout, hequal⟩ child hlast
    have hall : List.Forall₂ (fun (entry : Text × NbtValue) name ↦ entry.1 = name) out
        (sortedNames fields) := by
      refine ((mapM_eq_ok_iff.mp hout).imp fun name entry hentry ↦ ?_).flip
      obtain ⟨converted, -, h⟩ := bind_eq_ok.mp hentry
      split at h
      · cases h
      · exact Except.ok.inj h ▸ rfl
    have hnamesOut : out.map Prod.fst = sortedNames fields := by
      have hmap := List.forall₂_map_left_iff.mpr hall
      rwa [List.forall₂_eq_eq_eq] at hmap
    obtain ⟨-, hpairs⟩ := (equal_compound_iff rfl htype).mp hequal
    have hmem := (hnames child.1).mpr (List.mem_map.mpr ⟨child, hlast.mem, rfl⟩)
    obtain ⟨entry, hentry, hturn⟩ := exists_right_of_forall₂ (mapM_eq_ok_iff.mp hout) hmem
    obtain ⟨hname, hend, node, hnode, hback⟩ := (namedChild_eq_ok hfields hlast).mp hturn
    have hchild := hpairs entry child (isLast_of_nodup (hnamesOut ▸ hnodup) hentry) hlast hname
    rw [type_eq_of_equal hchild] at hend
    exact ⟨hend, node, entry.2, hnode, hback, hchild⟩
  · intro hall
    have hturns : ∀ name ∈ sortedNames fields, ∃ entry,
        namedChild (protoDefValueToNbtValue undefinedCast) fields name = .ok entry ∧
          ∃ child, IsLast Prod.fst value.compoundValue child ∧ child.1 = name ∧
            entry.1 = name ∧ BedrockNbt.equal entry.2 child.2 = true := by
      intro name hname
      obtain ⟨some, hsome, hsame⟩ := List.mem_map.mp ((hnames name).mp hname)
      obtain ⟨child, rfl, hlast⟩ := @exists_isLast _ _ Prod.fst _ _ ⟨some, hsome, hsame⟩
      obtain ⟨hend, node, back, hnode, hback, hequal⟩ := hall child hlast
      refine ⟨(child.1, back), ?_, child, hlast, rfl, rfl, hequal⟩
      rw [namedChild_eq_ok hfields hlast]
      exact ⟨rfl, by rwa [type_eq_of_equal hequal], node, hnode, hback⟩
    obtain ⟨out, hout, hrel⟩ := exists_mapM_eq_ok hturns
    have hnamesOut : out.map Prod.fst = sortedNames fields := by
      have hmap := List.forall₂_map_left_iff.mpr
        (hrel.imp fun name entry hentry ↦ hentry.elim fun _ h ↦ h.2.2.1).flip
      rwa [List.forall₂_eq_eq_eq] at hmap
    refine ⟨out, hout, (equal_compound_iff rfl htype).mpr ⟨?_, ?_⟩⟩
    · intro name
      change name ∈ out.map Prod.fst ↔ _
      rw [hnamesOut, hnames]
    · intro l r hl hr hname
      obtain ⟨_, -, child, hlast, rfl, hsame, hequal⟩ := exists_left_of_forall₂ hrel hl.mem
      rwa [hr.unique hlast (hname.symm.trans hsame)]

/-- An integer comes back if it is in the range of its tag. -/
theorem integer_returns_iff {bits : ℕ} {what : String} {type : NbtTagType} {value : NbtValue}
    (htype : value.type = type) (hinteger : type ∈ [NbtTagType.byte, .short, .int]) :
    (∃ back, (fun z ↦ { type, integerValue := .ofInt z : NbtValue }) <$>
          checkedInteger undefinedCast bits (.int value.integerValue.toInt) what = .ok back ∧
        BedrockNbt.equal back value = true) ↔ InSigned bits value.integerValue.toInt := by
  have hequal {back : NbtValue} (hback : back.type = type) :
      BedrockNbt.equal back value = true ↔ back.integerValue = value.integerValue := by
    simp only [List.mem_cons, List.not_mem_nil, or_false] at hinteger
    rw [BedrockNbt.equal, if_neg (by rw [hback, htype]; exact fun h ↦ h rfl), hback]
    rcases hinteger with rfl | rfl | rfl
    · exact decide_eq_true_iff
    · exact decide_eq_true_iff
    · exact decide_eq_true_iff
  have hchecked : checkedInteger undefinedCast bits (.int value.integerValue.toInt) what =
      if InSigned bits value.integerValue.toInt then .ok value.integerValue.toInt
      else .error (what ++ " is out of range") := rfl
  rw [hchecked]
  split
  · rename_i hrange
    refine iff_of_true ⟨_, rfl, ?_⟩ hrange
    rw [hequal rfl]
    exact Int64.ofInt_toInt _
  · rename_i hrange
    refine iff_of_false ?_ hrange
    rintro ⟨back, hback, -⟩
    cases hback

theorem byteArray_returns (items : List UInt8) :
    byteArrayValue undefinedCast (.array (items.map fun b ↦ .int (toSigned 8 b.toNat))) =
      .ok items := by
  rw [byteArrayValue, List.mapM_map]
  refine (mapM_eq_ok (g := id) fun b _ ↦ ?_).trans (congrArg Except.ok (List.map_id items))
  have hrange : InSigned 8 (toSigned 8 b.toNat) := toSigned_inSigned (by decide) b.toNat_lt
  have hchecked : checkedInteger undefinedCast 8 (.int (toSigned 8 b.toNat))
      "NBT byteArray item" = .ok (toSigned 8 b.toNat) := if_pos hrange
  have hback : UInt8.ofNat (toUnsigned 8 (toSigned 8 b.toNat)) = b := by
    rw [toUnsigned_toSigned b.toNat_lt, UInt8.ofNat_toNat]
  rw [Function.comp_apply, hchecked]
  exact congrArg Except.ok hback

theorem intArray_returns (items : List Int32) :
    (items.map fun item ↦ ProtoDefValue.int item.toInt).mapM (fun item ↦
      Int32.ofInt <$> checkedInteger undefinedCast 32 item "NBT intArray item") = .ok items := by
  rw [List.mapM_map]
  refine (mapM_eq_ok (g := id) fun item _ ↦ ?_).trans (congrArg Except.ok (List.map_id items))
  have hrange : InSigned 32 item.toInt := ⟨item.le_toInt, item.toInt_lt⟩
  have hchecked : checkedInteger undefinedCast 32 (.int item.toInt) "NBT intArray item" =
      .ok item.toInt := if_pos hrange
  rw [Function.comp_apply, hchecked]
  exact congrArg Except.ok (Int32.ofInt_toInt item)

theorem longArray_returns (items : List Int64) :
    (items.map fun item ↦ ProtoDefValue.int item.toInt).mapM (fun item ↦
      Int64.ofInt <$> longValue undefinedCast item "NBT longArray item") = .ok items := by
  rw [List.mapM_map]
  refine (mapM_eq_ok (g := id) fun item _ ↦ ?_).trans (congrArg Except.ok (List.map_id items))
  exact congrArg Except.ok (Int64.ofInt_toInt item)

theorem doubleEq_self (bits : UInt64) : doubleEq bits bits = !isNaN bits := by
  rw [doubleEq, decide_eq_true rfl, Bool.and_true, Bool.and_self]

theorem convertible_iff {value : NbtValue} : Convertible value ↔ OwnFits value ∧
    (value.type = .list → ∀ item ∈ value.listValue, Convertible item) ∧
    (value.type = .compound → ∀ child, IsLast Prod.fst value.compoundValue child →
      Convertible child.2) := by
  constructor
  · rintro ⟨hown, hitems, hchildren⟩
    exact ⟨hown, hitems, hchildren⟩
  · rintro ⟨hown, hitems, hchildren⟩
    exact ⟨hown, hitems, hchildren⟩

/-- A value without elements and children. -/
theorem convertible_leaf {value : NbtValue} (hlist : value.type ≠ .list)
    (hcompound : value.type ≠ .compound) : Convertible value ↔ OwnFits value := by
  rw [convertible_iff]
  exact ⟨And.left, fun hown ↦ ⟨hown, fun h ↦ (hlist h).elim, fun h ↦ (hcompound h).elim⟩⟩

end RoundTrip

/-- The payload of a tag without elements and children. -/
def leafPayload (value : NbtValue) : ProtoDefValue :=
  match value.type with
  | .float => .double value.floatingValue
  | .double => .double value.floatingValue
  | .byteArray => .array (value.byteArrayValue.map fun b ↦ .int (toSigned 8 b.toNat))
  | .string => .string value.stringValue
  | .intArray => .array (value.intArrayValue.map fun item ↦ .int item.toInt)
  | .longArray => .array (value.longArrayValue.map fun item ↦ .int item.toInt)
  | .endTag => .null
  | _ => .int value.integerValue.toInt

theorem hasPayload_leaf {value : NbtValue} (hlist : value.type ≠ .list)
    (hcompound : value.type ≠ .compound) : HasPayload value (leafPayload value) := by
  obtain ⟨type, integer, bits, text, array, elementType, items, children, ints, longs⟩ := value
  cases type with
  | list => exact (hlist rfl).elim
  | compound => exact (hcompound rfl).elim
  | _ => rw [HasPayload, nbtValueToProtoDefValue]; rfl

/-- The leaves. -/
theorem roundTrips_leaf_iff {undefinedCast : UInt64 → UInt64} {value : NbtValue}
    (hlist : value.type ≠ .list) (hcompound : value.type ≠ .compound) :
    RoundTrips undefinedCast value ↔ OwnFits value := by
  rw [roundTrips_iff_back (hasPayload_leaf hlist hcompound), leafPayload, OwnFits]
  cases htype : value.type with
  | list => exact (hlist htype).elim
  | compound => exact (hcompound htype).elim
  | byte => exact integer_returns_iff htype (by decide)
  | short => exact integer_returns_iff htype (by decide)
  | int => exact integer_returns_iff htype (by decide)
  | endTag =>
      refine iff_of_true ⟨_, rfl, ?_⟩ trivial
      rw [BedrockNbt.equal, if_neg (fun h ↦ h htype.symm)]
  | long =>
      refine iff_of_true ⟨_, rfl, ?_⟩ trivial
      rw [BedrockNbt.equal, if_neg (fun h ↦ h htype.symm)]
      exact decide_eq_true (Int64.ofInt_toInt _)
  | float =>
      constructor
      · rintro ⟨back, hback, hequal⟩
        obtain rfl := Except.ok.inj hback
        rw [BedrockNbt.equal, if_neg (fun h ↦ h htype.symm)] at hequal
        exact hequal
      · intro hfloat
        refine ⟨_, rfl, ?_⟩
        rw [BedrockNbt.equal, if_neg (fun h ↦ h htype.symm)]
        exact hfloat
  | double =>
      have hself := doubleEq_self value.floatingValue
      constructor
      · rintro ⟨back, hback, hequal⟩
        obtain rfl := Except.ok.inj hback
        rw [BedrockNbt.equal, if_neg (fun h ↦ h htype.symm)] at hequal
        exact Bool.not_eq_true' _ ▸ (hself.symm.trans hequal)
      · intro hnan
        refine ⟨_, rfl, ?_⟩
        rw [BedrockNbt.equal, if_neg (fun h ↦ h htype.symm)]
        dsimp only
        rw [hself, hnan]
        rfl
  | byteArray =>
      refine iff_of_true ⟨{ type := .byteArray, byteArrayValue := value.byteArrayValue }, ?_, ?_⟩
        trivial
      · rw [payloadToNbtValue]
        dsimp only
        rw [byteArray_returns]
        rfl
      · rw [BedrockNbt.equal, if_neg (fun h ↦ h htype.symm)]
        exact decide_eq_true rfl
  | string =>
      refine iff_of_true ⟨_, rfl, ?_⟩ trivial
      rw [BedrockNbt.equal, if_neg (fun h ↦ h htype.symm)]
      exact decide_eq_true rfl
  | intArray =>
      refine iff_of_true ⟨{ type := .intArray, intArrayValue := value.intArrayValue }, ?_, ?_⟩
        trivial
      · rw [payloadToNbtValue]
        rw [intArray_returns]
        rfl
      · rw [BedrockNbt.equal, if_neg (fun h ↦ h htype.symm)]
        exact decide_eq_true rfl
  | longArray =>
      refine iff_of_true ⟨{ type := .longArray, longArrayValue := value.longArrayValue }, ?_, ?_⟩
        trivial
      · rw [payloadToNbtValue]
        rw [longArray_returns]
        rfl
      · rw [BedrockNbt.equal, if_neg (fun h ↦ h htype.symm)]
        exact decide_eq_true rfl

/-- The node of a list. -/
theorem hasPayload_list {value : NbtValue} (htype : value.type = .list) :
    ∃ values, List.Forall₂ HasPayload value.listValue values ∧
      HasPayload value (.object [(txt "type", .string (protoDefNbtTagName value.listElementType)),
        (txt "value", .array values)]) := by
  obtain ⟨values, hvalues, hall⟩ :=
    @itemsToValues_eq_ok value.listValue fun item _ ↦ exists_payload item
  refine ⟨values, hall, ?_⟩
  obtain ⟨type, integer, bits, text, array, elementType, items, children, ints, longs⟩ := value
  subst htype
  rw [HasPayload, nbtValueToProtoDefValue]
  dsimp only at hvalues ⊢
  rw [hvalues]
  rfl

/-- The node of a compound. -/
theorem hasPayload_compound {value : NbtValue} (htype : value.type = .compound) :
    ∃ fields, IndexedBy fields [] value.compoundValue ∧ HasPayload value (.object fields) := by
  obtain ⟨fields, hfields, hindexed⟩ :=
    @childrenToFields_eq_ok value.compoundValue (fun child _ ↦ exists_payload child.2)
      []
  refine ⟨fields, hindexed, ?_⟩
  obtain ⟨type, integer, bits, text, array, elementType, items, children, ints, longs⟩ := value
  subst htype
  rw [HasPayload, nbtValueToProtoDefValue]
  dsimp only at hfields ⊢
  rw [hfields]
  rfl

theorem payloadToNbtValue_list {undefinedCast : UInt64 → UInt64}
    (convert : ProtoDefValue → Except String NbtValue) (elementType : NbtTagType)
    (values : List ProtoDefValue) :
    payloadToNbtValue undefinedCast convert .list (.object
        [(txt "type", .string (protoDefNbtTagName elementType)), (txt "value", .array values)]) =
      (values.mapM fun item ↦ convert (tagNode (protoDefNbtTagName elementType) item)) >>= fun out ↦
        .ok { type := .list, listElementType := elementType, listValue := out } := by
  have helement : listElementType (.object
      [(txt "type", .string (protoDefNbtTagName elementType)), (txt "value", .array values)]) =
        .ok elementType := protoDefNbtTagType_tagName elementType
  rw [payloadToNbtValue, helement]
  rfl

/-- A tag comes back equal exactly when it is one that the tags can stand for. -/
theorem nbt_roundTrips_iff (undefinedCast : UInt64 → UInt64) (value : NbtValue) :
    RoundTrips undefinedCast value ↔ Convertible value := by
  induction value using nbtValue_induction with
  | step value hitems hchildren =>
  by_cases hlist : value.type = .list
  · obtain ⟨values, hall, hpayload⟩ := hasPayload_list hlist
    have hreturn := @items_return_iff undefinedCast _ _ hall value.listElementType
    rw [roundTrips_iff_back hpayload, hlist, payloadToNbtValue_list, convertible_iff, OwnFits, hlist]
    have hsplit : (∀ item ∈ value.listValue, item.type = value.listElementType ∧
        RoundTrips undefinedCast item) ↔
        (∀ item ∈ value.listValue, item.type = value.listElementType) ∧
          ∀ item ∈ value.listValue, Convertible item := by
      constructor
      · intro h
        exact ⟨fun item hmem ↦ (h item hmem).1,
          fun item hmem ↦ (hitems item hmem).mp (h item hmem).2⟩
      · rintro ⟨htypes, hall⟩ item hmem
        exact ⟨htypes item hmem, (hitems item hmem).mpr (hall item hmem)⟩
    constructor
    · rintro ⟨back, hback, hequal⟩
      obtain ⟨out, hout, hback⟩ := bind_eq_ok.mp hback
      obtain rfl := Except.ok.inj hback
      obtain ⟨htypes, hconvertible⟩ := hsplit.mp
        (hreturn.mp ⟨out, hout, ((equal_list_iff rfl hlist).mp hequal).2⟩)
      exact ⟨htypes, fun _ ↦ hconvertible, nofun⟩
    · rintro ⟨htypes, hconvertible, -⟩
      obtain ⟨out, hout, hequal⟩ := hreturn.mpr (hsplit.mpr ⟨htypes, hconvertible rfl⟩)
      refine ⟨{ type := .list, listElementType := value.listElementType, listValue := out }, ?_,
        (equal_list_iff rfl hlist).mpr ⟨rfl, hequal⟩⟩
      rw [hout]
      rfl
  by_cases hcompound : value.type = .compound
  · obtain ⟨fields, hindexed, hpayload⟩ := hasPayload_compound hcompound
    have hreturn := @children_return_iff undefinedCast _ _ hcompound hindexed
    rw [roundTrips_iff_back hpayload, hcompound, convertible_iff, OwnFits, hcompound]
    constructor
    · rintro ⟨back, hback, hequal⟩
      obtain ⟨out, hout, hback⟩ := bind_eq_ok.mp hback
      obtain rfl := Except.ok.inj hback
      have hall := hreturn.mp ⟨out, hout, hequal⟩
      exact ⟨fun child hlast ↦ (hall child hlast).1, nofun,
        fun _ child hlast ↦ (hchildren child hlast.mem).mp (hall child hlast).2⟩
    · rintro ⟨htypes, -, hconvertible⟩
      obtain ⟨out, hout, hequal⟩ := hreturn.mpr fun child hlast ↦
        ⟨htypes child hlast, (hchildren child hlast.mem).mpr (hconvertible rfl child hlast)⟩
      refine ⟨_, ?_, hequal⟩
      rw [payloadToNbtValue, hout]
      rfl
  · rw [roundTrips_leaf_iff hlist hcompound, convertible_leaf hlist hcompound]

/-- A byte tag with an integer of more bits is refused on the way back. -/
theorem byte_out_of_range : ¬RoundTrips (fun _ ↦ 0) { type := .byte, integerValue := 300 } := by
  rintro ⟨node, back, hnode, hback, -⟩
  have hcomputed : nbtValueToProtoDefValue { type := .byte, integerValue := 300 } =
      .ok (tagNode (txt "byte") (.int 300)) := by
    rw [nbtValueToProtoDefValue]
    rfl
  obtain rfl := Except.ok.inj (hcomputed.symm.trans hnode)
  have hthrow : protoDefValueToNbtValue (fun _ ↦ 0) (tagNode (txt "byte") (.int 300)) =
      .error "NBT byte value is out of range" := rfl
  cases hthrow.symm.trans hback

end ProtoDefNbt

end BedrockProtocol
