import BedrockProtocol.Lib.LastWins
import BedrockProtocol.Nbt.BedrockNbt

/-!
# Equality of tags

`BedrockNbt::equal`: two compounds are compared like two tables in which a
later child replaces an earlier one of its name.
-/

namespace BedrockProtocol

namespace BedrockNbt

/-- The last child of every name. -/
def indexCompound (value : NbtValue) : AList fun _ : List UInt8 ↦ List UInt8 × NbtValue :=
  insertAll Prod.fst ∅ value.compoundValue

theorem mem_compoundValue {value : NbtValue}
    {entry : Sigma fun _ : List UInt8 ↦ List UInt8 × NbtValue}
    (h : entry ∈ (indexCompound value).entries) : entry.2 ∈ value.compoundValue := by
  rcases mem_entries_insertAll h with hnil | ⟨child, hchild, rfl⟩
  · cases hnil
  · exact hchild

theorem sizeOf_listValue {value item : NbtValue} (h : item ∈ value.listValue) :
    sizeOf item < sizeOf value := by
  have hlt := List.sizeOf_lt_of_mem h
  cases value
  simp only [NbtValue.mk.sizeOf_spec] at hlt ⊢
  omega

theorem sizeOf_compoundValue {value : NbtValue} {child : List UInt8 × NbtValue}
    (h : child ∈ value.compoundValue) : sizeOf child.2 < sizeOf value := by
  have hlt := List.sizeOf_lt_of_mem h
  obtain ⟨name, child⟩ := child
  cases value
  simp only [NbtValue.mk.sizeOf_spec, Prod.mk.sizeOf_spec] at hlt ⊢
  omega

/-- Induction over the elements of lists and the children of compounds. -/
theorem nbtValue_induction {motive : NbtValue → Prop}
    (step : ∀ value, (∀ item ∈ value.listValue, motive item) →
      (∀ child ∈ value.compoundValue, motive child.2) → motive value) (value : NbtValue) :
    motive value :=
  step value (fun item _ ↦ nbtValue_induction step item)
    fun child _ ↦ nbtValue_induction step child.2
termination_by sizeOf value
decreasing_by
  · exact sizeOf_listValue ‹_›
  · exact sizeOf_compoundValue ‹_›

def equal (left right : NbtValue) : Bool :=
  if left.type ≠ right.type then false
  else
    match left.type with
    | .endTag => true
    | .byte => left.integerValue = right.integerValue
    | .short => left.integerValue = right.integerValue
    | .int => left.integerValue = right.integerValue
    | .long => left.integerValue = right.integerValue
    | .float => doubleEq left.floatingValue right.floatingValue
    | .double => doubleEq left.floatingValue right.floatingValue
    | .byteArray => left.byteArrayValue = right.byteArrayValue
    | .string => left.stringValue = right.stringValue
    | .list =>
        left.listElementType = right.listElementType ∧
          left.listValue.length = right.listValue.length ∧
          (left.listValue.attach.zip right.listValue).all fun pair ↦ equal pair.1.1 pair.2
    | .compound =>
        (indexCompound left).keys.length = (indexCompound right).keys.length ∧
          (indexCompound left).entries.attach.all fun entry ↦
            match (indexCompound right).lookup entry.1.1 with
            | none => false
            | some other => equal entry.1.2.2 other.2
    | .intArray => left.intArrayValue = right.intArrayValue
    | .longArray => left.longArrayValue = right.longArrayValue
termination_by sizeOf left
decreasing_by
  · exact sizeOf_listValue pair.1.2
  · exact sizeOf_compoundValue (mem_compoundValue entry.2)

/-! ## The table of a compound -/

theorem lookup_indexCompound {value : NbtValue} {child : List UInt8 × NbtValue} :
    (indexCompound value).lookup child.1 = some child ↔
      IsLast Prod.fst value.compoundValue child := by
  constructor
  · intro h
    have hmem := mem_compoundValue (AList.mem_lookup_iff.mp h)
    obtain ⟨last, hname, hlast⟩ := @exists_isLast _ _ Prod.fst _ _ ⟨child, hmem, rfl⟩
    have hlookup := lookup_insertAll (m := ∅) hlast
    rw [hname] at hlookup
    obtain rfl := Option.some.inj (h.symm.trans hlookup)
    exact hlast
  · exact fun h ↦ lookup_insertAll h

theorem mem_keys_indexCompound {value : NbtValue} {name : List UInt8} :
    name ∈ (indexCompound value).keys ↔ name ∈ value.compoundValue.map Prod.fst := by
  rw [← AList.mem_keys, ← AList.lookup_isSome]
  constructor
  · intro h
    obtain ⟨child, hchild⟩ := Option.isSome_iff_exists.mp h
    have hentry := AList.mem_lookup_iff.mp hchild
    rcases mem_entries_insertAll hentry with hnil | ⟨first, hfirst, heq⟩
    · cases hnil
    · exact List.mem_map.mpr ⟨first, hfirst, (congrArg Sigma.fst heq).symm⟩
  · intro h
    obtain ⟨child, hchild, rfl⟩ := List.mem_map.mp h
    exact isSome_lookup_insertAll hchild

/-! ## The cases of the comparison -/

theorem type_eq_of_equal {left right : NbtValue} (h : equal left right = true) :
    left.type = right.type := by
  by_contra hne
  rw [equal, if_pos hne] at h
  cases h

section Cases

variable {left right : NbtValue}

theorem all_attach_zip {α β : Type} (p : α → β → Bool) (as : List α) (bs : List β) :
    (as.attach.zip bs).all (fun pair ↦ p pair.1.1 pair.2) =
      (as.zip bs).all fun pair ↦ p pair.1 pair.2 := by
  have hzip := @List.zip_map_left _ _ β Subtype.val as.attach bs
  rw [List.attach_map_subtype_val] at hzip
  rw [hzip, List.all_map]
  rfl

theorem equal_list_iff (hleft : left.type = .list) (hright : right.type = .list) :
    equal left right = true ↔ left.listElementType = right.listElementType ∧
      List.Forall₂ (fun l r ↦ equal l r = true) left.listValue right.listValue := by
  rw [equal, if_neg (by rw [hleft, hright]; exact fun h ↦ h rfl), hleft]
  dsimp only
  rw [decide_eq_true_iff, all_attach_zip equal, List.forall₂_iff_zip, List.all_eq_true]
  refine and_congr_right fun _ ↦ and_congr_right fun _ ↦ ?_
  exact ⟨fun h l r hmem ↦ h (l, r) hmem, fun h pair hmem ↦ h hmem⟩

theorem equal_compound_iff (hleft : left.type = .compound) (hright : right.type = .compound) :
    equal left right = true ↔
      (∀ name, name ∈ left.compoundValue.map Prod.fst ↔ name ∈ right.compoundValue.map Prod.fst) ∧
      ∀ l r, IsLast Prod.fst left.compoundValue l → IsLast Prod.fst right.compoundValue r →
        l.1 = r.1 → equal l.2 r.2 = true := by
  rw [equal, if_neg (by rw [hleft, hright]; exact fun h ↦ h rfl), hleft]
  dsimp only
  rw [decide_eq_true_iff, List.all_eq_true]
  have hkeys : (indexCompound left).keys.length = (indexCompound right).keys.length ∧
      (∀ name ∈ left.compoundValue.map Prod.fst, name ∈ right.compoundValue.map Prod.fst) ↔
      ∀ name, name ∈ left.compoundValue.map Prod.fst ↔ name ∈ right.compoundValue.map Prod.fst := by
    have hnodup := (indexCompound left).nodupKeys
    have hnodup' := (indexCompound right).nodupKeys
    constructor
    · rintro ⟨hlength, hsub⟩ name
      have hsubperm : (indexCompound left).keys.Subperm (indexCompound right).keys :=
        List.subperm_of_subset (AList.keys_nodup (indexCompound left)) fun name hname ↦
          mem_keys_indexCompound.mpr (hsub name (mem_keys_indexCompound.mp hname))
      have hperm := hsubperm.perm_of_length_le hlength.ge
      rw [← mem_keys_indexCompound, ← mem_keys_indexCompound]
      exact hperm.mem_iff
    · intro hsame
      refine ⟨List.Perm.length_eq ?_, fun name ↦ (hsame name).mp⟩
      rw [List.perm_ext_iff_of_nodup (AList.keys_nodup _) (AList.keys_nodup _)]
      intro name
      rw [mem_keys_indexCompound, mem_keys_indexCompound]
      exact hsame name
  constructor
  · rintro ⟨hlength, hall⟩
    have hfound {l : List UInt8 × NbtValue} (hl : IsLast Prod.fst left.compoundValue l) :
        ∃ other, (indexCompound right).lookup l.1 = some other ∧ equal l.2 other.2 = true := by
      have hentry := AList.mem_lookup_iff.mp (lookup_indexCompound.mpr hl)
      have hturn := hall ⟨⟨l.1, l⟩, hentry⟩ (List.mem_attach _ _)
      dsimp only at hturn
      split at hturn
      · cases hturn
      · rename_i other hother
        exact ⟨other, hother, hturn⟩
    refine ⟨hkeys.mp ⟨hlength, ?_⟩, ?_⟩
    · intro name hname
      obtain ⟨child, hchild, rfl⟩ := List.mem_map.mp hname
      obtain ⟨l, hsame, hl⟩ := @exists_isLast _ _ Prod.fst _ _ ⟨child, hchild, rfl⟩
      obtain ⟨other, hother, -⟩ := hfound hl
      rw [← hsame, ← mem_keys_indexCompound, ← AList.mem_keys, ← AList.lookup_isSome, hother]
      rfl
    · intro l r hl hr hname
      obtain ⟨other, hother, hequal⟩ := hfound hl
      rw [hname, lookup_indexCompound.mpr hr] at hother
      rwa [Option.some.inj hother]
  · rintro ⟨hnames, hequal⟩
    refine ⟨(hkeys.mpr hnames).1, ?_⟩
    rintro ⟨entry, hentry⟩ -
    rcases mem_entries_insertAll hentry with hnil | ⟨l, hmem, rfl⟩
    · cases hnil
    have hl := lookup_indexCompound.mp (AList.mem_lookup_iff.mpr hentry)
    have hname := (hnames l.1).mp (List.mem_map.mpr ⟨l, hmem, rfl⟩)
    obtain ⟨child, hchild, hsame⟩ := List.mem_map.mp hname
    obtain ⟨r, hr, hlast⟩ := @exists_isLast _ _ Prod.fst _ _ ⟨child, hchild, hsame⟩
    have hlookup := lookup_indexCompound.mpr hlast
    rw [hr] at hlookup
    dsimp only
    rw [hlookup]
    exact hequal l r hl hlast hr.symm

end Cases

end BedrockNbt

end BedrockProtocol
